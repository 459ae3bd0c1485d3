import Mathlib.Algebra.BigOperators.Group.Finset.Basic
import Mathlib.Data.Fintype.BigOperators

/-!
# Sums over a family with one updated member

The threads of a component form a finite family, and a step changes one of
them.  A total over the family then changes by that one member.
-/

namespace SAOmega.Support

variable {ι α M : Type*} [Fintype ι] [DecidableEq ι] [AddCommMonoid M]

theorem sum_update_add (f : α → M) (family : ι → α) (i : ι) (a : α) :
    (∑ j, f (Function.update family i a j)) + f (family i) =
      (∑ j, f (family j)) + f a := by
  have hrest :
      ∑ j ∈ Finset.univ.erase i, f (Function.update family i a j) =
        ∑ j ∈ Finset.univ.erase i, f (family j) := by
    apply Finset.sum_congr rfl
    intro j hj
    rw [Function.update_of_ne (Finset.ne_of_mem_erase hj)]
  have hnew :=
    Finset.sum_erase_add Finset.univ
      (fun j => f (Function.update family i a j)) (Finset.mem_univ i)
  have hold :=
    Finset.sum_erase_add Finset.univ (fun j => f (family j))
      (Finset.mem_univ i)
  simp only [Function.update_self] at hnew
  rw [← hnew, ← hold, hrest]
  exact add_right_comm _ _ _

end SAOmega.Support
