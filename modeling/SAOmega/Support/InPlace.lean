import Mathlib.Data.List.Perm.Basic
import Mathlib.Logic.Function.Basic

/-!
# Rewriting in place

A loop which rewrites one cell of a store in each round, and may come to the
same cell again and again.  When rewriting a cell twice is rewriting it once, the
loop is as good as one simultaneous rewriting of all the cells it comes to.
-/

namespace SAOmega.Support

variable {κ β : Type*} [DecidableEq κ]

/-- Rewrite the cells in order. -/
def rewrite (f : β → β) (store : κ → β) : List κ → κ → β
  | [] => store
  | k :: cells =>
      rewrite f (Function.update store k (f (store k))) cells

variable {f : β → β} {store : κ → β} {cells later : List κ} {k : κ}

theorem rewrite_append :
    rewrite f store (cells ++ later) = rewrite f (rewrite f store cells) later := by
  induction cells generalizing store with
  | nil => rfl
  | cons k cells ih => exact ih

theorem rewrite_of_notMem (hk : k ∉ cells) : rewrite f store cells k = store k := by
  induction cells generalizing store with
  | nil => rfl
  | cons k' cells ih =>
      obtain ⟨hne, hrest⟩ : k ≠ k' ∧ k ∉ cells := by simpa using hk
      rw [rewrite, ih hrest, Function.update_of_ne hne]

theorem rewrite_of_mem (hf : ∀ b, f (f b) = f b) (hk : k ∈ cells) :
    rewrite f store cells k = f (store k) := by
  induction cells generalizing store with
  | nil => cases hk
  | cons k' cells ih =>
      rw [rewrite]
      by_cases hrest : k ∈ cells
      · rw [ih hrest]
        by_cases heq : k = k'
        · rw [heq, Function.update_self, hf]
        · rw [Function.update_of_ne heq]
      · obtain rfl := (List.mem_cons.mp hk).resolve_right hrest
        rw [rewrite_of_notMem hrest, Function.update_self]

/-- Neither the order of the cells nor how often they occur matters. -/
theorem rewrite_congr {cells' : List κ} (hf : ∀ b, f (f b) = f b)
    (h : ∀ k, k ∈ cells ↔ k ∈ cells') :
    rewrite f store cells = rewrite f store cells' := by
  funext k
  by_cases hk : k ∈ cells
  · rw [rewrite_of_mem hf hk, rewrite_of_mem hf ((h k).mp hk)]
  · rw [rewrite_of_notMem hk, rewrite_of_notMem (mt (h k).mpr hk)]

/-- A second loop over the same cells changes nothing. -/
theorem rewrite_rewrite (hf : ∀ b, f (f b) = f b) :
    rewrite f (rewrite f store cells) cells = rewrite f store cells := by
  funext k
  by_cases hk : k ∈ cells
  · rw [rewrite_of_mem hf hk, rewrite_of_mem hf hk, hf]
  · exact rewrite_of_notMem hk

end SAOmega.Support
