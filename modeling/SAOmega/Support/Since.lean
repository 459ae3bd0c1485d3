import Mathlib.Data.List.Induction

/-!
# The past of a list

`Since p q` says of a history, oldest entry first, that `q` held at one entry
and `p` at all later ones.  It is decided by the last entry and the past before
it, which is how invariants that speak about the past are kept step by step.
-/

namespace SAOmega.Support

variable {α : Type*}

/-- `q` held once and `p` has held ever since. -/
def Since (p q : α → Prop) (history : List α) : Prop :=
  ∃ before x after, history = before ++ x :: after ∧ q x ∧ ∀ y ∈ after, p y

variable {p q : α → Prop} {history : List α}

@[simp] theorem not_since_nil : ¬ Since p q [] := by
  rintro ⟨before, x, after, heq, _⟩
  simp at heq

theorem since_snoc {r : α} :
    Since p q (history ++ [r]) ↔ q r ∨ (Since p q history ∧ p r) := by
  constructor
  · rintro ⟨before, x, after, heq, hx, hafter⟩
    induction after using List.reverseRecOn with
    | nil =>
        obtain ⟨_, hlast⟩ := List.append_inj' heq rfl
        obtain rfl := List.singleton_inj.mp hlast
        exact .inl hx
    | append_singleton after y _ =>
        rw [← List.cons_append, ← List.append_assoc] at heq
        obtain ⟨hinit, hlast⟩ := List.append_inj' heq rfl
        obtain rfl := List.singleton_inj.mp hlast
        refine .inr ⟨⟨before, x, after, hinit, hx, ?_⟩, hafter r (by simp)⟩
        exact fun z hz => hafter z (List.mem_append_left _ hz)
  · rintro (hr | ⟨⟨before, x, after, rfl, hx, hafter⟩, hr⟩)
    · exact ⟨history, r, [], rfl, hr, by simp⟩
    · refine ⟨before, x, after ++ [r], by simp, hx, ?_⟩
      intro y hy
      rcases List.mem_append.mp hy with hy | hy
      · exact hafter y hy
      · rwa [List.mem_singleton.mp hy]

theorem Since.exists (h : Since p q history) : ∃ x ∈ history, q x := by
  obtain ⟨before, x, after, rfl, hx, _⟩ := h
  exact ⟨x, by simp, hx⟩

end SAOmega.Support
