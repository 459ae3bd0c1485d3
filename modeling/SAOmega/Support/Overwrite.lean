import SAOmega.Support.Since
import Mathlib.Logic.Function.Basic

/-!
# Overwriting

A store after a list of writes, each of which replaces the value under its key.
Under every key it holds what the last write for that key put there.
-/

namespace SAOmega.Support

variable {α κ β : Type*} {key : α → κ} {k : κ} {writes later : List α}
  {a b : α}

/-! ## The last write for a key -/

/-- `a` is the last of the writes for the key `k`. -/
def LastFor (key : α → κ) (k : κ) (writes : List α) (a : α) : Prop :=
  Since (fun x => key x ≠ k) (fun x => x = a ∧ key x = k) writes

theorem lastFor_snoc :
    LastFor key k (writes ++ [b]) a ↔
      (b = a ∧ key b = k) ∨ (LastFor key k writes a ∧ key b ≠ k) :=
  since_snoc

theorem LastFor.mem (h : LastFor key k writes a) : a ∈ writes ∧ key a = k := by
  obtain ⟨x, hx, rfl, hkey⟩ := h.exists
  exact ⟨hx, hkey⟩

theorem exists_lastFor (h : ∃ x ∈ writes, key x = k) :
    ∃ a, LastFor key k writes a := by
  induction writes using List.reverseRecOn with
  | nil =>
      obtain ⟨x, hx, _⟩ := h
      cases hx
  | append_singleton writes b ih =>
      by_cases hb : key b = k
      · exact ⟨b, lastFor_snoc.mpr (.inl ⟨rfl, hb⟩)⟩
      · obtain ⟨x, hx, hkey⟩ := h
        rcases List.mem_append.mp hx with hx | hx
        · obtain ⟨a, ha⟩ := ih ⟨x, hx, hkey⟩
          exact ⟨a, lastFor_snoc.mpr (.inr ⟨ha, hb⟩)⟩
        · rw [List.mem_singleton.mp hx] at hkey
          exact (hb hkey).elim

/-- Every other write for the key comes before the last one. -/
theorem LastFor.pairwise {r : α → α → Prop} (h : LastFor key k writes a)
    (hpairwise : writes.Pairwise r) (hb : b ∈ writes) (hkey : key b = k)
    (hne : b ≠ a) : r b a := by
  obtain ⟨before, x, after, rfl, ⟨rfl, _⟩, hafter⟩ := h
  rcases List.mem_append.mp hb with hbefore | hrest
  · exact (List.pairwise_append.mp hpairwise).2.2 b hbefore x (by simp)
  · rcases List.mem_cons.mp hrest with heq | hrest
    · exact (hne heq).elim
    · exact (hafter b hrest hkey).elim

/-! ## The store -/

variable [DecidableEq κ]

/-- Perform the writes in order. -/
def overwrite (key : α → κ) (value : α → β) (store : κ → β) :
    List α → κ → β
  | [] => store
  | a :: writes =>
      overwrite key value (Function.update store (key a) (value a)) writes

variable {value : α → β} {store : κ → β}

theorem overwrite_append :
    overwrite key value store (writes ++ later) =
      overwrite key value (overwrite key value store writes) later := by
  induction writes generalizing store with
  | nil => rfl
  | cons a writes ih => exact ih

theorem overwrite_snoc :
    overwrite key value store (writes ++ [a]) =
      Function.update (overwrite key value store writes) (key a) (value a) := by
  rw [overwrite_append]
  rfl

theorem overwrite_of_forall_ne (h : ∀ x ∈ writes, key x ≠ k) :
    overwrite key value store writes k = store k := by
  induction writes using List.reverseRecOn with
  | nil => rfl
  | append_singleton writes a ih =>
      rw [overwrite_snoc, Function.update_of_ne (h a (by simp)).symm]
      exact ih fun x hx => h x (List.mem_append_left _ hx)

theorem overwrite_of_lastFor (h : LastFor key k writes a) :
    overwrite key value store writes k = value a := by
  induction writes using List.reverseRecOn with
  | nil => exact (not_since_nil h).elim
  | append_singleton writes b ih =>
      rw [overwrite_snoc]
      rcases lastFor_snoc.mp h with ⟨rfl, hkey⟩ | ⟨hpast, hne⟩
      · rw [← hkey, Function.update_self]
      · rw [Function.update_of_ne hne.symm]
        exact ih hpast

/-- A view of a state which every step overwrites is overwritten by all the
writes of a list of steps. -/
theorem foldl_overwrite {σ ε : Type*} {run : σ → ε → σ} (view : σ → κ → β)
    (writes : ε → List α)
    (h : ∀ s e, view (run s e) = overwrite key value (view s) (writes e))
    (s : σ) (events : List ε) :
    view (events.foldl run s) =
      overwrite key value (view s) (events.flatMap writes) := by
  induction events generalizing s with
  | nil => rfl
  | cons e events ih =>
      rw [List.foldl_cons, ih, h, List.flatMap_cons, overwrite_append]

/-- Removing under the keys that were added restores a map which held nothing
under them. -/
theorem overwrite_undo {map : κ → Option β} {added : List (κ × Option β)}
    (h : ∀ w ∈ added, map w.1 = none) :
    overwrite Prod.fst Prod.snd (overwrite Prod.fst Prod.snd map added)
      (added.map fun w => (w.1, none)) = map := by
  funext k
  by_cases hk : ∃ w ∈ added, w.1 = k
  · obtain ⟨w, hw, rfl⟩ := hk
    have hremoved : ∃ x ∈ added.map fun w => (w.1, (none : Option β)),
        x.1 = w.1 :=
      ⟨_, List.mem_map_of_mem hw, rfl⟩
    obtain ⟨a, ha⟩ := exists_lastFor hremoved
    obtain ⟨x, _, rfl⟩ := List.mem_map.mp ha.mem.1
    rw [overwrite_of_lastFor ha, h w hw]
  · have hnone : ∀ w ∈ added, w.1 ≠ k := fun w hw heq => hk ⟨w, hw, heq⟩
    rw [overwrite_of_forall_ne, overwrite_of_forall_ne hnone]
    intro x hx
    obtain ⟨w, hw, rfl⟩ := List.mem_map.mp hx
    exact hnone w hw

end SAOmega.Support
