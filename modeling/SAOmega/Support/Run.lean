import Mathlib.Algebra.BigOperators.Group.List.Basic
import Mathlib.Algebra.Order.Group.Multiset
import Mathlib.Data.List.Induction
import Mathlib.Tactic.Abel

/-!
# Runs of a partial step function

A component is given by a partial step function with outputs.  `step s e = none`
says that the event `e` cannot happen in `s`; `step s e = some (o, t)` says that
it can, what it shows to the outside, and which state it leaves.  A run keeps
every step it made, oldest first, together with the states on both sides, so
that a statement about the past of a run is a statement about a list.
-/

namespace SAOmega.Support

variable {σ ε ω : Type*}

/-- One executed step. -/
structure Step (σ ε ω : Type*) where
  pre : σ
  event : ε
  out : ω
  post : σ

/-- The steps of the history lead from the start state to the final one. -/
inductive Run (step : σ → ε → Option (ω × σ)) (s : σ) :
    List (Step σ ε ω) → σ → Prop
  | nil : Run step s [] s
  | snoc {history : List (Step σ ε ω)} {t u : σ} {e : ε} {o : ω} :
      Run step s history t → step t e = some (o, u) →
        Run step s (history ++ [⟨t, e, o, u⟩]) u

variable {step : σ → ε → Option (ω × σ)}

/-! ## Cutting and joining runs -/

theorem Run.single {s t : σ} {e : ε} {o : ω} (h : step s e = some (o, t)) :
    Run step s [⟨s, e, o, t⟩] t := by
  simpa using Run.snoc .nil h

theorem Run.append {s t u : σ} {before after : List (Step σ ε ω)}
    (hbefore : Run step s before t) (hafter : Run step t after u) :
    Run step s (before ++ after) u := by
  induction hafter with
  | nil => simpa using hbefore
  | snoc _ hstep ih =>
      rw [← List.append_assoc]
      exact ih.snoc hstep

/-- The last step of a run is a step of the component from the state which the
earlier steps reach. -/
theorem Run.of_snoc {s u : σ} {history : List (Step σ ε ω)}
    {r : Step σ ε ω} (h : Run step s (history ++ [r]) u) :
    Run step s history r.pre ∧
      step r.pre r.event = some (r.out, r.post) ∧ r.post = u := by
  generalize hall : history ++ [r] = all at h
  cases h with
  | nil => simp at hall
  | snoc hrun hstep =>
      obtain ⟨rfl, hr⟩ := List.append_inj' hall rfl
      obtain rfl : r = _ := List.singleton_inj.mp hr
      exact ⟨hrun, hstep, rfl⟩

theorem Run.of_append {s u : σ} {before after : List (Step σ ε ω)}
    (h : Run step s (before ++ after) u) :
    ∃ t, Run step s before t ∧ Run step t after u := by
  induction after using List.reverseRecOn generalizing u with
  | nil => exact ⟨u, by simpa using h, .nil⟩
  | append_singleton after r ih =>
      rw [← List.append_assoc] at h
      obtain ⟨hrun, hstep, rfl⟩ := h.of_snoc
      obtain ⟨t, hbefore, hafter⟩ := ih hrun
      exact ⟨t, hbefore, hafter.snoc hstep⟩

/-- Every step of a run splits it into the run before and the run after. -/
theorem Run.split {s u : σ} {before after : List (Step σ ε ω)}
    {r : Step σ ε ω} (h : Run step s (before ++ r :: after) u) :
    Run step s before r.pre ∧
      step r.pre r.event = some (r.out, r.post) ∧
      Run step r.post after u := by
  have hcut : before ++ r :: after = (before ++ [r]) ++ after := by simp
  rw [hcut] at h
  obtain ⟨t, hbefore, hafter⟩ := h.of_append
  obtain ⟨hrun, hstep, rfl⟩ := hbefore.of_snoc
  exact ⟨hrun, hstep, hafter⟩

theorem Run.step_of_mem {s u : σ} {history : List (Step σ ε ω)}
    {r : Step σ ε ω} (h : Run step s history u) (hr : r ∈ history) :
    step r.pre r.event = some (r.out, r.post) := by
  obtain ⟨before, after, rfl⟩ := List.append_of_mem hr
  exact h.split.2.1

/-- The run up to and including one of its steps. -/
theorem Run.upTo {s u : σ} {before after : List (Step σ ε ω)}
    {r : Step σ ε ω} (h : Run step s (before ++ r :: after) u) :
    Run step s (before ++ [r]) r.post :=
  h.split.1.snoc h.split.2.1

theorem Run.eq_of_nil {s t : σ} (h : Run step s [] t) : t = s := by
  generalize hnil : ([] : List (Step σ ε ω)) = history at h
  cases h with
  | nil => rfl
  | snoc => simp at hnil

/-- There is no run on from a state in which nothing can happen. -/
theorem Run.nil_of_stuck {s t : σ} {history : List (Step σ ε ω)}
    (h : Run step s history t) (hstuck : ∀ e, step s e = none) :
    history = [] := by
  cases history with
  | nil => rfl
  | cons r after =>
      have hwhole : Run step s ([] ++ r :: after) t := h
      obtain ⟨hbefore, hstep, _⟩ := hwhole.split
      rw [hbefore.eq_of_nil, hstuck] at hstep
      cases hstep

/-! ## Invariants -/

/-- A predicate on states which every step preserves holds along every run. -/
theorem Run.invariant {I : σ → Prop}
    (hstep : ∀ s e o t, I s → step s e = some (o, t) → I t)
    {s t : σ} {history : List (Step σ ε ω)}
    (h : Run step s history t) (hs : I s) : I t := by
  induction h with
  | nil => exact hs
  | snoc _ hnext ih => exact hstep _ _ _ _ ih hnext

/-- What a component holds changes only by what its steps take in and give out,
so the totals of a whole run balance. -/
theorem Run.balance {M : Type*} [AddCommMonoid M]
    {holds : σ → M} {taken given : Step σ ε ω → M}
    (hstep : ∀ s e o t, step s e = some (o, t) →
      holds t + given ⟨s, e, o, t⟩ = holds s + taken ⟨s, e, o, t⟩)
    {s t : σ} {history : List (Step σ ε ω)} (h : Run step s history t) :
    holds t + (history.map given).sum = holds s + (history.map taken).sum := by
  induction h with
  | nil => simp
  | @snoc history t u e o _ hnext ih =>
      simp only [List.map_append, List.sum_append, List.map_cons,
        List.map_nil, List.sum_cons, List.sum_nil, add_zero]
      calc
        holds u + ((history.map given).sum + given ⟨t, e, o, u⟩) =
            holds u + given ⟨t, e, o, u⟩ + (history.map given).sum := by
          abel
        _ = holds t + (history.map given).sum + taken ⟨t, e, o, u⟩ := by
          rw [hstep _ _ _ _ hnext]
          abel
        _ = holds s +
            ((history.map taken).sum + taken ⟨t, e, o, u⟩) := by
          rw [ih, add_assoc]

theorem sum_map_coe {α β : Type*} (l : List β) (f : β → List α) :
    (l.map fun b => (f b : Multiset α)).sum = (l.flatMap f : List α) := by
  induction l with
  | nil => rfl
  | cons b l ih =>
      rw [List.map_cons, List.sum_cons, ih, List.flatMap_cons,
        Multiset.coe_add]

/-- `Run.balance` for a bag of items of which each step lists those it takes in
and those it gives out. -/
theorem Run.balance_items {α : Type*} {holds : σ → Multiset α}
    {taken given : Step σ ε ω → List α}
    (hstep : ∀ s e o t, step s e = some (o, t) →
      holds t + (given ⟨s, e, o, t⟩ : Multiset α) =
        holds s + (taken ⟨s, e, o, t⟩ : Multiset α))
    {s t : σ} {history : List (Step σ ε ω)} (h : Run step s history t) :
    holds t + (history.flatMap given : List α) =
      holds s + (history.flatMap taken : List α) := by
  have hbalance :
      holds t + (history.map fun r => (given r : Multiset α)).sum =
        holds s + (history.map fun r => (taken r : Multiset α)).sum :=
    h.balance hstep
  rwa [sum_map_coe, sum_map_coe] at hbalance

/-! ## Running a list of events -/

/-- Perform the events in order; `none` when one of them cannot happen. -/
def execute (step : σ → ε → Option (ω × σ)) (s : σ) :
    List ε → Option (List (Step σ ε ω) × σ)
  | [] => some ([], s)
  | e :: events =>
      match step s e with
      | none => none
      | some (o, t) =>
          match execute step t events with
          | none => none
          | some (history, u) => some (⟨s, e, o, t⟩ :: history, u)

theorem run_of_execute {s t : σ} {events : List ε}
    {history : List (Step σ ε ω)}
    (h : execute step s events = some (history, t)) :
    Run step s history t := by
  induction events generalizing s history with
  | nil =>
      obtain ⟨rfl, rfl⟩ : [] = history ∧ s = t := by simpa [execute] using h
      exact .nil
  | cons e events ih =>
      rw [execute] at h
      split at h
      · cases h
      · next o m hstep =>
          split at h
          · cases h
          · next later u hlater =>
              cases h
              exact (Run.single hstep).append (ih hlater)

theorem run_of_execute_get {s : σ} {events : List ε}
    (h : (execute step s events).isSome = true) :
    Run step s ((execute step s events).get h).1
      ((execute step s events).get h).2 :=
  run_of_execute (Option.some_get h).symm

end SAOmega.Support
