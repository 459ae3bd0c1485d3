import SAOmega.Support.Run

/-!
# Simulations and progress

Two rules about runs.  A simulation turns each step of one component into a
run of another one, and so every run of the first into a run of the second.
A variant bounds how often a component can still act before it leaves a busy
phase, whatever its environment does in between.
-/

namespace SAOmega.Support

/-! ## Simulations -/

section Simulation

variable {σ ε ω σ' ε' ω' : Type*}

/-- Each step of `concrete` from a state in `inv` is, under `abs`, the run
`image` of `abstract`. -/
structure Simulation
    (concrete : σ → ε → Option (ω × σ))
    (abstract : σ' → ε' → Option (ω' × σ')) where
  inv : σ → Prop
  abs : σ → σ'
  image : Step σ ε ω → List (Step σ' ε' ω')
  preserves : ∀ s e o t, inv s → concrete s e = some (o, t) → inv t
  matches_step : ∀ s e o t, inv s → concrete s e = some (o, t) →
    Run abstract (abs s) (image ⟨s, e, o, t⟩) (abs t)

variable {concrete : σ → ε → Option (ω × σ)}
  {abstract : σ' → ε' → Option (ω' × σ')}

theorem Simulation.run (S : Simulation concrete abstract)
    {s t : σ} {history : List (Step σ ε ω)}
    (hs : S.inv s) (h : Run concrete s history t) :
    Run abstract (S.abs s) (history.flatMap S.image) (S.abs t) := by
  induction h with
  | nil => exact .nil
  | snoc hrun hstep ih =>
      rw [List.flatMap_append, List.flatMap_singleton]
      exact ih.append
        (S.matches_step _ _ _ _ (hrun.invariant S.preserves hs) hstep)

end Simulation

/-! ## Progress -/

section Progress

variable {σ ε ω : Type*} {step : σ → ε → Option (ω × σ)}

/-- Only boundedly many events in `mine` happen while the component is `busy`,
and as long as it is busy one of them can happen.  So it stops being busy under
every schedule that does not ignore the events in `mine` forever, whatever
other events are interleaved. -/
def EventuallyLeaves (step : σ → ε → Option (ω × σ))
    (busy : σ → Prop) (mine : ε → Bool) (s : σ) : Prop :=
  ∃ bound : ℕ, ∀ history t, Run step s history t →
    (∀ r ∈ history, busy r.pre) →
      (history.countP fun r => mine r.event) ≤ bound ∧
        (busy t → ∃ e, mine e = true ∧ (step t e).isSome = true)

/-- A variant which the events in `mine` decrease and the others do not
increase, together with an enabled event in `mine` in every busy state. -/
theorem EventuallyLeaves.of_variant
    {busy : σ → Prop} {mine : ε → Bool} {I : σ → Prop} (μ : σ → ℕ)
    (hinv : ∀ s e o t, I s → busy s → step s e = some (o, t) →
      busy t → I t)
    (hvariant : ∀ s e o t, I s → busy s → step s e = some (o, t) →
      μ t + (if mine e then 1 else 0) ≤ μ s)
    (henabled : ∀ s, I s → busy s →
      ∃ e, mine e = true ∧ (step s e).isSome = true)
    {s : σ} (hs : I s) : EventuallyLeaves step busy mine s := by
  have hrun : ∀ history t, Run step s history t →
      (∀ r ∈ history, busy r.pre) →
        (busy t → I t) ∧
          μ t + (history.countP fun r => mine r.event) ≤ μ s := by
    intro history t h
    induction h with
    | nil => exact fun _ => ⟨fun _ => hs, by simp⟩
    | @snoc history t u e o _ hstep ih =>
        intro hbusy
        have hpast : ∀ r ∈ history, busy r.pre :=
          fun r hr => hbusy r (List.mem_append_left _ hr)
        have hlast : busy t := hbusy ⟨t, e, o, u⟩ (by simp)
        obtain ⟨hIt, hcount⟩ := ih hpast
        have hdrop := hvariant _ _ _ _ (hIt hlast) hlast hstep
        refine ⟨hinv _ _ _ _ (hIt hlast) hlast hstep, ?_⟩
        have hcut :
            ((history ++ [(⟨t, e, o, u⟩ : Step σ ε ω)]).countP
              fun r => mine r.event) =
            (history.countP fun r => mine r.event) +
              if mine e then 1 else 0 := by
          rw [List.countP_append, List.countP_singleton]
        omega
  refine ⟨μ s, ?_⟩
  intro history t h hbusy
  obtain ⟨hIt, hcount⟩ := hrun history t h hbusy
  exact ⟨by omega, fun ht => henabled t (hIt ht) ht⟩

end Progress

end SAOmega.Support
