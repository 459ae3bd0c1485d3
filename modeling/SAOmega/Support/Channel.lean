import SAOmega.Support.Simulation

/-!
# First in, first out

A channel holds what has been sent into it and not received yet.  A component
which simulates a channel gives out what it is given, in the same order.
-/

namespace SAOmega.Support

variable {α : Type*}

namespace Channel

inductive Event (α : Type*)
  | send (a : α)
  | receive

/-- A step shows what it receives. -/
def step (content : List α) : Event α → Option (List α × List α)
  | .send a => some ([], content ++ [a])
  | .receive =>
      match content with
      | [] => none
      | a :: rest => some ([a], rest)

/-- What a step sends. -/
def Event.sent : Event α → List α
  | .send a => [a]
  | .receive => []

theorem step_fifo {content content' : List α} {e : Event α} {o : List α}
    (h : step content e = some (o, content')) :
    content ++ e.sent = o ++ content' := by
  cases e with
  | send a =>
      cases h
      rfl
  | receive =>
      cases content with
      | nil => cases h
      | cons a rest =>
          cases h
          exact List.append_nil _

theorem run_fifo {content content' : List α}
    {history : List (Step (List α) (Event α) (List α))}
    (h : Run step content history content') :
    content ++ history.flatMap (fun r => r.event.sent) =
      history.flatMap Step.out ++ content' := by
  induction h with
  | nil => simp
  | @snoc history t u e o _ hstep ih =>
      rw [List.flatMap_append, List.flatMap_append, ← List.append_assoc, ih]
      simp only [List.flatMap_singleton, List.append_assoc, step_fifo hstep]

/-- A component that simulates a channel, by what its own steps send and
receive. -/
theorem fifo_of_simulation {σ ε ω : Type*} {concrete : σ → ε → Option (ω × σ)}
    (S : Simulation concrete (step (α := α)))
    {sent received : Step σ ε ω → List α}
    (hsent : ∀ s e o t, concrete s e = some (o, t) →
      (S.image ⟨s, e, o, t⟩).flatMap (fun q => q.event.sent) =
        sent ⟨s, e, o, t⟩)
    (hreceived : ∀ s e o t, concrete s e = some (o, t) →
      (S.image ⟨s, e, o, t⟩).flatMap Step.out = received ⟨s, e, o, t⟩)
    {s t : σ} {history : List (Step σ ε ω)} (hs : S.inv s)
    (h : Run concrete s history t) :
    S.abs s ++ history.flatMap sent = history.flatMap received ++ S.abs t := by
  have hfifo := run_fifo (S.run hs h)
  rw [List.flatMap_assoc, List.flatMap_assoc] at hfifo
  have hsents : history.flatMap sent = history.flatMap fun r =>
      (S.image r).flatMap fun q => q.event.sent :=
    List.flatMap_congr fun r hr => (hsent _ _ _ _ (h.step_of_mem hr)).symm
  have hreceiveds : history.flatMap received = history.flatMap fun r =>
      (S.image r).flatMap Step.out :=
    List.flatMap_congr fun r hr => (hreceived _ _ _ _ (h.step_of_mem hr)).symm
  rw [hsents, hreceiveds]
  exact hfifo

end Channel

end SAOmega.Support
