import SAOmega.WorldSave.Transition

/-!
# No save request is lost

A call of `SaveWorld` which does not save leaves something behind that will: a
callback that is still outstanding, or a save that has been made since
`lastSave` was last written.  The clock need not be monotone here, and the
callbacks may fire in any order.
-/

namespace SAOmega.WorldSave

open SAOmega.Support

variable {contains : String → String → Bool}

/-- The original `SaveWorld` has run at or after the step which last wrote
`lastSave`. -/
def SavedSinceLastWrite (history : History) : Prop :=
  ∃ before q after, history = before ++ q :: after ∧ WritesLastSave q ∧
    (∀ x ∈ after, ¬ WritesLastSave x) ∧ ∃ x ∈ q :: after, Executes x

theorem savedSinceLastWrite_of_executes (history : History) {r : Record}
    (h : Executes r) : SavedSinceLastWrite (history ++ [r]) :=
  ⟨history, r, [], rfl, .inl h, by simp, r, by simp, h⟩

theorem SavedSinceLastWrite.snoc {history : History}
    (h : SavedSinceLastWrite history) {r : Record}
    (hr : ¬ WritesLastSave r) : SavedSinceLastWrite (history ++ [r]) := by
  obtain ⟨before, q, after, rfl, hq, hafter, x, hx, hexecutes⟩ := h
  refine ⟨before, q, after ++ [r], by simp, hq, ?_, x, ?_, hexecutes⟩
  · intro y hy
    rcases List.mem_append.mp hy with hy | hy
    · exact hafter y hy
    · rw [List.mem_singleton.mp hy]
      exact hr
  · rw [← List.cons_append]
    exact List.mem_append_left _ hx

/-! ## The pending flag -/

/-- Some callback which will clear `hasPendingSave` is outstanding. -/
def ClearingOutstanding (s : State) : Prop :=
  ∃ d ∈ s.timer.outstanding, d.callback.clearsPending = true

def ImmediateOutstanding (s : State) : Prop :=
  ∃ d ∈ s.timer.outstanding, d.callback = .immediateSave

/-- A set `hasPendingSave` is explained by an outstanding callback. -/
def PendingExplained (s : State) : Prop :=
  s.hasPendingSave = true → ClearingOutstanding s

theorem saveCase_pendingExplained {now : UInt64} {forceWaitOnSave : Bool}
    {s t : State} {o : List Effect} (hs : PendingExplained s)
    (h : SaveCase now forceWaitOnSave s o t) : PendingExplained t := by
  cases h with
  | execute hguard => exact fun hpending => Bool.noConfusion hpending
  | drop hlimited hdrop => exact hs
  | defer => exact fun _ => ⟨_, Timer.mem_delayExecute.mpr (.inr rfl), rfl⟩
  | grant =>
      intro hpending
      obtain ⟨d, hd, hclears⟩ := hs hpending
      exact ⟨d, Timer.mem_delayExecute.mpr (.inl hd), hclears⟩

/-- The callback that fires clears the flag itself, or it is an immediate one
and the clearing callbacks stay. -/
theorem called_clearing {P : Delayed Callback → Prop} {s : State}
    {d : Delayed Callback}
    (hs : s.hasPendingSave = true → ∃ x ∈ s.timer.outstanding,
      x.callback.clearsPending = true ∧ P x)
    (hpending : (s.called d).hasPendingSave = true) :
    ∃ x ∈ (s.called d).timer.outstanding,
      x.callback.clearsPending = true ∧ P x := by
  obtain ⟨id, callback, due⟩ := d
  cases callback with
  | playerSpawn => exact Bool.noConfusion hpending
  | deferredSave => exact Bool.noConfusion hpending
  | immediateSave =>
      obtain ⟨x, hx, hclears, hP⟩ := hs hpending
      refine ⟨x, Timer.mem_remove.mpr ⟨?_, hx⟩, hclears, hP⟩
      rintro rfl
      cases hclears

theorem called_pendingExplained {s : State} {d : Delayed Callback}
    (hs : PendingExplained s) : PendingExplained (s.called d) := by
  intro hpending
  have hsome : s.hasPendingSave = true → ∃ x ∈ s.timer.outstanding,
      x.callback.clearsPending = true ∧ True := by
    intro hflag
    obtain ⟨x, hx, hclears⟩ := hs hflag
    exact ⟨x, hx, hclears, trivial⟩
  obtain ⟨x, hx, hclears, _⟩ := called_clearing hsome hpending
  exact ⟨x, hx, hclears⟩

theorem step_pendingExplained (s : State) (e : Event) (o : List Effect)
    (t : State) (hs : PendingExplained s)
    (h : step contains s e = some (o, t)) : PendingExplained t := by
  cases transition_of_step h with
  | unchanged => exact hs
  | damage => exact hs
  | message => exact hs
  | spawn => exact fun _ => ⟨_, Timer.mem_delayExecute.mpr (.inr rfl), rfl⟩
  | saveWorld forceWaitOnSave hhook hcase =>
      exact saveCase_pendingExplained hs hcase
  | fire d hhook hmem hcase =>
      exact saveCase_pendingExplained (called_pendingExplained hs) hcase

theorem run_pendingExplained {history : History} {s : State}
    (h : Run (step contains) init history s) : PendingExplained s :=
  h.invariant step_pendingExplained fun hpending => Bool.noConfusion hpending

/-! ## The time of the last save -/

/-- What stands behind the value of `lastSave`. -/
def StampExplained (history : History) (s : State) : Prop :=
  s.lastSave = 0 ∨ ImmediateOutstanding s ∨ SavedSinceLastWrite history

theorem not_writes_of_inert {r : Record}
    (h : ∀ x ∈ r.out, x.isInert = true ∨ x = .saveWorldDisableTransfer) :
    ¬ WritesLastSave r := by
  rintro (hexecutes | ⟨d, hschedules, _⟩)
  · exact not_executes_of_inert h hexecutes
  · exact not_schedules_of_inert h hschedules

theorem StampExplained.keep {history : History} {s t : State} {r : Record}
    (hs : StampExplained history s) (hsave : t.lastSave = s.lastSave)
    (himmediate : ImmediateOutstanding s → ImmediateOutstanding t)
    (hr : ¬ WritesLastSave r) : StampExplained (history ++ [r]) t := by
  rcases hs with hzero | himm | hsaved
  · exact .inl (hsave.trans hzero)
  · exact .inr (.inl (himmediate himm))
  · exact .inr (.inr (hsaved.snoc hr))

/-- A call of `SaveWorld` in `m`, which the step reaches from `s`. -/
theorem saveCase_stampExplained {history : History} {s m t : State}
    {e : Event} {forceWaitOnSave : Bool} {o : List Effect}
    (hs : StampExplained history s) (hsave : m.lastSave = s.lastSave)
    (himmediate : m.pendingForceSave = true ∨
      (ImmediateOutstanding s → ImmediateOutstanding m))
    (h : SaveCase e.now forceWaitOnSave m o t) :
    StampExplained (history ++ [⟨s, e, o, t⟩]) t := by
  cases h with
  | execute hguard =>
      refine .inr (.inr (savedSinceLastWrite_of_executes history ?_))
      exact ⟨forceWaitOnSave, List.mem_singleton.mpr rfl⟩
  | grant => exact .inr (.inl ⟨_, Timer.mem_delayExecute.mpr (.inr rfl), rfl⟩)
  | drop hlimited hdrop =>
      have hkeep := himmediate.resolve_left (by
        simp [hlimited.notPendingForce])
      apply hs.keep hsave hkeep
      exact not_writes_of_inert (by simp)
  | defer hlimited hdmg hrate hpending =>
      have hkeep := himmediate.resolve_left (by
        simp [hlimited.notPendingForce])
      refine hs.keep ?_ ?_ ?_
      · exact hsave
      · intro himm
        obtain ⟨d, hd, hcallback⟩ := hkeep himm
        exact ⟨d, Timer.mem_delayExecute.mpr (.inl hd), hcallback⟩
      · rintro (⟨force, hmem⟩ | ⟨d, hmem, hcallback⟩)
        · simp at hmem
        · have heq : d = deferredEntry e.now m := by simpa [Schedules] using hmem
          rw [heq] at hcallback
          cases hcallback

theorem called_immediate {s : State} {d : Delayed Callback} :
    (s.called d).pendingForceSave = true ∨
      (ImmediateOutstanding s → ImmediateOutstanding (s.called d)) := by
  obtain ⟨id, callback, due⟩ := d
  have hkeep (hne : callback ≠ .immediateSave) :
      ImmediateOutstanding s →
        ImmediateOutstanding { s with timer := s.timer.remove ⟨id, callback, due⟩ } := by
    rintro ⟨x, hx, hcallback⟩
    refine ⟨x, Timer.mem_remove.mpr ⟨?_, hx⟩, hcallback⟩
    rintro rfl
    exact hne hcallback
  cases callback with
  | playerSpawn => exact .inl rfl
  | deferredSave => exact .inr (hkeep (by simp))
  | immediateSave => exact .inl rfl

theorem run_stampExplained {history : History} {s : State}
    (h : Run (step contains) init history s) : StampExplained history s := by
  induction h with
  | nil => exact .inl rfl
  | @snoc history s t e o _ hstep ih =>
      cases transition_of_step hstep with
      | unchanged _ _ hinert =>
          exact ih.keep rfl id (not_writes_of_inert fun x hx => .inl (hinert x hx))
      | damage =>
          exact ih.keep rfl id (not_writes_of_inert (by simp [Effect.isInert]))
      | message _ _ _ hinert =>
          exact ih.keep rfl id (not_writes_of_inert hinert)
      | spawn =>
          refine ih.keep ?_ ?_ ?_
          · rfl
          · rintro ⟨d, hd, hcallback⟩
            exact ⟨d, Timer.mem_delayExecute.mpr (.inl hd), hcallback⟩
          · rintro (⟨force, hmem⟩ | ⟨d, hmem, hcallback⟩)
            · simp at hmem
            · have heq : d = spawnEntry e.now s := by
                simpa [Schedules] using hmem
              rw [heq] at hcallback
              cases hcallback
      | saveWorld forceWaitOnSave hhook hcase =>
          exact saveCase_stampExplained ih rfl (.inr id) hcase
      | fire d hhook hmem hcase =>
          exact saveCase_stampExplained ih (called_lastSave s d)
            called_immediate hcase

/-! ## The result -/

/-- The outcomes of a `SaveWorld` call which leave its request served. -/
def RequestKept (before : History) (r : Record) : Prop :=
  Executes r ∨
    (∃ d ∈ r.post.timer.outstanding, d.callback = .immediateSave) ∨
    (∃ d ∈ r.post.timer.outstanding,
      d.callback = .deferredSave ∨ d.callback = .playerSpawn) ∨
    (r.event.now - r.post.lastSave < 300 ∧
      SavedSinceLastWrite (before ++ [r]))

theorem clearsPending_iff {callback : Callback} :
    callback.clearsPending = true ↔
      callback = .deferredSave ∨ callback = .playerSpawn := by
  cases callback with
  | playerSpawn | deferredSave | immediateSave => simp [Callback.clearsPending]

/-- Whatever the call does, it saves, schedules, or finds its request served
already. -/
theorem saveCase_requestKept {before : History} {s m t : State} {e : Event}
    {forceWaitOnSave : Bool} {o : List Effect}
    (hclock : 1200 ≤ e.now) (hpending : PendingExplained t)
    (hstamp : StampExplained (before ++ [⟨s, e, o, t⟩]) t)
    (h : SaveCase e.now forceWaitOnSave m o t) :
    RequestKept before ⟨s, e, o, t⟩ := by
  cases h with
  | execute hguard =>
      exact .inl ⟨forceWaitOnSave, List.mem_singleton.mpr rfl⟩
  | defer =>
      exact .inr (.inr (.inl
        ⟨_, Timer.mem_delayExecute.mpr (.inr rfl), .inl rfl⟩))
  | grant =>
      exact .inr (.inl ⟨_, Timer.mem_delayExecute.mpr (.inr rfl), rfl⟩)
  | drop hlimited hdrop =>
      rcases hdrop with hflag | hrate
      · obtain ⟨d, hd, hclears⟩ := hpending hflag
        exact .inr (.inr (.inl ⟨d, hd, clearsPending_iff.mp hclears⟩))
      · rcases hstamp with hzero | himm | hsaved
        · -- `now - 0` is at least 1200.
          rw [hzero] at hrate
          grind
        · exact .inr (.inl himm)
        · exact .inr (.inr (.inr ⟨hrate, hsaved⟩))

/-- After every call of `SaveWorld`, by the engine or by a callback, the
request has been executed, is outstanding, or was served by the save that
stands behind `lastSave`. -/
theorem no_save_request_lost {history : History} {s : State}
    (h : Run (step contains) init history s)
    (hclock : ∀ r ∈ history, 1200 ≤ r.event.now) :
    ∀ before r after, history = before ++ r :: after →
      r.event.hook.saveArgument ≠ none → RequestKept before r := by
  rintro before ⟨m, e, o, t⟩ after rfl hcall
  have hnow : 1200 ≤ e.now := hclock ⟨m, e, o, t⟩ (by simp)
  have hpending : PendingExplained t := run_pendingExplained h.upTo
  have hstamp : StampExplained (before ++ [⟨m, e, o, t⟩]) t :=
    run_stampExplained h.upTo
  have hstep : step contains m e = some (o, t) := h.split.2.1
  cases transition_of_step hstep with
  | unchanged hhook => exact (hcall hhook).elim
  | damage hhook => exact (hcall hhook).elim
  | spawn hhook => exact (hcall hhook).elim
  | message msg hmessage => exact (hcall (saveArgument_of_message hmessage)).elim
  | saveWorld forceWaitOnSave hhook hcase =>
      exact saveCase_requestKept hnow hpending hstamp hcase
  | fire d hhook hmem hcase =>
      exact saveCase_requestKept hnow hpending hstamp hcase

/-- A save is admitted, its callback saves, a later request meets boss damage
and is deferred, and one more is dropped because the deferred one is pending. -/
def deferredRun : Option (History × State) :=
  execute (step fun _ _ => false) init
    [⟨1700000000, .saveWorld true⟩,
      ⟨1700000300, .saveWorld false⟩,
      ⟨1700000300, .fire ⟨0, .immediateSave, 1700000300⟩⟩,
      ⟨1700000600, .takeDamage 1 (some 50001)⟩,
      ⟨1700000610, .saveWorld false⟩,
      ⟨1700000615, .saveWorld false⟩]

theorem no_save_request_lost_deferred :
    let history := (deferredRun.get (by decide)).1
    ∀ before r after, history = before ++ r :: after →
      r.event.hook.saveArgument ≠ none → RequestKept before r :=
  no_save_request_lost (run_of_execute_get (by decide)) (by decide)

end SAOmega.WorldSave
