import SAOmega.Support.Fairness
import SAOmega.WorldSave.Spacing

/-!
# Every request is served

A request that does not save at once leaves a callback behind.  That callback
saves, or it defers the save once more, which the twenty-minute limit ends.
-/

namespace SAOmega.WorldSave

open SAOmega.Support

variable {contains : String → String → Bool}

/-! ## What stands behind the time of the last save -/

/-- A recorded save has been executed, or its immediate callback will do it. -/
def Backed (history : History) (s : State) : Prop :=
  s.lastSave = 0 ∨ ImmediateOutstanding s ∨
    ∃ q ∈ history, Executes q ∧ s.lastSave ≤ q.event.now

theorem Backed.keep {history : History} {s t : State} (hs : Backed history s)
    (hsave : t.lastSave = s.lastSave)
    (himmediate : ImmediateOutstanding s → ImmediateOutstanding t)
    (r : Record) : Backed (history ++ [r]) t := by
  rcases hs with hzero | hout | ⟨q, hq, hexecutes, hle⟩
  · exact .inl (hsave.trans hzero)
  · exact .inr (.inl (himmediate hout))
  · refine .inr (.inr ⟨q, List.mem_append_left _ hq, hexecutes, ?_⟩)
    rwa [hsave]

theorem saveCase_backed {history : History} {s m t : State} {e : Event}
    {forceWaitOnSave : Bool} {o : List Effect} (hs : Backed history s)
    (hsave : m.lastSave = s.lastSave)
    (himmediate : m.pendingForceSave = true ∨
      (ImmediateOutstanding s → ImmediateOutstanding m))
    (h : SaveCase e.now forceWaitOnSave m o t) :
    Backed (history ++ [⟨s, e, o, t⟩]) t := by
  cases h with
  | execute =>
      refine .inr (.inr ⟨_, List.mem_append_right _ (List.mem_singleton_self _),
        ?_, UInt64.le_rfl⟩)
      exact ⟨forceWaitOnSave, List.mem_singleton.mpr rfl⟩
  | grant => exact .inr (.inl ⟨_, Timer.mem_delayExecute.mpr (.inr rfl), rfl⟩)
  | drop hlimited =>
      have hkeep := himmediate.resolve_left (by
        simp [hlimited.notPendingForce])
      exact hs.keep hsave hkeep _
  | defer hlimited =>
      have hkeep := himmediate.resolve_left (by
        simp [hlimited.notPendingForce])
      refine hs.keep (by exact hsave) ?_ _
      intro hout
      obtain ⟨d, hd, hcallback⟩ := hkeep hout
      exact ⟨d, Timer.mem_delayExecute.mpr (.inl hd), hcallback⟩

theorem run_backed {history : History} {s : State}
    (h : Run (step contains) init history s) : Backed history s := by
  induction h with
  | nil => exact .inl rfl
  | @snoc history s t e o _ hstep ih =>
      cases transition_of_step hstep with
      | unchanged | damage | message => exact ih.keep rfl id _
      | spawn =>
          refine ih.keep (by rfl) ?_ _
          rintro ⟨d, hd, hcallback⟩
          exact ⟨d, Timer.mem_delayExecute.mpr (.inl hd), hcallback⟩
      | saveWorld forceWaitOnSave hhook hcase =>
          exact saveCase_backed ih rfl (.inr id) hcase
      | fire d hhook hmem hcase =>
          exact saveCase_backed ih (called_lastSave s d) called_immediate hcase

/-! ## Obligations -/

/-- The callback owes a save.  A deferred one is not late enough for the limit
on the rate to drop it, and `rank` bounds how often it can be deferred again. -/
inductive Owes (d : Delayed Callback) : ℕ → State → Prop
  | forced {s : State} (hmem : d ∈ s.timer.outstanding)
      (hcallback : d.callback ≠ .deferredSave) : Owes d 0 s
  | deferred {s : State} (hmem : d ∈ s.timer.outstanding)
      (hcallback : d.callback = .deferredSave)
      (hdue : (s.lastSave.toNat : ℤ) + 300 < d.due) :
      Owes d (1 + ((s.lastSave.toNat : ℤ) + 1260 - d.due).toNat) s

theorem Owes.mem {d : Delayed Callback} {rank : ℕ} {s : State}
    (h : Owes d rank s) : d ∈ s.timer.outstanding := by
  cases h with
  | forced hmem | deferred hmem => exact hmem

theorem Owes.keep {d : Delayed Callback} {rank : ℕ} {s t : State}
    (h : Owes d rank s) (hsave : t.lastSave = s.lastSave)
    (hmem : d ∈ t.timer.outstanding) : Owes d rank t := by
  cases h with
  | forced _ hcallback => exact .forced hmem hcallback
  | deferred _ hcallback hdue =>
      rw [← hsave] at hdue ⊢
      exact .deferred hmem hcallback hdue

/-- The entry of a deferral is due after the limit on the rate has passed, and
after any callback which is due by now. -/
theorem deferredEntry_late {now : UInt64} {s : State}
    (hsave : s.lastSave ≤ now) (hdmg : now - s.lastDmg < 60)
    (hrate : 300 ≤ now - s.lastSave) :
    (now.toNat : ℤ) < (deferredEntry now s).due ∧
      (s.lastSave.toNat : ℤ) + 300 < (deferredEntry now s).due := by
  have hsince := since_toNat hsave
  have hle := UInt64.le_iff_toNat_le.mp hrate
  have hconst : (300 : UInt64).toNat = 300 := rfl
  have hdelay := (deferred_delay hdmg).1
  have hdue : (deferredEntry now s).due =
      now.toNat + (dmgRate.toNat - staticCastInt (now - s.lastDmg)) := rfl
  omega

theorem immediate_owes (now : UInt64) (s : State) :
    Owes (immediateEntry now s) 0
      { s with
        lastSave := now,
        timer := s.timer.delayExecute .immediateSave (now.toNat + 0) } :=
  .forced (Timer.mem_delayExecute.mpr (.inr rfl)) (by
    simp [immediateEntry, Timer.entry])

/-- A call of `SaveWorld` made while a callback owes a save. -/
theorem Owes.saveCase {now : UInt64} {forceWaitOnSave : Bool} {m t : State}
    {o : List Effect} {d : Delayed Callback} {rank : ℕ} (h : Owes d rank m)
    (hcase : SaveCase now forceWaitOnSave m o t) :
    .saveWorldOriginal forceWaitOnSave ∈ o ∨
      (∃ d' rank', rank' < rank ∧ Owes d' rank' t) ∨ Owes d rank t := by
  cases hcase with
  | execute => exact .inl (List.mem_singleton.mpr rfl)
  | drop => exact .inr (.inr h)
  | defer =>
      exact .inr (.inr (h.keep rfl (Timer.mem_delayExecute.mpr (.inl h.mem))))
  | grant =>
      cases h with
      | forced hmem hcallback =>
          exact .inr (.inr
            (.forced (Timer.mem_delayExecute.mpr (.inl hmem)) hcallback))
      | deferred =>
          exact .inr (.inl ⟨_, 0, by omega, immediate_owes now m⟩)

/-- The call which the callback makes itself. -/
theorem Owes.invoke {now : UInt64} {s t : State} {o : List Effect}
    {d : Delayed Callback} {rank : ℕ} (h : Owes d rank s)
    (hsave : s.lastSave ≤ now) (hdue : d.due ≤ now.toNat)
    (hcase : SaveCase now false (s.called d) o t) :
    .saveWorldOriginal false ∈ o ∨
      ∃ d' rank', rank' < rank ∧ Owes d' rank' t := by
  cases h with
  | forced hmem hcallback =>
      left
      have hforce : (s.called d).pendingForceSave = true := by
        obtain ⟨id, callback, due⟩ := d
        cases callback with
        | playerSpawn | immediateSave => rfl
        | deferredSave => exact (hcallback rfl).elim
      have hunlimited : ¬ Limited now false (s.called d) := by
        intro hlimited
        cases hforce.symm.trans hlimited.notPendingForce
      rw [saveCase_unlimited hcase hunlimited]
      exact List.mem_singleton.mpr rfl
  | deferred hmem hcallback hrank =>
      have hpending : (s.called d).hasPendingSave = false := by
        simp [State.called, hcallback, Callback.assign]
      have hcalled := called_lastSave s d
      rw [← hcalled] at hsave hrank ⊢
      cases hcase with
      | execute => exact .inl (List.mem_singleton.mpr rfl)
      | drop hlimited hdrop =>
          have hrate := hdrop.resolve_left (by simp [hpending])
          have hsince := since_toNat hsave
          have hlt := UInt64.lt_iff_toNat_lt.mp hrate
          have hconst : (300 : UInt64).toNat = 300 := rfl
          omega
      | defer hlimited hdmg hrate =>
          obtain ⟨hlater, hlate⟩ := deferredEntry_late hsave hdmg hrate
          have hsoon := deferredEntry_due hsave hlimited.recent hdmg
          refine .inr ⟨deferredEntry now (s.called d), _, ?_,
            .deferred (Timer.mem_delayExecute.mpr (.inr rfl)) rfl hlate⟩
          dsimp only
          omega
      | grant => exact .inr ⟨_, 0, by omega, immediate_owes now _⟩

theorem hook_ne_fire {hook : Hook} (h : hook.saveArgument = none)
    (d : Delayed Callback) : hook ≠ .fire d := by
  rintro rfl
  cases h

/-- Only its own firing settles what a callback owes without a save. -/
theorem Owes.step {s t : State} {e : Event} {o : List Effect}
    {d : Delayed Callback} {rank : ℕ} (h : Owes d rank s)
    (hsave : s.lastSave ≤ e.now)
    (hdue : e.hook = .fire d → d.due ≤ e.now.toNat)
    (hstep : WorldSave.step contains s e = some (o, t)) :
    Executes ⟨s, e, o, t⟩ ∨ (∃ d' rank', rank' < rank ∧ Owes d' rank' t) ∨
      (Owes d rank t ∧ e.hook ≠ .fire d) := by
  cases transition_of_step hstep with
  | unchanged hhook | damage hhook =>
      exact .inr (.inr ⟨h.keep rfl h.mem, hook_ne_fire hhook d⟩)
  | message msg hmessage =>
      exact .inr (.inr ⟨h.keep rfl h.mem,
        hook_ne_fire (saveArgument_of_message hmessage) d⟩)
  | spawn hhook =>
      exact .inr (.inr ⟨h.keep rfl (Timer.mem_delayExecute.mpr (.inl h.mem)),
        hook_ne_fire hhook d⟩)
  | saveWorld force hhook hcase =>
      rcases h.saveCase hcase with hexecutes | hlower | hkeep
      · exact .inl ⟨force, hexecutes⟩
      · exact .inr (.inl hlower)
      · exact .inr (.inr ⟨hkeep, by simp [hhook]⟩)
  | fire x hhook hmem hcase =>
      by_cases heq : x = d
      · subst heq
        rcases h.invoke hsave (hdue hhook) hcase with hexecutes | hlower
        · exact .inl ⟨false, hexecutes⟩
        · exact .inr (.inl hlower)
      · have hcalled : Owes d rank (s.called x) :=
          h.keep (called_lastSave s x) (mem_called.mpr ⟨Ne.symm heq, h.mem⟩)
        rcases hcalled.saveCase hcase with hexecutes | hlower | hkeep
        · exact .inl ⟨false, hexecutes⟩
        · exact .inr (.inl hlower)
        · exact .inr (.inr ⟨hkeep, by simp [hhook, heq]⟩)

/-! ## What a request leaves behind -/

/-- A set `hasPendingSave` has a callback that owes a save. -/
def PendingOwed (s : State) : Prop :=
  s.hasPendingSave = true → ∃ d rank, Owes d rank s

theorem saveCase_pendingOwed {now : UInt64} {forceWaitOnSave : Bool}
    {m t : State} {o : List Effect} (hsave : m.lastSave ≤ now)
    (hm : PendingOwed m ∨ m.pendingForceSave = true)
    (h : SaveCase now forceWaitOnSave m o t) : PendingOwed t := by
  cases h with
  | execute => exact fun hpending => Bool.noConfusion hpending
  | drop hlimited =>
      exact hm.resolve_right (by simp [hlimited.notPendingForce])
  | defer hlimited hdmg hrate =>
      have hlate := (deferredEntry_late hsave hdmg hrate).2
      exact fun _ => ⟨deferredEntry now m, _,
        .deferred (Timer.mem_delayExecute.mpr (.inr rfl)) rfl hlate⟩
  | grant => exact fun _ => ⟨_, 0, immediate_owes now m⟩

/-- The callback takes the flag with it, or it saves. -/
theorem called_pendingOwed (s : State) (d : Delayed Callback) :
    PendingOwed (s.called d) ∨ (s.called d).pendingForceSave = true := by
  obtain ⟨id, callback, due⟩ := d
  cases callback with
  | deferredSave => exact .inl fun hpending => Bool.noConfusion hpending
  | playerSpawn | immediateSave => exact .inr rfl

theorem run_pendingOwed {history : History} {s : State}
    (h : Run (step contains) init history s) (hclock : ClockMonotone history) :
    PendingOwed s := by
  induction h with
  | nil => exact fun hpending => Bool.noConfusion hpending
  | @snoc history s t e o hrun hstep ih =>
      have hs : PendingOwed s := ih hclock.of_append
      have hsave : s.lastSave ≤ e.now :=
        (run_dated hrun).lastSave_le fun q hq => hclock.le hq
      cases transition_of_step hstep with
      | unchanged => exact hs
      | damage | message =>
          intro hpending
          obtain ⟨d, rank, howes⟩ := hs hpending
          exact ⟨d, rank, howes.keep rfl howes.mem⟩
      | spawn =>
          exact fun _ => ⟨spawnEntry e.now s, 0,
            .forced (Timer.mem_delayExecute.mpr (.inr rfl)) (by
              simp [spawnEntry, Timer.entry])⟩
      | saveWorld forceWaitOnSave hhook hcase =>
          exact saveCase_pendingOwed hsave (.inl hs) hcase
      | fire d hhook hmem hcase =>
          rw [← called_lastSave s d] at hsave
          exact saveCase_pendingOwed hsave (called_pendingOwed s d) hcase

/-- A recorded save, seen from a call of `SaveWorld` which finds it recent. -/
theorem Backed.recent {history : History} {s : State} {now limit : UInt64}
    (hs : Backed history s) (hclock : 1200 ≤ now) (hlimit : limit ≤ 1200)
    (hsave : s.lastSave ≤ now) (hrate : now - s.lastSave < limit) :
    ImmediateOutstanding s ∨ ∃ q ∈ history, Executes q ∧
      now.toNat < q.event.now.toNat + limit.toNat := by
  have hsince := since_toNat hsave
  have hlt := UInt64.lt_iff_toNat_lt.mp hrate
  rcases hs with hzero | hout | ⟨q, hq, hexecutes, hle⟩
  · -- `now - 0` is at least 1200.
    rw [hzero] at hrate
    grind
  · exact .inl hout
  · have hle' := UInt64.le_iff_toNat_le.mp hle
    exact .inr ⟨q, hq, hexecutes, by omega⟩

theorem ImmediateOutstanding.owes {s : State} (h : ImmediateOutstanding s) :
    ∃ d, Owes d 0 s := by
  obtain ⟨d, hd, hcallback⟩ := h
  exact ⟨d, .forced hd (by simp [hcallback])⟩

/-- The call saves, or some callback owes a save, or one has just run. -/
theorem saveCase_served {before : History} {s m t : State} {e : Event}
    {forceWaitOnSave : Bool} {o : List Effect}
    (hclock : 1200 ≤ e.now) (hsave : m.lastSave ≤ e.now)
    (hpending : PendingOwed t) (hbacked : Backed (before ++ [⟨s, e, o, t⟩]) t)
    (h : SaveCase e.now forceWaitOnSave m o t) :
    Executes ⟨s, e, o, t⟩ ∨ (∃ d rank, Owes d rank t) ∨
      ∃ q ∈ before, Executes q ∧
        e.now.toNat < q.event.now.toNat + 300 := by
  cases h with
  | execute => exact .inl ⟨forceWaitOnSave, List.mem_singleton.mpr rfl⟩
  | defer hlimited hdmg hrate =>
      have hlate := (deferredEntry_late hsave hdmg hrate).2
      exact .inr (.inl ⟨deferredEntry e.now m, _,
        .deferred (Timer.mem_delayExecute.mpr (.inr rfl)) rfl hlate⟩)
  | grant => exact .inr (.inl ⟨_, 0, immediate_owes e.now m⟩)
  | drop hlimited hdrop =>
      rcases hdrop with hflag | hrate
      · exact .inr (.inl (hpending hflag))
      · rcases hbacked.recent hclock (by decide) hsave hrate with
          hout | ⟨q, hq, hexecutes, hlt⟩
        · obtain ⟨d, howes⟩ := hout.owes
          exact .inr (.inl ⟨d, 0, howes⟩)
        · rcases List.mem_append.mp hq with hpast | hnow
          · exact .inr (.inr ⟨q, hpast, hexecutes, hlt⟩)
          · rw [List.mem_singleton.mp hnow] at hexecutes
            exact .inl hexecutes

theorem step_served {before : History} {s t : State} {e : Event}
    {o : List Effect} (hclock : 1200 ≤ e.now) (hsave : s.lastSave ≤ e.now)
    (hpending : PendingOwed t) (hbacked : Backed (before ++ [⟨s, e, o, t⟩]) t)
    (hcall : e.hook.saveArgument ≠ none)
    (h : step contains s e = some (o, t)) :
    Executes ⟨s, e, o, t⟩ ∨ (∃ d rank, Owes d rank t) ∨
      ∃ q ∈ before, Executes q ∧
        e.now.toNat < q.event.now.toNat + 300 := by
  cases transition_of_step h with
  | unchanged hhook | damage hhook | spawn hhook => exact (hcall hhook).elim
  | message msg hmessage =>
      exact (hcall (saveArgument_of_message hmessage)).elim
  | saveWorld force hhook hcase =>
      exact saveCase_served hclock hsave hpending hbacked hcase
  | fire d hhook hmem hcase =>
      rw [← called_lastSave s d] at hsave
      exact saveCase_served hclock hsave hpending hbacked hcase

/-- What the engine promises for ever: a clock which does not go back and
started long ago, and callbacks which run some time after they are due. -/
structure Environment (x : Execution (step contains)) : Prop where
  start : x.state 0 = init
  clock : Monotone fun i => (x.event i).now.toNat
  late : ∀ i, 1200 ≤ (x.event i).now
  notEarly : ∀ i d, (x.event i).hook = .fire d →
    d.due ≤ (x.event i).now.toNat
  fair : ∀ d, x.Fair fun e => e.hook = .fire d

section Environment

variable {x : Execution (step contains)}

theorem Environment.run (hx : Environment x) (i : ℕ) :
    Run (step contains) init (x.history i) (x.state i) := by
  have hrun := x.run i
  rwa [hx.start] at hrun

theorem Environment.clockMonotone (hx : Environment x) (i : ℕ) :
    ClockMonotone (x.history i) := by
  rw [ClockMonotone, Execution.history, List.pairwise_map]
  refine List.pairwise_lt_range.imp ?_
  intro j k hlt
  exact UInt64.le_iff_toNat_le.mpr (hx.clock hlt.le)

theorem Environment.lastSave_le (hx : Environment x) (i : ℕ) :
    (x.state i).lastSave ≤ (x.event i).now := by
  refine (run_dated (hx.run i)).lastSave_le ?_
  intro q hq
  obtain ⟨j, hj, rfl⟩ := x.mem_history.mp hq
  exact UInt64.le_iff_toNat_le.mpr (hx.clock hj.le)

theorem Environment.executes_of_owes (hx : Environment x) {i rank : ℕ}
    {d : Delayed Callback} (h : Owes d rank (x.state i)) :
    ∃ j, i ≤ j ∧ Executes (x.record j) := by
  refine Execution.eventually_of_rank Owes hx.fair ?_ ?_ h
  · intro j d rank howes
    refine ⟨⟨0, .fire d⟩, rfl, ?_⟩
    simp [WorldSave.step, howes.mem]
  · intro j d rank howes
    exact howes.step (hx.lastSave_le j) (hx.notEarly j d) (x.next j)

/-- Every call of `SaveWorld` is followed by a save, or one has run less than
five minutes before. -/
theorem every_request_served (hx : Environment x) {i : ℕ}
    (hcall : (x.event i).hook.saveArgument ≠ none) :
    (∃ j, i ≤ j ∧ Executes (x.record j)) ∨
      ∃ j < i, Executes (x.record j) ∧
        (x.event i).now.toNat < (x.event j).now.toNat + 300 := by
  have hrun := hx.run (i + 1)
  have hpending := run_pendingOwed hrun (hx.clockMonotone (i + 1))
  have hbacked := run_backed hrun
  rw [x.history_succ] at hbacked
  rcases step_served (hx.late i) (hx.lastSave_le i) hpending hbacked hcall
    (x.next i) with hexecutes | ⟨d, rank, howes⟩ | ⟨q, hq, hexecutes, hlt⟩
  · exact .inl ⟨i, le_rfl, hexecutes⟩
  · obtain ⟨j, hj, hexecutes⟩ := hx.executes_of_owes howes
    exact .inl ⟨j, Nat.le_of_succ_le hj, hexecutes⟩
  · obtain ⟨j, hj, rfl⟩ := x.mem_history.mp hq
    exact .inr ⟨j, hj, hexecutes, hlt⟩

end Environment

/-- A save meets boss damage and is deferred, admitted and executed; nothing but
logins follows. -/
def servedRun : Option (History × State) :=
  execute (step fun _ _ => false) init
    [⟨1700000000, .saveWorld true⟩,
      ⟨1700000600, .takeDamage 1 (some 50001)⟩,
      ⟨1700000610, .saveWorld false⟩,
      ⟨1700000660, .fire ⟨0, .deferredSave, 1700000660⟩⟩,
      ⟨1700000660, .fire ⟨1, .immediateSave, 1700000660⟩⟩]

def loginRun : Option (History × State) :=
  execute (step fun _ _ => false) (servedRun.get (by decide)).2
    [⟨1700000660, .preLogin ""⟩]

def served : Execution (step fun _ _ => false) :=
  lasso (servedRun.get (by decide)).1 (loginRun.get (by decide)).1 (by decide)
    (run_of_execute_get (by decide)) (run_of_execute_get (by decide))

theorem served_environment : Environment served where
  start := lasso_state_zero
  clock := monotone_nat_of_le_succ fun i =>
    lassoRecord_neighbours (R := fun q r : Record =>
      q.event.now.toNat ≤ r.event.now.toNat) (by decide) i
  late := lassoRecord_neighbours (R := fun q _ : Record =>
    1200 ≤ q.event.now) (by decide)
  notEarly i d hhook := by
    have hdue : ∀ y ∈ fired (served.record i),
        y.due ≤ (served.event i).now.toNat :=
      lassoRecord_neighbours (R := fun q _ : Record =>
        ∀ y ∈ fired q, y.due ≤ q.event.now.toNat) (by decide) i
    exact hdue d (by simp [fired, Execution.record, hhook])
  fair d := by
    refine lasso_fair_of_disabled
      ⟨(loginRun.get (by decide)).1[0], List.getElem_mem _, ?_⟩
    intro e he
    have hnone : ((loginRun.get (by decide)).1[0]).pre.timer.outstanding =
        [] := by decide
    simp [step, he, hnone]

theorem every_request_served_deferred :
    (∃ j, 2 ≤ j ∧ Executes (served.record j)) ∨
      ∃ j < 2, Executes (served.record j) ∧
        1700000610 < (served.event j).now.toNat + 300 :=
  every_request_served served_environment (i := 2) (by decide)

/-! ## How old a save gets -/

theorem saveCase_age {before : History} {s m t : State} {e : Event}
    {forceWaitOnSave : Bool} {o : List Effect}
    (hclock : 1200 ≤ e.now) (hsave : m.lastSave ≤ e.now)
    (hbacked : Backed (before ++ [⟨s, e, o, t⟩]) t)
    (h : SaveCase e.now forceWaitOnSave m o t) :
    ImmediateOutstanding t ∨ ∃ q ∈ before ++ [⟨s, e, o, t⟩], Executes q ∧
      e.now.toNat < q.event.now.toNat + 1200 := by
  cases h with
  | execute =>
      refine .inr ⟨_, List.mem_append_right _ (List.mem_singleton_self _),
        ⟨forceWaitOnSave, List.mem_singleton.mpr rfl⟩, ?_⟩
      exact Nat.lt_add_of_pos_right (by decide)
  | grant => exact .inl ⟨_, Timer.mem_delayExecute.mpr (.inr rfl), rfl⟩
  | drop hlimited | defer hlimited =>
      exact hbacked.recent hclock UInt64.le_rfl hsave hlimited.recent

/-- After a call of `SaveWorld`, the engine's or a callback's, the latest save is
less than twenty minutes old, or an admitted one is about to run. -/
theorem save_age {history : History} {s : State}
    (h : Run (step contains) init history s) (hclock : ClockMonotone history)
    (hlate : ∀ r ∈ history, 1200 ≤ r.event.now) :
    ∀ before r after, history = before ++ r :: after →
      r.event.hook.saveArgument ≠ none →
        ImmediateOutstanding r.post ∨
          ∃ q ∈ before ++ [r], Executes q ∧
            r.event.now.toNat < q.event.now.toNat + 1200 := by
  rintro before ⟨m, e, o, t⟩ after rfl hcall
  have hnow : 1200 ≤ e.now := hlate ⟨m, e, o, t⟩ (by simp)
  have hbacked : Backed (before ++ [⟨m, e, o, t⟩]) t := run_backed h.upTo
  have hsave : m.lastSave ≤ e.now :=
    (run_dated h.split.1).lastSave_le fun q hq => hclock.le hq
  have hstep : step contains m e = some (o, t) := h.split.2.1
  cases transition_of_step hstep with
  | unchanged hhook | damage hhook | spawn hhook => exact (hcall hhook).elim
  | message msg hmessage =>
      exact (hcall (saveArgument_of_message hmessage)).elim
  | saveWorld forceWaitOnSave hhook hcase =>
      exact saveCase_age hnow hsave hbacked hcase
  | fire d hhook hmem hcase =>
      rw [← called_lastSave m d] at hsave
      exact saveCase_age hnow hsave hbacked hcase

/-- A save admitted within twenty minutes, whose callback is still to come. -/
def ageRun : Option (History × State) :=
  execute (step fun _ _ => false) init
    [⟨1700000000, .saveWorld true⟩,
      ⟨1700000200, .saveWorld false⟩,
      ⟨1700000400, .saveWorld false⟩]

theorem save_age_admitted :
    let history := (ageRun.get (by decide)).1
    ∀ before r after, history = before ++ r :: after →
      r.event.hook.saveArgument ≠ none →
        ImmediateOutstanding r.post ∨
          ∃ q ∈ before ++ [r], Executes q ∧
            r.event.now.toNat < q.event.now.toNat + 1200 :=
  save_age (run_of_execute_get (by decide))
    (by
      unfold ClockMonotone
      decide)
    (by decide)

end SAOmega.WorldSave
