import SAOmega.WorldSave.Justified
import SAOmega.Support.Since

/-!
# What `hasPendingSave` records

The save branch of `SaveWorld` clears `hasPendingSave` and has no way to cancel
the callback that set it.  The callbacks scheduled before the last executed
save are therefore out of the account; of the others the flag is exact.
-/

namespace SAOmega.WorldSave

open SAOmega.Support

variable {contains : String → String → Bool}

/-! ## Callbacks scheduled since the last save -/

/-- The callback was scheduled and the original `SaveWorld` has not run since. -/
def Fresh (history : History) (d : Delayed Callback) : Prop :=
  Since (fun x => ¬ Executes x) (fun q => Schedules q d) history

theorem fresh_of_schedules (history : History) {r : Record}
    {d : Delayed Callback} (h : Schedules r d) : Fresh (history ++ [r]) d :=
  since_snoc.mpr (.inl h)

/-- What one more step makes of an earlier callback. -/
theorem fresh_snoc_iff {history : History} {r : Record} {d : Delayed Callback}
    (hr : ¬ Schedules r d) :
    Fresh (history ++ [r]) d ↔ ¬ Executes r ∧ Fresh history d := by
  unfold Fresh
  rw [since_snoc, and_comm, or_iff_right hr]

/-- A step which only schedules new callbacks leaves the others as they are. -/
theorem fresh_snoc_of_notMem {history : History} {r : Record}
    {outstanding : List (Delayed Callback)} (hexecutes : ¬ Executes r)
    (hnew : ∀ d, Schedules r d → d ∉ outstanding)
    {d : Delayed Callback} (hd : d ∈ outstanding) :
    Fresh (history ++ [r]) d ↔ Fresh history d := by
  rw [fresh_snoc_iff fun hschedules => hnew d hschedules hd]
  exact and_iff_right hexecutes

/-- An outstanding callback which will clear `hasPendingSave` and was scheduled
since the last executed save. -/
structure Pending (fresh : Delayed Callback → Prop) (s : State)
    (d : Delayed Callback) : Prop where
  outstanding : d ∈ s.timer.outstanding
  clears : d.callback.clearsPending = true
  fresh : fresh d

/-! ## Times -/

/-- No callback that clears the flag is left outstanding four minutes after it
was due. -/
def OnTime (history : History) : Prop :=
  ∀ r ∈ history, ∀ d ∈ r.pre.timer.outstanding,
    d.callback.clearsPending = true → (r.event.now.toNat : ℤ) < d.due + 240

/-- The clock reading of the last save and the due times come from the past. -/
structure Dated (history : History) (s : State) : Prop where
  lastSave : s.lastSave = 0 ∨ ∃ q ∈ history, s.lastSave = q.event.now
  due : ∀ d ∈ s.timer.outstanding, d.callback.clearsPending = true →
    ∃ q ∈ history, d.due ≤ q.event.now.toNat + 60

/-! ## The record -/

/-- `hasPendingSave` is exact for the fresh callbacks; the stale ones are due
within a minute of the last save. -/
structure FlagRecord (fresh : Delayed Callback → Prop) (s : State) : Prop where
  flag : s.hasPendingSave = true ↔ ∃ d, Pending fresh s d
  unique : ∀ d x, Pending fresh s d → Pending fresh s x → d = x
  force : ∀ d, Pending fresh s d → d.callback = .playerSpawn →
    s.pendingForceSave = true
  alone : ∀ d, Pending fresh s d → d.callback = .deferredSave →
    ∀ x ∈ s.timer.outstanding, x.callback.clearsPending = true → fresh x
  stale : ∀ x ∈ s.timer.outstanding, x.callback.clearsPending = true →
    ¬ fresh x → x.due ≤ s.lastSave.toNat + 60

variable {fresh fresh' : Delayed Callback → Prop}

/-- A step which leaves the flags and the clearing callbacks alone. -/
theorem FlagRecord.keep {s t : State} (hs : FlagRecord fresh s)
    (hflag : t.hasPendingSave = s.hasPendingSave)
    (hforce : t.pendingForceSave = s.pendingForceSave)
    (hsave : s.lastSave ≤ t.lastSave)
    (hout : ∀ d, d.callback.clearsPending = true →
      (d ∈ t.timer.outstanding ↔ d ∈ s.timer.outstanding))
    (hfresh : ∀ d ∈ s.timer.outstanding, d.callback.clearsPending = true →
      (fresh' d ↔ fresh d)) : FlagRecord fresh' t := by
  have hpending : ∀ d, Pending fresh' t d ↔ Pending fresh s d := by
    intro d
    constructor
    · rintro ⟨hd, hclears, hnew⟩
      have hold := (hout d hclears).mp hd
      exact ⟨hold, hclears, (hfresh d hold hclears).mp hnew⟩
    · rintro ⟨hd, hclears, hold⟩
      exact ⟨(hout d hclears).mpr hd, hclears, (hfresh d hd hclears).mpr hold⟩
  constructor
  · simp only [hflag, hpending, hs.flag]
  · intro d x hd hx
    exact hs.unique d x ((hpending d).mp hd) ((hpending x).mp hx)
  · intro d hd hcallback
    rw [hforce]
    exact hs.force d ((hpending d).mp hd) hcallback
  · intro d hd hcallback x hx hclears
    have hold := (hout x hclears).mp hx
    apply (hfresh x hold hclears).mpr
    exact hs.alone d ((hpending d).mp hd) hcallback x hold hclears
  · intro x hx hclears hnot
    have hold := (hout x hclears).mp hx
    have hdue := hs.stale x hold hclears
      fun hx' => hnot ((hfresh x hold hclears).mpr hx')
    have hle := UInt64.le_iff_toNat_le.mp hsave
    omega

/-- A step which sets the flag and schedules a clearing callback. -/
theorem FlagRecord.schedule {s : State} (hs : FlagRecord fresh s)
    {callback : Callback} {due : ℤ} {b : Bool}
    (hflag : s.hasPendingSave = false)
    (hclears : callback.clearsPending = true)
    (hspawn : callback = .playerSpawn → b = true)
    (hdeferred : callback = .deferredSave → ∀ x ∈ s.timer.outstanding,
      x.callback.clearsPending = true → fresh x)
    (hnew : fresh' (s.timer.entry callback due))
    (hfresh : ∀ d ∈ s.timer.outstanding, fresh' d ↔ fresh d) :
    FlagRecord fresh'
      { s with
        hasPendingSave := true, pendingForceSave := b,
        timer := s.timer.delayExecute callback due } := by
  have hnone : ∀ d, ¬ Pending fresh s d := by
    intro d hd
    have hset := hs.flag.mpr ⟨d, hd⟩
    simp [hflag] at hset
  have honly : ∀ d, Pending fresh'
      { s with
        hasPendingSave := true, pendingForceSave := b,
        timer := s.timer.delayExecute callback due } d →
      d = s.timer.entry callback due := by
    rintro d ⟨hd, hd', hd''⟩
    rcases Timer.mem_delayExecute.mp hd with hold | hentry
    · exact (hnone d ⟨hold, hd', (hfresh d hold).mp hd''⟩).elim
    · exact hentry
  constructor
  · refine ⟨fun _ => ⟨_, Timer.mem_delayExecute.mpr (.inr rfl), hclears, hnew⟩,
      fun _ => rfl⟩
  · intro d x hd hx
    rw [honly d hd, honly x hx]
  · intro d hd hcallback
    rw [honly d hd] at hcallback
    exact hspawn hcallback
  · intro d hd hcallback x hx hx'
    rw [honly d hd] at hcallback
    rcases Timer.mem_delayExecute.mp hx with hold | rfl
    · exact (hfresh x hold).mpr (hdeferred hcallback x hold hx')
    · exact hnew
  · intro x hx hx' hnot
    rcases Timer.mem_delayExecute.mp hx with hold | rfl
    · exact hs.stale x hold hx' fun h => hnot ((hfresh x hold).mpr h)
    · exact (hnot hnew).elim

/-- After an executed save nothing is fresh. -/
theorem FlagRecord.reset {s : State} (hflag : s.hasPendingSave = false)
    (hfresh : ∀ d ∈ s.timer.outstanding, ¬ fresh d)
    (hdue : ∀ d ∈ s.timer.outstanding, d.callback.clearsPending = true →
      d.due ≤ s.lastSave.toNat + 60) : FlagRecord fresh s := by
  have hnone : ∀ d, ¬ Pending fresh s d := fun d hd =>
    hfresh d hd.outstanding hd.fresh
  constructor
  · simp [hflag, hnone]
  · exact fun d _ hd => (hnone d hd).elim
  · exact fun d hd => (hnone d hd).elim
  · exact fun d hd => (hnone d hd).elim
  · exact fun x hx hclears _ => hdue x hx hclears

/-- A callback that fires leaves the record exact, or forces the save that it
calls for. -/
theorem FlagRecord.called {s : State} (hs : FlagRecord fresh s)
    {d : Delayed Callback} (hd : d ∈ s.timer.outstanding) :
    FlagRecord fresh (s.called d) ∨ (s.called d).pendingForceSave = true := by
  obtain ⟨id, callback, due⟩ := d
  cases callback with
  | playerSpawn => exact .inr rfl
  | immediateSave => exact .inr rfl
  | deferredSave =>
      by_cases hforce : s.pendingForceSave = true
      · exact .inr hforce
      left
      have hdeferred : ∀ x, Pending fresh s x → x.callback = .deferredSave := by
        intro x hx
        cases hcallback : x.callback with
        | deferredSave => rfl
        | playerSpawn => exact (hforce (hs.force x hx hcallback)).elim
        | immediateSave =>
            have hclears := hx.clears
            simp [hcallback, Callback.clearsPending] at hclears
      -- A fresh callback would be deferred, then this one is fresh as well.
      have hnone : ∀ x, ¬ Pending fresh (s.called ⟨id, .deferredSave, due⟩) x := by
        rintro x ⟨hx, hclears, hfresh⟩
        obtain ⟨hne, hx⟩ := mem_called.mp hx
        have hpending : Pending fresh s x := ⟨hx, hclears, hfresh⟩
        have hfired : fresh ⟨id, .deferredSave, due⟩ :=
          hs.alone x hpending (hdeferred x hpending) _ hd rfl
        exact hne (hs.unique x _ hpending ⟨hd, rfl, hfired⟩)
      constructor
      · simp only [hnone, exists_false, iff_false]
        exact Bool.false_ne_true
      · exact fun x _ hx => (hnone x hx).elim
      · exact fun x hx => (hnone x hx).elim
      · exact fun x hx => (hnone x hx).elim
      · intro x hx hclears hnot
        exact hs.stale x (mem_called.mp hx).2 hclears hnot

/-! ## Runs -/

theorem Dated.lastSave_le {history : History} {s : State} {now : UInt64}
    (hs : Dated history s) (hclock : ∀ q ∈ history, q.event.now ≤ now) :
    s.lastSave ≤ now := by
  rcases hs.lastSave with hzero | ⟨q, hq, hsave⟩
  · rw [hzero]
    exact UInt64.zero_le
  · rw [hsave]
    exact hclock q hq

theorem Dated.due_le {history : History} {s : State} {now : UInt64}
    (hs : Dated history s) (hclock : ∀ q ∈ history, q.event.now ≤ now)
    {d : Delayed Callback} (hd : d ∈ s.timer.outstanding)
    (hclears : d.callback.clearsPending = true) :
    d.due ≤ now.toNat + 60 := by
  obtain ⟨q, hq, hdue⟩ := hs.due d hd hclears
  have hle := UInt64.le_iff_toNat_le.mp (hclock q hq)
  omega

theorem Dated.snoc {history : History} {s t : State} {r : Record}
    (hs : Dated history s)
    (hsave : t.lastSave = s.lastSave ∨ t.lastSave = r.event.now)
    (hdue : ∀ d ∈ t.timer.outstanding, d.callback.clearsPending = true →
      d ∈ s.timer.outstanding ∨ d.due ≤ r.event.now.toNat + 60) :
    Dated (history ++ [r]) t := by
  constructor
  · rcases hsave with hsave | hsave
    · rw [hsave]
      rcases hs.lastSave with hzero | ⟨q, hq, hq'⟩
      · exact .inl hzero
      · exact .inr ⟨q, List.mem_append_left _ hq, hq'⟩
    · exact .inr ⟨r, by simp, hsave⟩
  · intro d hd hclears
    rcases hdue d hd hclears with hold | hnew
    · obtain ⟨q, hq, hq'⟩ := hs.due d hold hclears
      exact ⟨q, List.mem_append_left _ hq, hq'⟩
    · exact ⟨r, by simp, hnew⟩

/-- What a call of `SaveWorld` in `m` does to the last save and to the due
times. -/
theorem saveCase_dated {now : UInt64} {forceWaitOnSave : Bool} {m t : State}
    {o : List Effect} (h : SaveCase now forceWaitOnSave m o t) :
    (t.lastSave = m.lastSave ∨ t.lastSave = now) ∧
      ∀ d ∈ t.timer.outstanding, d.callback.clearsPending = true →
        d ∈ m.timer.outstanding ∨ d.due ≤ now.toNat + 60 := by
  cases h with
  | execute => exact ⟨.inr rfl, fun d hd _ => .inl hd⟩
  | drop => exact ⟨.inl rfl, fun d hd _ => .inl hd⟩
  | defer hlimited hdmg =>
      refine ⟨.inl rfl, ?_⟩
      intro d hd _
      rcases Timer.mem_delayExecute.mp hd with hold | rfl
      · exact .inl hold
      · right
        have hdelay := (deferred_delay hdmg).2
        change (now.toNat : ℤ) + (dmgRate.toNat - staticCastInt (now - m.lastDmg)) ≤
          now.toNat + 60
        omega
  | grant =>
      refine ⟨.inr rfl, ?_⟩
      intro d hd hclears
      rcases Timer.mem_delayExecute.mp hd with hold | rfl
      · exact .inl hold
      · cases hclears

theorem run_dated {history : History} {s : State}
    (h : Run (step contains) init history s) : Dated history s := by
  induction h with
  | nil => exact ⟨.inl rfl, by simp [init, Timer.empty]⟩
  | @snoc history s t e o _ hstep ih =>
      cases transition_of_step hstep with
      | unchanged => exact ih.snoc (.inl rfl) fun d hd _ => .inl hd
      | damage => exact ih.snoc (.inl rfl) fun d hd _ => .inl hd
      | message => exact ih.snoc (.inl rfl) fun d hd _ => .inl hd
      | spawn =>
          refine ih.snoc (.inl rfl) ?_
          intro d hd _
          rcases Timer.mem_delayExecute.mp hd with hold | rfl
          · exact .inl hold
          · right
            change (e.now.toNat : ℤ) + 30 ≤ e.now.toNat + 60
            omega
      | saveWorld forceWaitOnSave hhook hcase =>
          obtain ⟨hsave, hdue⟩ := saveCase_dated hcase
          exact ih.snoc hsave hdue
      | fire d hhook hmem hcase =>
          obtain ⟨hsave, hdue⟩ := saveCase_dated hcase
          rw [called_lastSave] at hsave
          refine ih.snoc hsave ?_
          intro x hx hclears
          exact (hdue x hx hclears).imp_left fun h => (mem_called.mp h).2

/-- A call of `SaveWorld` in `m`, in a step from `s`.  A stale callback cannot
be outstanding when a save is deferred: it was due within a minute of the last
save, which is five minutes ago. -/
theorem saveCase_flagRecord {history : History} {s m t : State} {e : Event}
    {forceWaitOnSave : Bool} {o : List Effect}
    (hm : FlagRecord (Fresh history) m ∨ m.pendingForceSave = true)
    (hsave : m.lastSave ≤ e.now)
    (hdue : ∀ d ∈ m.timer.outstanding, d.callback.clearsPending = true →
      d.due ≤ e.now.toNat + 60)
    (htime : ∀ d ∈ m.timer.outstanding, d.callback.clearsPending = true →
      (e.now.toNat : ℤ) < d.due + 240)
    (h : SaveCase e.now forceWaitOnSave m o t) :
    FlagRecord (Fresh (history ++ [⟨s, e, o, t⟩])) t := by
  have hrecord : m.pendingForceSave = false → FlagRecord (Fresh history) m := by
    intro hforce
    exact hm.resolve_right (by simp [hforce])
  cases h with
  | execute hguard =>
      apply FlagRecord.reset
      · rfl
      · intro d hd hfresh
        refine ((fresh_snoc_iff ?_).mp hfresh).1 ⟨forceWaitOnSave, ?_⟩
        · simp [Schedules]
        · exact List.mem_singleton.mpr rfl
      · exact hdue
  | drop hlimited =>
      apply (hrecord hlimited.notPendingForce).keep rfl rfl UInt64.le_rfl
      · exact fun d _ => Iff.rfl
      · intro d hd _
        rw [fresh_snoc_iff (by simp [Schedules])]
        exact and_iff_right (by simp [Executes])
  | defer hlimited hdmg hrate hpending =>
      have hs := hrecord hlimited.notPendingForce
      have hrate' : m.lastSave.toNat + 300 ≤ e.now.toNat := by
        have hle := UInt64.le_iff_toNat_le.mp hrate
        rw [UInt64.toNat_sub_of_le _ _ hsave] at hle
        have hsave' := UInt64.le_iff_toNat_le.mp hsave
        have hconst : (300 : UInt64).toNat = 300 := rfl
        omega
      refine hs.schedule hpending ?_ ?_ ?_ ?_ ?_
      · rfl
      · intro hspawn
        cases hspawn
      · intro _ x hx hclears
        by_contra hstale
        have hlast := hs.stale x hx hclears hstale
        have hlate := htime x hx hclears
        omega
      · exact fresh_of_schedules history (by simp [Schedules, deferredEntry])
      · intro d hd
        refine fresh_snoc_of_notMem ?_ ?_ hd
        · simp [Executes]
        · simp [Schedules, deferredEntry, Timer.entry_notMem]
  | grant hlimited hdmg hrate =>
      refine (hrecord hlimited.notPendingForce).keep rfl rfl hsave ?_ ?_
      · intro d hclears
        refine ⟨fun hd => ?_, fun hd => Timer.mem_delayExecute.mpr (.inl hd)⟩
        apply Timer.mem_of_callback_ne hd
        intro hcallback
        simp [hcallback, Callback.clearsPending] at hclears
      · intro d hd _
        refine fresh_snoc_of_notMem ?_ ?_ hd
        · simp [Executes]
        · simp [Schedules, immediateEntry, Timer.entry_notMem]

theorem FlagRecord.quiet {history : History} {s t : State} {r : Record}
    (hs : FlagRecord (Fresh history) s)
    (hout : ∀ x ∈ r.out, x.isInert = true ∨ x = .saveWorldDisableTransfer)
    (hflag : t.hasPendingSave = s.hasPendingSave)
    (hforce : t.pendingForceSave = s.pendingForceSave)
    (hsave : t.lastSave = s.lastSave) (htimer : t.timer = s.timer) :
    FlagRecord (Fresh (history ++ [r])) t := by
  apply hs.keep hflag hforce
  · rw [hsave]
    exact UInt64.le_rfl
  · intro d _
    rw [htimer]
  · intro d _ _
    rw [fresh_snoc_iff (not_schedules_of_inert hout)]
    exact and_iff_right (not_executes_of_inert hout)

theorem run_flagRecord {history : History} {s : State}
    (h : Run (step contains) init history s) (hclock : ClockMonotone history)
    (htime : OnTime history) : FlagRecord (Fresh history) s := by
  induction h with
  | nil =>
      apply FlagRecord.reset rfl
      · simp [init, Timer.empty]
      · simp [init, Timer.empty]
  | @snoc history s t e o hrun hstep ih =>
      have hs : FlagRecord (Fresh history) s :=
        ih hclock.of_append fun r hr => htime r (List.mem_append_left _ hr)
      have hdated := run_dated hrun
      have hpast : ∀ q ∈ history, q.event.now ≤ e.now :=
        fun q hq => hclock.le hq
      have hsave : s.lastSave ≤ e.now := hdated.lastSave_le hpast
      have hlate := htime ⟨s, e, o, t⟩ (by simp)
      cases transition_of_step hstep with
      | unchanged _ _ hinert =>
          exact hs.quiet (fun x hx => .inl (hinert x hx)) rfl rfl rfl rfl
      | damage =>
          exact hs.quiet (by simp [Effect.isInert]) rfl rfl rfl rfl
      | message _ _ _ hinert => exact hs.quiet hinert rfl rfl rfl rfl
      | spawn _ _ _ hpending =>
          refine hs.schedule hpending rfl (fun _ => rfl) ?_ ?_ ?_
          · intro hdeferred
            cases hdeferred
          · exact fresh_of_schedules history (by simp [Schedules, spawnEntry])
          · intro d hd
            refine fresh_snoc_of_notMem ?_ ?_ hd
            · simp [Executes]
            · simp [Schedules, spawnEntry, Timer.entry_notMem]
      | saveWorld forceWaitOnSave hhook hcase =>
          exact saveCase_flagRecord (.inl hs) hsave
            (fun d hd hclears => hdated.due_le hpast hd hclears) hlate hcase
      | fire d hhook hmem hcase =>
          refine saveCase_flagRecord (hs.called hmem) ?_ ?_ ?_ hcase
          · rwa [called_lastSave]
          · intro x hx hclears
            exact hdated.due_le hpast (mem_called.mp hx).2 hclears
          · intro x hx hclears
            exact hlate x (mem_called.mp hx).2 hclears

/-! ## The result -/

/-- Of the callbacks scheduled since the last executed save, at most one that
clears `hasPendingSave` is outstanding, and one is exactly when the flag is
set. -/
theorem pending_save_exact {history : History} {s : State}
    (h : Run (step contains) init history s) (hclock : ClockMonotone history)
    (htime : OnTime history) :
    (∀ d x, Pending (Fresh history) s d → Pending (Fresh history) s x →
        d = x) ∧
      ((∃ d, Pending (Fresh history) s d) ↔ s.hasPendingSave = true) := by
  have hs := run_flagRecord h hclock htime
  exact ⟨hs.unique, hs.flag.symm⟩

/-- Every callback fires in the second in which it is due. -/
def WhenDue (history : History) : Prop :=
  ∀ r ∈ history, ∀ d ∈ r.pre.timer.outstanding,
    (r.event.now.toNat : ℤ) ≤ d.due ∧
      (r.event.hook = .fire d → d.due ≤ r.event.now.toNat)

/-- The first `calls` of a spawn and another one, a forced save before each. -/
def twoSpawns (calls : ℕ) : Option (History × State) :=
  execute (step fun _ _ => false) init
    ([⟨1700000000, .saveWorld true⟩,
      ⟨1700000001, .startNewShooterPlayer true false⟩,
      ⟨1700000002, .saveWorld true⟩,
      ⟨1700000003, .startNewShooterPlayer true false⟩].take calls)

theorem pending_save_exact_twoSpawns :
    let history := ((twoSpawns 4).get (by decide)).1
    let s := ((twoSpawns 4).get (by decide)).2
    (∀ d x, Pending (Fresh history) s d → Pending (Fresh history) s x →
        d = x) ∧
      ((∃ d, Pending (Fresh history) s d) ↔ s.hasPendingSave = true) :=
  pending_save_exact (run_of_execute_get (by decide))
    (by
      unfold ClockMonotone
      decide)
    (by
      unfold OnTime
      decide)

/-- The second save leaves a callback without the flag, and the second spawn
another callback. -/
theorem pending_save_exact_not_stale :
    (¬ ∀ (contains : String → String → Bool) (history : History) (s : State),
        Run (step contains) init history s → ClockMonotone history →
          WhenDue history →
          ((∃ d ∈ s.timer.outstanding, d.callback.clearsPending = true) ↔
            s.hasPendingSave = true)) ∧
      ¬ ∀ (contains : String → String → Bool) (history : History) (s : State),
        Run (step contains) init history s → ClockMonotone history →
          WhenDue history →
          ∀ d ∈ s.timer.outstanding, ∀ x ∈ s.timer.outstanding,
            d.callback.clearsPending = true →
              x.callback.clearsPending = true → d = x := by
  unfold ClockMonotone WhenDue
  constructor
  · intro hall
    have hthree : Run (step fun _ _ => false) init
        ((twoSpawns 3).get (by decide)).1 ((twoSpawns 3).get (by decide)).2 :=
      run_of_execute_get (by decide)
    exact absurd (hall _ _ _ hthree (by decide) (by decide)) (by decide)
  · intro hall
    have hfour : Run (step fun _ _ => false) init
        ((twoSpawns 4).get (by decide)).1 ((twoSpawns 4).get (by decide)).2 :=
      run_of_execute_get (by decide)
    exact absurd (hall _ _ _ hfour (by decide) (by decide)) (by decide)

end SAOmega.WorldSave
