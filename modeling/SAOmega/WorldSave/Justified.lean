import SAOmega.WorldSave.Requests

/-!
# Every save that runs is justified

`pendingForceSave` lets a call skip all limits.  It is only ever left set while
the callback of the spawn that set it is outstanding; the other callback that
sets it makes a call which clears it at once.
-/

namespace SAOmega.WorldSave

open SAOmega.Support

variable {contains : String → String → Bool}

/-- The readings of the clock do not go back. -/
def ClockMonotone (history : History) : Prop :=
  history.Pairwise fun q r => q.event.now ≤ r.event.now

theorem ClockMonotone.of_append {before after : History}
    (h : ClockMonotone (before ++ after)) : ClockMonotone before :=
  (List.pairwise_append.mp h).1

theorem ClockMonotone.le {before after : History} {q r : Record}
    (h : ClockMonotone (before ++ r :: after)) (hq : q ∈ before) :
    q.event.now ≤ r.event.now :=
  (List.pairwise_append.mp h).2.2 q hq r (by simp)

/-! ## The force flag -/

def SpawnOutstanding (s : State) : Prop :=
  ∃ d ∈ s.timer.outstanding, d.callback = .playerSpawn

/-- A set `pendingForceSave` is explained by an outstanding spawn callback. -/
def ForceExplained (s : State) : Prop :=
  s.pendingForceSave = true → SpawnOutstanding s

/-- A call of `SaveWorld` never leaves the flag set: it is either taken or was
not there. -/
theorem saveCase_pendingForceSave {now : UInt64} {forceWaitOnSave : Bool}
    {s t : State} {o : List Effect}
    (h : SaveCase now forceWaitOnSave s o t) : t.pendingForceSave = false := by
  cases h with
  | execute hguard => rfl
  | drop hlimited => exact hlimited.notPendingForce
  | defer hlimited => exact hlimited.notPendingForce
  | grant hlimited => exact hlimited.notPendingForce

theorem step_forceExplained (s : State) (e : Event) (o : List Effect)
    (t : State) (hs : ForceExplained s)
    (h : step contains s e = some (o, t)) : ForceExplained t := by
  cases transition_of_step h with
  | unchanged => exact hs
  | damage => exact hs
  | message => exact hs
  | spawn => exact fun _ => ⟨_, Timer.mem_delayExecute.mpr (.inr rfl), rfl⟩
  | saveWorld forceWaitOnSave hhook hcase =>
      intro hforce
      simp [saveCase_pendingForceSave hcase] at hforce
  | fire d hhook hmem hcase =>
      intro hforce
      simp [saveCase_pendingForceSave hcase] at hforce

theorem run_forceExplained {history : History} {s : State}
    (h : Run (step contains) init history s) : ForceExplained s :=
  h.invariant step_forceExplained fun hforce => Bool.noConfusion hforce

/-! ## Where an immediate callback comes from -/

/-- The step is a `SaveWorld(false)` call which passed the limits on damage and
rate and left its save to the callback `d`. -/
structure Admitted (q : Record) (d : Delayed Callback) : Prop where
  notForced : q.event.hook.saveArgument = some false
  schedules : Schedules q d
  dmgRate : 60 ≤ q.event.now - q.pre.lastDmg
  saveRate : 300 ≤ q.event.now - q.pre.lastSave

/-- Every outstanding immediate callback was admitted in the past. -/
def ImmediatesAdmitted (history : History) (s : State) : Prop :=
  ∀ d ∈ s.timer.outstanding, d.callback = .immediateSave →
    ∃ q ∈ history, Admitted q d

theorem ImmediatesAdmitted.keep {history : History} {s t : State}
    (hs : ImmediatesAdmitted history s) {r : Record}
    (hnew : ∀ d ∈ t.timer.outstanding, d.callback = .immediateSave →
      d ∈ s.timer.outstanding ∨ Admitted r d) :
    ImmediatesAdmitted (history ++ [r]) t := by
  intro d hd hcallback
  rcases hnew d hd hcallback with hold | hadmitted
  · obtain ⟨q, hq, hadmitted⟩ := hs d hold hcallback
    exact ⟨q, List.mem_append_left _ hq, hadmitted⟩
  · exact ⟨r, by simp, hadmitted⟩

/-- What a call of `SaveWorld` in `m`, reached from `s`, adds to the timer. -/
theorem saveCase_admitted {s m t : State} {e : Event}
    {forceWaitOnSave : Bool} {o : List Effect}
    (hargument : e.hook.saveArgument = some forceWaitOnSave)
    (hdmg : m.lastDmg = s.lastDmg) (hsave : m.lastSave = s.lastSave)
    (h : SaveCase e.now forceWaitOnSave m o t) :
    ∀ d ∈ t.timer.outstanding, d.callback = .immediateSave →
      d ∈ m.timer.outstanding ∨ Admitted ⟨s, e, o, t⟩ d := by
  intro d hd hcallback
  cases h with
  | execute => exact .inl hd
  | drop => exact .inl hd
  | defer => exact .inl (Timer.mem_of_callback_ne hd (by simp [hcallback]))
  | grant hlimited hdmgRate hsaveRate =>
      rcases Timer.mem_delayExecute.mp hd with hold | rfl
      · exact .inl hold
      · refine .inr ⟨?_, ?_, ?_, ?_⟩
        · rw [hargument, hlimited.notForced]
        · exact List.mem_cons_of_mem _ (List.mem_singleton.mpr rfl)
        · rwa [hdmg] at hdmgRate
        · rwa [hsave] at hsaveRate

theorem run_immediatesAdmitted {history : History} {s : State}
    (h : Run (step contains) init history s) :
    ImmediatesAdmitted history s := by
  induction h with
  | nil => simp [ImmediatesAdmitted, init, Timer.empty]
  | @snoc history s t e o _ hstep ih =>
      cases transition_of_step hstep with
      | unchanged => exact ih.keep fun d hd _ => .inl hd
      | damage => exact ih.keep fun d hd _ => .inl hd
      | message => exact ih.keep fun d hd _ => .inl hd
      | spawn =>
          refine ih.keep ?_
          intro d hd hcallback
          exact .inl (Timer.mem_of_callback_ne hd (by simp [hcallback]))
      | saveWorld forceWaitOnSave hhook hcase =>
          exact ih.keep
            (saveCase_admitted (by rw [hhook]; rfl) rfl rfl hcase)
      | fire d hhook hmem hcase =>
          refine ih.keep ?_
          intro x hx hcallback
          rcases saveCase_admitted (by rw [hhook]; rfl) (called_lastDmg s d)
            (called_lastSave s d) hcase x hx hcallback with hold | hadmitted
          · exact .inl (mem_called.mp hold).2
          · exact .inr hadmitted

/-! ## The result -/

/-- The reasons for which the original `SaveWorld` may run. -/
def Justified (before : History) (r : Record) : Prop :=
  r.event.hook.saveArgument = some true ∨
    r.pre.shuttingDown = true ∨
    1200 ≤ r.event.now - r.pre.lastSave ∨
    (∃ d, r.event.hook = .fire d ∧ d.callback = .playerSpawn) ∨
    SpawnOutstanding r.post ∨
    ∃ d, r.event.hook = .fire d ∧ d.callback = .immediateSave ∧
      ∃ q ∈ before, q.event.now ≤ r.event.now ∧ Admitted q d

/-- A call which executes has one of the four guards of the source. -/
theorem saveCase_executes {now : UInt64} {forceWaitOnSave : Bool}
    {s m t : State} {e : Event} {o : List Effect}
    (h : SaveCase now forceWaitOnSave m o t)
    (hexecutes : Executes ⟨s, e, o, t⟩) :
    (forceWaitOnSave = true ∨ m.shuttingDown = true ∨
        m.pendingForceSave = true ∨ 1200 ≤ now - m.lastSave) ∧
      t.timer = m.timer := by
  obtain ⟨force, hmem⟩ := hexecutes
  cases h with
  | execute hguard => exact ⟨hguard, rfl⟩
  | drop => cases hmem
  | defer => simp at hmem
  | grant => simp at hmem

theorem justified_of_saveWorld {before : History} {s t : State} {e : Event}
    {o : List Effect} {forceWaitOnSave : Bool} (hforce : ForceExplained s)
    (hhook : e.hook = .saveWorld forceWaitOnSave)
    (hcase : SaveCase e.now forceWaitOnSave s o t)
    (hexecutes : Executes ⟨s, e, o, t⟩) : Justified before ⟨s, e, o, t⟩ := by
  obtain ⟨hguard, htimer⟩ := saveCase_executes hcase hexecutes
  rcases hguard with hforced | hshutting | hpending | hlate
  · refine .inl ?_
    show e.hook.saveArgument = some true
    rw [hhook, hforced]
    rfl
  · exact .inr (.inl hshutting)
  · obtain ⟨d, hd, hcallback⟩ := hforce hpending
    exact .inr (.inr (.inr (.inr (.inl
      ⟨d, by simpa [htimer] using hd, hcallback⟩))))
  · exact .inr (.inr (.inl hlate))

/-- The call of a deferred callback finds the flag as it was. -/
theorem justified_of_deferred {before : History} {s t : State} {e : Event}
    {o : List Effect} {d : Delayed Callback} (hforce : ForceExplained s)
    (hcallback : d.callback = .deferredSave)
    (hcase : SaveCase e.now false (s.called d) o t)
    (hexecutes : Executes ⟨s, e, o, t⟩) : Justified before ⟨s, e, o, t⟩ := by
  obtain ⟨hguard, htimer⟩ := saveCase_executes hcase hexecutes
  rcases hguard with hforced | hshutting | hpending | hlate
  · cases hforced
  · rw [called_shuttingDown] at hshutting
    exact .inr (.inl hshutting)
  · have hflag : s.pendingForceSave = true := by
      simpa [State.called, hcallback, Callback.assign] using hpending
    obtain ⟨x, hx, hspawn⟩ := hforce hflag
    have hne : x ≠ d := by
      rintro rfl
      rw [hspawn] at hcallback
      cases hcallback
    refine .inr (.inr (.inr (.inr (.inl ⟨x, ?_, hspawn⟩))))
    show x ∈ t.timer.outstanding
    rw [htimer]
    exact mem_called.mpr ⟨hne, hx⟩
  · rw [called_lastSave] at hlate
    exact .inr (.inr (.inl hlate))

theorem justified_of_executes {before after : History} {r : Record}
    {s : State} (h : Run (step contains) init (before ++ r :: after) s)
    (hclock : ClockMonotone (before ++ r :: after)) (hexecutes : Executes r) :
    Justified before r := by
  obtain ⟨hrun, hstep, _⟩ := h.split
  have hforce : ForceExplained r.pre := run_forceExplained hrun
  rcases saveCase_of_executes hstep hexecutes with
    ⟨forceWaitOnSave, hhook, hcase⟩ | ⟨d, hmem, hhook, hcase⟩
  · exact justified_of_saveWorld hforce hhook hcase hexecutes
  · cases hcallback : d.callback with
    | playerSpawn => exact .inr (.inr (.inr (.inl ⟨d, hhook, hcallback⟩)))
    | immediateSave =>
        obtain ⟨q, hq, hadmitted⟩ :=
          run_immediatesAdmitted hrun d hmem hcallback
        exact .inr (.inr (.inr (.inr (.inr
          ⟨d, hhook, hcallback, q, hq, hclock.le hq, hadmitted⟩))))
    | deferredSave =>
        exact justified_of_deferred hforce hcallback hcase hexecutes

/-- Every executed save was asked for with force, in shutdown mode, after
twenty minutes, for a spawn, or by a request that the limits let through. -/
theorem saves_justified {history : History} {s : State}
    (h : Run (step contains) init history s)
    (hclock : ClockMonotone history) :
    (s.pendingForceSave = true →
        ∃ d ∈ s.timer.outstanding, d.callback = .playerSpawn) ∧
      ∀ before r after, history = before ++ r :: after →
        Executes r → Justified before r := by
  refine ⟨run_forceExplained h, ?_⟩
  rintro before r after rfl hexecutes
  exact justified_of_executes h hclock hexecutes

/-- A spawn after a save, a forced save, and the callback of the spawn. -/
def spawnRun : Option (History × State) :=
  execute (step fun _ _ => false) init
    [⟨1700000000, .saveWorld false⟩,
      ⟨1700000100, .startNewShooterPlayer true false⟩,
      ⟨1700000110, .saveWorld false⟩,
      ⟨1700000130, .fire ⟨0, .playerSpawn, 1700000130⟩⟩,
      ⟨1700000430, .saveWorld false⟩,
      ⟨1700000430, .fire ⟨1, .immediateSave, 1700000430⟩⟩]

theorem saves_justified_spawn :
    let history := (spawnRun.get (by decide)).1
    ∀ before r after, history = before ++ r :: after →
      Executes r → Justified before r :=
  (saves_justified (run_of_execute_get (by decide)) (by
    unfold ClockMonotone
    decide)).2

end SAOmega.WorldSave
