import SAOmega.WorldSave.Pending

/-!
# How far apart saves are

`lastSave` follows the clock.  From it comes how long boss damage can put a save
off, and how soon after a save the next one runs.
-/

namespace SAOmega.WorldSave

open SAOmega.Support

variable {contains : String → String → Bool}

/-! ## The last recorded save -/

theorem step_lastSave {s t : State} {e : Event} {o : List Effect}
    (h : step contains s e = some (o, t)) :
    t.lastSave = s.lastSave ∨ t.lastSave = e.now := by
  cases transition_of_step h with
  | unchanged => exact .inl rfl
  | damage => exact .inl rfl
  | message => exact .inl rfl
  | spawn => exact .inl rfl
  | saveWorld forceWaitOnSave hhook hcase => exact (saveCase_dated hcase).1
  | fire d hhook hmem hcase =>
      have hsave := (saveCase_dated hcase).1
      rwa [called_lastSave] at hsave

/-- A step which runs the original does nothing else, and records it. -/
theorem executed_of_executes {s t : State} {e : Event} {o : List Effect}
    (h : step contains s e = some (o, t)) (hexecutes : Executes ⟨s, e, o, t⟩) :
    (∃ forceWaitOnSave, o = [.saveWorldOriginal forceWaitOnSave]) ∧
      t.lastSave = e.now := by
  have hcase : ∃ m forceWaitOnSave, SaveCase e.now forceWaitOnSave m o t := by
    rcases saveCase_of_executes h hexecutes with
      ⟨force, _, hcase⟩ | ⟨d, _, _, hcase⟩
    · exact ⟨s, force, hcase⟩
    · exact ⟨s.called d, false, hcase⟩
  obtain ⟨m, force, hcase⟩ := hcase
  obtain ⟨force', hmem⟩ := hexecutes
  cases hcase with
  | execute => exact ⟨⟨force, rfl⟩, rfl⟩
  | drop => cases hmem
  | defer => simp at hmem
  | grant => simp at hmem

/-- An executed save is never recorded as older than it is. -/
theorem lastSave_ge_of_executes {before between : History} {q : Record}
    {s : State}
    (h : Run (step contains) init (before ++ q :: between) s)
    (hclock : ClockMonotone (before ++ q :: between)) (hq : Executes q) :
    q.event.now ≤ s.lastSave := by
  induction between using List.reverseRecOn generalizing s with
  | nil =>
      obtain ⟨_, hstep, hpost⟩ := h.of_snoc
      rw [← hpost, (executed_of_executes hstep hq).2]
      exact UInt64.le_rfl
  | append_singleton between r ih =>
      rw [← List.cons_append, ← List.append_assoc] at h hclock
      obtain ⟨hrun, hstep, rfl⟩ := h.of_snoc
      rcases step_lastSave hstep with hsave | hsave
      · rw [hsave]
        exact ih hrun hclock.of_append
      · rw [hsave]
        exact hclock.le (by simp)

/-- The time since the last save, without wrap-around. -/
theorem since_toNat {now last : UInt64} (h : last ≤ now) :
    (now - last).toNat + last.toNat = now.toNat := by
  rw [UInt64.toNat_sub_of_le _ _ h]
  have hle := UInt64.le_iff_toNat_le.mp h
  omega

/-! ## How long a save is put off -/

/-- A set `hasPendingSave` has a callback which is due within 21 minutes of the
last save. -/
def DueSoon (s : State) : Prop :=
  s.hasPendingSave = true → ∃ d ∈ s.timer.outstanding,
    d.callback.clearsPending = true ∧ d.due < s.lastSave.toNat + 1260

theorem DueSoon.later {s t : State} (hs : DueSoon s)
    (hflag : t.hasPendingSave = true → s.hasPendingSave = true)
    (hsave : s.lastSave ≤ t.lastSave)
    (hout : ∀ d ∈ s.timer.outstanding, d ∈ t.timer.outstanding) :
    DueSoon t := by
  intro hpending
  obtain ⟨d, hd, hclears, hdue⟩ := hs (hflag hpending)
  have hle := UInt64.le_iff_toNat_le.mp hsave
  exact ⟨d, hout d hd, hclears, by omega⟩

/-- A deferral happens within 20 minutes of the last save. -/
theorem deferredEntry_due {now : UInt64} {s : State} (hsave : s.lastSave ≤ now)
    (hrecent : now - s.lastSave < 1200) (hdmg : now - s.lastDmg < 60) :
    (deferredEntry now s).due < s.lastSave.toNat + 1260 := by
  have hsince := since_toNat hsave
  have hlt := UInt64.lt_iff_toNat_lt.mp hrecent
  have hconst : (1200 : UInt64).toNat = 1200 := rfl
  have hdelay := (deferred_delay hdmg).2
  change (now.toNat : ℤ) + (dmgRate.toNat - staticCastInt (now - s.lastDmg)) <
    s.lastSave.toNat + 1260
  omega

theorem saveCase_dueSoon {now : UInt64} {forceWaitOnSave : Bool} {m t : State}
    {o : List Effect} (hm : DueSoon m) (hsave : m.lastSave ≤ now)
    (h : SaveCase now forceWaitOnSave m o t) : DueSoon t := by
  cases h with
  | execute => exact fun hpending => Bool.noConfusion hpending
  | drop => exact hm
  | defer hlimited hdmg =>
      intro _
      exact ⟨_, Timer.mem_delayExecute.mpr (.inr rfl), rfl,
        deferredEntry_due hsave hlimited.recent hdmg⟩
  | grant =>
      exact hm.later id hsave fun d hd => Timer.mem_delayExecute.mpr (.inl hd)

theorem run_dueSoon {history : History} {s : State}
    (h : Run (step contains) init history s) (hclock : ClockMonotone history) :
    DueSoon s := by
  induction h with
  | nil => exact fun hpending => Bool.noConfusion hpending
  | @snoc history s t e o hrun hstep ih =>
      have hs : DueSoon s := ih hclock.of_append
      have hsave : s.lastSave ≤ e.now :=
        (run_dated hrun).lastSave_le fun q hq => hclock.le hq
      cases transition_of_step hstep with
      | unchanged => exact hs
      | damage => exact hs
      | message => exact hs
      | spawn _ _ hrecent =>
          intro _
          refine ⟨_, Timer.mem_delayExecute.mpr (.inr rfl), rfl, ?_⟩
          have hsince := since_toNat hsave
          have hle := UInt64.le_iff_toNat_le.mp hrecent
          have hconst : (480 : UInt64).toNat = 480 := rfl
          change (e.now.toNat : ℤ) + 30 < s.lastSave.toNat + 1260
          omega
      | saveWorld forceWaitOnSave hhook hcase =>
          exact saveCase_dueSoon hs hsave hcase
      | fire d hhook hmem hcase =>
          refine saveCase_dueSoon (fun hpending => ?_) ?_ hcase
          · rw [called_lastSave]
            exact called_clearing hs hpending
          · rwa [called_lastSave]

/-- A call of `SaveWorld` defers only from a state which the limits hold back,
and schedules the entry for it. -/
theorem saveCase_of_deferred {now : UInt64} {forceWaitOnSave : Bool}
    {m t : State} {o : List Effect} {d : Delayed Callback}
    (h : SaveCase now forceWaitOnSave m o t) (hmem : .delayExecute d ∈ o)
    (hcallback : d.callback = .deferredSave) :
    d = deferredEntry now m ∧ now - m.lastSave < 1200 ∧ now - m.lastDmg < 60 := by
  cases h with
  | execute => simp at hmem
  | drop => cases hmem
  | defer hlimited hdmg =>
      have heq : d = deferredEntry now m := by simpa using hmem
      exact ⟨heq, hlimited.recent, hdmg⟩
  | grant =>
      have heq : d = immediateEntry now m := by simpa using hmem
      rw [heq] at hcallback
      cases hcallback

theorem deferred_of_schedules {s t : State} {e : Event} {o : List Effect}
    {d : Delayed Callback} (h : step contains s e = some (o, t))
    (hmem : Schedules ⟨s, e, o, t⟩ d) (hcallback : d.callback = .deferredSave) :
    ∃ m : State, m.lastSave = s.lastSave ∧ d = deferredEntry e.now m ∧
      e.now - m.lastSave < 1200 ∧ e.now - m.lastDmg < 60 := by
  cases transition_of_step h with
  | unchanged _ _ hinert =>
      exact (not_schedules_of_inert (fun x hx => .inl (hinert x hx)) hmem).elim
  | damage =>
      exact (not_schedules_of_inert (by simp [Effect.isInert]) hmem).elim
  | message _ _ _ hinert => exact (not_schedules_of_inert hinert hmem).elim
  | spawn =>
      have heq : d = spawnEntry e.now s := by simpa [Schedules] using hmem
      rw [heq] at hcallback
      cases hcallback
  | saveWorld forceWaitOnSave hhook hcase =>
      exact ⟨s, rfl, saveCase_of_deferred hcase hmem hcallback⟩
  | fire x hhook _ hcase =>
      exact ⟨s.called x, called_lastSave s x,
        saveCase_of_deferred hcase hmem hcallback⟩

theorem not_limited_of_late {now : UInt64} {forceWaitOnSave : Bool} {m : State}
    (hlate : m.lastSave.toNat + 1200 ≤ now.toNat) :
    ¬ Limited now forceWaitOnSave m := by
  intro hlimited
  have hle : m.lastSave ≤ now := UInt64.le_iff_toNat_le.mpr (by omega)
  have hsince := since_toNat hle
  have hlt := UInt64.lt_iff_toNat_lt.mp hlimited.recent
  have hconst : (1200 : UInt64).toNat = 1200 := rfl
  omega

/-- A save is deferred by a second to a minute, at most until 21 minutes after
the last recorded one; from 20 minutes on, the next call saves. -/
theorem postponement_bounded {history : History} {s : State}
    (h : Run (step contains) init history s) (hclock : ClockMonotone history) :
    (∀ (now : UInt64) (forceWaitOnSave : Bool) (m : State)
        (d : Delayed Callback),
        .delayExecute d ∈ (hookSaveWorld now forceWaitOnSave m).1 →
          d.callback = .deferredSave →
            1 ≤ d.due - now.toNat ∧ d.due - now.toNat ≤ 60) ∧
      (s.hasPendingSave = true → ∃ d ∈ s.timer.outstanding,
        (d.callback = .deferredSave ∨ d.callback = .playerSpawn) ∧
          d.due < s.lastSave.toNat + 1260) ∧
      ∀ before r after, history = before ++ r :: after →
        (r.event.hook.saveArgument ≠ none →
          r.pre.lastSave.toNat + 1200 ≤ r.event.now.toNat → Executes r) ∧
        ∀ d, Schedules r d → d.callback = .deferredSave →
          d.due < r.pre.lastSave.toNat + 1260 := by
  refine ⟨?_, ?_, ?_⟩
  · intro now forceWaitOnSave m d hmem hcallback
    have hcase := saveCase_of_hookSaveWorld now forceWaitOnSave m
    obtain ⟨rfl, _, hdmg⟩ := saveCase_of_deferred hcase hmem hcallback
    have hdelay := deferred_delay hdmg
    have hdue : (deferredEntry now m).due =
        now.toNat + (dmgRate.toNat - staticCastInt (now - m.lastDmg)) := rfl
    omega
  · intro hpending
    obtain ⟨d, hd, hclears, hdue⟩ := run_dueSoon h hclock hpending
    exact ⟨d, hd, clearsPending_iff.mp hclears, hdue⟩
  · rintro before r after rfl
    obtain ⟨hrun, hstep, _⟩ := h.split
    constructor
    · intro hcall hlate
      obtain ⟨forceWaitOnSave, hforce⟩ := Option.ne_none_iff_exists'.mp hcall
      have hout : r.out = [.saveWorldOriginal forceWaitOnSave] := by
        apply saveWorldOriginal_of_unlimited hstep hforce
        intro m hsave _
        exact not_limited_of_late (by rwa [hsave])
      exact ⟨forceWaitOnSave, by rw [hout]; exact List.mem_singleton.mpr rfl⟩
    · intro d hd hcallback
      have hsave : r.pre.lastSave ≤ r.event.now :=
        (run_dated hrun).lastSave_le fun q hq => hclock.le hq
      obtain ⟨m, hm, rfl, hrecent, hdmg⟩ :=
        deferred_of_schedules hstep hd hcallback
      rw [← hm] at hsave ⊢
      exact deferredEntry_due hsave hrecent hdmg

/-- A request which boss damage defers twice, and which saves after that
although a boss has been hit once more. -/
def bossRun : Option (History × State) :=
  execute (step fun _ _ => false) init
    [⟨1700000000, .saveWorld true⟩,
      ⟨1700001100, .takeDamage 1 (some 50001)⟩,
      ⟨1700001105, .saveWorld false⟩,
      ⟨1700001155, .takeDamage 1 (some 50001)⟩,
      ⟨1700001160, .fire ⟨0, .deferredSave, 1700001160⟩⟩,
      ⟨1700001210, .takeDamage 1 (some 50001)⟩,
      ⟨1700001215, .fire ⟨1, .deferredSave, 1700001215⟩⟩]

theorem postponement_bounded_boss :
    let history := (bossRun.get (by decide)).1
    ∀ before r after, history = before ++ r :: after →
      (r.event.hook.saveArgument ≠ none →
        r.pre.lastSave.toNat + 1200 ≤ r.event.now.toNat → Executes r) ∧
      ∀ d, Schedules r d → d.callback = .deferredSave →
        d.due < r.pre.lastSave.toNat + 1260 :=
  (postponement_bounded (run_of_execute_get (by decide)) (by
    unfold ClockMonotone
    decide)).2.2

/-! ## How soon the next save runs -/

/-- A save admitted after the step `q` is five minutes younger than `q`. -/
theorem admitted_later {before between : History} {q x : Record}
    {d : Delayed Callback} {s : State}
    (h : Run (step contains) init (before ++ q :: between) s)
    (hclock : ClockMonotone (before ++ q :: between)) (hq : Executes q)
    (hx : x ∈ between) (hadmitted : Admitted x d) :
    q.event.now.toNat + 300 ≤ x.event.now.toNat := by
  obtain ⟨early, late, rfl⟩ := List.append_of_mem hx
  rw [← List.cons_append, ← List.append_assoc] at h hclock
  obtain ⟨hrun, _, _⟩ := h.split
  have hsave : q.event.now ≤ x.pre.lastSave :=
    lastSave_ge_of_executes hrun hclock.of_append hq
  have hnow : x.pre.lastSave ≤ x.event.now :=
    (run_dated hrun).lastSave_le fun y hy => hclock.le hy
  have hsince := since_toNat hnow
  have hrate := UInt64.le_iff_toNat_le.mp hadmitted.saveRate
  have hle := UInt64.le_iff_toNat_le.mp hsave
  have hconst : (300 : UInt64).toNat = 300 := rfl
  omega

/-- The reasons for a save soon after an earlier one, to which `before` leads. -/
def SoonJustified (before : History) (r : Record) : Prop :=
  r.event.hook.saveArgument = some true ∨
    r.pre.shuttingDown = true ∨
    (∃ d, r.event.hook = .fire d ∧ d.callback = .playerSpawn) ∨
    SpawnOutstanding r.post ∨
    ∃ d, r.event.hook = .fire d ∧ d.callback = .immediateSave ∧
      ∃ x ∈ before, Admitted x d

/-- Of two saves less than five minutes apart the second one was asked for with
force, in shutdown mode or for a spawn, or had been admitted before the first
one ran. -/
theorem saves_spaced {history : History} {s : State}
    (h : Run (step contains) init history s) (hclock : ClockMonotone history) :
    ∀ before q between r after,
      history = before ++ q :: between ++ r :: after →
        Executes q → Executes r →
          r.event.now.toNat - q.event.now.toNat < 300 →
            SoonJustified before r := by
  rintro before q between r after rfl hq hr hsoon
  obtain ⟨hrun, hstep, _⟩ := h.split
  have hpast : ClockMonotone (before ++ q :: between) := hclock.of_append
  rcases justified_of_executes h hclock hr with
    hforced | hshutting | hlate | hspawn | hspawn |
      ⟨d, hhook, hcallback, x, hx, _, hadmitted⟩
  · exact .inl hforced
  · exact .inr (.inl hshutting)
  · have hsave : q.event.now ≤ r.pre.lastSave :=
      lastSave_ge_of_executes hrun hpast hq
    have hnow : r.pre.lastSave ≤ r.event.now :=
      (run_dated hrun).lastSave_le fun y hy => hclock.le hy
    have hsince := since_toNat hnow
    have hle := UInt64.le_iff_toNat_le.mp hlate
    have hle' := UInt64.le_iff_toNat_le.mp hsave
    have hconst : (1200 : UInt64).toNat = 1200 := rfl
    omega
  · exact .inr (.inr (.inl hspawn))
  · exact .inr (.inr (.inr (.inl hspawn)))
  · refine .inr (.inr (.inr (.inr ⟨d, hhook, hcallback, x, ?_, hadmitted⟩)))
    rcases List.mem_append.mp hx with hbefore | hmem
    · exact hbefore
    rcases List.mem_cons.mp hmem with rfl | hbetween
    · -- A step which runs the original admits nothing.
      obtain ⟨⟨force, hout⟩, _⟩ := executed_of_executes hrun.split.2.1 hq
      have hmem := hadmitted.schedules
      simp [Schedules, hout] at hmem
    · have hfar := admitted_later hrun hpast hq hbetween hadmitted
      have hle := UInt64.le_iff_toNat_le.mp (hclock.le hx)
      omega

/-- A save is admitted, a forced one runs before its callback does. -/
def admittedRun : Option (History × State) :=
  execute (step fun _ _ => false) init
    [⟨1700000000, .saveWorld true⟩,
      ⟨1700000300, .saveWorld false⟩,
      ⟨1700000300, .saveWorld true⟩,
      ⟨1700000300, .fire ⟨0, .immediateSave, 1700000300⟩⟩]

theorem saves_spaced_admitted :
    let history := (admittedRun.get (by decide)).1
    ∀ before q between r after,
      history = before ++ q :: between ++ r :: after →
        Executes q → Executes r →
          r.event.now.toNat - q.event.now.toNat < 300 →
            SoonJustified before r :=
  saves_spaced (run_of_execute_get (by decide)) (by
    unfold ClockMonotone
    decide)

/-- The callback saves in the second of the forced save. -/
theorem saves_spaced_not_periodic :
    ¬ ∀ (contains : String → String → Bool) (history : History) (s : State),
      Run (step contains) init history s → ClockMonotone history →
        ∀ before q between r after,
          history = before ++ q :: between ++ r :: after →
            Executes q → Executes r → (∀ x ∈ between, ¬ Executes x) →
              r.event.now.toNat - q.event.now.toNat < 300 →
                r.event.hook.saveArgument = some true ∨
                  r.pre.shuttingDown = true ∨
                  (∃ d, r.event.hook = .fire d ∧ d.callback = .playerSpawn) ∨
                  ∃ d ∈ r.pre.timer.outstanding, d.callback = .playerSpawn := by
  unfold ClockMonotone
  intro hall
  have hrun : Run (step fun _ _ => false) init
      (admittedRun.get (by decide)).1 (admittedRun.get (by decide)).2 :=
    run_of_execute_get (by decide)
  have hsoon := hall _ _ _ hrun (by decide) [_, _] _ [] _ [] rfl
    ⟨true, by decide⟩ ⟨false, by decide⟩ (by simp) (by decide)
  rcases hsoon with hforced | hshutting | ⟨d, hhook, hcallback⟩ | hspawn
  · exact absurd hforced (by decide)
  · exact absurd hshutting (by decide)
  · cases hhook
    cases hcallback
  · exact absurd hspawn (by decide)

end SAOmega.WorldSave
