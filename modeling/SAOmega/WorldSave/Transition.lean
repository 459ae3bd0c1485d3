import SAOmega.WorldSave.Model

/-!
# What a hook call can do to the save state

`SaveCase` lists the four outcomes of `SaveWorld` with their guards, and
`Transition` the ways in which a hook call can touch the variables at all.
-/

namespace SAOmega.WorldSave

open SAOmega.Support

/-! ## One call of `SaveWorld` -/

/-- The guard under which `SaveWorld` applies its rate limits. -/
structure Limited (now : UInt64) (forceWaitOnSave : Bool) (s : State) :
    Prop where
  notForced : forceWaitOnSave = false
  notShuttingDown : s.shuttingDown = false
  notPendingForce : s.pendingForceSave = false
  recent : now - s.lastSave < 1200

/-- The log line of a deferred save. -/
def deferredText (now : UInt64) (s : State) : String :=
  "Delaying world save due to boss dmg or last save recently "
    ++ toString now ++ ":" ++ toString (now - s.lastDmg) ++ ":"
    ++ toString (now - s.lastSave)

/-- The entry of the timer for a deferred save. -/
def deferredEntry (now : UInt64) (s : State) : Delayed Callback :=
  s.timer.entry .deferredSave
    (now.toNat + (dmgRate.toNat - staticCastInt (now - s.lastDmg)))

def immediateEntry (now : UInt64) (s : State) : Delayed Callback :=
  s.timer.entry .immediateSave (now.toNat + 0)

inductive SaveCase (now : UInt64) (forceWaitOnSave : Bool) (s : State) :
    List Effect → State → Prop
  | execute
      (hguard : forceWaitOnSave = true ∨ s.shuttingDown = true ∨
        s.pendingForceSave = true ∨ 1200 ≤ now - s.lastSave) :
      SaveCase now forceWaitOnSave s [.saveWorldOriginal forceWaitOnSave]
        { s with
          lastSave := now, pendingForceSave := false, hasPendingSave := false }
  | drop (hlimited : Limited now forceWaitOnSave s)
      (hdrop : s.hasPendingSave = true ∨ now - s.lastSave < 300) :
      SaveCase now forceWaitOnSave s [] s
  | defer (hlimited : Limited now forceWaitOnSave s)
      (hdmg : now - s.lastDmg < 60) (hrate : 300 ≤ now - s.lastSave)
      (hpending : s.hasPendingSave = false) :
      SaveCase now forceWaitOnSave s
        [.logInfo (deferredText now s), .delayExecute (deferredEntry now s)]
        { s with
          hasPendingSave := true,
          timer := s.timer.delayExecute .deferredSave
            (now.toNat + (dmgRate.toNat - staticCastInt (now - s.lastDmg))) }
  | grant (hlimited : Limited now forceWaitOnSave s)
      (hdmg : 60 ≤ now - s.lastDmg) (hrate : 300 ≤ now - s.lastSave) :
      SaveCase now forceWaitOnSave s
        [.sendNotificationToAll (255, 0, 0, 255) 1.1 10
            "Server is performing a world save.",
          .delayExecute (immediateEntry now s)]
        { s with
          lastSave := now,
          timer := s.timer.delayExecute .immediateSave (now.toNat + 0) }

theorem saveCase_of_hookSaveWorld (now : UInt64) (forceWaitOnSave : Bool)
    (s : State) :
    SaveCase now forceWaitOnSave s
      (hookSaveWorld now forceWaitOnSave s).1
      (hookSaveWorld now forceWaitOnSave s).2 := by
  unfold hookSaveWorld
  by_cases hguard : (!forceWaitOnSave && !s.shuttingDown &&
      !s.pendingForceSave && decide (now - s.lastSave < 60 * 20)) = true
  · rw [if_pos hguard]
    simp only [Bool.and_eq_true, Bool.not_eq_true', decide_eq_true_eq]
      at hguard
    obtain ⟨⟨⟨hforce, hshutting⟩, hpendingForce⟩, hrecent⟩ := hguard
    have hlimited : Limited now forceWaitOnSave s :=
      ⟨hforce, hshutting, hpendingForce, hrecent⟩
    by_cases hlimits : (decide (now - s.lastDmg < dmgRate) ||
        decide (now - s.lastSave < saveRate)) = true
    · rw [if_pos hlimits]
      by_cases hdefer : (!s.hasPendingSave &&
          decide (saveRate ≤ now - s.lastSave)) = true
      · rw [if_pos hdefer]
        simp only [Bool.and_eq_true, Bool.not_eq_true', decide_eq_true_eq]
          at hdefer
        have hdmg : now - s.lastDmg < 60 := by
          rcases Bool.or_eq_true_iff.mp hlimits with h | h
          · exact of_decide_eq_true h
          · exact absurd (of_decide_eq_true h) (UInt64.not_lt.mpr hdefer.2)
        exact .defer hlimited hdmg hdefer.2 hdefer.1
      · rw [if_neg hdefer]
        have hdrop : s.hasPendingSave = true ∨ now - s.lastSave < 300 := by
          by_contra hnot
          obtain ⟨hpending, hrate⟩ := not_or.mp hnot
          apply hdefer
          simp only [Bool.and_eq_true, Bool.not_eq_true', decide_eq_true_eq]
          exact ⟨Bool.eq_false_of_not_eq_true hpending, UInt64.not_lt.mp hrate⟩
        exact .drop hlimited hdrop
    · rw [if_neg hlimits]
      simp only [Bool.or_eq_true, decide_eq_true_eq, not_or, UInt64.not_lt]
        at hlimits
      exact .grant hlimited hlimits.1 hlimits.2
  · rw [if_neg hguard]
    apply SaveCase.execute
    simp only [Bool.and_eq_true, Bool.not_eq_true', decide_eq_true_eq,
      not_and, UInt64.not_lt] at hguard
    by_cases hforce : forceWaitOnSave = true
    · exact .inl hforce
    · by_cases hshutting : s.shuttingDown = true
      · exact .inr (.inl hshutting)
      · by_cases hpendingForce : s.pendingForceSave = true
        · exact .inr (.inr (.inl hpendingForce))
        · exact .inr (.inr (.inr (hguard
            ⟨⟨Bool.eq_false_of_not_eq_true hforce,
              Bool.eq_false_of_not_eq_true hshutting⟩,
              Bool.eq_false_of_not_eq_true hpendingForce⟩)))

/-- A deferred save is due between one second and a minute later. -/
theorem deferred_delay {now lastDmg : UInt64} (h : now - lastDmg < 60) :
    1 ≤ dmgRate.toNat - staticCastInt (now - lastDmg) ∧
      dmgRate.toNat - staticCastInt (now - lastDmg) ≤ 60 := by
  have hlt : (now - lastDmg).toNat < 60 := by
    simpa [UInt64.lt_iff_toNat_lt] using h
  have hcast : staticCastInt (now - lastDmg) = (now - lastDmg).toNat := by
    unfold staticCastInt
    apply Int.bmod_eq_of_le
    · omega
    · omega
  have hrate : dmgRate.toNat = 60 := rfl
  rw [hcast, hrate]
  omega

/-! ## One hook call -/

/-- The `forceWaitOnSave` of the `SaveWorld` call which a hook call makes. -/
def Hook.saveArgument : Hook → Option Bool
  | .saveWorld forceWaitOnSave => some forceWaitOnSave
  | .fire _ => some false
  | _ => none

/-- The chat message a hook call carries. -/
def Hook.message : Hook → Option String
  | .broadcast msg => some msg
  | .serverChat msg => some msg
  | _ => none

theorem saveArgument_of_message {hook : Hook} {msg : String}
    (h : hook.message = some msg) : hook.saveArgument = none := by
  cases hook with
  | broadcast | serverChat => rfl
  | takeDamage | preLogin | startNewShooterPlayer | saveWorld | fire => cases h

/-- Effects which neither save nor schedule. -/
def Effect.isInert : Effect → Bool
  | .saveWorldOriginal _ | .saveWorldDisableTransfer | .delayExecute _ => false
  | _ => true

/-- The state in which a callback calls `SaveWorld(false)`. -/
def State.called (s : State) (d : Delayed Callback) : State :=
  d.callback.assign { s with timer := s.timer.remove d }

/-- A callback that fires leaves the timer and assigns the two save flags. -/
theorem called_eq (s : State) (d : Delayed Callback) :
    ∃ hasPendingSave pendingForceSave, s.called d =
      { s with
        hasPendingSave := hasPendingSave
        pendingForceSave := pendingForceSave
        timer := s.timer.remove d } := by
  obtain ⟨id, callback, due⟩ := d
  cases callback with
  | playerSpawn | deferredSave | immediateSave => exact ⟨_, _, rfl⟩

theorem called_lastSave (s : State) (d : Delayed Callback) :
    (s.called d).lastSave = s.lastSave := by
  obtain ⟨_, _, heq⟩ := called_eq s d
  rw [heq]

theorem called_lastDmg (s : State) (d : Delayed Callback) :
    (s.called d).lastDmg = s.lastDmg := by
  obtain ⟨_, _, heq⟩ := called_eq s d
  rw [heq]

theorem called_shuttingDown (s : State) (d : Delayed Callback) :
    (s.called d).shuttingDown = s.shuttingDown := by
  obtain ⟨_, _, heq⟩ := called_eq s d
  rw [heq]

theorem called_timer (s : State) (d : Delayed Callback) :
    (s.called d).timer = s.timer.remove d := by
  obtain ⟨_, _, heq⟩ := called_eq s d
  rw [heq]

theorem mem_called {s : State} {d x : Delayed Callback} :
    x ∈ (s.called d).timer.outstanding ↔
      x ≠ d ∧ x ∈ s.timer.outstanding := by
  rw [called_timer]
  exact Timer.mem_remove

/-- The entry of the timer for a save after a spawn. -/
def spawnEntry (now : UInt64) (s : State) : Delayed Callback :=
  s.timer.entry .playerSpawn (now.toNat + 30)

inductive Transition (contains : String → String → Bool) (s : State)
    (e : Event) : List Effect → State → Prop
  | unchanged {o : List Effect} (hhook : e.hook.saveArgument = none)
      (hmessage : e.hook.message = none)
      (hinert : ∀ x ∈ o, x.isInert = true) : Transition contains s e o s
  | damage (hhook : e.hook.saveArgument = none)
      (hmessage : e.hook.message = none) :
      Transition contains s e [.takeDamageOriginal]
        { s with lastDmg := e.now }
  | message {o : List Effect} {b : Bool} (msg : String)
      (hhook : e.hook.message = some msg)
      (hchat : hookServerChat contains msg s = (o, { s with shuttingDown := b }))
      (hinert : ∀ x ∈ o, x.isInert = true ∨ x = .saveWorldDisableTransfer) :
      Transition contains s e o { s with shuttingDown := b }
  | spawn (hhook : e.hook.saveArgument = none)
      (hmessage : e.hook.message = none)
      (hrecent : e.now - s.lastSave ≤ 480)
      (hpending : s.hasPendingSave = false)
      (hpendingForce : s.pendingForceSave = false) :
      Transition contains s e
        [.startNewShooterPlayerOriginal, .delayExecute (spawnEntry e.now s)]
        { s with
          hasPendingSave := true, pendingForceSave := true,
          timer := s.timer.delayExecute .playerSpawn (e.now.toNat + 30) }
  | saveWorld {o : List Effect} {t : State} (forceWaitOnSave : Bool)
      (hhook : e.hook = .saveWorld forceWaitOnSave)
      (hcase : SaveCase e.now forceWaitOnSave s o t) : Transition contains s e o t
  | fire {o : List Effect} {t : State} (d : Delayed Callback)
      (hhook : e.hook = .fire d) (hmem : d ∈ s.timer.outstanding)
      (hcase : SaveCase e.now false (s.called d) o t) :
      Transition contains s e o t

variable (contains : String → String → Bool)

theorem forwardChat_inert (msg : String) :
    ∀ x ∈ forwardChat contains msg, x.isInert = true := by
  intro x hx
  unfold forwardChat at hx
  split at hx
  · rw [List.mem_singleton.mp hx]
    rfl
  · cases hx

/-- A chat message can only change the shutdown mode. -/
theorem hookServerChat_spec (msg : String) (s : State) :
    (∃ b, (hookServerChat contains msg s).2 = { s with shuttingDown := b }) ∧
      ∀ x ∈ (hookServerChat contains msg s).1,
        x.isInert = true ∨ x = .saveWorldDisableTransfer := by
  have hforward := forwardChat_inert contains msg
  unfold hookServerChat
  split
  · refine ⟨⟨true, rfl⟩, ?_⟩
    intro x hx
    rcases List.mem_cons.mp hx with rfl | hx
    · exact .inr rfl
    · exact .inl (hforward x hx)
  · split
    · refine ⟨⟨true, rfl⟩, ?_⟩
      intro x hx
      rcases List.mem_cons.mp hx with rfl | hx
      · exact .inr rfl
      · exact .inl (hforward x hx)
    · split
      · exact ⟨⟨false, rfl⟩, by simp⟩
      · split
        · exact ⟨⟨true, rfl⟩, fun x hx => .inl (hforward x hx)⟩
        · exact ⟨⟨s.shuttingDown, rfl⟩, fun x hx => .inl (hforward x hx)⟩

theorem transition_of_message (s : State) {e : Event} {msg : String}
    (hhook : e.hook.message = some msg) :
    Transition contains s e (hookServerChat contains msg s).1
      (hookServerChat contains msg s).2 := by
  obtain ⟨⟨b, hb⟩, hinert⟩ := hookServerChat_spec contains msg s
  rw [hb]
  exact .message msg hhook (Prod.ext rfl hb) hinert

variable {contains}

theorem transition_of_step {s t : State} {e : Event} {o : List Effect}
    (h : step contains s e = some (o, t)) : Transition contains s e o t := by
  obtain ⟨now, hook⟩ := e
  cases hook with
  | takeDamage base damageCauser =>
      simp only [step, hookTakeDamage, Option.some.injEq] at h
      split at h
      · cases h
        exact .damage rfl rfl
      · cases h
        exact .unchanged rfl rfl (by simp [Effect.isInert])
  | preLogin errorMessage =>
      simp only [step, hookPreLogin, Option.some.injEq] at h
      split at h
      · cases h
        exact .unchanged rfl rfl (by simp [Effect.isInert])
      · cases h
        exact .unchanged rfl rfl (by simp [Effect.isInert])
  | startNewShooterPlayer playerPawn isFromLogin =>
      simp only [step, hookStartNewShooterPlayer, Option.some.injEq] at h
      split at h
      · cases h
        exact .unchanged rfl rfl (by simp [Effect.isInert])
      next hguard =>
        cases h
        simp only [Bool.or_eq_true, Bool.not_eq_true', decide_eq_true_eq,
          not_or, UInt64.not_lt, Bool.not_eq_true] at hguard
        exact .spawn rfl rfl hguard.1.1.2 hguard.1.2 hguard.2
  | broadcast msg =>
      have hhook : (Event.mk now (.broadcast msg)).hook.message = some msg := rfl
      have hstep := transition_of_message contains s hhook
      simp only [step, hookBroadcast, Option.some.injEq] at h
      rwa [h] at hstep
  | serverChat msg =>
      have hhook : (Event.mk now (.serverChat msg)).hook.message = some msg := rfl
      have hstep := transition_of_message contains s hhook
      simp only [step, Option.some.injEq] at h
      rwa [h] at hstep
  | saveWorld forceWaitOnSave =>
      have hcase := saveCase_of_hookSaveWorld now forceWaitOnSave s
      simp only [step, Option.some.injEq] at h
      rw [h] at hcase
      exact .saveWorld forceWaitOnSave rfl hcase
  | fire d =>
      simp only [step] at h
      split at h
      next hmem =>
        have hcase := saveCase_of_hookSaveWorld now false (s.called d)
        simp only [Callback.invoke, Option.some.injEq] at h
        change hookSaveWorld now false (s.called d) = (o, t) at h
        rw [h] at hcase
        exact .fire d rfl hmem hcase
      next => cases h

/-- A call to which the limits do not apply saves at once. -/
theorem saveCase_unlimited {now : UInt64} {forceWaitOnSave : Bool} {m t : State}
    {o : List Effect} (h : SaveCase now forceWaitOnSave m o t)
    (hnot : ¬ Limited now forceWaitOnSave m) :
    o = [.saveWorldOriginal forceWaitOnSave] := by
  cases h with
  | execute => rfl
  | drop hlimited => exact (hnot hlimited).elim
  | defer hlimited => exact (hnot hlimited).elim
  | grant hlimited => exact (hnot hlimited).elim

/-- The same for a step, in which a callback may make the call from the state
it has left. -/
theorem saveWorldOriginal_of_unlimited {s t : State} {e : Event}
    {o : List Effect} {forceWaitOnSave : Bool}
    (h : step contains s e = some (o, t))
    (hcall : e.hook.saveArgument = some forceWaitOnSave)
    (hnot : ∀ m : State, m.lastSave = s.lastSave →
      m.shuttingDown = s.shuttingDown → ¬ Limited e.now forceWaitOnSave m) :
    o = [.saveWorldOriginal forceWaitOnSave] := by
  cases transition_of_step h with
  | unchanged hhook => cases hhook.symm.trans hcall
  | damage hhook => cases hhook.symm.trans hcall
  | message msg hmessage =>
      cases (saveArgument_of_message hmessage).symm.trans hcall
  | spawn hhook => cases hhook.symm.trans hcall
  | saveWorld force hhook hcase =>
      rw [hhook] at hcall
      cases hcall
      exact saveCase_unlimited hcase (hnot s rfl rfl)
  | fire d hhook hmem hcase =>
      rw [hhook] at hcall
      cases hcall
      exact saveCase_unlimited hcase
        (hnot _ (called_lastSave s d) (called_shuttingDown s d))

/-! ## Histories -/

abbrev Record := Step State Event (List Effect)

/-- The steps of a run, oldest first. -/
abbrev History := List Record

/-- The original `SaveWorld` runs in this step. -/
def Executes (r : Record) : Prop :=
  ∃ forceWaitOnSave, .saveWorldOriginal forceWaitOnSave ∈ r.out

/-- The step schedules the callback. -/
def Schedules (r : Record) (d : Delayed Callback) : Prop :=
  .delayExecute d ∈ r.out

def Effect.scheduled? : Effect → Option (Delayed Callback)
  | .delayExecute d => some d
  | _ => none

/-- The callbacks a step schedules. -/
def scheduled (r : Record) : List (Delayed Callback) :=
  r.out.filterMap Effect.scheduled?

/-- The callback that fires in a step. -/
def fired (r : Record) : List (Delayed Callback) :=
  match r.event.hook with
  | .fire d => [d]
  | _ => []

theorem filterMap_scheduled_eq_nil {o : List Effect}
    (h : ∀ x ∈ o, x.isInert = true ∨ x = .saveWorldDisableTransfer) :
    o.filterMap Effect.scheduled? = [] := by
  apply List.filterMap_eq_nil_iff.mpr
  intro x hx
  cases x with
  | delayExecute d => rcases h _ hx with heq | heq <;> cases heq
  | takeDamageOriginal | setErrorMessage | preLoginOriginal
  | startNewShooterPlayerOriginal | serverChatOriginal
  | saveWorldDisableTransfer | saveWorldOriginal | logInfo
  | sendNotificationToAll => rfl

theorem saveCase_outstanding {now : UInt64} {forceWaitOnSave : Bool}
    {m t : State} {o : List Effect} (h : SaveCase now forceWaitOnSave m o t) :
    (t.timer.outstanding : Multiset (Delayed Callback)) =
      m.timer.outstanding +
        (o.filterMap Effect.scheduled? : List (Delayed Callback)) := by
  cases h with
  | execute | drop => exact (add_zero _).symm
  | defer | grant => exact Timer.coe_delayExecute _ _ _

theorem fired_eq_nil {r : Record} (h : r.event.hook.saveArgument = none) :
    fired r = [] := by
  unfold fired
  split
  next d hd =>
    rw [hd] at h
    cases h
  next => rfl

theorem outstanding_of_quiet {s t : State} {e : Event} {o : List Effect}
    (hhook : e.hook.saveArgument = none) (htimer : t.timer = s.timer)
    (hout : ∀ x ∈ o, x.isInert = true ∨ x = .saveWorldDisableTransfer) :
    (t.timer.outstanding : Multiset (Delayed Callback)) +
        (fired ⟨s, e, o, t⟩ : List (Delayed Callback)) =
      s.timer.outstanding +
        (scheduled ⟨s, e, o, t⟩ : List (Delayed Callback)) := by
  rw [fired_eq_nil hhook, htimer, scheduled, filterMap_scheduled_eq_nil hout]

/-- The timer holds what it has been given and has not run. -/
theorem step_outstanding {s t : State} {e : Event} {o : List Effect}
    (h : step contains s e = some (o, t)) :
    (t.timer.outstanding : Multiset (Delayed Callback)) +
        (fired ⟨s, e, o, t⟩ : List (Delayed Callback)) =
      s.timer.outstanding +
        (scheduled ⟨s, e, o, t⟩ : List (Delayed Callback)) := by
  cases transition_of_step h with
  | unchanged hhook _ hinert =>
      exact outstanding_of_quiet hhook rfl fun x hx => .inl (hinert x hx)
  | damage hhook =>
      exact outstanding_of_quiet hhook rfl (by simp [Effect.isInert])
  | message msg hhook _ hinert =>
      exact outstanding_of_quiet (saveArgument_of_message hhook) rfl hinert
  | spawn hhook =>
      rw [fired_eq_nil hhook, Multiset.coe_nil, add_zero]
      exact Timer.coe_delayExecute _ _ _
  | saveWorld forceWaitOnSave hhook hcase =>
      have hfired : fired ⟨s, e, o, t⟩ = [] := by simp [fired, hhook]
      rw [hfired, Multiset.coe_nil, add_zero]
      exact saveCase_outstanding hcase
  | fire d hhook hmem hcase =>
      have hfired : fired ⟨s, e, o, t⟩ = [d] := by simp [fired, hhook]
      rw [hfired, saveCase_outstanding hcase, called_timer,
        ← Timer.coe_remove hmem, Multiset.coe_singleton, scheduled]
      exact add_right_comm _ _ _

theorem not_executes_of_inert {r : Record}
    (h : ∀ x ∈ r.out, x.isInert = true ∨ x = .saveWorldDisableTransfer) :
    ¬ Executes r := by
  rintro ⟨forceWaitOnSave, hmem⟩
  rcases h _ hmem with heq | heq <;> cases heq

theorem not_schedules_of_inert {r : Record} {d : Delayed Callback}
    (h : ∀ x ∈ r.out, x.isInert = true ∨ x = .saveWorldDisableTransfer) :
    ¬ Schedules r d := by
  intro hmem
  rcases h _ hmem with heq | heq <;> cases heq

/-- The original `SaveWorld` runs only inside of the hook on it, called by the
engine or by a callback. -/
theorem saveCase_of_executes {s t : State} {e : Event} {o : List Effect}
    (h : step contains s e = some (o, t)) (hexecutes : Executes ⟨s, e, o, t⟩) :
    (∃ forceWaitOnSave, e.hook = .saveWorld forceWaitOnSave ∧
        SaveCase e.now forceWaitOnSave s o t) ∨
      ∃ d ∈ s.timer.outstanding, e.hook = .fire d ∧
        SaveCase e.now false (s.called d) o t := by
  cases transition_of_step h with
  | unchanged _ _ hinert =>
      exact (not_executes_of_inert (fun x hx => .inl (hinert x hx))
        hexecutes).elim
  | damage =>
      exact (not_executes_of_inert (by simp [Effect.isInert]) hexecutes).elim
  | message _ _ _ hinert => exact (not_executes_of_inert hinert hexecutes).elim
  | spawn =>
      obtain ⟨force, hmem⟩ := hexecutes
      simp at hmem
  | saveWorld forceWaitOnSave hhook hcase =>
      exact .inl ⟨forceWaitOnSave, hhook, hcase⟩
  | fire d hhook hmem hcase => exact .inr ⟨d, hmem, hhook, hcase⟩

/-- The step assigns `lastSave`: it runs the original `SaveWorld` or admits a
save and leaves it to an immediate callback. -/
def WritesLastSave (r : Record) : Prop :=
  Executes r ∨ ∃ d, Schedules r d ∧ d.callback = .immediateSave

/-- The callbacks which clear `hasPendingSave`. -/
def Callback.clearsPending : Callback → Bool
  | .playerSpawn => true
  | .deferredSave => true
  | .immediateSave => false

end SAOmega.WorldSave
