import SAOmega.WorldSave.FinalSave

/-!
# The shutdown mode

While `shuttingDown` is set nobody logs in and every save runs at once.  Only
one kind of message takes the server out of this mode.
-/

namespace SAOmega.WorldSave

open SAOmega.Support

variable (contains : String → String → Bool)

/-- The message cancels the shutdown and does not announce the last minute. -/
def LeavesShutdown (r : Record) : Prop :=
  ∃ msg, r.event.hook.message = some msg ∧ cancels contains msg = true ∧
    announcesMinute contains msg = false

variable {contains}

/-- A message finds the flag set and leaves it set unless it cancels. -/
theorem chatCase_sticky {msg : String} {o : List Effect} {b : Bool}
    (h : ChatCase contains msg true o b)
    (hmsg : ¬ (cancels contains msg = true ∧
      announcesMinute contains msg = false)) : b = true := by
  cases h with
  | save => rfl
  | cancel hminute _ hcancels => exact (hmsg ⟨hcancels, hminute⟩).elim
  | require => rfl
  | keep => rfl

theorem step_sticky {s t : State} {e : Event} {o : List Effect}
    (h : step contains s e = some (o, t)) (hs : s.shuttingDown = true)
    (hstays : ¬ LeavesShutdown contains ⟨s, e, o, t⟩) :
    t.shuttingDown = true := by
  cases hmessage : e.hook.message with
  | none => exact (quiet_of_step h hmessage).1.trans hs
  | some msg =>
      have hcase := chatCase_of_step h hmessage
      rw [hs] at hcase
      apply chatCase_sticky hcase
      rintro ⟨hcancels, hminute⟩
      exact hstays ⟨msg, hmessage, hcancels, hminute⟩

theorem run_sticky {s t : State} {history : History}
    (h : Run (step contains) s history t) (hs : s.shuttingDown = true)
    (hstays : ∀ x ∈ history, ¬ LeavesShutdown contains x) :
    t.shuttingDown = true := by
  induction h with
  | nil => exact hs
  | snoc _ hstep ih =>
      have hpast := ih fun x hx => hstays x (List.mem_append_left _ hx)
      exact step_sticky hstep hpast (hstays _ (by simp))

/-! ## What the mode does -/

theorem preLogin_out {s t : State} {now : UInt64} {o : List Effect}
    {errorMessage : String}
    (h : step contains s ⟨now, .preLogin errorMessage⟩ = some (o, t)) :
    o = if s.shuttingDown then [.setErrorMessage shuttingDownMsg]
      else [.preLoginOriginal errorMessage] := by
  simp only [step, hookPreLogin, Option.some.injEq] at h
  split at h
  next hflag =>
    cases h
    rw [if_pos hflag]
  next hflag =>
    cases h
    rw [if_neg hflag]

/-- From the step that sets the flag to the message that takes it back, a login
is refused and a call of `SaveWorld` saves; without the flag a login is passed
on as it is. -/
theorem shutdown_mode_effective {history : History} {s : State}
    (h : Run (step contains) init history s) :
    (∀ before q between r after,
      history = before ++ q :: between ++ r :: after →
        q.post.shuttingDown = true →
          (∀ x ∈ between, ¬ LeavesShutdown contains x) →
            (∀ errorMessage, r.event.hook = .preLogin errorMessage →
              r.out = [.setErrorMessage shuttingDownMsg]) ∧
            ∀ forceWaitOnSave,
              r.event.hook.saveArgument = some forceWaitOnSave →
                r.out = [.saveWorldOriginal forceWaitOnSave]) ∧
      ∀ (m t : State) (now : UInt64) (errorMessage : String) (o : List Effect),
        m.shuttingDown = false →
          step contains m ⟨now, .preLogin errorMessage⟩ = some (o, t) →
            o = [.preLoginOriginal errorMessage] := by
  constructor
  · rintro before q between r after rfl hset hstays
    obtain ⟨hrun, hstep, _⟩ := h.split
    have hflag : r.pre.shuttingDown = true :=
      run_sticky hrun.split.2.2 hset hstays
    constructor
    · intro errorMessage hhook
      have hlogin : step contains r.pre ⟨r.event.now, .preLogin errorMessage⟩ =
          some (r.out, r.post) := by
        rw [← hhook]
        exact hstep
      simpa only [hflag, if_true] using preLogin_out hlogin
    · intro forceWaitOnSave hcall
      apply saveWorldOriginal_of_unlimited hstep hcall
      intro m _ hmode hlimited
      have hoff := hmode.symm.trans hlimited.notShuttingDown
      cases hflag.symm.trans hoff
  · intro m t now errorMessage o hflag hlogin
    simpa [hflag] using preLogin_out hlogin

/-- The last minute is announced; a login, a save and the announcement of the
save follow. -/
def minuteRun : Option (History × State) :=
  execute (step isText) init
    [⟨1700000000, .broadcast "will shutdown in 1 minute"⟩,
      ⟨1700000010, .preLogin ""⟩,
      ⟨1700000020, .saveWorld false⟩,
      ⟨1700000060, .serverChat
        "Server is about to shutdown, performing a world save"⟩]

theorem shutdown_mode_effective_minute :
    let history := (minuteRun.get (by decide)).1
    ∀ before q between r after,
      history = before ++ q :: between ++ r :: after →
        q.post.shuttingDown = true →
          (∀ x ∈ between, ¬ LeavesShutdown isText x) →
            (∀ errorMessage, r.event.hook = .preLogin errorMessage →
              r.out = [.setErrorMessage shuttingDownMsg]) ∧
            ∀ forceWaitOnSave,
              r.event.hook.saveArgument = some forceWaitOnSave →
                r.out = [.saveWorldOriginal forceWaitOnSave] :=
  (shutdown_mode_effective (run_of_execute_get (by decide))).1

end SAOmega.WorldSave
