import SAOmega.WorldSave.Transition
import SAOmega.Support.Since

/-!
# The save of an announced shutdown

Four texts in the chat drive `shuttingDown`, and two of them make the server
save.  A shutdown that the text "Server shutdown required." has opened is the
one the announcement of a world save no longer saves for, since that branch
asks for the flag to be off.
-/

namespace SAOmega.WorldSave

open SAOmega.Support

variable (contains : String → String → Bool)

/-! ## The texts -/

def announcesMinute (msg : String) : Bool :=
  contains msg "will shutdown in 1 minute"

def announcesSave (msg : String) : Bool :=
  contains msg "Server is about to shutdown, performing a world save"

def cancels (msg : String) : Bool :=
  contains msg "no longer shutting down"

def requiresShutdown (msg : String) : Bool :=
  contains msg "Server shutdown required."

/-- What a message does, by its texts and by the flag it finds. -/
inductive ChatCase (msg : String) (shuttingDown : Bool) :
    List Effect → Bool → Prop
  | save (htext : announcesMinute contains msg = true ∨
        (shuttingDown = false ∧ announcesSave contains msg = true)) :
      ChatCase msg shuttingDown
        (.saveWorldDisableTransfer :: forwardChat contains msg) true
  | cancel (hminute : announcesMinute contains msg = false)
      (hsave : shuttingDown = true ∨ announcesSave contains msg = false)
      (hcancels : cancels contains msg = true) :
      ChatCase msg shuttingDown [] false
  | require (hminute : announcesMinute contains msg = false)
      (hopen : shuttingDown = false)
      (hsave : announcesSave contains msg = false)
      (hcancels : cancels contains msg = false)
      (hrequires : requiresShutdown contains msg = true) :
      ChatCase msg shuttingDown (forwardChat contains msg) true
  | keep (hminute : announcesMinute contains msg = false)
      (hcancels : cancels contains msg = false)
      (hkeep : shuttingDown = true ∨ (announcesSave contains msg = false ∧
        requiresShutdown contains msg = false)) :
      ChatCase msg shuttingDown (forwardChat contains msg) shuttingDown

theorem chatCase_of_hookServerChat (msg : String) (s : State) :
    ChatCase contains msg s.shuttingDown (hookServerChat contains msg s).1
      (hookServerChat contains msg s).2.shuttingDown := by
  unfold hookServerChat
  split
  next hminute => exact .save (.inl hminute)
  next hminute =>
    have hminute : announcesMinute contains msg = false :=
      Bool.eq_false_of_not_eq_true hminute
    split
    next hsave =>
      simp only [Bool.and_eq_true, Bool.not_eq_true'] at hsave
      exact .save (.inr hsave)
    next hsave =>
      simp only [Bool.and_eq_true, Bool.not_eq_true', not_and,
        Bool.not_eq_true] at hsave
      split
      next hcancels =>
        refine .cancel hminute ?_ hcancels
        exact (Bool.eq_false_or_eq_true s.shuttingDown).imp_right hsave
      next hcancels =>
        have hcancels : cancels contains msg = false :=
          Bool.eq_false_of_not_eq_true hcancels
        split
        next hrequires =>
          simp only [Bool.and_eq_true, Bool.not_eq_true'] at hrequires
          exact .require hminute hrequires.1 (hsave hrequires.1) hcancels
            hrequires.2
        next hrequires =>
          simp only [Bool.and_eq_true, Bool.not_eq_true', not_and,
            Bool.not_eq_true] at hrequires
          refine .keep hminute hcancels ?_
          rcases Bool.eq_false_or_eq_true s.shuttingDown with hflag | hflag
          · exact .inl hflag
          · exact .inr ⟨hsave hflag, hrequires hflag⟩

/-! ## One step -/

/-- The step calls `SaveWorldDisableTransfer`. -/
def Saves (r : Record) : Prop :=
  .saveWorldDisableTransfer ∈ r.out

theorem saveWorldDisableTransfer_notMem_forwardChat (msg : String) :
    .saveWorldDisableTransfer ∉ forwardChat contains msg := by
  intro hmem
  have hinert := forwardChat_inert contains msg _ hmem
  simp [Effect.isInert] at hinert

variable {contains}

theorem chatCase_of_step {s t : State} {e : Event} {o : List Effect}
    {msg : String} (h : step contains s e = some (o, t))
    (hmessage : e.hook.message = some msg) :
    ChatCase contains msg s.shuttingDown o t.shuttingDown := by
  have hcase := chatCase_of_hookServerChat contains msg s
  obtain ⟨now, hook⟩ := e
  cases hook with
  | broadcast =>
      cases hmessage
      simp only [step, hookBroadcast, Option.some.injEq] at h
      rwa [h] at hcase
  | serverChat =>
      cases hmessage
      simp only [step, Option.some.injEq] at h
      rwa [h] at hcase
  | takeDamage | preLogin | startNewShooterPlayer | saveWorld | fire =>
      cases hmessage

theorem saveCase_quiet {now : UInt64} {forceWaitOnSave : Bool} {m t : State}
    {o : List Effect} (h : SaveCase now forceWaitOnSave m o t) :
    t.shuttingDown = m.shuttingDown ∧ .saveWorldDisableTransfer ∉ o := by
  cases h with
  | execute | drop | defer | grant => simp

/-- Without a message the flag stays and nothing is saved for a shutdown. -/
theorem quiet_of_step {s t : State} {e : Event} {o : List Effect}
    (h : step contains s e = some (o, t)) (hmessage : e.hook.message = none) :
    t.shuttingDown = s.shuttingDown ∧ .saveWorldDisableTransfer ∉ o := by
  cases transition_of_step h with
  | unchanged _ _ hinert =>
      refine ⟨rfl, ?_⟩
      intro hmem
      have hsave := hinert _ hmem
      simp [Effect.isInert] at hsave
  | damage => simp
  | message msg hhook =>
      rw [hhook] at hmessage
      cases hmessage
  | spawn => simp
  | saveWorld forceWaitOnSave hhook hcase => exact saveCase_quiet hcase
  | fire d hhook hmem hcase =>
      obtain ⟨hflag, hsave⟩ := saveCase_quiet hcase
      rw [called_shuttingDown] at hflag
      exact ⟨hflag, hsave⟩

/-! ## Runs -/

/-- `SaveWorldDisableTransfer` has been called since the flag was last off. -/
def SavedSinceOpen (history : History) : Prop :=
  Since (fun x => x.pre.shuttingDown = true) Saves history

variable (contains)

/-- The message announces that the shutdown is at hand. -/
def Announces (r : Record) : Prop :=
  ∃ msg, r.event.hook.message = some msg ∧
    (announcesMinute contains msg = true ∨ announcesSave contains msg = true)

/-- The message finds the flag off and is only the request for a shutdown. -/
def OpensUnsaved (r : Record) : Prop :=
  r.pre.shuttingDown = false ∧ ∃ msg, r.event.hook.message = some msg ∧
    announcesMinute contains msg = false ∧ announcesSave contains msg = false ∧
    cancels contains msg = false ∧ requiresShutdown contains msg = true

/-- A message, if there is one, that neither announces the last minute nor
cancels. -/
def Quiet (r : Record) : Prop :=
  ∀ msg, r.event.hook.message = some msg →
    announcesMinute contains msg = false ∧ cancels contains msg = false

/-- A shutdown has been opened without a save and nothing has happened to it
since. -/
def OpenUnsaved (history : History) : Prop :=
  Since (Quiet contains) (OpensUnsaved contains) history

/-- The world save is announced in a shutdown that was opened without one. -/
def Stranded (history : History) : Prop :=
  ∃ before r after, history = before ++ r :: after ∧
    OpenUnsaved contains before ∧ Quiet contains r ∧
    ∃ msg, r.event.hook.message = some msg ∧ announcesSave contains msg = true

variable {contains}

theorem saved_or_openUnsaved_snoc {history : History} {r : Record}
    (h : SavedSinceOpen history ∨ OpenUnsaved contains history)
    (hflag : r.pre.shuttingDown = true) (hquiet : Quiet contains r) :
    SavedSinceOpen (history ++ [r]) ∨ OpenUnsaved contains (history ++ [r]) := by
  rcases h with hsaved | hopen
  · exact .inl (since_snoc.mpr (.inr ⟨hsaved, hflag⟩))
  · exact .inr (since_snoc.mpr (.inr ⟨hopen, hquiet⟩))

/-- A shutdown in progress has been saved for or is open without a save. -/
theorem run_saved_or_openUnsaved {history : History} {s : State}
    (h : Run (step contains) init history s) (hs : s.shuttingDown = true) :
    SavedSinceOpen history ∨ OpenUnsaved contains history := by
  induction h with
  | nil => cases hs
  | @snoc history s t e o _ hstep ih =>
      cases hmessage : e.hook.message with
      | none =>
          have hflag : s.shuttingDown = true :=
            (quiet_of_step hstep hmessage).1.symm.trans hs
          refine saved_or_openUnsaved_snoc (ih hflag) hflag ?_
          intro msg hmsg
          cases hmessage.symm.trans hmsg
      | some msg =>
          have hcase := chatCase_of_step hstep hmessage
          rw [hs] at hcase
          generalize hflag : s.shuttingDown = b at hcase
          cases hcase with
          | save => exact .inl (since_snoc.mpr (.inl (by simp [Saves])))
          | require hminute hopen hsave hcancels hrequires =>
              refine .inr (since_snoc.mpr (.inl ⟨?_, msg, hmessage, ?_⟩))
              · exact hflag.trans hopen
              · exact ⟨hminute, hsave, hcancels, hrequires⟩
          | keep hminute hcancels =>
              refine saved_or_openUnsaved_snoc (ih hflag) hflag ?_
              intro msg' hmsg
              cases hmessage.symm.trans hmsg
              exact ⟨hminute, hcancels⟩

theorem opensUnsaved_step {s t : State} {e : Event} {o : List Effect}
    (h : step contains s e = some (o, t))
    (hopens : OpensUnsaved contains ⟨s, e, o, t⟩) :
    t.shuttingDown = true ∧ ¬ Saves ⟨s, e, o, t⟩ := by
  obtain ⟨hoff, msg, hmessage, hminute, hsave, hcancels, hrequires⟩ := hopens
  have hcase := chatCase_of_step h hmessage
  rw [show s.shuttingDown = false from hoff] at hcase
  generalize t.shuttingDown = b at hcase
  cases hcase with
  | save htext => simp [hminute, hsave] at htext
  | cancel _ _ htext => cases hcancels.symm.trans htext
  | require => exact ⟨rfl, saveWorldDisableTransfer_notMem_forwardChat _ msg⟩
  | keep _ _ hkeep => simp [hrequires] at hkeep

/-- A quiet step of a shutdown in progress changes nothing. -/
theorem quiet_step {s t : State} {e : Event} {o : List Effect}
    (h : step contains s e = some (o, t)) (hs : s.shuttingDown = true)
    (hquiet : Quiet contains ⟨s, e, o, t⟩) :
    t.shuttingDown = true ∧ ¬ Saves ⟨s, e, o, t⟩ := by
  cases hmessage : e.hook.message with
  | none =>
      obtain ⟨hflag, hsave⟩ := quiet_of_step h hmessage
      exact ⟨hflag.trans hs, hsave⟩
  | some msg =>
      obtain ⟨hminute, hcancels⟩ := hquiet msg hmessage
      have hcase := chatCase_of_step h hmessage
      rw [hs] at hcase
      generalize t.shuttingDown = b at hcase
      cases hcase with
      | save htext =>
          rcases htext with htext | ⟨hopen, _⟩
          · cases hminute.symm.trans htext
          · cases hopen
      | cancel _ _ htext => cases hcancels.symm.trans htext
      | require _ hopen => cases hopen
      | keep => exact ⟨rfl, saveWorldDisableTransfer_notMem_forwardChat _ msg⟩

/-- A shutdown opened without a save is still in progress, and still without
one. -/
theorem run_openUnsaved {history : History} {s : State}
    (h : Run (step contains) init history s)
    (hopen : OpenUnsaved contains history) :
    s.shuttingDown = true ∧ ¬ SavedSinceOpen history := by
  induction h with
  | nil => exact (not_since_nil hopen).elim
  | @snoc history s t e o _ hstep ih =>
      rcases since_snoc.mp hopen with hopens | ⟨hpast, hquiet⟩
      · obtain ⟨hflag, hout⟩ := opensUnsaved_step hstep hopens
        refine ⟨hflag, ?_⟩
        intro hsaved
        rcases since_snoc.mp hsaved with hsaves | ⟨_, hon⟩
        · exact hout hsaves
        · cases hopens.1.symm.trans hon
      · obtain ⟨hflag, hnot⟩ := ih hpast
        obtain ⟨hflag', hout⟩ := quiet_step hstep hflag hquiet
        refine ⟨hflag', ?_⟩
        intro hsaved
        rcases since_snoc.mp hsaved with hsaves | ⟨hsaved, _⟩
        · exact hout hsaves
        · exact hnot hsaved

/-! ## The result -/

/-- Every announcement has its save unless the announced shutdown was opened by
"Server shutdown required." alone. -/
theorem announced_saved_iff {history : History} {s : State}
    (h : Run (step contains) init history s) :
    (∀ before r after, history = before ++ r :: after →
        Announces contains r → r.post.shuttingDown = true →
          SavedSinceOpen (before ++ [r])) ↔
      ¬ Stranded contains history := by
  constructor
  · rintro hall ⟨before, r, after, rfl, hopen, hquiet, msg, hmessage, hsave⟩
    obtain ⟨hflag, _⟩ := run_openUnsaved h.split.1 hopen
    have hpost := (quiet_step h.split.2.1 hflag hquiet).1
    have hsaved : SavedSinceOpen (before ++ [r]) :=
      hall before r after rfl ⟨msg, hmessage, .inr hsave⟩ hpost
    have hstill : OpenUnsaved contains (before ++ [r]) :=
      since_snoc.mpr (.inr ⟨hopen, hquiet⟩)
    exact (run_openUnsaved h.upTo hstill).2 hsaved
  · rintro hstranded before r after rfl ⟨msg, hmessage, htext⟩ hpost
    rcases run_saved_or_openUnsaved h.upTo hpost with hsaved | hopen
    · exact hsaved
    rcases since_snoc.mp hopen with ⟨_, msg', hmessage', hminute, hsave, _⟩ |
      ⟨hpast, hquiet⟩
    · cases hmessage.symm.trans hmessage'
      simp [hminute, hsave] at htext
    · obtain ⟨hminute, _⟩ := hquiet msg hmessage
      have hsave := htext.resolve_left (by simp [hminute])
      exact (hstranded ⟨before, r, after, rfl, hpast, hquiet, msg, hmessage,
        hsave⟩).elim

/-- `contains` on messages which are one of the texts themselves. -/
def isText (msg text : String) : Bool := msg == text

/-- A shutdown that is announced, cancelled and announced once more. -/
def cancelledRun : Option (History × State) :=
  execute (step isText) init
    [⟨1700000000, .broadcast "will shutdown in 1 minute"⟩,
      ⟨1700000030, .serverChat "no longer shutting down"⟩,
      ⟨1700000060, .serverChat
        "Server is about to shutdown, performing a world save"⟩]

theorem announced_saved_iff_cancelled :
    let history := (cancelledRun.get (by decide)).1
    (∀ before r after, history = before ++ r :: after →
        Announces isText r → r.post.shuttingDown = true →
          SavedSinceOpen (before ++ [r])) ↔
      ¬ Stranded isText history :=
  announced_saved_iff (run_of_execute_get (by decide))

/-- A shutdown is required, and then the world save for it is announced. -/
def requiredRun : Option (History × State) :=
  execute (step isText) init
    [⟨1700000000, .serverChat "Server shutdown required."⟩,
      ⟨1700000060, .serverChat
        "Server is about to shutdown, performing a world save"⟩]

theorem announced_saved_not_required :
    ¬ ∀ (history : History) (s : State), Run (step isText) init history s →
      ∀ before r after, history = before ++ r :: after →
        Announces isText r → r.post.shuttingDown = true →
          SavedSinceOpen (before ++ [r]) := by
  intro hall
  have hrun : Run (step isText) init (requiredRun.get (by decide)).1
      (requiredRun.get (by decide)).2 :=
    run_of_execute_get (by decide)
  have hsaved := hall _ _ hrun [_] _ [] rfl ⟨_, rfl, by decide⟩ (by decide)
  obtain ⟨x, hx, hsaves⟩ := hsaved.exists
  have hnone : ∀ x ∈ (requiredRun.get (by decide)).1,
      .saveWorldDisableTransfer ∉ x.out := by decide
  exact hnone x hx hsaves

end SAOmega.WorldSave
