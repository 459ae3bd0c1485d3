import SAOmega.Status.Progress
import SAOmega.WorldSave.ShutdownMode

/-!
# The world saves and the status files together

Both work on `shuttingDown`: the chat hooks of `Plugin/worldsave.cpp` set it, and
`Hook_FEngineLoop_Exit` of `Plugin/saomega.cpp` reads it for the last status.
All hooks run on the game thread: none is called while that one waits in
`shutdown()`, but `FEngineLoop_Exit_original` may call them again.
-/

namespace SAOmega.Plugin

open SAOmega.Support

structure State where
  worldSave : WorldSave.State
  status : Status.State
  /-- `shuttingDown` is one variable. -/
  shared : status.shuttingDown = worldSave.shuttingDown

def init (files : Status.Files) : State where
  worldSave := WorldSave.init
  status := Status.init files
  shared := rfl

inductive Event
  | worldSave (e : WorldSave.Event)
  | status (e : Status.Event)

inductive Effect
  | worldSave (x : WorldSave.Effect)
  | status (x : Status.Effect)
deriving DecidableEq

variable (contains : String → String → Bool)

/-- One hook call or one step of a worker.  While the plugin is loaded, the chat
hooks alone assign `shuttingDown`. -/
def step (s : State) : Event → Option (List Effect × State)
  | .worldSave e =>
      if s.status.phase = .serving ∨ s.status.phase = .original then
        match WorldSave.step contains s.worldSave e with
        | some (o, t) =>
            some (o.map .worldSave,
              { worldSave := t
                status := { s.status with shuttingDown := t.shuttingDown }
                shared := rfl })
        | none => none
      else
        none
  | .status e =>
      if he : e.setsShuttingDown = false then
        match h : Status.step s.status e with
        | some (o, t) =>
            some (o.map .status,
              { worldSave := s.worldSave
                status := t
                shared := (Status.shuttingDown_of_step he h).trans s.shared })
        | none => none
      else
        none

abbrev Record := Step State Event (List Effect)

/-- The steps of a run, oldest first. -/
abbrev History := List Record

/-! ## What a step can do -/

inductive Transition (s : State) : Event → List Effect → State → Prop
  | worldSave {e : WorldSave.Event} {o : List WorldSave.Effect} {t : State}
      (hphase : s.status.phase = .serving ∨ s.status.phase = .original)
      (hstep : WorldSave.step contains s.worldSave e = some (o, t.worldSave))
      (hstatus : t.status =
        { s.status with shuttingDown := t.worldSave.shuttingDown }) :
      Transition s (.worldSave e) (o.map .worldSave) t
  | status {e : Status.Event} {o : List Status.Effect} {t : State}
      (he : e.setsShuttingDown = false)
      (hstep : Status.step s.status e = some (o, t.status))
      (hworldSave : t.worldSave = s.worldSave) :
      Transition s (.status e) (o.map .status) t

variable {contains}

theorem transition_of_step {s t : State} {e : Event} {o : List Effect}
    (h : step contains s e = some (o, t)) : Transition contains s e o t := by
  cases e with
  | worldSave e =>
      simp only [step, Option.ite_none_right_eq_some] at h
      obtain ⟨hphase, h⟩ := h
      split at h
      next o' t' hstep =>
        cases h
        exact .worldSave hphase hstep rfl
      next => cases h
  | status e =>
      simp only [step] at h
      split at h
      next he =>
        split at h
        next o' t' hstep =>
          cases h
          exact .status he hstep rfl
        next => cases h
      next => cases h

end SAOmega.Plugin
