import SAOmega.TaskExecutor.Model
import SAOmega.TaskExecutor.ExactlyOnce
import SAOmega.Support.Overwrite

/-!
# Status files

`Plugin/util.cpp` and `Plugin/saomega.cpp`: the game thread leaves the writing
of small files to the plugin's executor, which has two workers.  Executing one
of these tasks is a single overwrite of its file.  `Hook_FEngineLoop_Exit` is cut
where it waits, in the joins of `shutdown()`.
-/

namespace SAOmega.Status

open SAOmega.Support

/-- What the lambda of `writeFile` captures. -/
structure FileWrite where
  file : String
  data : String
deriving DecidableEq

/-- What the lambda of `writeFile` puts into `serverDir + file`. -/
def FileWrite.content (write : FileWrite) : Option String :=
  some (write.data ++ "\n")

/-- The files in `serverDir` by their names. -/
abbrev Files := String → Option String

/-- Where the game thread stands. -/
inductive Phase
  /-- Before `Hook_FEngineLoop_Exit`. -/
  | serving
  /-- In the joins of `shutdown()`. -/
  | joining
  /-- `shutdown()` has returned. -/
  | returned
  /-- An exception out of `shutdown()` has left the hook. -/
  | escaped
  /-- `FEngineLoop_Exit_original` has been called. -/
  | original
deriving DecidableEq

/-- The executor, the files, and the variables of `saomega.cpp` which decide
what is written. -/
structure State where
  executor : TaskExecutor.State FileWrite 2
  files : Files
  exiting : Bool
  shuttingDown : Bool
  lastTickStatus : UInt64
  phase : Phase

def init (files : Files) : State where
  executor := TaskExecutor.init FileWrite 2
  files := files
  exiting := false
  shuttingDown := false
  lastTickStatus := 0
  phase := .serving

/-- The first three and `setShuttingDown` are calls on the game thread, and so
are the three parts of the hook; the rest happens in the workers.  `woken` is
the sleeper `notify_one` picks in the `run` call that the event makes. -/
inductive Event
  /-- `writeFile`, as `Load` calls it with the status "load". -/
  | writeFile (file data : String) (woken : Option (Fin 2))
  | onReady (woken : Option (Fin 2))
  | onTick (now : UInt64) (woken : Option (Fin 2))
  | setShuttingDown (value : Bool)
  /-- `Hook_FEngineLoop_Exit` up to the joins of `shutdown()`. -/
  | exit
  | join
  /-- The rest of `Hook_FEngineLoop_Exit`. -/
  | finish (woken : Option (Fin 2))
  | dispatch (worker : Fin 2)
  | wake (worker : Fin 2)
  | perform (worker : Fin 2)
deriving DecidableEq

inductive Effect
  | executor (x : TaskExecutor.Effect FileWrite 2)
  | logInfo (text : String)
  | fEngineLoopExitOriginal
deriving DecidableEq

/-! ## The functions -/

/-- The files after the tasks that a step of the executor executes. -/
def written (o : List (TaskExecutor.Effect FileWrite 2)) (files : Files) :
    Files :=
  overwrite (fun call => call.task.file) (fun call => call.task.content) files
    (o.filterMap TaskExecutor.Effect.executedCall?)

/-- A step of `taskExecutor`. -/
def executorStep (e : TaskExecutor.Event FileWrite 2) (s : State) :
    Option (List Effect × State) :=
  match TaskExecutor.step s.executor e with
  | some (o, executor) =>
      some (o.map .executor,
        { s with executor := executor, files := written o s.files })
  | none => none

def writeFile (file data : String) (woken : Option (Fin 2)) (s : State) :
    Option (List Effect × State) :=
  executorStep (.run ⟨file, data⟩ woken none) s

def writeStatus (status : String) (woken : Option (Fin 2)) (s : State) :
    Option (List Effect × State) :=
  writeFile "status.txt" status woken s

def onTick (now : UInt64) (woken : Option (Fin 2)) (s : State) :
    Option (List Effect × State) :=
  if now - s.lastTickStatus > 15 then
    writeFile "tick.txt" (toString now) woken { s with lastTickStatus := now }
  else
    some ([], s)

def onReady (woken : Option (Fin 2)) (s : State) :
    Option (List Effect × State) :=
  match writeStatus "ready" woken s with
  | some (o, t) => some (o ++ [.logInfo "SA Ready"], t)
  | none => none

/-- `Hook_FEngineLoop_Exit`: `exiting = true` and the mutex-protected block of
`taskExecutor.shutdown()`. -/
def hookExit (s : State) : Option (List Effect × State) :=
  executorStep .shutdown { s with exiting := true, phase := .joining }

/-- The joins of `taskExecutor.shutdown()` inside of `Hook_FEngineLoop_Exit`. -/
def hookJoin (s : State) : Option (List Effect × State) :=
  match executorStep .join s with
  | some (o, t) =>
      if .executor .shutdownReturned ∈ o then
        some (o, { t with phase := .returned })
      else if .executor .shutdownThrew ∈ o then
        some (o, { t with phase := .escaped })
      else
        some (o, t)
  | none => none

/-- The status which `Hook_FEngineLoop_Exit` writes. -/
def exitStatus (shuttingDown : Bool) : String :=
  if shuttingDown then "cleanshutdown" else "unexpectedshutdown"

/-- `Hook_FEngineLoop_Exit` after `taskExecutor.shutdown()`. -/
def hookFinish (woken : Option (Fin 2)) (s : State) :
    Option (List Effect × State) :=
  match writeStatus (exitStatus s.shuttingDown) woken s with
  | some (o, t) =>
      some (o ++ [.fEngineLoopExitOriginal], { t with phase := .original })
  | none => none

/-- The engine may still tick while it exits; the other calls on the game
thread come before the hook. -/
def step (s : State) : Event → Option (List Effect × State)
  | .writeFile file data woken =>
      if s.phase = .serving then writeFile file data woken s else none
  | .onReady woken => if s.phase = .serving then onReady woken s else none
  | .onTick now woken =>
      if s.phase = .serving ∨ s.phase = .original then onTick now woken s
      else none
  | .setShuttingDown value =>
      if s.phase = .serving then some ([], { s with shuttingDown := value })
      else none
  | .exit => if s.phase = .serving then hookExit s else none
  | .join => if s.phase = .joining then hookJoin s else none
  | .finish woken => if s.phase = .returned then hookFinish woken s else none
  | .dispatch w => executorStep (.dispatch w) s
  | .wake w => executorStep (.wake w) s
  | .perform w => executorStep (.perform w none) s

end SAOmega.Status
