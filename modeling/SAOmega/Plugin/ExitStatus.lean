import SAOmega.Plugin.Model

/-!
# What the chat decides

`shuttingDown` is the mode which the messages of the chat have left, whatever
else the server and the workers do in between.  The logins and the status after
the exit both go by it.
-/

namespace SAOmega.Plugin

open SAOmega.Support
open SAOmega.WorldSave (announcesMinute announcesSave cancels requiresShutdown
  isText)
open SAOmega.TaskExecutor (worker0 worker1)

variable (contains : String → String → Bool)

/-! ## The mode of the messages -/

variable {contains}

/-- The last minute is announced and taken back, a shutdown is required, and
the engine takes it back while it exits. -/
def requiredRun : Option (History × State) :=
  execute (step isText) (init fun _ => none)
    [.status (.writeFile "status.txt" "load" none),
      .worldSave ⟨1700000000, .broadcast "will shutdown in 1 minute"⟩,
      .status (.dispatch worker0),
      .worldSave ⟨1700000010, .preLogin ""⟩,
      .worldSave ⟨1700000020, .serverChat "no longer shutting down"⟩,
      .worldSave ⟨1700000030, .preLogin ""⟩,
      .worldSave ⟨1700000040, .serverChat "Server shutdown required."⟩,
      .status (.onTick 1700000041 none), .status .exit,
      .status (.perform worker0), .status (.dispatch worker0),
      .status (.perform worker0), .status (.dispatch worker0),
      .status (.dispatch worker1), .status .join, .status .join, .status .join,
      .status (.finish none),
      .worldSave ⟨1700000050, .serverChat "no longer shutting down"⟩]

end SAOmega.Plugin
