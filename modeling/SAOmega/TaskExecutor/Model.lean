import SAOmega.Support.Run
import Mathlib.Data.Fintype.Basic
import Mathlib.Logic.Function.Basic

/-!
# The task executor

`Helpers/TaskExecutor.cpp` with `n` worker threads.  Every block which holds
`mutex` is one atomic step; a task body runs outside of it in a worker and
inside of it when `run` executes the task inline.  `signal.wait` releases the
mutex and puts the worker to sleep in the same step.  Tasks are opaque here and
do not call the executor themselves.
-/

namespace SAOmega.TaskExecutor

open SAOmega.Support

/-- One `run` call: its number among all `run` calls and the task it got.  The
number tells apart the `shared_ptr`s which `run` makes for equal tasks. -/
structure Call (τ : Type*) where
  ticket : ℕ
  task : τ
deriving DecidableEq

/-- Where a worker thread stands in `dispatchTasks`. -/
inductive Worker (τ : Type*)
  /-- Outside of the mutex, about to take it: at the top of the loop, or woken
  inside of `signal.wait`. -/
  | locking
  /-- Asleep in `signal.wait`. -/
  | waiting
  /-- Executing a popped task, without the mutex. -/
  | running (call : Call τ)
  /-- Past the `break`: the thread function has returned. -/
  | finished
deriving DecidableEq

def Worker.isWaiting {τ : Type*} : Worker τ → Bool
  | .waiting => true
  | _ => false

def Worker.isRunning {τ : Type*} : Worker τ → Bool
  | .running _ => true
  | _ => false

/-- The fields of `TaskExecutor`, the program counters of its threads, and the
position of the `shutdown()` call in progress. -/
structure State (τ : Type*) (n : ℕ) where
  isShuttingDownTaskQueue : Bool
  queue : List (Call τ)
  workers : Fin n → Worker τ
  /-- `threads[i].joinable()`. -/
  joinable : Fin n → Bool
  /-- The next index of the join loop while `shutdown()` is in it. -/
  joining : Option ℕ
  /-- How many `run` calls have been made. -/
  calls : ℕ

variable {τ : Type*} {n : ℕ}

/-- The constructor starts every thread at the top of `dispatchTasks`. -/
def init (τ : Type*) (n : ℕ) : State τ n where
  isShuttingDownTaskQueue := false
  queue := []
  workers _ := .locking
  joinable _ := true
  joining := none
  calls := 0

/-- The atomic steps.  `thrown` is the `what()` of the `std::exception` which
the executed task throws, if it throws one. -/
inductive Event (τ : Type*) (n : ℕ)
  /-- A whole `run` call; `woken` is the sleeper `notify_one` picks. -/
  | run (task : τ) (woken : Option (Fin n)) (thrown : Option String)
  /-- The mutex-protected block of `shutdown()`. -/
  | shutdown
  /-- One iteration of the join loop of `shutdown()`, or its end. -/
  | join
  /-- The mutex-protected block of `dispatchTasks`, up to the next wait. -/
  | dispatch (worker : Fin n)
  /-- A spurious wake-up out of `signal.wait`. -/
  | wake (worker : Fin n)
  /-- `task->operator()()` and the end of the loop body. -/
  | perform (worker : Fin n) (thrown : Option String)

/-- What the executor does besides changing its own state. -/
inductive Effect (τ : Type*) (n : ℕ)
  | executed (call : Call τ)
  /-- A line of the error log; a worker puts its thread id in front. -/
  | logError (thread : Option (Fin n)) (text : String)
  | shutdownReturned
  /-- `std::system_error` out of `item.join()`. -/
  | shutdownThrew
deriving DecidableEq

/-! ## The operations -/

/-- `signal.notify_one()`: it wakes one sleeper if there is one. -/
def notifyOne (workers : Fin n → Worker τ) :
    Option (Fin n) → Option (Fin n → Worker τ)
  | some w =>
      match workers w with
      | .waiting => some (Function.update workers w .locking)
      | _ => none
  | none =>
      if ∀ w, (workers w).isWaiting = false then some workers else none

/-- `signal.notify_all()`. -/
def notifyAll (workers : Fin n → Worker τ) : Fin n → Worker τ :=
  fun w =>
    match workers w with
    | .waiting => .locking
    | worker => worker

def logThrown (thread : Option (Fin n)) (text : String) :
    Option String → List (Effect τ n)
  | some what => [.logError thread (text ++ what)]
  | none => []

/-- `TaskExecutor::run`. -/
def run (task : τ) (woken : Option (Fin n)) (thrown : Option String)
    (s : State τ n) : Option (List (Effect τ n) × State τ n) :=
  let call : Call τ := ⟨s.calls, task⟩
  if s.isShuttingDownTaskQueue then
    some (.executed call :: logThrown none "Error Task run: " thrown,
      { s with calls := s.calls + 1 })
  else
    match notifyOne s.workers woken with
    | some workers =>
        some ([], { s with
          queue := s.queue ++ [call], workers := workers,
          calls := s.calls + 1 })
    | none => none

/-- The guarded block of `TaskExecutor::shutdown`.  Calls come in sequence: a
second one starts only when the one before is over. -/
def shutdown (s : State τ n) : Option (List (Effect τ n) × State τ n) :=
  match s.joining with
  | some _ => none
  | none =>
      if !s.isShuttingDownTaskQueue then
        some ([], { s with
          isShuttingDownTaskQueue := true, workers := notifyAll s.workers,
          joining := some 0 })
      else
        some ([], { s with joining := some 0 })

/-- `item.join()` for the next thread of `TaskExecutor::shutdown`: it blocks
until the thread has finished and throws when the thread is not joinable. -/
def join (s : State τ n) : Option (List (Effect τ n) × State τ n) :=
  match s.joining with
  | none => none
  | some i =>
      if h : i < n then
        if s.joinable ⟨i, h⟩ then
          match s.workers ⟨i, h⟩ with
          | .finished =>
              some ([], { s with
                joinable := Function.update s.joinable ⟨i, h⟩ false,
                joining := some (i + 1) })
          | _ => none
        else
          some ([.shutdownThrew], { s with joining := none })
      else
        some ([.shutdownReturned], { s with joining := none })

def setWorker (s : State τ n) (w : Fin n) (worker : Worker τ) : State τ n :=
  { s with workers := Function.update s.workers w worker }

/-- `TaskExecutor::dispatchTasks` from `lock(mutex)` to the next wait or to the
release of the lock. -/
def dispatchTasks (w : Fin n) (s : State τ n) :
    Option (List (Effect τ n) × State τ n) :=
  match s.workers w with
  | .locking =>
      if !s.isShuttingDownTaskQueue && s.queue.isEmpty then
        some ([], setWorker s w .waiting)
      else
        match s.queue with
        | [] =>
            if s.isShuttingDownTaskQueue then
              some ([], setWorker s w .finished)
            else
              some ([], setWorker s w .locking)
        | call :: queue =>
            some ([], { setWorker s w (.running call) with queue := queue })
  | _ => none

/-- The task body in a worker; the `catch` brings a throwing task back to the
top of the loop as well. -/
def perform (w : Fin n) (thrown : Option String) (s : State τ n) :
    Option (List (Effect τ n) × State τ n) :=
  match s.workers w with
  | .running call =>
      some (.executed call ::
          logThrown (some w) " Error Task dispatchTasks: " thrown,
        setWorker s w .locking)
  | _ => none

def wake (w : Fin n) (s : State τ n) :
    Option (List (Effect τ n) × State τ n) :=
  match s.workers w with
  | .waiting => some ([], setWorker s w .locking)
  | _ => none

def step (s : State τ n) : Event τ n → Option (List (Effect τ n) × State τ n)
  | .run task woken thrown => run task woken thrown s
  | .shutdown => shutdown s
  | .join => join s
  | .dispatch w => dispatchTasks w s
  | .wake w => wake w s
  | .perform w thrown => perform w thrown s

/-- The workers of an executor which has two, as the plugin's has. -/
def worker0 : Fin 2 := 0

def worker1 : Fin 2 := 1

end SAOmega.TaskExecutor
