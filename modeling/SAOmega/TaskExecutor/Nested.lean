import SAOmega.TaskExecutor.ExactlyOnce

/-!
# Tasks which submit tasks

The executor again, for tasks which call `run` themselves.  A `run` call is cut
where it takes `mutex` and where it gives it back, and every thread has a stack
of what it is in the middle of.  Between the two a task which `run` executes
inline makes its own calls, and the mutex is not recursive: a thread does not
get it while anybody has it.
-/

namespace SAOmega.TaskExecutor.Nested

open SAOmega.Support

/-- A task is known by what executing it does: the tasks it calls `run` for, in
this order, and the `what()` of the `std::exception` it ends with. -/
inductive Task
  | mk (children : List Task) (thrown : Option String)

def Task.children : Task → List Task
  | .mk children _ => children

def Task.thrown : Task → Option String
  | .mk _ thrown => thrown

/-- One function which a thread is in the middle of. -/
inductive Frame
  /-- `run`, about to take the mutex. -/
  | locking (task : Task)
  /-- `run`, with the mutex, while it executes the task. -/
  | holding (task : Task)
  /-- The task itself, with the calls it has not made yet. -/
  | body (pending : List Task)

/-- The workers of the executor and the threads which are not its own. -/
abbrev Thread (κ : Type*) (n : ℕ) := Fin n ⊕ κ

structure State (κ : Type*) (n : ℕ) where
  executor : TaskExecutor.State Task n
  /-- Who has the mutex between two steps. -/
  owner : Option (Thread κ n)
  /-- The innermost function comes first. -/
  stack : Thread κ n → List Frame

inductive Event (κ : Type*) (n : ℕ)
  /-- A thread which is in no task calls `run`. -/
  | submit (client : κ) (task : Task)
  /-- The task which the thread executes makes its next call of `run`. -/
  | call (thread : Thread κ n)
  /-- `lock_guard` in `run`, and all of the call if it only pushes the task. -/
  | lock (thread : Thread κ n) (woken : Option (Fin n))
  /-- The end of a call of `run` which has executed its task. -/
  | unlock (thread : Thread κ n)
  | shutdown
  | join
  | dispatch (worker : Fin n)
  | wake (worker : Fin n)
  /-- The end of a task in a worker. -/
  | perform (worker : Fin n)

variable {κ : Type*} {n : ℕ}

def init (κ : Type*) (n : ℕ) : State κ n where
  executor := TaskExecutor.init Task n
  owner := none
  stack _ := []

/-! ## The operations -/

/-- The frames of a worker which has just left the mutex. -/
def taskFrames : Worker Task → List Frame
  | .running call => [.body call.task.children]
  | _ => []

/-- `s` after a step of the executor. -/
def onExecutor (s : State κ n) :
    Option (List (Effect Task n) × TaskExecutor.State Task n) →
      Option (List (Effect Task n) × State κ n)
  | some (o, executor) => some (o, { s with executor := executor })
  | none => none

variable [DecidableEq κ]

def setStack (s : State κ n) (thread : Thread κ n) (frames : List Frame) :
    State κ n :=
  { s with stack := Function.update s.stack thread frames }

def submit (client : κ) (task : Task) (s : State κ n) :
    Option (List (Effect Task n) × State κ n) :=
  match s.stack (.inr client) with
  | [] => some ([], setStack s (.inr client) [.locking task])
  | _ => none

def call (thread : Thread κ n) (s : State κ n) :
    Option (List (Effect Task n) × State κ n) :=
  match s.stack thread with
  | .body (task :: pending) :: rest =>
      some ([], setStack s thread (.locking task :: .body pending :: rest))
  | _ => none

/-- `TaskExecutor::run` up to the execution of the task, or as a whole. -/
def lock (thread : Thread κ n) (woken : Option (Fin n)) (s : State κ n) :
    Option (List (Effect Task n) × State κ n) :=
  match s.owner, s.stack thread with
  | none, .locking task :: rest =>
      if s.executor.isShuttingDownTaskQueue then
        some ([], { setStack s thread
          (.body task.children :: .holding task :: rest) with
          owner := some thread })
      else
        onExecutor (setStack s thread rest)
          (TaskExecutor.step s.executor (.run task woken none))
  | _, _ => none

/-- `TaskExecutor::run` from the end of the task on. -/
def unlock (thread : Thread κ n) (s : State κ n) :
    Option (List (Effect Task n) × State κ n) :=
  match s.stack thread with
  | .body [] :: .holding task :: rest =>
      onExecutor { setStack s thread rest with owner := none }
        (TaskExecutor.step s.executor (.run task none task.thrown))
  | _ => none

def shutdown (s : State κ n) : Option (List (Effect Task n) × State κ n) :=
  match s.owner with
  | none => onExecutor s (TaskExecutor.step s.executor .shutdown)
  | some _ => none

/-- A worker which pops a call starts its task. -/
def dispatchTasks (w : Fin n) (s : State κ n) :
    Option (List (Effect Task n) × State κ n) :=
  match s.owner, TaskExecutor.step s.executor (.dispatch w) with
  | none, some (o, executor) =>
      some (o, { setStack s (.inl w) (taskFrames (executor.workers w)) with
        executor := executor })
  | _, _ => none

def perform (w : Fin n) (s : State κ n) :
    Option (List (Effect Task n) × State κ n) :=
  match s.executor.workers w, s.stack (.inl w) with
  | .running call, [.body []] =>
      onExecutor (setStack s (.inl w) [])
        (TaskExecutor.step s.executor (.perform w call.task.thrown))
  | _, _ => none

def step (s : State κ n) :
    Event κ n → Option (List (Effect Task n) × State κ n)
  | .submit client task => submit client task s
  | .call thread => call thread s
  | .lock thread woken => lock thread woken s
  | .unlock thread => unlock thread s
  | .shutdown => shutdown s
  | .join => onExecutor s (TaskExecutor.step s.executor .join)
  | .dispatch w => dispatchTasks w s
  | .wake w => onExecutor s (TaskExecutor.step s.executor (.wake w))
  | .perform w => perform w s

/-! ## What a step can do -/

inductive Transition (s : State κ n) :
    Event κ n → List (Effect Task n) → State κ n → Prop
  | submit (client : κ) (task : Task) (hstack : s.stack (.inr client) = []) :
      Transition s (.submit client task) []
        (setStack s (.inr client) [.locking task])
  | call {task : Task} {pending : List Task} {rest : List Frame}
      (thread : Thread κ n)
      (hstack : s.stack thread = .body (task :: pending) :: rest) :
      Transition s (.call thread) []
        (setStack s thread (.locking task :: .body pending :: rest))
  | lockInline {task : Task} {rest : List Frame}
      (thread : Thread κ n) (woken : Option (Fin n)) (howner : s.owner = none)
      (hstack : s.stack thread = .locking task :: rest)
      (hflag : s.executor.isShuttingDownTaskQueue = true) :
      Transition s (.lock thread woken) []
        { setStack s thread (.body task.children :: .holding task :: rest) with
          owner := some thread }
  | lockQueued {task : Task} {rest : List Frame} {o : List (Effect Task n)}
      {executor : TaskExecutor.State Task n}
      (thread : Thread κ n) (woken : Option (Fin n)) (howner : s.owner = none)
      (hstack : s.stack thread = .locking task :: rest)
      (hflag : s.executor.isShuttingDownTaskQueue = false)
      (hstep : TaskExecutor.step s.executor (.run task woken none) =
        some (o, executor)) :
      Transition s (.lock thread woken) o
        { setStack s thread rest with executor := executor }
  | unlock {task : Task} {rest : List Frame} {o : List (Effect Task n)}
      {executor : TaskExecutor.State Task n} (thread : Thread κ n)
      (hstack : s.stack thread = .body [] :: .holding task :: rest)
      (hstep : TaskExecutor.step s.executor (.run task none task.thrown) =
        some (o, executor)) :
      Transition s (.unlock thread) o
        { setStack s thread rest with executor := executor, owner := none }
  | shutdown {o : List (Effect Task n)} {executor : TaskExecutor.State Task n}
      (howner : s.owner = none)
      (hstep : TaskExecutor.step s.executor .shutdown = some (o, executor)) :
      Transition s .shutdown o { s with executor := executor }
  | join {o : List (Effect Task n)} {executor : TaskExecutor.State Task n}
      (hstep : TaskExecutor.step s.executor .join = some (o, executor)) :
      Transition s .join o { s with executor := executor }
  | dispatch {o : List (Effect Task n)} {executor : TaskExecutor.State Task n}
      (w : Fin n) (howner : s.owner = none)
      (hstep : TaskExecutor.step s.executor (.dispatch w) = some (o, executor)) :
      Transition s (.dispatch w) o
        { setStack s (.inl w) (taskFrames (executor.workers w)) with
          executor := executor }
  | wake {o : List (Effect Task n)} {executor : TaskExecutor.State Task n}
      (w : Fin n)
      (hstep : TaskExecutor.step s.executor (.wake w) = some (o, executor)) :
      Transition s (.wake w) o { s with executor := executor }
  | perform {call : Call Task} {o : List (Effect Task n)}
      {executor : TaskExecutor.State Task n} (w : Fin n)
      (hworker : s.executor.workers w = .running call)
      (hstack : s.stack (.inl w) = [.body []])
      (hstep : TaskExecutor.step s.executor (.perform w call.task.thrown) =
        some (o, executor)) :
      Transition s (.perform w) o
        { setStack s (.inl w) [] with executor := executor }

omit [DecidableEq κ] in
theorem onExecutor_eq_some {s t : State κ n} {o : List (Effect Task n)}
    {result : Option (List (Effect Task n) × TaskExecutor.State Task n)}
    (h : onExecutor s result = some (o, t)) :
    ∃ executor, result = some (o, executor) ∧
      t = { s with executor := executor } := by
  unfold onExecutor at h
  split at h
  next o' executor =>
    cases h
    exact ⟨executor, rfl, rfl⟩
  next => cases h

theorem transition_of_lock {s t : State κ n} {thread : Thread κ n}
    {woken : Option (Fin n)} {o : List (Effect Task n)}
    (h : lock thread woken s = some (o, t)) :
    Transition s (.lock thread woken) o t := by
  unfold lock at h
  split at h
  next task rest howner hstack =>
    split at h
    next hflag =>
      cases h
      exact .lockInline thread woken howner hstack hflag
    next hflag =>
      obtain ⟨executor, hstep, rfl⟩ := onExecutor_eq_some h
      exact .lockQueued thread woken howner hstack
        (Bool.eq_false_of_not_eq_true hflag) hstep
  next => cases h

theorem transition_of_step {s t : State κ n} {e : Event κ n}
    {o : List (Effect Task n)} (h : step s e = some (o, t)) :
    Transition s e o t := by
  cases e with
  | submit client task =>
      simp only [step, Nested.submit] at h
      split at h
      next hstack =>
        cases h
        exact .submit client task hstack
      next => cases h
  | call thread =>
      simp only [step, Nested.call] at h
      split at h
      next task pending rest hstack =>
        cases h
        exact .call thread hstack
      next => cases h
  | lock thread woken => exact transition_of_lock h
  | unlock thread =>
      simp only [step, Nested.unlock] at h
      split at h
      next task rest hstack =>
        obtain ⟨executor, hstep, rfl⟩ := onExecutor_eq_some h
        exact .unlock thread hstack hstep
      next => cases h
  | shutdown =>
      simp only [step, Nested.shutdown] at h
      split at h
      next howner =>
        obtain ⟨executor, hstep, rfl⟩ := onExecutor_eq_some h
        exact .shutdown howner hstep
      next => cases h
  | join =>
      obtain ⟨executor, hstep, rfl⟩ := onExecutor_eq_some h
      exact .join hstep
  | dispatch w =>
      simp only [step, Nested.dispatchTasks] at h
      split at h
      next o' executor howner hstep =>
        cases h
        exact .dispatch w howner hstep
      next => cases h
  | wake w =>
      obtain ⟨executor, hstep, rfl⟩ := onExecutor_eq_some h
      exact .wake w hstep
  | perform w =>
      simp only [step, Nested.perform] at h
      split at h
      next call hworker hstack =>
        obtain ⟨executor, hstep, rfl⟩ := onExecutor_eq_some h
        exact .perform w hworker hstack hstep
      next => cases h

/-! ## The executor inside -/

/-- The steps of a run, oldest first. -/
abbrev History (κ : Type*) (n : ℕ) :=
  List (Step (State κ n) (Event κ n) (List (Effect Task n)))

/-- A step leaves the executor alone, or is one of its steps and shows the
same. -/
theorem executor_of_step {s t : State κ n} {e : Event κ n}
    {o : List (Effect Task n)} (h : step s e = some (o, t)) :
    (o = [] ∧ t.executor = s.executor) ∨
      ∃ e', TaskExecutor.step s.executor e' = some (o, t.executor) := by
  cases transition_of_step h with
  | submit | call | lockInline => exact .inl ⟨rfl, rfl⟩
  | lockQueued _ _ _ _ _ hstep => exact .inr ⟨_, hstep⟩
  | unlock _ _ hstep => exact .inr ⟨_, hstep⟩
  | shutdown _ hstep => exact .inr ⟨_, hstep⟩
  | join hstep => exact .inr ⟨_, hstep⟩
  | dispatch _ _ hstep => exact .inr ⟨_, hstep⟩
  | wake _ hstep => exact .inr ⟨_, hstep⟩
  | perform _ _ _ hstep => exact .inr ⟨_, hstep⟩

/-- What is proved of all runs of the executor holds when its tasks submit
tasks. -/
theorem exists_executor_run {s : State κ n} {history : History κ n}
    (h : Run step (init κ n) history s) :
    ∃ executorHistory : TaskExecutor.History Task n,
      Run TaskExecutor.step (TaskExecutor.init Task n) executorHistory
          s.executor ∧
        executorHistory.flatMap Step.out = history.flatMap Step.out := by
  induction h with
  | nil => exact ⟨[], .nil, rfl⟩
  | @snoc history s t e o _ hstep ih =>
      obtain ⟨executorHistory, hrun, hout⟩ := ih
      rcases executor_of_step hstep with ⟨rfl, hsame⟩ | ⟨e', hstep'⟩
      · exact ⟨executorHistory, by rwa [hsame], by simp [hout]⟩
      · exact ⟨executorHistory ++ [⟨s.executor, e', o, t.executor⟩],
          hrun.snoc hstep', by simp [hout]⟩

/-- Nothing is executed twice, by whichever thread. -/
theorem executed_nodup {s : State κ n} {history : History κ n}
    (h : Run step (init κ n) history s) :
    ((history.flatMap Step.out).filterMap Effect.executedCall?).Nodup := by
  obtain ⟨executorHistory, hrun, hout⟩ := exists_executor_run h
  have hcalls : executedCalls executorHistory =
      (executorHistory.flatMap Step.out).filterMap Effect.executedCall? := by
    rw [List.filterMap_flatMap]
    rfl
  rw [← hout, ← hcalls]
  obtain ⟨calls, hperm, hsub⟩ := executedCalls_subperm hrun
  exact hperm.nodup_iff.mp (hsub.nodup (submittedCalls_nodup hrun))

end SAOmega.TaskExecutor.Nested
