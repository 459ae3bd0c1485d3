import SAOmega.TaskExecutor.Progress
import SAOmega.TaskExecutor.SelfLock
import Mathlib.Data.List.Forall2
import Mathlib.Data.Prod.Lex

/-!
# Whole trees of tasks

As long as nobody calls `shutdown()`, no call of `run` keeps the mutex, and a
task is executed after all calls which it makes, the tasks of which are then
executed as well.  So one call of `run` gets the whole tree of its task executed.
-/

namespace SAOmega.TaskExecutor.Nested

open SAOmega.Support

variable {κ : Type*} {n : ℕ} [DecidableEq κ]

theorem Task.induct {P : Task → Prop}
    (h : ∀ task : Task, (∀ child ∈ task.children, P child) → P task)
    (task : Task) : P task := by
  apply h
  intro child hchild
  exact Task.induct h child
termination_by sizeOf task
decreasing_by
  obtain ⟨children, thrown⟩ := task
  have hlt : sizeOf child < sizeOf children := List.sizeOf_lt_of_mem hchild
  simp only [Task.mk.sizeOf_spec]
  omega

/-! ## Before `shutdown()` -/

/-- The stack of a worker whose task has these children and has already called
`run` for those in `done`. -/
inductive Executing (done children : List Task) : List Frame → Prop
  | body {pending : List Task} (hchildren : children = done ++ pending) :
      Executing done children [.body pending]
  | calling {child : Task} {pending : List Task}
      (hchildren : children = done ++ child :: pending) :
      Executing done children [.locking child, .body pending]

structure Accepting (s : State κ n) : Prop where
  locked : WellLocked s
  flag : s.executor.isShuttingDownTaskQueue = false
  executing : ∀ w call, s.executor.workers w = .running call →
    ∃ done, Executing done call.task.children (s.stack (.inl w))

omit [DecidableEq κ] in
theorem Accepting.not_shutting {s : State κ n} (hs : Accepting s) :
    s.executor.isShuttingDownTaskQueue ≠ true := by
  rw [hs.flag]
  exact Bool.false_ne_true

omit [DecidableEq κ] in
theorem Accepting.owner {s : State κ n} (hs : Accepting s) :
    s.owner = none := by
  by_contra howner
  exact hs.not_shutting (hs.locked.shutting howner)

omit [DecidableEq κ] in
theorem Accepting.not_holding {s : State κ n} (hs : Accepting s)
    {thread : Thread κ n} {task : Task} {rest : List Frame} :
    s.stack thread ≠ .body [] :: .holding task :: rest := by
  intro hstack
  have hmem : Frame.holding task ∈ s.stack thread := by simp [hstack]
  have howner := hs.locked.owner_of_holding hmem
  rw [hs.owner] at howner
  cases howner

omit [DecidableEq κ] in
theorem accepting_init : Accepting (init κ n) where
  locked := wellLocked_init
  flag := rfl
  executing _ _ h := by simp [init, TaskExecutor.init] at h

/-- The step is a call of `run` by the thread, with the mutex. -/
def Locks (s : State κ n) (e : Event κ n) (thread : Thread κ n)
    (task : Task) : Prop :=
  (∃ woken, e = .lock thread woken) ∧
    ∃ rest, s.stack thread = .locking task :: rest

/-- The task calls `run`. -/
theorem Executing.call {done children pending : List Task} {child : Task}
    {rest : List Frame}
    (h : Executing done children (.body (child :: pending) :: rest)) :
    Executing done children (.locking child :: .body pending :: rest) := by
  generalize hframes : Frame.body (child :: pending) :: rest = frames at h
  cases h with
  | body hchildren =>
      cases hframes
      exact .calling hchildren
  | calling => cases hframes

/-- The call of the task returns. -/
theorem Executing.returned {done children : List Task} {child : Task}
    {rest : List Frame} (h : Executing done children (.locking child :: rest)) :
    Executing (done ++ [child]) children rest := by
  generalize hframes : Frame.locking child :: rest = frames at h
  cases h with
  | body => cases hframes
  | calling hchildren =>
      cases hframes
      exact .body (by simpa using hchildren)

theorem Executing.done_eq {done children : List Task}
    (h : Executing done children [.body []]) : done = children := by
  generalize hframes : [Frame.body []] = frames at h
  cases h with
  | body hchildren =>
      cases hframes
      simpa using hchildren.symm
  | calling => cases hframes

/-- What a step makes of the stack of a worker which has a task. -/
inductive Advance (s t : State κ n) (e : Event κ n) (w : Fin n)
    (c : Call Task) : Prop
  | popped (hnew : s.executor.workers w ≠ .running c)
      (hevent : e = .dispatch w)
      (hbody : t.stack (.inl w) = [.body c.task.children])
  | goesOn (hold : s.executor.workers w = .running c)
      (hkeep : ∀ done, Executing done c.task.children (s.stack (.inl w)) →
        Executing done c.task.children (t.stack (.inl w)))
  | returns {child : Task} (hold : s.executor.workers w = .running c)
      (hlocks : Locks s e (.inl w) child)
      (hchild : ∀ done, Executing done c.task.children (s.stack (.inl w)) →
        Executing (done ++ [child]) c.task.children (t.stack (.inl w)))

theorem advance_of_step {s t : State κ n} {e : Event κ n}
    {o : List (Effect Task n)} (hs : Accepting s) (he : e ≠ .shutdown)
    (h : step s e = some (o, t)) {w : Fin n} {c : Call Task}
    (hw : t.executor.workers w = .running c) : Advance s t e w c := by
  have hkeeps : s.executor.workers w = .running c →
      t.stack (.inl w) = s.stack (.inl w) → Advance s t e w c :=
    fun hold hstack => .goesOn hold fun _ hdone => hstack ▸ hdone
  cases transition_of_step h with
  | submit client task =>
      exact hkeeps hw (setStack_stack_of_ne s (by simp) _)
  | call thread hstack =>
      by_cases heq : .inl w = thread
      · subst heq
        refine .goesOn hw fun done hdone => ?_
        rw [hstack] at hdone
        rw [setStack_stack]
        exact hdone.call
      · exact hkeeps hw (setStack_stack_of_ne s heq _)
  | lockInline thread woken howner hstack hflag =>
      exact (hs.not_shutting hflag).elim
  | @lockQueued task rest o executor thread woken howner hstack hflag hstep =>
      have hold := (running_of_step hstep hw).resolve_right (by simp)
      by_cases heq : .inl w = thread
      · subst heq
        refine .returns hold ⟨⟨woken, rfl⟩, rest, hstack⟩ fun done hdone => ?_
        rw [hstack] at hdone
        change Executing _ _ ((setStack s (.inl w) rest).stack (.inl w))
        rw [setStack_stack]
        exact hdone.returned
      · exact hkeeps hold (setStack_stack_of_ne s heq _)
  | unlock thread hstack => exact (hs.not_holding hstack).elim
  | shutdown => exact (he rfl).elim
  | join hstep =>
      exact hkeeps ((running_of_step hstep hw).resolve_right (by simp)) rfl
  | wake w' hstep =>
      exact hkeeps ((running_of_step hstep hw).resolve_right (by simp)) rfl
  | @dispatch o executor w' howner hstep =>
      by_cases heq : w = w'
      · subst heq
        refine .popped (by simp [locking_of_dispatch hstep]) rfl ?_
        have hframes : taskFrames (executor.workers w) =
            [.body c.task.children] := by
          have hw : executor.workers w = .running c := hw
          rw [hw]
          rfl
        exact (setStack_stack ..).trans hframes
      · have hold := (running_of_step hstep hw).resolve_right (by
          simpa using Ne.symm heq)
        exact hkeeps hold (setStack_stack_of_ne s (by simpa using heq) _)
  | @perform d o executor w' hworker hstack hstep =>
      have hold := (running_of_step hstep hw).resolve_right (by simp)
      refine hkeeps hold (setStack_stack_of_ne s ?_ _)
      rintro ⟨rfl⟩
      cases TaskExecutor.transition_of_step hstep with
      | perform => simp [setWorker] at hw

theorem step_accepting {s t : State κ n} {e : Event κ n}
    {o : List (Effect Task n)} (hs : Accepting s) (he : e ≠ .shutdown)
    (h : step s e = some (o, t)) : Accepting t where
  locked := step_wellLocked s e o t hs.locked h
  flag := (flag_eq_of_step h he).trans hs.flag
  executing w c hw := by
    cases advance_of_step hs he h hw with
    | popped _ _ hbody => exact ⟨[], hbody ▸ .body rfl⟩
    | goesOn hold hkeep =>
        obtain ⟨done, hdone⟩ := hs.executing w c hold
        exact ⟨done, hkeep done hdone⟩
    | returns hold _ hchild =>
        obtain ⟨done, hdone⟩ := hs.executing w c hold
        exact ⟨_, hchild done hdone⟩

/-- Only a worker executes a task, after all the calls of it. -/
theorem performed_of_executed {s t : State κ n} {e : Event κ n}
    {o : List (Effect Task n)} (hs : Accepting s) (he : e ≠ .shutdown)
    (h : step s e = some (o, t)) {c : Call Task} (hc : .executed c ∈ o) :
    ∃ w, e = .perform w ∧ s.executor.workers w = .running c ∧
      s.stack (.inl w) = [.body []] := by
  cases transition_of_step h with
  | submit | call => cases hc
  | lockInline thread woken howner hstack hflag =>
      exact (hs.not_shutting hflag).elim
  | lockQueued thread woken howner hstack hflag hstep =>
      cases TaskExecutor.transition_of_step hstep with
      | runInline _ _ _ htrue => simp [hflag] at htrue
      | runQueued => cases hc
  | unlock thread hstack => exact (hs.not_holding hstack).elim
  | shutdown => exact (he rfl).elim
  | join hstep =>
      cases TaskExecutor.transition_of_step hstep with
      | joinFinished => cases hc
      | joinThrows | joinReturns => simp at hc
  | dispatch w howner hstep =>
      cases TaskExecutor.transition_of_step hstep with
      | wait | exit | pop => cases hc
  | wake w hstep =>
      cases TaskExecutor.transition_of_step hstep with
      | wake => cases hc
  | @perform d o executor w hworker hstack hstep =>
      refine ⟨w, rfl, ?_, hstack⟩
      cases TaskExecutor.transition_of_step hstep with
      | @perform d' _ _ hworker' =>
          obtain rfl : d = d' := by simpa [hworker] using hworker'
          have hcd : c = d := by
            cases hthrown : d.task.thrown with
            | none => simpa [hthrown, logThrown] using hc
            | some what => simpa [hthrown, logThrown] using hc
          rw [hcd]
          exact hworker

/-! ## Progress -/

/-- The steps in which a thread goes on. -/
def OfThread (thread : Thread κ n) (e : Event κ n) : Prop :=
  e = .call thread ∨ (∃ woken, e = .lock thread woken) ∨
    ∃ w, thread = .inl w ∧ (e = .dispatch w ∨ e = .perform w)

/-- How many steps a thread is away from the end of its calls. -/
def effort : List Frame → ℕ
  | [] => 0
  | .locking _ :: rest => effort rest + 1
  | .holding _ :: rest => effort rest
  | .body pending :: rest => effort rest + 2 * pending.length

omit [DecidableEq κ] in
theorem not_ofThread_of_ne {thread thread' : Thread κ n}
    (hne : thread ≠ thread') (woken : Option (Fin n)) :
    ¬ OfThread thread (.call thread') ∧
      ¬ OfThread thread (.lock thread' woken) := by
  constructor
  · rintro (heq | ⟨_, heq⟩ | ⟨w, _, heq | heq⟩)
    · exact hne (Event.call.inj heq).symm
    · cases heq
    · cases heq
    · cases heq
  · rintro (heq | ⟨_, heq⟩ | ⟨w, _, heq | heq⟩)
    · cases heq
    · exact hne (Event.lock.inj heq).1.symm
    · cases heq
    · cases heq

theorem exists_lock {s : State κ n} (hs : Accepting s) {thread : Thread κ n}
    {task : Task} {rest : List Frame}
    (hstack : s.stack thread = .locking task :: rest) :
    ∃ e, OfThread thread e ∧ (step s e).isSome = true := by
  obtain ⟨woken, o, executor, hrun⟩ := exists_run_queued task none hs.flag
  refine ⟨.lock thread woken, .inr (.inl ⟨woken, rfl⟩), ?_⟩
  simp [step, lock, hs.owner, hstack, hs.flag, hrun, onExecutor]

/-- A worker that brings a call forward can go on. -/
theorem enabled_of_onItsWay {s : State κ n} (hs : Accepting s) {c : Call Task}
    {w : Fin n} {rank : ℕ} (h : OnItsWay c w rank s.executor) :
    ∃ e, OfThread (.inl w) e ∧ (step s e).isSome = true := by
  obtain ⟨e, he, hsome⟩ := h.enabled
  rcases he with rfl | ⟨thrown, rfl⟩
  · refine ⟨.dispatch w, .inr (.inr ⟨w, rfl, .inl rfl⟩), ?_⟩
    obtain ⟨⟨o, executor⟩, hstep⟩ := Option.isSome_iff_exists.mp hsome
    simp [step, dispatchTasks, hs.owner, hstep]
  · have hrunning : ∃ d, s.executor.workers w = .running d := by
      simp only [TaskExecutor.step, TaskExecutor.perform] at hsome
      split at hsome
      next d hd => exact ⟨d, hd⟩
      next => cases hsome
    obtain ⟨d, hd⟩ := hrunning
    obtain ⟨done, hdone⟩ := hs.executing w d hd
    generalize hstack : s.stack (.inl w) = frames at hdone
    cases hdone with
    | @body pending =>
        cases pending with
        | nil =>
            refine ⟨.perform w, .inr (.inr ⟨w, rfl, .inr rfl⟩), ?_⟩
            simp [step, perform, hd, hstack, TaskExecutor.step,
              TaskExecutor.perform, onExecutor]
        | cons child pending =>
            exact ⟨.call (.inl w), .inl rfl, by simp [step, call, hstack]⟩
    | calling => exact exists_lock hs hstack

/-- The thread goes on with its own task, or it does not move. -/
def GoesOn (s t : State κ n) (e : Event κ n) (w : Fin n) : Prop :=
  effort (t.stack (.inl w)) < effort (s.stack (.inl w)) ∨
    (t.stack (.inl w) = s.stack (.inl w) ∧ ¬ OfThread (.inl w) e)

theorem executed_of_mem {s t : TaskExecutor.State Task n}
    {e : TaskExecutor.Event Task n} {o : List (Effect Task n)} {c : Call Task}
    (hc : c ∈ executed ⟨s, e, o, t⟩) : .executed c ∈ o := by
  obtain ⟨x, hx, hcall⟩ := List.mem_filterMap.mp hc
  cases x with
  | executed d =>
      obtain rfl : d = c := by simpa [Effect.executedCall?] using hcall
      exact hx
  | logError | shutdownReturned | shutdownThrew =>
      simp [Effect.executedCall?] at hcall

/-- A step executes the call, or brings it forward, or leaves it to the worker,
which goes on with its own task or does not move. -/
theorem onItsWay_of_step {s t : State κ n} {e : Event κ n}
    {o : List (Effect Task n)} (hs : Accepting s) (he : e ≠ .shutdown)
    (h : step s e = some (o, t)) {c : Call Task} {w : Fin n} {rank : ℕ}
    (hway : OnItsWay c w rank s.executor) :
    .executed c ∈ o ∨
      (∃ w' rank', rank' < rank ∧ OnItsWay c w' rank' t.executor) ∨
      (OnItsWay c w rank t.executor ∧ GoesOn s t e w) := by
  have hexecutor : ∀ {e' : TaskExecutor.Event Task n},
      TaskExecutor.step s.executor e' = some (o, t.executor) →
        (¬ OfWorker w e' → GoesOn s t e w) →
          .executed c ∈ o ∨
            (∃ w' rank', rank' < rank ∧ OnItsWay c w' rank' t.executor) ∨
            (OnItsWay c w rank t.executor ∧ GoesOn s t e w) := by
    intro e' hstep hgoes
    rcases hway.step hstep with hdone | hlower | ⟨hkeep, hmine⟩
    · exact .inl (executed_of_mem hdone)
    · exact .inr (.inl hlower)
    · exact .inr (.inr ⟨hkeep, hgoes hmine⟩)
  have hother : ∀ {thread : Thread κ n} {frames : List Frame},
      .inl w ≠ thread →
        (setStack s thread frames).stack (.inl w) = s.stack (.inl w) :=
    fun hne => setStack_stack_of_ne s hne _
  cases transition_of_step h with
  | submit client task =>
      exact .inr (.inr ⟨hway, .inr ⟨hother (by simp), by simp [OfThread]⟩⟩)
  | @call task pending rest thread hstack =>
      refine .inr (.inr ⟨hway, ?_⟩)
      by_cases heq : .inl w = thread
      · subst heq
        refine .inl ?_
        rw [hstack, setStack_stack]
        simp only [effort, List.length_cons]
        omega
      · exact .inr ⟨hother heq, (not_ofThread_of_ne heq none).1⟩
  | lockInline thread woken howner hstack hflag =>
      exact (hs.not_shutting hflag).elim
  | @lockQueued task rest o executor thread woken howner hstack hflag hstep =>
      refine hexecutor hstep fun _ => ?_
      by_cases heq : .inl w = thread
      · subst heq
        refine .inl ?_
        change effort ((setStack s (.inl w) rest).stack (.inl w)) < _
        rw [hstack, setStack_stack]
        exact Nat.lt_succ_self _
      · exact .inr ⟨hother heq, (not_ofThread_of_ne heq woken).2⟩
  | unlock thread hstack => exact (hs.not_holding hstack).elim
  | shutdown => exact (he rfl).elim
  | join hstep =>
      exact hexecutor hstep fun _ => .inr ⟨rfl, by simp [OfThread]⟩
  | wake w' hstep =>
      exact hexecutor hstep fun _ => .inr ⟨rfl, by simp [OfThread]⟩
  | dispatch w' howner hstep =>
      refine hexecutor hstep fun hmine => ?_
      have hne : w ≠ w' := by
        rintro rfl
        exact hmine (.inl rfl)
      exact .inr ⟨hother (by simpa using hne), by
        simpa [OfThread] using hne.symm⟩
  | perform w' hworker hstack hstep =>
      refine hexecutor hstep fun hmine => ?_
      have hne : w ≠ w' := by
        rintro rfl
        exact hmine (.inr ⟨_, rfl⟩)
      exact .inr ⟨hother (by simpa using hne), by
        simpa [OfThread] using hne.symm⟩

/-- A call of `run` puts its task into the queue. -/
theorem held_of_locks {s t : State κ n} {e : Event κ n}
    {o : List (Effect Task n)} (hs : Accepting s) (h : step s e = some (o, t))
    {thread : Thread κ n} {task : Task} (hlocks : Locks s e thread task) :
    ⟨s.executor.calls, task⟩ ∈ t.executor.held := by
  obtain ⟨⟨woken, rfl⟩, rest, hstack⟩ := hlocks
  cases transition_of_step h with
  | lockInline _ _ _ _ hflag =>
      exact (hs.not_shutting hflag).elim
  | lockQueued _ _ _ hstack' hflag hstep =>
      obtain ⟨⟨rfl⟩, rfl⟩ := List.cons.inj (hstack.symm.trans hstack')
      cases TaskExecutor.transition_of_step hstep with
      | runInline _ _ _ htrue => simp [hflag] at htrue
      | runQueued => exact mem_held.mpr (.inl (by simp))

/-- A call which is about to take the mutex does not do anything else. -/
theorem stack_of_step {s t : State κ n} {e : Event κ n}
    {o : List (Effect Task n)} (hs : Accepting s)
    (h : step s e = some (o, t)) {client : κ} {task : Task}
    (hstack : s.stack (.inr client) = [.locking task])
    (he : ∀ woken, e ≠ .lock (.inr client) woken) :
    t.stack (.inr client) = [.locking task] := by
  have hother : ∀ {thread : Thread κ n} {frames : List Frame},
      .inr client ≠ thread →
        (setStack s thread frames).stack (.inr client) = [.locking task] :=
    fun hne => (setStack_stack_of_ne s hne _).trans hstack
  cases transition_of_step h with
  | submit client' task' hempty =>
      refine hother ?_
      rintro ⟨rfl⟩
      simp [hstack] at hempty
  | call thread hbody =>
      refine hother ?_
      rintro rfl
      simp [hstack] at hbody
  | lockInline thread woken =>
      refine hother ?_
      rintro rfl
      exact he woken rfl
  | lockQueued thread woken =>
      refine hother ?_
      rintro rfl
      exact he woken rfl
  | unlock thread hbody => exact (hs.not_holding hbody).elim
  | shutdown | join | wake => exact hstack
  | dispatch | perform => simp [setStack, hstack]

theorem stack_of_submit {s t : State κ n} {client : κ} {task : Task}
    {o : List (Effect Task n)} (h : step s (.submit client task) = some (o, t)) :
    t.stack (.inr client) = [.locking task] := by
  cases transition_of_step h with
  | submit => exact setStack_stack ..

theorem lock_of_ofThread {s t : State κ n} {e : Event κ n}
    {o : List (Effect Task n)} (h : step s e = some (o, t)) {client : κ}
    {task : Task} (hstack : s.stack (.inr client) = [.locking task])
    (he : OfThread (.inr client) e) :
    ∃ woken, e = .lock (.inr client) woken := by
  rcases he with rfl | hlock | ⟨w, hw, _⟩
  · simp [step, call, hstack] at h
  · exact hlock
  · cases hw

/-! ## Executions -/

section Executions

variable {x : Execution (step (κ := κ) (n := n))}

/-- At time `i` a thread calls `run` with the task, under the mutex. -/
def RunAt (x : Execution (step (κ := κ) (n := n))) (i : ℕ) (task : Task) :
    Prop :=
  ∃ thread, Locks (x.state i) (x.event i) thread task

/-- The task which `run` gets at time `i` is executed once, in a worker, after
this worker has made all the calls of it, which come to their ends as well. -/
inductive Completes (x : Execution (step (κ := κ) (n := n))) : ℕ → Task → Prop
  | intro {i j : ℕ} {task : Task} {times : List ℕ} (w : Fin n)
      (hrun : RunAt x i task)
      (hperform : x.event j = .perform w)
      (hexecuted : ∀ k,
        .executed ⟨(x.state i).executor.calls, task⟩ ∈ x.out k ↔ k = j)
      (hcalls : ∀ k ∈ times, ∃ woken, x.event k = .lock (.inl w) woken)
      (htimes : (i :: (times ++ [j])).Pairwise (· < ·))
      (hchildren : List.Forall₂ (Completes x) times task.children) :
      Completes x i task

theorem accepting_of_execution (hinit : x.state 0 = init κ n)
    (hopen : ∀ i, x.event i ≠ .shutdown) (i : ℕ) : Accepting (x.state i) := by
  induction i with
  | zero => exact hinit ▸ accepting_init
  | succ i ih => exact step_accepting ih (hopen i) (x.next i)

theorem executor_of_execution (hinit : x.state 0 = init κ n) (i : ℕ) :
    ∃ history, Run TaskExecutor.step (TaskExecutor.init Task n) history
      (x.state i).executor := by
  have hrun := x.run i
  rw [hinit] at hrun
  obtain ⟨history, hexecutor, _⟩ := exists_executor_run hrun
  exact ⟨history, hexecutor⟩

/-- A call in the hands of the executor is executed. -/
theorem held_executed (hn : 0 < n) (hinit : x.state 0 = init κ n)
    (hopen : ∀ i, x.event i ≠ .shutdown)
    (hfair : ∀ thread, x.Fair (OfThread thread)) {i : ℕ} {c : Call Task}
    (hc : c ∈ (x.state i).executor.held) :
    ∃ j, i ≤ j ∧ .executed c ∈ x.out j := by
  have hok := accepting_of_execution hinit hopen
  obtain ⟨history, hrun⟩ := executor_of_execution hinit i
  obtain ⟨w, rank, hway⟩ := onItsWay_of_held hn hrun hc
  -- The queue comes first, and then the calls of the task in front of it.
  refine Execution.eventually_of_rank
    (fun w (r : ℕ ×ₗ ℕ) s => Accepting s ∧
      OnItsWay c w (ofLex r).1 s.executor ∧
        effort (s.stack (.inl w)) = (ofLex r).2)
    (fun w => hfair (.inl w)) ?_ ?_
    (r := toLex (rank, effort ((x.state i).stack (.inl w))))
    ⟨hok i, hway, rfl⟩
  · rintro j w r ⟨hs, hway, _⟩
    exact enabled_of_onItsWay hs hway
  · rintro j w r ⟨hs, hway, heffort⟩
    rcases onItsWay_of_step hs (hopen j) (x.next j) hway with
      hdone | ⟨w', rank', hlt, hnew⟩ | ⟨hkeep, hless | ⟨hsame, hmine⟩⟩
    · exact .inl hdone
    · exact .inr (.inl ⟨w', toLex (rank', _),
        Prod.Lex.lt_iff.mpr (.inl hlt), hok (j + 1), hnew, rfl⟩)
    · refine .inr (.inl ⟨w, toLex ((ofLex r).1,
        effort ((x.state (j + 1)).stack (.inl w))),
        Prod.Lex.lt_iff.mpr (.inr ⟨rfl, ?_⟩), hok (j + 1), hkeep, rfl⟩)
      rwa [heffort] at hless
    · exact .inr (.inr ⟨⟨hok (j + 1), hkeep, hsame ▸ heffort⟩, hmine⟩)

theorem executed_once (hinit : x.state 0 = init κ n) {c : Call Task}
    {j k : ℕ} (hj : .executed c ∈ x.out j) (hk : .executed c ∈ x.out k) :
    j = k := by
  have hnodup : ∀ i, ((x.history i).flatMap fun r =>
      r.out.filterMap Effect.executedCall?).Nodup := by
    intro i
    have hrun := x.run i
    rw [hinit] at hrun
    rw [← List.filterMap_flatMap]
    exact executed_nodup hrun
  exact x.eq_of_nodup hnodup (List.mem_filterMap.mpr ⟨_, hj, rfl⟩)
    (List.mem_filterMap.mpr ⟨_, hk, rfl⟩)

/-- One more time after `i` and after all the times up to now. -/
theorem pairwise_snoc {i j : ℕ} {times : List ℕ}
    (hsorted : (i :: times).Pairwise (· < ·)) (hi : i < j)
    (htimes : ∀ k ∈ times, k < j) :
    (i :: (times ++ [j])).Pairwise (· < ·) := by
  rw [← List.cons_append, List.pairwise_append]
  refine ⟨hsorted, List.pairwise_singleton _ _, ?_⟩
  intro k hk k' hk'
  rw [List.mem_singleton.mp hk']
  rcases List.mem_cons.mp hk with rfl | hk
  · exact hi
  · exact htimes k hk

/-- A worker with the task of an earlier call has made some of the calls of the
task since then. -/
theorem calls_of_running (hinit : x.state 0 = init κ n)
    (hopen : ∀ i, x.event i ≠ .shutdown) {i : ℕ} {task : Task}
    (hrun : RunAt x i task) {j : ℕ} (hij : i + 1 ≤ j) {w : Fin n}
    (hw : (x.state j).executor.workers w =
      .running ⟨(x.state i).executor.calls, task⟩) :
    ∃ times done, (i :: times).Pairwise (· < ·) ∧
      (∀ k ∈ times, k < j ∧ ∃ woken, x.event k = .lock (.inl w) woken) ∧
      List.Forall₂ (RunAt x) times done ∧
      Executing done task.children ((x.state j).stack (.inl w)) := by
  have hok := accepting_of_execution hinit hopen
  induction j, hij using Nat.le_induction with
  | base =>
      have hfresh : (x.state i).executor.workers w ≠
          .running ⟨(x.state i).executor.calls, task⟩ := by
        intro hold
        obtain ⟨history, hexecutor⟩ := executor_of_execution hinit i
        exact Nat.lt_irrefl _
          (ticket_lt hexecutor (.inl (mem_held.mpr (.inr ⟨w, hold⟩))))
      cases advance_of_step (hok i) (hopen i) (x.next i) hw with
      | popped _ hevent =>
          obtain ⟨thread, ⟨woken, hlock⟩, _⟩ := hrun
          rw [hlock] at hevent
          cases hevent
      | goesOn hold => exact (hfresh hold).elim
      | returns hold => exact (hfresh hold).elim
  | succ j hij ih =>
      cases advance_of_step (hok j) (hopen j) (x.next j) hw with
      | popped _ _ hbody =>
          refine ⟨[], [], List.pairwise_singleton _ _, by simp, .nil, ?_⟩
          rw [hbody]
          exact .body rfl
      | goesOn hold hkeep =>
          obtain ⟨times, done, hsorted, hcalls, hruns, hdone⟩ := ih hold
          refine ⟨times, done, hsorted, ?_, hruns, hkeep done hdone⟩
          exact fun k hk => (hcalls k hk).imp_left Nat.lt_succ_of_lt
      | @returns child hold hlocks hchild =>
          obtain ⟨times, done, hsorted, hcalls, hruns, hdone⟩ := ih hold
          refine ⟨times ++ [j], done ++ [child], ?_, ?_,
            List.rel_append hruns (.cons ⟨_, hlocks⟩ .nil),
            hchild done hdone⟩
          · exact pairwise_snoc hsorted hij fun k hk => (hcalls k hk).1
          · intro k hk
            rcases List.mem_append.mp hk with hk | hk
            · exact (hcalls k hk).imp_left Nat.lt_succ_of_lt
            · rw [List.mem_singleton.mp hk]
              exact ⟨Nat.lt_succ_self _, hlocks.1⟩

theorem forall₂_of_mem {α β : Type*} {R R' : α → β → Prop} {l : List α}
    {l' : List β} (h : List.Forall₂ R l l')
    (hmem : ∀ b ∈ l', ∀ a, R a b → R' a b) : List.Forall₂ R' l l' := by
  induction h with
  | nil => exact .nil
  | cons hab _ ih =>
      refine .cons (hmem _ (by simp) _ hab) (ih ?_)
      exact fun b hb => hmem b (List.mem_cons_of_mem _ hb)

/-- What `run` gets is executed, with all that it calls `run` for. -/
theorem completes_of_runAt (hn : 0 < n) (hinit : x.state 0 = init κ n)
    (hopen : ∀ i, x.event i ≠ .shutdown)
    (hfair : ∀ thread, x.Fair (OfThread thread)) (task : Task) :
    ∀ i, RunAt x i task → Completes x i task := by
  induction task using Task.induct with
  | h task ih =>
      intro i hrun
      have hok := accepting_of_execution hinit hopen
      obtain ⟨thread, hlocks⟩ := id hrun
      obtain ⟨j, hij, hexecuted⟩ := held_executed hn hinit hopen hfair
        (held_of_locks (hok i) (x.next i) hlocks)
      obtain ⟨w, hperform, hw, hstack⟩ :=
        performed_of_executed (hok j) (hopen j) (x.next j) hexecuted
      obtain ⟨times, done, hsorted, hcalls, hruns, hdone⟩ :=
        calls_of_running hinit hopen hrun hij hw
      rw [hstack] at hdone
      obtain rfl := hdone.done_eq
      have honce : ∀ k,
          .executed ⟨(x.state i).executor.calls, task⟩ ∈ x.out k ↔ k = j :=
        fun k => ⟨fun hk => executed_once hinit hk hexecuted,
          fun hk => hk ▸ hexecuted⟩
      exact .intro w hrun hperform honce (fun k hk => (hcalls k hk).2)
        (pairwise_snoc hsorted hij fun k hk => (hcalls k hk).1)
        (forall₂_of_mem hruns fun child hchild k => ih child hchild k)

/-- If no thread is kept from going on for ever, then the next time that a
client which calls `run` gets the mutex, this is for a task that is executed
with everything it submits, and what this submits, and so on; each task is
executed once, after all the calls it makes, in the worker which makes them. -/
theorem trees_complete (hn : 0 < n) (hinit : x.state 0 = init κ n)
    (hopen : ∀ i, x.event i ≠ .shutdown)
    (hfair : ∀ thread, x.Fair (OfThread thread)) {i : ℕ} {client : κ}
    {task : Task} (hsubmit : x.event i = .submit client task) :
    ∃ k, i < k ∧ (∃ woken, x.event k = .lock (.inr client) woken) ∧
      (∀ j, i < j → j < k → ∀ woken, x.event j ≠ .lock (.inr client) woken) ∧
      Completes x k task := by
  have hok := accepting_of_execution hinit hopen
  have hstart : (x.state (i + 1)).stack (.inr client) = [.locking task] := by
    have hstep := x.next i
    rw [hsubmit] at hstep
    exact stack_of_submit hstep
  have hlocked : ∃ k, i + 1 ≤ k ∧
      ∃ woken, x.event k = .lock (.inr client) woken := by
    refine Execution.eventually_of_rank
      (fun (_ : Unit) (_ : ℕ) s =>
        Accepting s ∧ s.stack (.inr client) = [.locking task])
      (fun _ => hfair (.inr client)) ?_ ?_ (k := ()) (r := 0)
      ⟨hok (i + 1), hstart⟩
    · rintro j _ _ ⟨hs, hstack⟩
      exact exists_lock hs hstack
    · rintro j _ _ ⟨hs, hstack⟩
      by_cases hgoal : ∃ woken, x.event j = .lock (.inr client) woken
      · exact .inl hgoal
      · have hkeep := stack_of_step hs (x.next j) hstack
          fun woken hlock => hgoal ⟨woken, hlock⟩
        exact .inr (.inr ⟨⟨hok (j + 1), hkeep⟩,
          fun he => hgoal (lock_of_ofThread (x.next j) hstack he)⟩)
  classical
  obtain ⟨hik, hlock⟩ := Nat.find_spec hlocked
  have hfirst : ∀ j, i < j → j < Nat.find hlocked →
      ∀ woken, x.event j ≠ .lock (.inr client) woken :=
    fun j hj hlt woken hevent => Nat.find_min hlocked hlt ⟨hj, woken, hevent⟩
  have hstack : ∀ j, i + 1 ≤ j → j ≤ Nat.find hlocked →
      (x.state j).stack (.inr client) = [.locking task] := by
    intro j hj
    induction j, hj using Nat.le_induction with
    | base => exact fun _ => hstart
    | succ j hj ih =>
        intro hle
        exact stack_of_step (hok j) (x.next j) (ih (Nat.le_of_lt hle))
          (hfirst j hj hle)
  refine ⟨Nat.find hlocked, hik, hlock, hfirst, ?_⟩
  exact completes_of_runAt hn hinit hopen hfair task _
    ⟨_, hlock, [], hstack _ hik le_rfl⟩

end Executions

/-- A task which submits two tasks, the first of which submits one. -/
def tree : Task :=
  .mk [.mk [.mk [] none] (some "bad request"), .mk [] none] none

/-- Two workers execute it, and then they sleep and wake up spuriously. -/
def treeRun : Option (History Unit 2 × State Unit 2) :=
  execute step (init Unit 2)
    [.submit () tree, .lock (.inr ()) none, .dispatch worker0,
      .call (.inl worker0), .lock (.inl worker0) none, .dispatch worker1,
      .call (.inl worker0), .call (.inl worker1), .lock (.inl worker0) none,
      .lock (.inl worker1) none, .perform worker0, .perform worker1,
      .dispatch worker1, .dispatch worker0, .perform worker0,
      .dispatch worker0, .perform worker1, .dispatch worker1]

def idleRun : Option (History Unit 2 × State Unit 2) :=
  execute step (treeRun.get (by decide)).2
    [.wake worker0, .dispatch worker0, .wake worker1, .dispatch worker1]

theorem idleRun_returns :
    (idleRun.get (by decide)).2 = (treeRun.get (by decide)).2 := by
  have hworkers : (idleRun.get (by decide)).2.executor.workers =
      (treeRun.get (by decide)).2.executor.workers := by
    funext w
    revert w
    exact Fin.forall_fin_two.mpr ⟨rfl, rfl⟩
  have hstack : (idleRun.get (by decide)).2.stack =
      (treeRun.get (by decide)).2.stack := by
    funext thread
    rcases thread with w | client
    · revert w
      exact Fin.forall_fin_two.mpr ⟨rfl, rfl⟩
    · rfl
  exact congrArg₂
    (fun workers stack =>
      { (treeRun.get (by decide)).2 with
        executor := { (treeRun.get (by decide)).2.executor with
          workers := workers }
        stack := stack })
    hworkers hstack

def growing : Execution (step (κ := Unit) (n := 2)) :=
  lasso (treeRun.get (by decide)).1 (idleRun.get (by decide)).1 (by decide)
    (run_of_execute_get (by decide))
    (idleRun_returns ▸ run_of_execute_get (by decide))

instance (e : Event κ n) : Decidable (e = .shutdown) :=
  match e with
  | .shutdown => isTrue rfl
  | .submit _ _ | .call _ | .lock _ _ | .unlock _ | .join | .dispatch _
  | .wake _ | .perform _ => isFalse nofun

theorem growing_open (i : ℕ) : growing.event i ≠ .shutdown := by
  have hopen : ∀ r ∈ (treeRun.get (by decide)).1 ++
      (idleRun.get (by decide)).1, r.event ≠ .shutdown := by decide
  exact hopen _ (lassoRecord_mem i)

theorem growing_fair (thread : Thread Unit 2) :
    growing.Fair (OfThread thread) := by
  rcases thread with w | client
  · refine lasso_fair ?_
    revert w
    refine Fin.forall_fin_two.mpr ⟨?_, ?_⟩
    · exact ⟨(idleRun.get (by decide)).1[1], List.getElem_mem _,
        .inr (.inr ⟨worker0, rfl, .inl rfl⟩)⟩
    · exact ⟨(idleRun.get (by decide)).1[3], List.getElem_mem _,
        .inr (.inr ⟨worker1, rfl, .inl rfl⟩)⟩
  · refine lasso_fair_of_disabled
      ⟨(idleRun.get (by decide)).1[0], List.getElem_mem _, ?_⟩
    rintro e (rfl | ⟨woken, rfl⟩ | ⟨w, hw, _⟩)
    · rfl
    · rfl
    · cases hw

theorem trees_complete_growing :
    ∃ k, 0 < k ∧ (∃ woken, growing.event k = .lock (.inr ()) woken) ∧
      (∀ j, 0 < j → j < k → ∀ woken,
        growing.event j ≠ .lock (.inr ()) woken) ∧
      Completes growing k tree :=
  have hsubmit : growing.event 0 = .submit () tree := rfl
  trees_complete (by decide) lasso_state_zero growing_open growing_fair hsubmit

end SAOmega.TaskExecutor.Nested
