import SAOmega.TaskExecutor.Model

/-!
# What a step of the executor can do

`Transition` lists the branches which the source can take, each with its guard.
The `else continue` of `dispatchTasks` is not among them: the wait loop before
it only ends when the queue is non-empty or the executor is shutting down.
-/

namespace SAOmega.TaskExecutor

open SAOmega.Support

variable {τ : Type*} {n : ℕ}

inductive Transition (s : State τ n) :
    Event τ n → List (Effect τ n) → State τ n → Prop
  | runInline (task : τ) (woken : Option (Fin n)) (thrown : Option String)
      (hflag : s.isShuttingDownTaskQueue = true) :
      Transition s (.run task woken thrown)
        (.executed ⟨s.calls, task⟩ ::
          logThrown none "Error Task run: " thrown)
        { s with calls := s.calls + 1 }
  | runQueued {workers : Fin n → Worker τ}
      (task : τ) (woken : Option (Fin n)) (thrown : Option String)
      (hflag : s.isShuttingDownTaskQueue = false)
      (hnotify : notifyOne s.workers woken = some workers) :
      Transition s (.run task woken thrown) []
        { s with
          queue := s.queue ++ [⟨s.calls, task⟩], workers := workers,
          calls := s.calls + 1 }
  | shutdownFirst (hjoining : s.joining = none)
      (hflag : s.isShuttingDownTaskQueue = false) :
      Transition s .shutdown []
        { s with
          isShuttingDownTaskQueue := true, workers := notifyAll s.workers,
          joining := some 0 }
  | shutdownAgain (hjoining : s.joining = none)
      (hflag : s.isShuttingDownTaskQueue = true) :
      Transition s .shutdown [] { s with joining := some 0 }
  | joinFinished {i : ℕ} (hi : i < n) (hjoining : s.joining = some i)
      (hjoinable : s.joinable ⟨i, hi⟩ = true)
      (hfinished : s.workers ⟨i, hi⟩ = .finished) :
      Transition s .join []
        { s with
          joinable := Function.update s.joinable ⟨i, hi⟩ false,
          joining := some (i + 1) }
  | joinThrows {i : ℕ} (hi : i < n) (hjoining : s.joining = some i)
      (hjoinable : s.joinable ⟨i, hi⟩ = false) :
      Transition s .join [.shutdownThrew] { s with joining := none }
  | joinReturns {i : ℕ} (hi : n ≤ i) (hjoining : s.joining = some i) :
      Transition s .join [.shutdownReturned] { s with joining := none }
  | wait (w : Fin n) (hworker : s.workers w = .locking)
      (hflag : s.isShuttingDownTaskQueue = false) (hqueue : s.queue = []) :
      Transition s (.dispatch w) [] (setWorker s w .waiting)
  | exit (w : Fin n) (hworker : s.workers w = .locking)
      (hflag : s.isShuttingDownTaskQueue = true) (hqueue : s.queue = []) :
      Transition s (.dispatch w) [] (setWorker s w .finished)
  | pop {call : Call τ} {queue : List (Call τ)} (w : Fin n)
      (hworker : s.workers w = .locking) (hqueue : s.queue = call :: queue) :
      Transition s (.dispatch w) []
        { setWorker s w (.running call) with queue := queue }
  | wake (w : Fin n) (hworker : s.workers w = .waiting) :
      Transition s (.wake w) [] (setWorker s w .locking)
  | perform {call : Call τ} (w : Fin n) (thrown : Option String)
      (hworker : s.workers w = .running call) :
      Transition s (.perform w thrown)
        (.executed call ::
          logThrown (some w) " Error Task dispatchTasks: " thrown)
        (setWorker s w .locking)

theorem transition_of_run {s t : State τ n} {task : τ}
    {woken : Option (Fin n)} {thrown : Option String}
    {o : List (Effect τ n)}
    (h : run task woken thrown s = some (o, t)) :
    Transition s (.run task woken thrown) o t := by
  unfold run at h
  split at h
  next hflag =>
    cases h
    exact .runInline task woken thrown hflag
  next hflag =>
    split at h
    next workers hnotify =>
      cases h
      exact .runQueued task woken thrown (Bool.eq_false_of_not_eq_true hflag)
        hnotify
    next => cases h

theorem transition_of_shutdown {s t : State τ n} {o : List (Effect τ n)}
    (h : shutdown s = some (o, t)) : Transition s .shutdown o t := by
  unfold shutdown at h
  split at h
  next => cases h
  next hjoining =>
    split at h
    next hflag =>
      cases h
      exact .shutdownFirst hjoining (by simpa using hflag)
    next hflag =>
      cases h
      exact .shutdownAgain hjoining (by simpa using hflag)

theorem transition_of_join {s t : State τ n} {o : List (Effect τ n)}
    (h : join s = some (o, t)) : Transition s .join o t := by
  unfold join at h
  split at h
  next => cases h
  next i hjoining =>
    split at h
    next hi =>
      split at h
      next hjoinable =>
        split at h
        next hfinished =>
          cases h
          exact .joinFinished hi hjoining hjoinable hfinished
        next => cases h
      next hjoinable =>
        cases h
        exact .joinThrows hi hjoining (Bool.eq_false_of_not_eq_true hjoinable)
    next hi =>
      cases h
      exact .joinReturns (Nat.le_of_not_lt hi) hjoining

theorem transition_of_dispatchTasks {s t : State τ n} {w : Fin n}
    {o : List (Effect τ n)} (h : dispatchTasks w s = some (o, t)) :
    Transition s (.dispatch w) o t := by
  unfold dispatchTasks at h
  split at h
  next hworker =>
    split at h
    next hwait =>
      cases h
      simp only [Bool.and_eq_true, Bool.not_eq_true', List.isEmpty_iff]
        at hwait
      exact .wait w hworker hwait.1 hwait.2
    next hwait =>
      split at h
      next hqueue =>
        split at h
        next hflag =>
          cases h
          exact .exit w hworker hflag hqueue
        next hflag => simp [hqueue, hflag] at hwait
      next call queue hqueue =>
        cases h
        exact .pop w hworker hqueue
  next => cases h

theorem transition_of_step {s t : State τ n} {e : Event τ n}
    {o : List (Effect τ n)} (h : step s e = some (o, t)) :
    Transition s e o t := by
  cases e with
  | run task woken thrown => exact transition_of_run h
  | shutdown => exact transition_of_shutdown h
  | join => exact transition_of_join h
  | dispatch w => exact transition_of_dispatchTasks h
  | wake w =>
      simp only [step, SAOmega.TaskExecutor.wake] at h
      split at h
      next hworker =>
        cases h
        exact .wake w hworker
      next => cases h
  | perform w thrown =>
      simp only [step, SAOmega.TaskExecutor.perform] at h
      split at h
      next call hworker =>
        cases h
        exact .perform w thrown hworker
      next => cases h

/-- Only `shutdown()` writes the flag. -/
theorem flag_of_step {s t : State τ n} {e : Event τ n} {o : List (Effect τ n)}
    (h : step s e = some (o, t)) (he : e ≠ .shutdown) :
    t.isShuttingDownTaskQueue = s.isShuttingDownTaskQueue := by
  cases transition_of_step h with
  | shutdownFirst | shutdownAgain => exact (he rfl).elim
  | runInline | runQueued | joinFinished | joinThrows | joinReturns | wait
  | exit | pop | wake | perform => rfl

/-! ## The notifications -/

theorem notifyOne_cases {workers workers' : Fin n → Worker τ}
    {woken : Option (Fin n)} (h : notifyOne workers woken = some workers') :
    (∃ w, workers w = .waiting ∧
        workers' = Function.update workers w .locking) ∨
      (∀ w, workers w ≠ .waiting) ∧ workers' = workers := by
  cases woken with
  | some w =>
      simp only [notifyOne] at h
      split at h
      next hw =>
        cases h
        exact .inl ⟨w, hw, rfl⟩
      next => cases h
  | none =>
      simp only [notifyOne] at h
      split at h
      next hnone =>
        cases h
        refine .inr ⟨?_, rfl⟩
        intro w hw
        have hfalse := hnone w
        simp [hw, Worker.isWaiting] at hfalse
      next => cases h

theorem notifyAll_ne_waiting (workers : Fin n → Worker τ) (w : Fin n) :
    notifyAll workers w ≠ .waiting := by
  unfold notifyAll
  split
  next => simp
  next hne => exact fun heq => hne heq

/-! ## Facts about all steps -/

variable {s t : State τ n} {e : Event τ n} {o : List (Effect τ n)}

theorem isRunning_notifyOne {workers workers' : Fin n → Worker τ}
    {woken : Option (Fin n)} (h : notifyOne workers woken = some workers')
    (w : Fin n) : (workers' w).isRunning = (workers w).isRunning := by
  rcases notifyOne_cases h with ⟨w', hw', rfl⟩ | ⟨_, rfl⟩
  · by_cases heq : w = w'
    · subst heq
      simp [hw', Worker.isRunning]
    · simp [heq]
  · rfl

theorem isRunning_notifyAll (workers : Fin n → Worker τ) (w : Fin n) :
    (notifyAll workers w).isRunning = (workers w).isRunning := by
  unfold notifyAll
  split
  next hw => simp [hw, Worker.isRunning]
  next => rfl

theorem isRunning_setWorker {w w' : Fin n} {worker : Worker τ}
    (h : w' = w → worker.isRunning = (s.workers w').isRunning) :
    ((setWorker s w worker).workers w').isRunning =
      (s.workers w').isRunning := by
  by_cases heq : w' = w
  · rw [← h heq, heq]
    simp [setWorker]
  · simp [setWorker, heq]

/-- A worker starts and ends a task in its own steps only. -/
theorem isRunning_of_step (h : step s e = some (o, t)) (w : Fin n)
    (hdispatch : e ≠ .dispatch w) (hperform : ∀ thrown, e ≠ .perform w thrown) :
    (t.workers w).isRunning = (s.workers w).isRunning := by
  cases transition_of_step h with
  | runInline | shutdownAgain | joinFinished | joinThrows | joinReturns => rfl
  | runQueued task woken thrown hflag hnotify =>
      exact isRunning_notifyOne hnotify w
  | shutdownFirst => exact isRunning_notifyAll s.workers w
  | wait w' | exit w' | pop w' =>
      have hne : w ≠ w' := fun heq => hdispatch (by rw [heq])
      exact isRunning_setWorker fun heq => (hne heq).elim
  | wake w' hworker =>
      exact isRunning_setWorker fun heq => by simp [heq, hworker, Worker.isRunning]
  | perform w' thrown =>
      have hne : w ≠ w' := fun heq => hperform thrown (by rw [heq])
      exact isRunning_setWorker fun heq => (hne heq).elim

theorem flag_of_shutdown (h : step s .shutdown = some (o, t)) :
    t.isShuttingDownTaskQueue = true := by
  cases transition_of_step h with
  | shutdownFirst => rfl
  | shutdownAgain hjoining hflag => exact hflag

theorem flag_mono_of_step (h : step s e = some (o, t))
    (hflag : s.isShuttingDownTaskQueue = true) :
    t.isShuttingDownTaskQueue = true := by
  by_cases he : e = .shutdown
  · subst he
    exact flag_of_shutdown h
  · rw [flag_of_step h he, hflag]

theorem locking_of_dispatch {w : Fin n}
    (h : step s (.dispatch w) = some (o, t)) : s.workers w = .locking := by
  cases transition_of_step h with
  | wait _ hworker | exit _ hworker | pop _ hworker => exact hworker

theorem exists_notifyOne (workers : Fin n → Worker τ) :
    ∃ woken workers', notifyOne workers woken = some workers' := by
  by_cases h : ∀ w, (workers w).isWaiting = false
  · exact ⟨none, workers, by simp only [notifyOne, if_pos h]⟩
  · obtain ⟨w, hw⟩ := not_forall.mp h
    refine ⟨some w, Function.update workers w .locking, ?_⟩
    cases hworker : workers w with
    | waiting => simp [notifyOne, hworker]
    | locking | running | finished => simp [hworker, Worker.isWaiting] at hw

theorem exists_run_inline (task : τ) (woken : Option (Fin n))
    (thrown : Option String) (hflag : s.isShuttingDownTaskQueue = true) :
    ∃ o t, step s (.run task woken thrown) = some (o, t) :=
  ⟨_, _, if_pos hflag⟩

theorem exists_run_queued (task : τ) (thrown : Option String)
    (hflag : s.isShuttingDownTaskQueue = false) :
    ∃ woken o t, step s (.run task woken thrown) =
      some (o, t) := by
  obtain ⟨woken, workers, hnotify⟩ := exists_notifyOne s.workers
  exact ⟨woken, _, _, by
    simp only [step, run, hflag, hnotify]
    rfl⟩

end SAOmega.TaskExecutor
