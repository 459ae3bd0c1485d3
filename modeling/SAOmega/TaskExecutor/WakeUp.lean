import SAOmega.TaskExecutor.ExactlyOnce

/-!
# No wake-up is lost

The sleepers of `signal` are the workers in `waiting`.  A queued task always
has a worker on its way to the mutex or in a task, and a shutdown leaves no
sleeper behind.
-/

namespace SAOmega.TaskExecutor

open SAOmega.Support

variable {τ : Type*} {n : ℕ}

/-- A worker which will take the mutex again without being woken. -/
def Worker.Awake (worker : Worker τ) : Prop :=
  worker ≠ .waiting ∧ worker ≠ .finished

theorem awake_locking : (Worker.locking : Worker τ).Awake :=
  ⟨by simp, by simp⟩

theorem awake_running (call : Call τ) : (Worker.running call).Awake :=
  ⟨by simp, by simp⟩

structure NoLostWakeUp (s : State τ n) : Prop where
  queued : s.queue ≠ [] → ∃ w, (s.workers w).Awake
  shutting : s.isShuttingDownTaskQueue = true →
    ∀ w, s.workers w ≠ .waiting

theorem noLostWakeUp_init : NoLostWakeUp (init τ n) where
  queued h := (h rfl).elim
  shutting h := by simp [init] at h

/-- A worker that moves on without going to sleep keeps the invariant. -/
theorem NoLostWakeUp.setWorker {s : State τ n} (h : NoLostWakeUp s)
    {w : Fin n} {worker : Worker τ} (hawake : worker.Awake) :
    NoLostWakeUp (TaskExecutor.setWorker s w worker) where
  queued _ := ⟨w, by simpa [TaskExecutor.setWorker] using hawake⟩
  shutting hflag := by
    intro w'
    by_cases heq : w' = w
    · subst heq
      simpa [TaskExecutor.setWorker] using hawake.1
    · simpa [TaskExecutor.setWorker, heq] using h.shutting hflag w'

/-- After `notify_one` some worker is awake: the one it woke, or, if there was
no sleeper, any worker. -/
theorem notifyOne_awake (hn : 0 < n) {workers workers' : Fin n → Worker τ}
    {woken : Option (Fin n)} (h : notifyOne workers woken = some workers')
    (hfinished : ∀ w, workers w ≠ .finished) :
    ∃ w, (workers' w).Awake := by
  rcases notifyOne_cases h with ⟨w, _, rfl⟩ | ⟨hnone, rfl⟩
  · exact ⟨w, by simpa using awake_locking⟩
  · exact ⟨⟨0, hn⟩, hnone _, hfinished _⟩

theorem notifyAll_awake {workers : Fin n → Worker τ} {w : Fin n}
    (h : (workers w).Awake) : (notifyAll workers w).Awake := by
  unfold notifyAll
  split
  next hw => exact awake_locking
  next => exact h

theorem step_noLostWakeUp (hn : 0 < n) {s t : State τ n} {e : Event τ n}
    {o : List (Effect τ n)} (hdrained : Drained s) (hs : NoLostWakeUp s)
    (h : step s e = some (o, t)) : NoLostWakeUp t := by
  cases transition_of_step h with
  | runInline => exact ⟨hs.queued, hs.shutting⟩
  | runQueued task woken thrown hflag hnotify =>
      have hfinished : ∀ w, s.workers w ≠ .finished := by
        intro w hw
        simpa [hflag] using (hdrained.finished w hw).1
      refine ⟨fun _ => notifyOne_awake hn hnotify hfinished, ?_⟩
      intro hshutting
      simp [hflag] at hshutting
  | shutdownFirst hjoining hflag =>
      refine ⟨?_, fun _ => notifyAll_ne_waiting s.workers⟩
      intro hqueue
      obtain ⟨w, hw⟩ := hs.queued hqueue
      exact ⟨w, notifyAll_awake hw⟩
  | shutdownAgain => exact ⟨hs.queued, hs.shutting⟩
  | joinFinished => exact ⟨hs.queued, hs.shutting⟩
  | joinThrows => exact ⟨hs.queued, hs.shutting⟩
  | joinReturns => exact ⟨hs.queued, hs.shutting⟩
  | wait w hworker hflag hqueue =>
      -- Both tests have just failed, under the mutex.
      refine ⟨fun hne => (hne hqueue).elim, ?_⟩
      intro hshutting
      simp [setWorker, hflag] at hshutting
  | exit w hworker hflag hqueue =>
      refine ⟨fun hne => (hne hqueue).elim, ?_⟩
      intro hshutting w'
      by_cases heq : w' = w
      · simp [setWorker, heq]
      · simpa [setWorker, heq] using hs.shutting hshutting w'
  | @pop call queue w hworker hqueue =>
      have hset : NoLostWakeUp (setWorker s w (.running call)) :=
        hs.setWorker (awake_running call)
      exact ⟨fun _ => ⟨w, by simpa [setWorker] using awake_running call⟩,
        hset.shutting⟩
  | wake w hworker => exact hs.setWorker awake_locking
  | perform w thrown hworker => exact hs.setWorker awake_locking

theorem run_noLostWakeUp (hn : 0 < n) {s : State τ n} {history : History τ n}
    (h : Run step (init τ n) history s) : NoLostWakeUp s := by
  induction h with
  | nil => exact noLostWakeUp_init
  | snoc hrun hstep ih =>
      exact step_noLostWakeUp hn (run_drained hrun) ih hstep

/-- A queued task never waits for sleepers only, and once the executor is
shutting down nobody sleeps, so the join loop never waits for a sleeper. -/
theorem no_lost_wake_up (hn : 0 < n) {s : State τ n} {history : History τ n}
    (h : Run step (init τ n) history s) :
    (s.queue ≠ [] →
        ∃ w, s.workers w ≠ .waiting ∧ s.workers w ≠ .finished) ∧
      (s.isShuttingDownTaskQueue = true → ∀ w, s.workers w ≠ .waiting) :=
  ⟨(run_noLostWakeUp hn h).queued, (run_noLostWakeUp hn h).shutting⟩

/-- Two workers fall asleep, and two tasks are pushed before the one that was
woken gets the mutex back. -/
def burstRun : Option (History String 2 × State String 2) :=
  execute step (init String 2)
    [.dispatch worker0, .dispatch worker1, .run "a" (some worker1) none,
      .wake worker0, .run "b" none none, .dispatch worker1]

theorem no_lost_wake_up_burst :
    let s := (burstRun.get (by decide)).2
    s.queue.map Call.task = ["b"] ∧
      ∃ w, s.workers w ≠ .waiting ∧ s.workers w ≠ .finished :=
  ⟨by decide,
    (no_lost_wake_up (by decide) (run_of_execute_get (by decide))).1
      (by decide)⟩

end SAOmega.TaskExecutor
