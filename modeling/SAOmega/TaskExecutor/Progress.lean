import SAOmega.Support.Fairness
import SAOmega.TaskExecutor.Overtaking
import SAOmega.TaskExecutor.WakeUp

/-!
# Every task gets its turn

In an execution which lets each worker go on, a queued call comes nearer to the
front of the queue until a worker pops it, however many calls are queued
behind it and whether or not `shutdown()` is called.
-/

namespace SAOmega.TaskExecutor

open SAOmega.Support

variable {τ : Type*} {n : ℕ}

/-- The steps of a worker apart from spurious wake-ups: it gets the mutex, and
the task it runs comes to an end. -/
def OfWorker (w : Fin n) (e : Event τ n) : Prop :=
  e = .dispatch w ∨ ∃ thrown, e = .perform w thrown

/-- The worker brings the call forward; `rank` bounds how often workers move
until then. -/
inductive OnItsWay (c : Call τ) (w : Fin n) : ℕ → State τ n → Prop
  | running {s : State τ n} (hworker : s.workers w = .running c) :
      OnItsWay c w 0 s
  | behindLock {s : State τ n} {front back : List (Call τ)}
      (hqueue : s.queue = front ++ c :: back)
      (hworker : s.workers w = .locking) :
      OnItsWay c w (2 * front.length + 1) s
  | behindTask {s : State τ n} {front back : List (Call τ)} {d : Call τ}
      (hqueue : s.queue = front ++ c :: back)
      (hworker : s.workers w = .running d) :
      OnItsWay c w (2 * front.length + 2) s

/-- Some awake worker brings a call forward which the executor holds. -/
theorem onItsWay_of_held (hn : 0 < n) {s : State τ n} {history : History τ n}
    (h : Run step (init τ n) history s) {c : Call τ} (hc : c ∈ s.held) :
    ∃ w rank, OnItsWay c w rank s := by
  rcases mem_held.mp hc with hqueued | ⟨w, hrunning⟩
  · obtain ⟨front, back, hqueue⟩ := List.append_of_mem hqueued
    obtain ⟨w, hawake⟩ := (run_noLostWakeUp hn h).queued
      (List.ne_nil_of_mem hqueued)
    cases hworker : s.workers w with
    | locking => exact ⟨w, _, .behindLock hqueue hworker⟩
    | running d => exact ⟨w, _, .behindTask hqueue hworker⟩
    | waiting => exact (hawake.1 hworker).elim
    | finished => exact (hawake.2 hworker).elim
  · exact ⟨w, _, .running hrunning⟩

theorem OnItsWay.enabled {s : State τ n} {c : Call τ} {w : Fin n} {rank : ℕ}
    (h : OnItsWay c w rank s) :
    ∃ e, OfWorker w e ∧ (step s e).isSome = true := by
  cases h with
  | running hworker | behindTask _ hworker =>
      exact ⟨.perform w none, .inr ⟨none, rfl⟩, by
        simp [step, perform, hworker]⟩
  | @behindLock _ front back hqueue hworker =>
      refine ⟨.dispatch w, .inl rfl, ?_⟩
      cases front with
      | nil => simp [step, dispatchTasks, hworker, hqueue]
      | cons d front => simp [step, dispatchTasks, hworker, hqueue]

theorem OnItsWay.awake {s : State τ n} {c : Call τ} {w : Fin n} {rank : ℕ}
    (h : OnItsWay c w rank s) : (s.workers w).Awake := by
  cases h with
  | running hworker | behindTask _ hworker =>
      exact hworker ▸ awake_running _
  | behindLock _ hworker => exact hworker ▸ awake_locking

/-- Steps which leave the worker where it is and only add to the queue. -/
theorem OnItsWay.keep {s t : State τ n} {c : Call τ} {w : Fin n} {rank : ℕ}
    {later : List (Call τ)} (h : OnItsWay c w rank s)
    (hqueue : t.queue = s.queue ++ later)
    (hworker : t.workers w = s.workers w) : OnItsWay c w rank t := by
  cases h with
  | running hold => exact .running (hworker.trans hold)
  | @behindLock _ front back hold hw =>
      have hlater : t.queue = front ++ c :: (back ++ later) := by
        rw [hqueue, hold, List.append_assoc, List.cons_append]
      exact .behindLock hlater (hworker.trans hw)
  | @behindTask _ front back d hold hw =>
      have hlater : t.queue = front ++ c :: (back ++ later) := by
        rw [hqueue, hold, List.append_assoc, List.cons_append]
      exact .behindTask hlater (hworker.trans hw)

/-- A pop takes the call itself or one from before it. -/
theorem onItsWay_of_pop {s : State τ n} {c d : Call τ} {w : Fin n}
    {queue front back : List (Call τ)} (hpop : s.queue = d :: queue)
    (hqueue : s.queue = front ++ c :: back) :
    ∃ rank, rank < 2 * front.length + 1 ∧
      OnItsWay c w rank { setWorker s w (.running d) with queue := queue } := by
  rw [hqueue] at hpop
  cases front with
  | nil =>
      obtain ⟨rfl, rfl⟩ := List.cons.inj hpop
      exact ⟨0, Nat.succ_pos _, .running (Function.update_self ..)⟩
  | cons d' front =>
      obtain ⟨rfl, rfl⟩ := List.cons.inj hpop
      refine ⟨2 * front.length + 2, ?_,
        .behindTask rfl (Function.update_self ..)⟩
      rw [List.length_cons]
      omega

theorem not_ofWorker_of_ne {w w' : Fin n} (hne : w' ≠ w)
    (thrown : Option String) :
    ¬ OfWorker w (.dispatch w' : Event τ n) ∧
      ¬ OfWorker w (.perform w' thrown : Event τ n) := by
  constructor
  · rintro (heq | ⟨_, heq⟩)
    · exact hne (Event.dispatch.inj heq)
    · cases heq
  · rintro (heq | ⟨_, heq⟩)
    · cases heq
    · exact hne (Event.perform.inj heq).1

/-- Neither `notify_one` nor `notify_all` moves a worker that is awake. -/
theorem notifyOne_of_awake {workers workers' : Fin n → Worker τ}
    {woken : Option (Fin n)} {w : Fin n}
    (h : notifyOne workers woken = some workers')
    (hawake : (workers w).Awake) : workers' w = workers w := by
  rcases notifyOne_cases h with ⟨w', hw', rfl⟩ | ⟨_, rfl⟩
  · have hne : w ≠ w' := by
      rintro rfl
      exact hawake.1 hw'
    exact Function.update_of_ne hne _ _
  · rfl

theorem notifyAll_of_awake {workers : Fin n → Worker τ} {w : Fin n}
    (hawake : (workers w).Awake) : notifyAll workers w = workers w := by
  unfold notifyAll
  split
  next hw => exact (hawake.1 hw).elim
  next => rfl

theorem running_of_update {workers : Fin n → Worker τ} {w w' : Fin n}
    {worker : Worker τ} {c : Call τ} (hworker : worker.isRunning = false)
    (h : Function.update workers w' worker w = .running c) :
    workers w = .running c := by
  by_cases heq : w = w'
  · rw [heq, Function.update_self] at h
    simp [h, Worker.isRunning] at hworker
  · rwa [Function.update_of_ne heq] at h

theorem running_of_notifyAll {workers : Fin n → Worker τ} {w : Fin n}
    {c : Call τ} (h : notifyAll workers w = .running c) :
    workers w = .running c := by
  unfold notifyAll at h
  split at h
  next => cases h
  next => exact h

/-- A worker gets its task in `dispatchTasks`. -/
theorem running_of_step {s t : State τ n} {e : Event τ n}
    {o : List (Effect τ n)} (h : step s e = some (o, t)) {w : Fin n}
    {c : Call τ} (hw : t.workers w = .running c) :
    s.workers w = .running c ∨ e = .dispatch w := by
  cases transition_of_step h with
  | runInline | shutdownAgain | joinFinished | joinThrows | joinReturns =>
      exact .inl hw
  | runQueued task woken thrown hflag hnotify =>
      rcases notifyOne_cases hnotify with ⟨w', _, rfl⟩ | ⟨_, rfl⟩
      · exact .inl (running_of_update rfl hw)
      · exact .inl hw
  | shutdownFirst => exact .inl (running_of_notifyAll hw)
  | wait w' | exit w' | wake w' | perform w' =>
      exact .inl (running_of_update rfl hw)
  | pop w' =>
      by_cases heq : w = w'
      · exact .inr (by rw [heq])
      · exact .inl ((Function.update_of_ne heq _ _).symm.trans hw)

/-- A step executes the call, or brings it forward, or leaves it to the worker,
which then did not move. -/
theorem OnItsWay.step {s t : State τ n} {c : Call τ} {w : Fin n} {rank : ℕ}
    {e : Event τ n} {o : List (Effect τ n)} (h : OnItsWay c w rank s)
    (hstep : TaskExecutor.step s e = some (o, t)) :
    c ∈ executed ⟨s, e, o, t⟩ ∨
      (∃ w' rank', rank' < rank ∧ OnItsWay c w' rank' t) ∨
      (OnItsWay c w rank t ∧ ¬ OfWorker w e) := by
  have hawake := h.awake
  have hmoved : ∀ {w' : Fin n} {worker : Worker τ}, w' ≠ w →
      OnItsWay c w rank (setWorker s w' worker) := fun hne =>
    h.keep (List.append_nil _).symm (Function.update_of_ne hne.symm _ _)
  cases transition_of_step hstep with
  | runInline =>
      exact .inr (.inr ⟨h.keep (List.append_nil _).symm rfl,
        by simp [OfWorker]⟩)
  | runQueued task woken thrown hflag hnotify =>
      exact .inr (.inr ⟨h.keep rfl (notifyOne_of_awake hnotify hawake),
        by simp [OfWorker]⟩)
  | shutdownFirst =>
      exact .inr (.inr ⟨h.keep (List.append_nil _).symm
        (notifyAll_of_awake hawake), by simp [OfWorker]⟩)
  | shutdownAgain | joinFinished | joinThrows | joinReturns =>
      exact .inr (.inr ⟨h.keep (List.append_nil _).symm rfl,
        by simp [OfWorker]⟩)
  | wake w' hworker =>
      refine .inr (.inr ⟨hmoved ?_, by simp [OfWorker]⟩)
      rintro rfl
      exact hawake.1 hworker
  | wait w' hworker _ hempty | exit w' hworker _ hempty =>
      cases h with
      | running hold =>
          have hne : w' ≠ w := by
            rintro rfl
            simp [hworker] at hold
          exact .inr (.inr ⟨hmoved hne, (not_ofWorker_of_ne hne none).1⟩)
      | behindLock hqueue | behindTask hqueue => simp [hempty] at hqueue
  | @pop d queue w' hworker hpop =>
      cases h with
      | running hold =>
          have hne : w' ≠ w := by
            rintro rfl
            simp [hworker] at hold
          refine .inr (.inr ⟨.running ?_, (not_ofWorker_of_ne hne none).1⟩)
          exact (Function.update_of_ne hne.symm _ _).trans hold
      | behindLock hqueue | behindTask hqueue =>
          obtain ⟨rank', hlt, hnew⟩ := onItsWay_of_pop (w := w') hpop hqueue
          exact .inr (.inl ⟨w', rank', by omega, hnew⟩)
  | @perform d w' thrown hworker =>
      by_cases hne : w' = w
      · subst hne
        cases h with
        | running hold =>
            obtain rfl : d = c := by simpa [hworker] using hold
            exact .inl (by simp [executed, Effect.executedCall?])
        | behindLock _ hold => simp [hworker] at hold
        | behindTask hqueue =>
            exact .inr (.inl ⟨w', _, Nat.lt_succ_self _,
              .behindLock hqueue (Function.update_self ..)⟩)
      · exact .inr (.inr ⟨hmoved hne, (not_ofWorker_of_ne hne thrown).2⟩)

/-! ## Executions -/

theorem run_executed_nodup {s : State τ n} {history : History τ n}
    (h : Run TaskExecutor.step (init τ n) history s) :
    (executedCalls history).Nodup := by
  obtain ⟨calls, hperm, hsub⟩ := executedCalls_subperm h
  exact hperm.nodup_iff.mp (hsub.nodup (submittedCalls_nodup h))

theorem held_executed (hn : 0 < n)
    (x : Execution (TaskExecutor.step (τ := τ) (n := n)))
    (hinit : x.state 0 = init τ n) (hfair : ∀ w, x.Fair (OfWorker w))
    {i : ℕ} {c : Call τ} (hc : c ∈ (x.state i).held) :
    ∃ j, i ≤ j ∧ c ∈ executed (x.record j) := by
  have hrun := x.run i
  rw [hinit] at hrun
  obtain ⟨w, rank, hway⟩ := onItsWay_of_held hn hrun hc
  exact Execution.eventually_of_rank (OnItsWay c) hfair
    (fun _ _ _ hpending => OnItsWay.enabled hpending)
    (fun j _ _ hpending => OnItsWay.step hpending (x.next j)) hway

/-- No task starves.  If no worker is kept from the mutex for ever and no task
runs for ever, then what a `run` call is given is executed from then on, and
exactly once: whatever else is submitted, whenever workers wake up spuriously,
whichever tasks throw, and whether or not the executor is shut down. -/
theorem no_starvation (hn : 0 < n)
    (x : Execution (TaskExecutor.step (τ := τ) (n := n)))
    (hinit : x.state 0 = init τ n) (hfair : ∀ w, x.Fair (OfWorker w))
    {i : ℕ} {task : τ} {woken : Option (Fin n)} {thrown : Option String}
    (hcall : x.event i = .run task woken thrown) :
    ∃ j, i ≤ j ∧ ⟨(x.state i).calls, task⟩ ∈ executed (x.record j) ∧
      ∀ k, ⟨(x.state i).calls, task⟩ ∈ executed (x.record k) → k = j := by
  have hnodup : ∀ i, ((x.history i).flatMap executed).Nodup := by
    intro i
    have hrun := x.run i
    rw [hinit] at hrun
    exact run_executed_nodup hrun
  have hbalance := step_balance _ _ _ _ (x.next i)
  have hmem : ⟨(x.state i).calls, task⟩ ∈
      (x.state (i + 1)).held + (executed (x.record i) : Multiset (Call τ)) := by
    rw [Execution.record, hbalance]
    simp [submitted, hcall]
  have hdone : ∃ j, i ≤ j ∧
      ⟨(x.state i).calls, task⟩ ∈ executed (x.record j) := by
    rcases Multiset.mem_add.mp hmem with hheld | hinline
    · obtain ⟨j, hj, hexecuted⟩ := held_executed hn x hinit hfair hheld
      exact ⟨j, Nat.le_of_succ_le hj, hexecuted⟩
    · exact ⟨i, le_rfl, Multiset.mem_coe.mp hinline⟩
  obtain ⟨j, hj, hexecuted⟩ := hdone
  exact ⟨j, hj, hexecuted, fun k hk => x.eq_of_nodup hnodup hk hexecuted⟩

/-- A task is executed, and then the two workers sleep and wake up spuriously
for ever. -/
def stemRun : Option (History String 2 × State String 2) :=
  execute step (init String 2)
    [.run "status" none none, .dispatch worker0, .perform worker0 none,
      .dispatch worker0, .dispatch worker1]

def loopRun : Option (History String 2 × State String 2) :=
  execute step (stemRun.get (by decide)).2
    [.wake worker0, .dispatch worker0, .wake worker1, .dispatch worker1]

theorem loopRun_returns :
    (loopRun.get (by decide)).2 = (stemRun.get (by decide)).2 := by
  have hworkers : (loopRun.get (by decide)).2.workers =
      (stemRun.get (by decide)).2.workers := by
    funext w
    revert w
    decide
  exact congrArg
    (fun workers => { (stemRun.get (by decide)).2 with workers := workers })
    hworkers

/-- The execution with the stem and then the loop for ever. -/
def napping : Execution (TaskExecutor.step (τ := String) (n := 2)) :=
  lasso (stemRun.get (by decide)).1 (loopRun.get (by decide)).1 (by decide)
    (run_of_execute_get (by decide))
    (loopRun_returns ▸ run_of_execute_get (by decide))

theorem napping_fair (w : Fin 2) : napping.Fair (OfWorker w) := by
  refine lasso_fair ?_
  revert w
  refine Fin.forall_fin_two.mpr ⟨?_, ?_⟩
  · exact ⟨(loopRun.get (by decide)).1[1], List.getElem_mem _, .inl rfl⟩
  · exact ⟨(loopRun.get (by decide)).1[3], List.getElem_mem _, .inl rfl⟩

theorem no_starvation_napping :
    ∃ j, 0 ≤ j ∧ ⟨0, "status"⟩ ∈ executed (napping.record j) ∧
      ∀ k, ⟨0, "status"⟩ ∈ executed (napping.record k) → k = j :=
  have hcall : napping.event 0 = .run "status" none none := rfl
  no_starvation (by decide) napping lasso_state_zero napping_fair hcall

end SAOmega.TaskExecutor
