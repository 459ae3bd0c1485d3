import SAOmega.Support.Simulation
import SAOmega.TaskExecutor.WakeUp

/-!
# When a call of `shutdown()` returns

`shutdown()` sets its flag only once, but runs the join loop on every call.
The first call joins every thread and returns.  A later one finds thread 0 not
joinable any more, and `join` throws, unless there is no thread at all.
-/

namespace SAOmega.TaskExecutor

open SAOmega.Support

variable {τ : Type*} {n : ℕ}

/-- A `shutdown()` call is in its join loop. -/
def InShutdown (s : State τ n) : Prop := s.joining ≠ none

/-- The steps of the workers and of the thread in `shutdown()`; the others are
calls from elsewhere and spurious wake-ups. -/
def Event.isOwn : Event τ n → Bool
  | .join | .dispatch _ | .perform _ _ => true
  | _ => false

/-- A run of the executor from the mutex-protected block of a `shutdown()` call
in `s` up to some moment before the call is over, or its end. -/
def ShutdownWindow (s : State τ n) (history : History τ n)
    (u : State τ n) : Prop :=
  ∃ o t, step s .shutdown = some (o, t) ∧ Run step t history u ∧
    ∀ r ∈ history, InShutdown r.pre

/-- What is expected of a `shutdown()` call that is made in `s`. -/
structure ReturnsNormally (s : State τ n) : Prop where
  /-- It does not block forever. -/
  ends : ∀ o t, step s .shutdown = some (o, t) →
    EventuallyLeaves step InShutdown Event.isOwn t
  /-- No exception leaves it. -/
  noThrow : ∀ history u, ShutdownWindow s history u →
    ∀ r ∈ history, .shutdownThrew ∉ r.out
  /-- When it is not the first one, it changes nothing. -/
  unchanged : s.isShuttingDownTaskQueue = true →
    ∀ history u, ShutdownWindow s history u →
      u.isShuttingDownTaskQueue = s.isShuttingDownTaskQueue ∧
        u.queue = s.queue ∧ u.workers = s.workers ∧ u.joinable = s.joinable

/-! ## The first call -/

/-- The join loop of the first call: nobody sleeps, and the threads which the
loop has not reached are joinable. -/
structure FirstCall (s : State τ n) : Prop where
  shutting : s.isShuttingDownTaskQueue = true
  noSleeper : ∀ w, s.workers w ≠ .waiting
  joinable : ∀ i, s.joining = some i →
    i ≤ n ∧ ∀ w : Fin n, i ≤ w.val → s.joinable w = true

theorem FirstCall.setWorker {s : State τ n} (h : FirstCall s) {w : Fin n}
    {worker : Worker τ} (hworker : worker ≠ .waiting) :
    FirstCall (TaskExecutor.setWorker s w worker) where
  shutting := h.shutting
  noSleeper := by
    intro w'
    by_cases heq : w' = w
    · subst heq
      simpa [TaskExecutor.setWorker] using hworker
    · simpa [TaskExecutor.setWorker, heq] using h.noSleeper w'
  joinable := h.joinable

theorem step_firstCall {s t : State τ n} {e : Event τ n}
    {o : List (Effect τ n)} (hs : FirstCall s) (hbusy : InShutdown s)
    (h : step s e = some (o, t)) :
    FirstCall t ∧ .shutdownThrew ∉ o := by
  cases transition_of_step h with
  | runInline task woken thrown hflag =>
      refine ⟨⟨hs.shutting, hs.noSleeper, hs.joinable⟩, ?_⟩
      intro hthrew
      rcases mem_performed hthrew with heq | ⟨line, heq⟩
      · cases heq
      · cases heq
  | runQueued task woken thrown hflag hnotify =>
      simp [hs.shutting] at hflag
  | shutdownFirst hjoining => exact (hbusy hjoining).elim
  | shutdownAgain hjoining => exact (hbusy hjoining).elim
  | @joinFinished i hi hjoining hjoinable hfinished =>
      refine ⟨⟨hs.shutting, hs.noSleeper, ?_⟩, by simp⟩
      intro j hj
      obtain rfl : i + 1 = j := by simpa using hj
      refine ⟨hi, ?_⟩
      intro w hw
      have hne : w ≠ ⟨i, hi⟩ := by
        rintro rfl
        exact absurd hw (Nat.not_succ_le_self i)
      simpa [hne] using
        (hs.joinable i hjoining).2 w (Nat.le_of_succ_le hw)
  | @joinThrows i hi hjoining hjoinable =>
      have htrue := (hs.joinable i hjoining).2 ⟨i, hi⟩ le_rfl
      simp [hjoinable] at htrue
  | joinReturns => exact ⟨⟨hs.shutting, hs.noSleeper, by simp⟩, by simp⟩
  | wait w hworker hflag hqueue => simp [hs.shutting] at hflag
  | exit => exact ⟨hs.setWorker (by simp), by simp⟩
  | @pop call queue w hworker hqueue =>
      have hset : FirstCall (TaskExecutor.setWorker s w (.running call)) :=
        hs.setWorker (by simp)
      exact ⟨⟨hset.shutting, hset.noSleeper, hset.joinable⟩, by simp⟩
  | wake w hworker => exact (hs.noSleeper w hworker).elim
  | perform w thrown hworker =>
      refine ⟨hs.setWorker (by simp), ?_⟩
      intro hthrew
      rcases mem_performed hthrew with heq | ⟨line, heq⟩
      · cases heq
      · cases heq

/-! ## Its variant -/

/-- How many own steps a worker still makes after the queue is empty. -/
def Worker.remaining : Worker τ → ℕ
  | .locking => 1
  | .waiting => 1
  | .running _ => 2
  | .finished => 0

/-- A queued call costs one step to pop and one to perform. -/
def remaining (s : State τ n) : ℕ :=
  2 * s.queue.length + (∑ w, (s.workers w).remaining) +
    match s.joining with
    | some i => n + 1 - i
    | none => 0

theorem remaining_setWorker (s : State τ n) (w : Fin n) (worker : Worker τ) :
    remaining (setWorker s w worker) + (s.workers w).remaining =
      remaining s + worker.remaining := by
  have hsum := sum_update_add Worker.remaining s.workers w worker
  simp only [remaining, setWorker]
  omega

theorem step_remaining {s t : State τ n} {e : Event τ n}
    {o : List (Effect τ n)} (hs : FirstCall s) (hbusy : InShutdown s)
    (h : step s e = some (o, t)) :
    remaining t + (if e.isOwn then 1 else 0) ≤ remaining s := by
  cases transition_of_step h with
  | runInline => simp [remaining, Event.isOwn]
  | runQueued task woken thrown hflag hnotify =>
      simp [hs.shutting] at hflag
  | shutdownFirst hjoining => exact (hbusy hjoining).elim
  | shutdownAgain hjoining => exact (hbusy hjoining).elim
  | joinFinished hi hjoining hjoinable hfinished =>
      simp only [remaining, hjoining, Event.isOwn, if_true]
      omega
  | @joinThrows i hi hjoining hjoinable =>
      have htrue := (hs.joinable i hjoining).2 ⟨i, hi⟩ le_rfl
      simp [hjoinable] at htrue
  | @joinReturns i hi hjoining =>
      have hle := (hs.joinable i hjoining).1
      simp only [remaining, hjoining, Event.isOwn, if_true]
      omega
  | wait w hworker hflag hqueue => simp [hs.shutting] at hflag
  | exit w hworker hflag hqueue =>
      have hset := remaining_setWorker s w .finished
      simp only [hworker, Worker.remaining] at hset
      simp only [Event.isOwn, if_true]
      omega
  | @pop call queue w hworker hqueue =>
      have hsum := sum_update_add Worker.remaining s.workers w (.running call)
      rw [hworker] at hsum
      simp only [remaining, setWorker, hqueue, List.length_cons, Event.isOwn,
        if_true]
      simp only [Worker.remaining] at hsum ⊢
      omega
  | wake w hworker => exact (hs.noSleeper w hworker).elim
  | perform w thrown hworker =>
      have hset := remaining_setWorker s w .locking
      simp only [hworker, Worker.remaining] at hset
      simp only [Event.isOwn, if_true]
      omega

/-- The worker which the join loop waits for can always go on. -/
theorem firstCall_enabled {s : State τ n} (hs : FirstCall s)
    (hbusy : InShutdown s) :
    ∃ e : Event τ n, e.isOwn = true ∧ (step s e).isSome = true := by
  obtain ⟨i, hjoining⟩ := Option.ne_none_iff_exists'.mp hbusy
  by_cases hi : i < n
  · have hjoinable := (hs.joinable i hjoining).2 ⟨i, hi⟩ le_rfl
    cases hworker : s.workers ⟨i, hi⟩ with
    | locking =>
        refine ⟨.dispatch ⟨i, hi⟩, rfl, ?_⟩
        cases hqueue : s.queue with
        | nil => simp [step, dispatchTasks, hworker, hqueue, hs.shutting]
        | cons call queue => simp [step, dispatchTasks, hworker, hqueue]
    | waiting => exact (hs.noSleeper _ hworker).elim
    | running call =>
        exact ⟨.perform ⟨i, hi⟩ none, rfl, by simp [step, perform, hworker]⟩
    | finished =>
        exact ⟨.join, rfl, by simp [step, join, hjoining, hi, hjoinable, hworker]⟩
  · exact ⟨.join, rfl, by simp [step, join, hjoining, hi]⟩

theorem firstCall_leaves {s : State τ n} (hs : FirstCall s) :
    EventuallyLeaves step InShutdown Event.isOwn s :=
  .of_variant remaining
    (fun _ _ _ _ hI hbusy hstep _ => (step_firstCall hI hbusy hstep).1)
    (fun _ _ _ _ hI hbusy hstep => step_remaining hI hbusy hstep)
    (fun _ hI hbusy => firstCall_enabled hI hbusy) hs

theorem firstCall_noThrow {s t : State τ n} {history : History τ n}
    (hs : FirstCall s) (h : Run step s history t)
    (hbusy : ∀ r ∈ history, InShutdown r.pre) :
    FirstCall t ∧ ∀ r ∈ history, .shutdownThrew ∉ r.out := by
  induction h with
  | nil => exact ⟨hs, by simp⟩
  | @snoc history t u e o _ hstep ih =>
      obtain ⟨hfirst, hpast⟩ :=
        ih fun r hr => hbusy r (List.mem_append_left _ hr)
      obtain ⟨hnext, hlast⟩ :=
        step_firstCall hfirst (hbusy ⟨t, e, o, u⟩ (by simp)) hstep
      refine ⟨hnext, ?_⟩
      intro r hr
      rcases List.mem_append.mp hr with hr | hr
      · exact hpast r hr
      · rw [List.mem_singleton.mp hr]
        exact hlast

/-! ## The flag and the threads between two calls -/

/-- Before the first call every thread is joinable; once the join loop has left
its first thread, that thread is not. -/
structure JoinState (s : State τ n) : Prop where
  before : s.isShuttingDownTaskQueue = false →
    s.joining = none ∧ ∀ w, s.joinable w = true
  after : s.isShuttingDownTaskQueue = true → s.joining ≠ some 0 →
    ∀ hn : 0 < n, s.joinable ⟨0, hn⟩ = false

theorem joinState_init : JoinState (init τ n) where
  before _ := ⟨rfl, fun _ => rfl⟩
  after h := by simp [init] at h

theorem step_joinState (s : State τ n) (e : Event τ n)
    (o : List (Effect τ n)) (t : State τ n) (hs : JoinState s)
    (h : step s e = some (o, t)) : JoinState t := by
  cases transition_of_step h with
  | shutdownFirst hjoining hflag =>
      exact ⟨fun h => by simp at h, fun _ hne => (hne rfl).elim⟩
  | shutdownAgain hjoining hflag =>
      refine ⟨?_, fun _ hne => (hne rfl).elim⟩
      intro hfalse
      simp [hflag] at hfalse
  | @joinFinished i hi hjoining hjoinable hfinished =>
      refine ⟨?_, ?_⟩
      · intro hfalse
        simp [(hs.before hfalse).1] at hjoining
      · intro hflag _ hn
        by_cases hzero : i = 0
        · subst hzero
          simp
        · have hold := hs.after hflag (by simpa [hjoining] using hzero) hn
          have hne : (⟨0, hn⟩ : Fin n) ≠ ⟨i, hi⟩ := by
            simpa using Ne.symm hzero
          simpa [hne] using hold
  | @joinThrows i hi hjoining hjoinable =>
      refine ⟨?_, ?_⟩
      · intro hfalse
        simp [(hs.before hfalse).1] at hjoining
      · intro hflag _ hn
        by_cases hzero : i = 0
        · subst hzero
          exact hjoinable
        · exact hs.after hflag (by simpa [hjoining] using hzero) hn
  | @joinReturns i hi hjoining =>
      refine ⟨?_, ?_⟩
      · intro hfalse
        simp [(hs.before hfalse).1] at hjoining
      · intro hflag _ hn
        have hzero : i ≠ 0 := (hn.trans_le hi).ne'
        exact hs.after hflag (by simpa [hjoining] using hzero) hn
  | runInline | runQueued | wait | exit | pop | wake | perform =>
      exact ⟨hs.before, hs.after⟩

theorem run_joinState {s : State τ n} {history : History τ n}
    (h : Run step (init τ n) history s) : JoinState s :=
  h.invariant step_joinState joinState_init

def Event.isShutdown : Event τ n → Bool
  | .shutdown => true
  | _ => false

@[simp] theorem isShutdown_iff {e : Event τ n} :
    e.isShutdown = true ↔ e = .shutdown := by
  cases e with
  | shutdown => exact ⟨fun _ => rfl, fun _ => rfl⟩
  | run | join | dispatch | wake | perform => simp [Event.isShutdown]

/-- The flag records whether `shutdown()` has been called. -/
theorem flag_eq_any {s : State τ n} {history : History τ n}
    (h : Run step (init τ n) history s) :
    s.isShuttingDownTaskQueue = history.any fun r => r.event.isShutdown := by
  induction h with
  | nil => rfl
  | snoc _ hstep ih =>
      rw [List.any_append, ← ih]
      cases transition_of_step hstep with
      | runInline | runQueued | joinFinished | joinThrows | joinReturns | wait
      | exit | pop | wake | perform => simp [Event.isShutdown, setWorker]
      | shutdownFirst => simp
      | shutdownAgain hjoining hflag => simp [hflag]

theorem flag_eq_false_iff {s : State τ n} {history : History τ n}
    (h : Run step (init τ n) history s) :
    s.isShuttingDownTaskQueue = false ↔
      (history.countP fun r => r.event.isShutdown) = 0 := by
  rw [flag_eq_any h, List.any_eq_false, List.countP_eq_zero]

/-! ## The calls which return -/

theorem joining_of_shutdown {s t : State τ n} {o : List (Effect τ n)}
    (h : step s .shutdown = some (o, t)) : s.joining = none := by
  cases transition_of_step h with
  | shutdownFirst hjoining => exact hjoining
  | shutdownAgain hjoining => exact hjoining

theorem joining_of_step {s t : State τ n} {e : Event τ n}
    {o : List (Effect τ n)} (h : step s e = some (o, t)) (he : e ≠ .shutdown)
    (he' : e ≠ .join) : t.joining = s.joining := by
  cases transition_of_step h with
  | runInline | runQueued | wait | exit | pop | wake | perform => rfl
  | shutdownFirst | shutdownAgain => exact (he rfl).elim
  | joinFinished | joinThrows | joinReturns => exact (he' rfl).elim

/-- One iteration of the join loop goes on to the next thread or ends it. -/
theorem inShutdown_of_join {s t : State τ n} {o : List (Effect τ n)}
    (h : step s .join = some (o, t)) :
    .shutdownReturned ∈ o ∨ .shutdownThrew ∈ o ∨ InShutdown t := by
  cases transition_of_step h with
  | joinReturns => exact .inl (List.mem_singleton_self _)
  | joinThrows => exact .inr (.inl (List.mem_singleton_self _))
  | joinFinished => exact .inr (.inr (Option.some_ne_none _))

theorem firstCall_of_shutdown {s t : State τ n} {o : List (Effect τ n)}
    (hs : JoinState s) (hcond : n = 0 ∨ s.isShuttingDownTaskQueue = false)
    (h : step s .shutdown = some (o, t)) : FirstCall t := by
  cases transition_of_step h with
  | shutdownFirst hjoining hflag =>
      refine ⟨rfl, notifyAll_ne_waiting s.workers, ?_⟩
      intro i hi
      obtain rfl : 0 = i := by simpa using hi
      exact ⟨Nat.zero_le n, fun w _ => (hs.before hflag).2 w⟩
  | shutdownAgain hjoining hflag =>
      obtain rfl : n = 0 := by simpa [hflag] using hcond
      refine ⟨hflag, fun w => w.elim0, ?_⟩
      intro i hi
      obtain rfl : 0 = i := by simpa using hi
      exact ⟨le_rfl, fun w => w.elim0⟩

/-- Without workers nothing but the join index changes after the flag is set. -/
theorem noWorkers_unchanged {s t : State τ 0} {history : History τ 0}
    (hflag : s.isShuttingDownTaskQueue = true)
    (h : Run step s history t) :
    t.isShuttingDownTaskQueue = s.isShuttingDownTaskQueue ∧
      t.queue = s.queue ∧ t.workers = s.workers ∧
      t.joinable = s.joinable := by
  induction h with
  | nil => exact ⟨rfl, rfl, rfl, rfl⟩
  | snoc _ hstep ih =>
      have hflag' := ih.1.trans hflag
      cases transition_of_step hstep with
      | runInline | shutdownAgain | joinThrows | joinReturns => exact ih
      | runQueued _ _ _ hfalse => simp [hflag'] at hfalse
      | shutdownFirst _ hfalse => simp [hflag'] at hfalse
      | joinFinished hi => exact absurd hi (Nat.not_lt_zero _)
      | wait w | exit w | pop w | wake w | perform w => exact w.elim0

/-- A call returns normally exactly when it is the first one or there is no
thread to join. -/
theorem returnsNormally_iff {s : State τ n} {history : History τ n}
    (h : Run step (init τ n) history s) (hjoining : s.joining = none) :
    ReturnsNormally s ↔ n = 0 ∨ s.isShuttingDownTaskQueue = false := by
  have hs := run_joinState h
  constructor
  · intro hok
    by_contra hcond
    obtain ⟨hn, hflag⟩ := not_or.mp hcond
    have hflag : s.isShuttingDownTaskQueue = true := by simpa using hflag
    have hpos : 0 < n := Nat.pos_of_ne_zero hn
    have hjoinable : s.joinable ⟨0, hpos⟩ = false :=
      hs.after hflag (by simp [hjoining]) hpos
    let t : State τ n := { s with joining := some 0 }
    have hshutdown : step s .shutdown = some ([], t) := by
      simp [step, shutdown, hjoining, hflag, t]
    have hjoin :
        step t .join = some ([.shutdownThrew], { t with joining := none }) := by
      simp [step, join, t, hpos, hjoinable]
    have hwindow := hok.noThrow _ _ ⟨_, _, hshutdown, Run.single hjoin, by
      simp [InShutdown, t]⟩
    exact hwindow _ (List.mem_singleton.mpr rfl) (by simp)
  · intro hcond
    refine ⟨?_, ?_, ?_⟩
    · intro o t hstep
      exact firstCall_leaves (firstCall_of_shutdown hs hcond hstep)
    · rintro window u ⟨o, t, hstep, hrun, hbusy⟩
      exact (firstCall_noThrow (firstCall_of_shutdown hs hcond hstep)
        hrun hbusy).2
    · rintro hflag window u ⟨o, t, hstep, hrun, _⟩
      obtain rfl : n = 0 := by simpa [hflag] using hcond
      have hall := (Run.single hstep).append hrun
      exact noWorkers_unchanged hflag hall

/-- In a run every `shutdown()` call returns normally exactly when there is at
most one, or there are no worker threads. -/
theorem shutdown_calls_return_iff {s : State τ n} {history : History τ n}
    (h : Run step (init τ n) history s) :
    (∀ before r after, history = before ++ r :: after →
        r.event = .shutdown → ReturnsNormally r.pre) ↔
      n = 0 ∨ (history.countP fun r => r.event.isShutdown) ≤ 1 := by
  constructor
  · intro hall
    induction h with
    | nil => exact .inr (by simp)
    | @snoc history t u e o hrun hstep ih =>
        have hpast : n = 0 ∨ (history.countP fun r => r.event.isShutdown) ≤ 1 :=
          ih fun before r after heq =>
            hall before r (after ++ [⟨t, e, o, u⟩]) (by simp [heq])
        cases he : e.isShutdown with
        | false => simpa [List.countP_append, he] using hpast
        | true =>
            obtain rfl := isShutdown_iff.mp he
            have hok : ReturnsNormally t := hall history _ [] rfl rfl
            rcases (returnsNormally_iff hrun
              (joining_of_shutdown hstep)).mp hok with hn | hflag
            · exact .inl hn
            · right
              rw [List.countP_append, (flag_eq_false_iff hrun).mp hflag,
                List.countP_singleton, if_pos he]
  · rintro hcond before r after rfl hevent
    obtain ⟨hbefore, hstep, _⟩ := h.split
    rw [hevent] at hstep
    apply (returnsNormally_iff hbefore (joining_of_shutdown hstep)).mpr
    rcases hcond with hn | hcount
    · exact .inl hn
    · right
      apply (flag_eq_false_iff hbefore).mpr
      rw [List.countP_append, List.countP_cons, hevent] at hcount
      simp only [isShutdown_iff, if_true] at hcount
      omega

/-- `Hook_FEngineLoop_Exit` shuts the plugin's two workers down. -/
def exitRun : Option (History String 2 × State String 2) :=
  execute step (init String 2)
    [.run "ready" none none, .shutdown, .dispatch worker1, .dispatch worker0,
      .join, .perform worker1 none, .dispatch worker1, .join, .join]

/-- The call of `shutdown()` in `Unload` after that. -/
def unloadRun : Option (History String 2 × State String 2) :=
  execute step (exitRun.get (by decide)).2 [.shutdown, .join]

theorem shutdown_calls_return_exit :
    let history := (exitRun.get (by decide)).1
    ∀ before r after, history = before ++ r :: after →
      r.event = .shutdown → ReturnsNormally r.pre :=
  (shutdown_calls_return_iff
    (run_of_execute_get (by decide))).mpr (.inr (by decide))

theorem shutdown_calls_return_not_unload :
    (unloadRun.map fun x => x.1.map fun r => r.out) =
        some [[], [.shutdownThrew]] ∧
      ¬ ∀ (history : History String 2) (s : State String 2),
        Run step (init String 2) history s →
          ∀ before r after, history = before ++ r :: after →
            r.event = .shutdown → ReturnsNormally r.pre := by
  refine ⟨by decide, ?_⟩
  intro hall
  have hexit : Run step (init String 2) (exitRun.get (by decide)).1
      (exitRun.get (by decide)).2 :=
    run_of_execute_get (by decide)
  have hunload : Run step (exitRun.get (by decide)).2
      (unloadRun.get (by decide)).1 (unloadRun.get (by decide)).2 :=
    run_of_execute_get (by decide)
  have hok := hall _ _ (hexit.append hunload) _ _ _ rfl rfl
  have hreached := (returnsNormally_iff hexit (by decide)).mp hok
  exact absurd hreached (by decide)

end SAOmega.TaskExecutor
