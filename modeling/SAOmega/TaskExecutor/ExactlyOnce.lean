import SAOmega.Support.Family
import SAOmega.TaskExecutor.Transition

/-!
# Every submitted task is executed exactly once

The calls which the executor holds, in the queue or in a worker, are those it
was given and has not executed yet.  When the join loop of `shutdown()` ends,
it holds none.
-/

namespace SAOmega.TaskExecutor

open SAOmega.Support

variable {τ : Type*} {n : ℕ}

/-- The steps of a run of the executor, oldest first. -/
abbrev History (τ : Type*) (n : ℕ) :=
  List (Step (State τ n) (Event τ n) (List (Effect τ n)))

/-! ## What a history submits and executes -/

def Effect.executedCall? : Effect τ n → Option (Call τ)
  | .executed call => some call
  | _ => none

/-- The calls a step executes. -/
def executed (r : Step (State τ n) (Event τ n) (List (Effect τ n))) :
    List (Call τ) :=
  r.out.filterMap Effect.executedCall?

/-- The call a step submits, under its number among all calls. -/
def submitted (r : Step (State τ n) (Event τ n) (List (Effect τ n))) :
    List (Call τ) :=
  match r.event with
  | .run task _ _ => [⟨r.pre.calls, task⟩]
  | _ => []

def executedCalls (history : History τ n) : List (Call τ) :=
  history.flatMap executed

def submittedCalls (history : History τ n) : List (Call τ) :=
  history.flatMap submitted

@[simp] theorem executedCalls_append (history later : History τ n) :
    executedCalls (history ++ later) =
      executedCalls history ++ executedCalls later := by
  simp [executedCalls]

@[simp] theorem submittedCalls_append (history later : History τ n) :
    submittedCalls (history ++ later) =
      submittedCalls history ++ submittedCalls later := by
  simp [submittedCalls]

@[simp] theorem filterMap_logThrown (thread : Option (Fin n)) (text : String)
    (thrown : Option String) :
    (logThrown thread text thrown : List (Effect τ n)).filterMap
      Effect.executedCall? = [] := by
  cases thrown with
  | none => rfl
  | some what => rfl

/-! ## The calls in the hands of the executor -/

def Worker.held : Worker τ → Multiset (Call τ)
  | .running call => {call}
  | _ => 0

@[simp] theorem held_locking : (Worker.locking : Worker τ).held = 0 := rfl

@[simp] theorem held_waiting : (Worker.waiting : Worker τ).held = 0 := rfl

@[simp] theorem held_finished : (Worker.finished : Worker τ).held = 0 := rfl

@[simp] theorem held_running (call : Call τ) :
    (Worker.running call).held = {call} := rfl

def State.held (s : State τ n) : Multiset (Call τ) :=
  s.queue + ∑ w, (s.workers w).held

theorem held_setWorker (s : State τ n) (w : Fin n) (worker : Worker τ) :
    (setWorker s w worker).held + (s.workers w).held =
      s.held + worker.held := by
  simp only [State.held, setWorker, add_assoc]
  rw [sum_update_add]

theorem sum_held_notifyOne {workers workers' : Fin n → Worker τ}
    {woken : Option (Fin n)} (h : notifyOne workers woken = some workers') :
    ∑ w, (workers' w).held = ∑ w, (workers w).held := by
  rcases notifyOne_cases h with ⟨w, hw, rfl⟩ | ⟨_, rfl⟩
  · have hsum := sum_update_add Worker.held workers w .locking
    simpa [hw] using hsum
  · rfl

theorem sum_held_notifyAll (workers : Fin n → Worker τ) :
    ∑ w, (notifyAll workers w).held = ∑ w, (workers w).held := by
  apply Finset.sum_congr rfl
  intro w _
  unfold notifyAll
  split
  next hw => rw [hw]; rfl
  next => rfl

/-- No step loses a call or makes one up. -/
theorem step_balance (s : State τ n) (e : Event τ n) (o : List (Effect τ n))
    (t : State τ n) (h : step s e = some (o, t)) :
    t.held + (executed ⟨s, e, o, t⟩ : Multiset (Call τ)) =
      s.held + (submitted ⟨s, e, o, t⟩ : Multiset (Call τ)) := by
  cases transition_of_step h with
  | runInline task woken thrown hflag =>
      simp [State.held, executed, submitted, Effect.executedCall?]
  | runQueued task woken thrown hflag hnotify =>
      simp only [State.held, executed, submitted, List.filterMap_nil,
        sum_held_notifyOne hnotify, ← Multiset.coe_add, Multiset.coe_nil,
        add_zero]
      exact add_right_comm _ _ _
  | shutdownFirst hjoining hflag =>
      simp [State.held, executed, submitted, sum_held_notifyAll]
  | shutdownAgain hjoining hflag => simp [State.held, executed, submitted]
  | joinFinished hi hjoining hjoinable hfinished =>
      simp [State.held, executed, submitted]
  | joinThrows hi hjoining hjoinable =>
      simp [State.held, executed, submitted, Effect.executedCall?]
  | joinReturns hi hjoining =>
      simp [State.held, executed, submitted, Effect.executedCall?]
  | wait w hworker hflag hqueue =>
      have hset := held_setWorker s w .waiting
      simpa [hworker, executed, submitted] using hset
  | exit w hworker hflag hqueue =>
      have hset := held_setWorker s w .finished
      simpa [hworker, executed, submitted] using hset
  | @pop call queue w hworker hqueue =>
      have hsum := sum_update_add Worker.held s.workers w (.running call)
      rw [hworker, held_locking, add_zero, held_running] at hsum
      simp only [State.held, setWorker, hsum, hqueue, executed, submitted,
        List.filterMap_nil, Multiset.coe_nil, add_zero,
        ← Multiset.cons_coe, ← Multiset.singleton_add]
      abel
  | wake w hworker =>
      have hset := held_setWorker s w .locking
      simpa [hworker, executed, submitted] using hset
  | @perform call w thrown hworker =>
      have hset := held_setWorker s w .locking
      simpa [hworker, executed, submitted,
        Effect.executedCall?] using hset

theorem run_balance {s t : State τ n} {history : History τ n}
    (h : Run step s history t) :
    t.held + (executedCalls history : Multiset (Call τ)) =
      s.held + (submittedCalls history : Multiset (Call τ)) :=
  h.balance_items step_balance

@[simp] theorem held_init : (init τ n).held = 0 := by
  simp [State.held, init]

/-! ## Calls are numbered in the order of their critical sections -/

theorem step_tickets {s t : State τ n} {e : Event τ n}
    {o : List (Effect τ n)} (h : step s e = some (o, t)) :
    List.range s.calls ++ (submitted ⟨s, e, o, t⟩).map Call.ticket =
      List.range t.calls := by
  cases transition_of_step h with
  | runInline => simp [submitted, List.range_succ]
  | runQueued => simp [submitted, List.range_succ]
  | shutdownFirst | shutdownAgain | joinFinished | joinThrows | joinReturns
  | wait | exit | pop | wake | perform => simp [submitted, setWorker]

theorem submittedCalls_tickets {t : State τ n} {history : History τ n}
    (h : Run step (init τ n) history t) :
    (submittedCalls history).map Call.ticket = List.range t.calls := by
  induction h with
  | nil => rfl
  | snoc _ hstep ih =>
      rw [submittedCalls_append, List.map_append, ih]
      simpa [submittedCalls] using step_tickets hstep

theorem submittedCalls_nodup {t : State τ n} {history : History τ n}
    (h : Run step (init τ n) history t) : (submittedCalls history).Nodup := by
  apply List.Nodup.of_map Call.ticket
  rw [submittedCalls_tickets h]
  exact List.nodup_range

theorem executedCalls_subperm {t : State τ n} {history : History τ n}
    (h : Run step (init τ n) history t) :
    (executedCalls history).Subperm (submittedCalls history) := by
  have hbalance := run_balance h
  rw [held_init, zero_add] at hbalance
  rw [← Multiset.coe_le, ← hbalance]
  exact Multiset.le_add_left _ _

/-! ## The end of the join loop -/

/-- A worker only leaves its loop once nothing is queued and nothing will be,
and the join loop has passed finished workers only. -/
structure Drained (s : State τ n) : Prop where
  finished : ∀ w, s.workers w = .finished →
    s.isShuttingDownTaskQueue = true ∧ s.queue = []
  joined : ∀ i, s.joining = some i →
    ∀ w : Fin n, w.val < i → s.workers w = .finished

theorem drained_init : Drained (init τ n) where
  finished := by simp [init]
  joined := by simp [init]

/-- Moving a worker that is still in its loop to another place in it. -/
theorem Drained.setWorker {s : State τ n} (h : Drained s) {w : Fin n}
    {worker : Worker τ} (hold : s.workers w ≠ .finished)
    (hnew : worker = .finished →
      s.isShuttingDownTaskQueue = true ∧ s.queue = []) :
    Drained (TaskExecutor.setWorker s w worker) where
  finished := by
    intro w' hw'
    by_cases heq : w' = w
    · subst heq
      exact hnew (by simpa [TaskExecutor.setWorker] using hw')
    · exact h.finished w' (by
        simpa [TaskExecutor.setWorker, heq] using hw')
  joined := by
    intro i hi w' hw'
    have hfinished := h.joined i hi w' hw'
    have hne : w' ≠ w := by
      rintro rfl
      exact hold hfinished
    simpa [TaskExecutor.setWorker, hne] using hfinished

theorem step_drained (s : State τ n) (e : Event τ n) (o : List (Effect τ n))
    (t : State τ n) (hs : Drained s) (h : step s e = some (o, t)) :
    Drained t := by
  cases transition_of_step h with
  | runInline => exact ⟨hs.finished, hs.joined⟩
  | runQueued task woken thrown hflag hnotify =>
      have hnone : ∀ w, s.workers w ≠ .finished := by
        intro w hw
        simpa [hflag] using (hs.finished w hw).1
      constructor
      · intro w hw
        rcases notifyOne_cases hnotify with ⟨w', _, rfl⟩ | ⟨_, rfl⟩
        · by_cases heq : w = w'
          · simp [heq] at hw
          · exact (hnone w (by simpa [heq] using hw)).elim
        · exact (hnone w hw).elim
      · intro i hi w hw
        exact (hnone w (hs.joined i hi w hw)).elim
  | shutdownFirst hjoining hflag =>
      constructor
      · intro w hw
        have hold : s.workers w = .finished := by
          simp only [notifyAll] at hw
          split at hw
          · cases hw
          · exact hw
        exact ⟨rfl, (hs.finished w hold).2⟩
      · intro i hi w hw
        obtain rfl : 0 = i := by simpa using hi
        exact absurd hw (Nat.not_lt_zero _)
  | shutdownAgain hjoining hflag =>
      refine ⟨hs.finished, ?_⟩
      intro i hi w hw
      obtain rfl : 0 = i := by simpa using hi
      exact absurd hw (Nat.not_lt_zero _)
  | @joinFinished i hi hjoining hjoinable hfinished =>
      refine ⟨hs.finished, ?_⟩
      intro j hj w hw
      obtain rfl : i + 1 = j := by simpa using hj
      rcases Nat.lt_succ_iff_lt_or_eq.mp hw with hlt | heq
      · exact hs.joined i hjoining w hlt
      · obtain rfl : w = ⟨i, hi⟩ := Fin.ext heq
        exact hfinished
  | joinThrows => exact ⟨hs.finished, by simp⟩
  | joinReturns => exact ⟨hs.finished, by simp⟩
  | wait w hworker hflag hqueue => exact hs.setWorker (by simp [hworker]) (by simp)
  | exit w hworker hflag hqueue =>
      exact hs.setWorker (by simp [hworker]) (fun _ => ⟨hflag, hqueue⟩)
  | @pop call queue w hworker hqueue =>
      have hnone : ∀ w, s.workers w ≠ .finished := by
        intro w hw
        simpa [hqueue] using (hs.finished w hw).2
      have hset : Drained (setWorker s w (.running call)) :=
        hs.setWorker (hnone w) (by simp)
      refine ⟨?_, hset.joined⟩
      intro w' hw'
      have hqueue' := (hset.finished w' hw').2
      simp [setWorker, hqueue] at hqueue'
  | wake w hworker => exact hs.setWorker (by simp [hworker]) (by simp)
  | perform w thrown hworker =>
      exact hs.setWorker (by simp [hworker]) (by simp)

theorem run_drained {t : State τ n} {history : History τ n}
    (h : Run step (init τ n) history t) : Drained t :=
  h.invariant step_drained drained_init

/-- Executing a task shows nothing but the task and its exception. -/
theorem mem_performed {call : Call τ} {thread : Option (Fin n)}
    {text : String} {thrown : Option String} {x : Effect τ n}
    (h : x ∈ Effect.executed call :: logThrown thread text thrown) :
    x = .executed call ∨ ∃ line, x = .logError thread line := by
  rcases List.mem_cons.mp h with heq | hlog
  · exact .inl heq
  · cases thrown with
    | none => cases hlog
    | some what => exact .inr ⟨_, List.mem_singleton.mp hlog⟩

/-- Only the end of the join loop lets `shutdown()` return. -/
theorem step_returned {s t : State τ n} {e : Event τ n}
    {o : List (Effect τ n)} (h : step s e = some (o, t))
    (ho : .shutdownReturned ∈ o) :
    ∃ i, s.joining = some i ∧ n ≤ i ∧ t = { s with joining := none } := by
  cases transition_of_step h with
  | joinReturns hi hjoining => exact ⟨_, hjoining, hi, rfl⟩
  | joinThrows => simp at ho
  | runInline | perform =>
      rcases mem_performed ho with heq | ⟨line, heq⟩
      · cases heq
      · cases heq
  | runQueued | shutdownFirst | shutdownAgain | joinFinished | wait | exit
  | pop | wake => cases ho

/-- When the join loop ends, no call is left in the hands of the executor. -/
theorem returned_drained (hn : 0 < n) {history : History τ n}
    {s t : State τ n} {e : Event τ n} {o : List (Effect τ n)}
    (h : Run step (init τ n) history s) (hstep : step s e = some (o, t))
    (ho : .shutdownReturned ∈ o) :
    t.queue = [] ∧ ∀ w, t.workers w = .finished := by
  obtain ⟨i, hjoining, hi, rfl⟩ := step_returned hstep ho
  have hdrained : Drained s := run_drained h
  have hfinished : ∀ w, s.workers w = .finished :=
    fun w => hdrained.joined i hjoining w (w.isLt.trans_le hi)
  exact ⟨(hdrained.finished _ (hfinished ⟨0, hn⟩)).2, hfinished⟩

/-! ## After the end -/

/-- The workers have left their loops and nothing is queued any more. -/
structure Ended (s : State τ n) : Prop where
  shutting : s.isShuttingDownTaskQueue = true
  queue : s.queue = []
  finished : ∀ w, s.workers w = .finished

theorem ended_of_returned (hn : 0 < n) {history : History τ n}
    {s t : State τ n} {e : Event τ n} {o : List (Effect τ n)}
    (h : Run step (init τ n) history s) (hstep : step s e = some (o, t))
    (ho : .shutdownReturned ∈ o) : Ended t := by
  obtain ⟨hqueue, hfinished⟩ := returned_drained hn h hstep ho
  have hdrained : Drained t := run_drained (h.snoc hstep)
  exact ⟨(hdrained.finished _ (hfinished ⟨0, hn⟩)).1, hqueue, hfinished⟩

theorem Ended.step {s t : State τ n} {e : Event τ n} {o : List (Effect τ n)}
    (hs : Ended s) (h : step s e = some (o, t)) : Ended t := by
  cases transition_of_step h with
  | runInline | shutdownAgain | joinFinished | joinThrows | joinReturns =>
      exact ⟨hs.shutting, hs.queue, hs.finished⟩
  | runQueued _ _ _ hflag | shutdownFirst _ hflag =>
      cases hflag.symm.trans hs.shutting
  | wait w hworker | exit w hworker | pop w hworker | wake w hworker
  | perform w _ hworker => cases hworker.symm.trans (hs.finished w)

theorem Ended.held {s : State τ n} (hs : Ended s) : s.held = 0 := by
  simp [State.held, hs.queue, hs.finished]

/-- What is submitted after the end is executed at once, and nothing else is. -/
theorem Ended.executed {s t : State τ n} {e : Event τ n}
    {o : List (Effect τ n)} (hs : Ended s) (h : TaskExecutor.step s e = some (o, t)) :
    TaskExecutor.executed ⟨s, e, o, t⟩ = submitted ⟨s, e, o, t⟩ := by
  have hbalance := step_balance s e o t h
  rw [hs.held, (hs.step h).held, zero_add, zero_add] at hbalance
  have hperm := Multiset.coe_eq_coe.mp hbalance
  cases e with
  | run task woken thrown => exact List.perm_singleton.mp hperm
  | shutdown | join | dispatch | wake | perform => exact hperm.eq_nil

/-! ## The result -/

/-- Every task is executed at most once, and when `shutdown()` returns the
queue is empty, the workers have left their loops, and the executed calls are
exactly those that were submitted. -/
theorem exactly_once_across_shutdown (hn : 0 < n) {history : History τ n}
    {s : State τ n} (h : Run step (init τ n) history s) :
    (submittedCalls history).Nodup ∧
      (executedCalls history).Nodup ∧
      executedCalls history ⊆ submittedCalls history ∧
      ∀ before r after, history = before ++ r :: after →
        .shutdownReturned ∈ r.out →
          r.post.queue = [] ∧ (∀ w, r.post.workers w = .finished) ∧
            (executedCalls (before ++ [r])).Perm
              (submittedCalls (before ++ [r])) := by
  have hnodup := submittedCalls_nodup h
  obtain ⟨l, hperm, hsublist⟩ := executedCalls_subperm h
  refine ⟨hnodup, hperm.nodup_iff.mp (hsublist.nodup hnodup),
    fun _ hcall => hsublist.subset (hperm.symm.subset hcall), ?_⟩
  rintro before r after rfl ho
  obtain ⟨hbefore, hstep, _⟩ := h.split
  obtain ⟨hqueue, hfinished⟩ := returned_drained hn hbefore hstep ho
  refine ⟨hqueue, hfinished, ?_⟩
  have hbalance := run_balance h.upTo
  have hheld : r.post.held = 0 := by
    simp [State.held, hqueue, hfinished]
  rw [hheld, held_init, zero_add, zero_add] at hbalance
  exact Multiset.coe_eq_coe.mp hbalance

/-- Two workers, one of them woken out of its wait, and three calls: the last
one comes after the flag is set and overtakes the second one, which is still
queued. -/
def shutdownRun :
    Option (History String 2 × State String 2) :=
  execute step (init String 2)
    [.run "a" none none, .dispatch worker0, .dispatch worker1,
      .run "b" (some worker1) none, .shutdown, .run "c" none (some "failed"),
      .perform worker0 none, .dispatch worker0,
      .perform worker0 (some "failed"), .dispatch worker0, .dispatch worker1,
      .join, .join, .join]

theorem exactly_once_across_shutdown_run :
    let history := (shutdownRun.get (by decide)).1
    (executedCalls history).map Call.task = ["c", "a", "b"] ∧
      (executedCalls history).Nodup ∧
      (history.getLast?.map fun r => r.out) = some [.shutdownReturned] :=
  ⟨by decide,
    (exactly_once_across_shutdown (by decide)
      (run_of_execute_get (by decide))).2.1,
    by decide⟩

end SAOmega.TaskExecutor
