import SAOmega.Support.Fairness
import SAOmega.Status.Exit
import SAOmega.TaskExecutor.Progress
import SAOmega.TaskExecutor.Shutdown

/-!
# What happens in the end

When the workers and the game thread go on, a write is performed some time
after the call of `writeFile`, and `Hook_FEngineLoop_Exit` comes through its
joins and leaves its status in the file.
-/

namespace SAOmega.Status

open SAOmega.Support
open SAOmega.TaskExecutor (worker0 worker1 OnItsWay FirstCall InShutdown
  remaining)

/-- The steps of a worker apart from spurious wake-ups, and those in which the
game thread goes on with the hook. -/
def OfThread : Option (Fin 2) → Event → Prop
  | some w, e => e = .dispatch w ∨ e = .perform w
  | none, e => e = .join ∨ ∃ woken, e = .finish woken

/-! ## Writes -/

theorem isSome_executorStep {s : State} {e : TaskExecutor.Event FileWrite 2}
    (h : (TaskExecutor.step s.executor e).isSome = true) :
    (executorStep e s).isSome = true := by
  obtain ⟨⟨o, t⟩, hstep⟩ := Option.isSome_iff_exists.mp h
  simp [executorStep, hstep]

/-- A step of a worker in the executor is one here; a task that writes a file
throws nothing. -/
theorem exists_ofThread {s : State} {w : Fin 2}
    {e : TaskExecutor.Event FileWrite 2} (he : TaskExecutor.OfWorker w e)
    (h : (TaskExecutor.step s.executor e).isSome = true) :
    ∃ e', OfThread (some w) e' ∧ (step s e').isSome = true := by
  rcases he with rfl | ⟨thrown, rfl⟩
  · exact ⟨.dispatch w, .inl rfl, isSome_executorStep h⟩
  · refine ⟨.perform w, .inr rfl, isSome_executorStep ?_⟩
    simp only [TaskExecutor.step, TaskExecutor.perform] at h ⊢
    split at h
    next => rfl
    next => cases h

theorem ofWorker_of_ofThread {s : State} {e : Event} {w : Fin 2}
    {e' : TaskExecutor.Event FileWrite 2} (he : OfThread (some w) e)
    (hevent : executorEvent s e = some e') : TaskExecutor.OfWorker w e' := by
  rcases he with rfl | rfl
  · cases hevent
    exact .inl rfl
  · cases hevent
    exact .inr ⟨none, rfl⟩

theorem onItsWay_of_call {s t : State} {e : Event} {o : List Effect}
    {e' : TaskExecutor.Event FileWrite 2} {c : TaskExecutor.Call FileWrite}
    {w : Fin 2} {rank : ℕ} (h : OnItsWay c w rank s.executor)
    (hevent : executorEvent s e = some e') (hcall : ExecutorStep s e' o t) :
    c ∈ TaskExecutor.executedCalls (executorRecord ⟨s, e, o, t⟩) ∨
      (∃ w' rank', rank' < rank ∧ OnItsWay c w' rank' t.executor) ∨
      (OnItsWay c w rank t.executor ∧ ¬ OfThread (some w) e) := by
  rw [executorRecord_of_call hevent, TaskExecutor.executedCalls,
    List.flatMap_singleton]
  refine (h.step hcall.step).imp_right (Or.imp_right ?_)
  exact fun hkeep => ⟨hkeep.1, fun he =>
    hkeep.2 (ofWorker_of_ofThread he hevent)⟩

theorem onItsWay_of_step {s t : State} {e : Event} {o : List Effect}
    {c : TaskExecutor.Call FileWrite} {w : Fin 2} {rank : ℕ}
    (h : OnItsWay c w rank s.executor) (hstep : step s e = some (o, t)) :
    c ∈ TaskExecutor.executedCalls (executorRecord ⟨s, e, o, t⟩) ∨
      (∃ w' rank', rank' < rank ∧ OnItsWay c w' rank' t.executor) ∨
      (OnItsWay c w rank t.executor ∧ ¬ OfThread (some w) e) := by
  cases transition_of_step hstep with
  | quiet hevent hexecutor =>
      rw [hexecutor]
      refine .inr (.inr ⟨h, ?_⟩)
      rintro (rfl | rfl)
      · cases hevent
      · cases hevent
  | call write woken hevent _ hcall => exact onItsWay_of_call h hevent hcall
  | exit _ hcall => exact onItsWay_of_call h rfl hcall
  | join _ hcall => exact onItsWay_of_call h rfl hcall
  | finish woken _ hcall => exact onItsWay_of_call h rfl hcall
  | worker e' _ hevent hcall => exact onItsWay_of_call h hevent hcall

/-- A step of the executor executes one task at most. -/
theorem executed_eq_of_mem {s t : TaskExecutor.State FileWrite 2}
    {e : TaskExecutor.Event FileWrite 2}
    {o : List (TaskExecutor.Effect FileWrite 2)}
    {c : TaskExecutor.Call FileWrite} (h : TaskExecutor.step s e = some (o, t))
    (hc : c ∈ TaskExecutor.executed ⟨s, e, o, t⟩) :
    TaskExecutor.executed ⟨s, e, o, t⟩ = [c] := by
  cases TaskExecutor.transition_of_step h with
  | runInline | perform =>
      simp only [TaskExecutor.executed, List.filterMap_cons,
        TaskExecutor.Effect.executedCall?, TaskExecutor.filterMap_logThrown,
        List.mem_singleton] at hc ⊢
      rw [hc]
  | runQueued | shutdownFirst | shutdownAgain | joinFinished | joinThrows
  | joinReturns | wait | exit | pop | wake => cases hc

/-- The step which executes a task leaves its file with its data. -/
theorem files_of_executed {s t : State} {e : Event} {o : List Effect}
    {c : TaskExecutor.Call FileWrite} (h : step s e = some (o, t))
    (hc : c ∈ TaskExecutor.executedCalls (executorRecord ⟨s, e, o, t⟩)) :
    t.files c.task.file = c.task.content := by
  obtain ⟨hrun, hfiles⟩ := executor_of_step h
  have hone : TaskExecutor.executedCalls (executorRecord ⟨s, e, o, t⟩) =
      [c] := by
    cases hevent : executorEvent s e with
    | none =>
        rw [executorRecord] at hc
        simp [hevent, TaskExecutor.executedCalls] at hc
    | some e' =>
        rw [executorRecord_of_call hevent] at hrun hc ⊢
        rw [TaskExecutor.executedCalls, List.flatMap_singleton] at hc ⊢
        exact executed_eq_of_mem (hrun.step_of_mem (List.mem_singleton_self _))
          hc
  rw [hfiles, hone]
  exact Function.update_self ..

/-! ## The exit -/

/-- The variables which decide what is written next. -/
structure Decisive where
  shuttingDown : Bool
  lastTickStatus : UInt64

def State.decisive (s : State) : Decisive :=
  ⟨s.shuttingDown, s.lastTickStatus⟩

/-- What an event makes of them. -/
def Event.assign : Event → Decisive → Decisive
  | .setShuttingDown value, d => { d with shuttingDown := value }
  | .onTick now _, d =>
      if now - d.lastTickStatus > 15 then { d with lastTickStatus := now }
      else d
  | _, d => d

theorem executorStep_decisive {s t : State}
    {e : TaskExecutor.Event FileWrite 2} {o : List Effect}
    (h : executorStep e s = some (o, t)) : t.decisive = s.decisive := by
  unfold executorStep at h
  split at h
  next =>
    cases h
    rfl
  next => cases h

theorem hookJoin_decisive {s t : State} {o : List Effect}
    (h : hookJoin s = some (o, t)) : t.decisive = s.decisive := by
  unfold hookJoin at h
  split at h
  next hjoin =>
    have hkeep := executorStep_decisive hjoin
    split at h
    next =>
      cases h
      exact hkeep
    next =>
      split at h
      next =>
        cases h
        exact hkeep
      next =>
        cases h
        exact hkeep
  next => cases h

theorem decisive_of_step {s t : State} {e : Event} {o : List Effect}
    (h : step s e = some (o, t)) : t.decisive = e.assign s.decisive := by
  cases e with
  | writeFile file data woken =>
      simp only [step, Option.ite_none_right_eq_some] at h
      exact executorStep_decisive h.2
  | onReady woken =>
      simp only [step, onReady, Option.ite_none_right_eq_some] at h
      replace h := h.2
      split at h
      next hwrite =>
        cases h
        exact executorStep_decisive hwrite
      next => cases h
  | onTick now woken =>
      simp only [step, onTick, Option.ite_none_right_eq_some] at h
      replace h := h.2
      split at h
      next hrate =>
        have hkeep := executorStep_decisive h
        exact hkeep.trans (if_pos hrate).symm
      next hrate =>
        cases h
        exact (if_neg hrate).symm
  | setShuttingDown value =>
      simp only [step, Option.ite_none_right_eq_some] at h
      obtain ⟨_, heq⟩ := h
      cases heq
      rfl
  | exit =>
      simp only [step, Option.ite_none_right_eq_some] at h
      have hkeep := executorStep_decisive h.2
      exact hkeep
  | join =>
      simp only [step, Option.ite_none_right_eq_some] at h
      exact hookJoin_decisive h.2
  | finish woken =>
      simp only [step, hookFinish, Option.ite_none_right_eq_some] at h
      replace h := h.2
      split at h
      next hwrite =>
        have hkeep := executorStep_decisive hwrite
        cases h
        exact hkeep
      next => cases h
  | dispatch | wake | perform => exact executorStep_decisive h

/-- The only events which assign `shuttingDown`. -/
def Event.setsShuttingDown : Event → Bool
  | .setShuttingDown _ => true
  | _ => false

theorem shuttingDown_of_step {s t : State} {e : Event} {o : List Effect}
    (he : e.setsShuttingDown = false) (h : step s e = some (o, t)) :
    t.shuttingDown = s.shuttingDown := by
  have hdecisive := congrArg Decisive.shuttingDown (decisive_of_step h)
  cases e with
  | setShuttingDown => cases he
  | onTick now woken =>
      rw [Event.assign] at hdecisive
      split at hdecisive
      next => exact hdecisive
      next => exact hdecisive
  | writeFile | onReady | exit | join | finish | dispatch | wake | perform =>
      exact hdecisive

theorem mem_executorOut {o : List Effect}
    {y : TaskExecutor.Effect FileWrite 2} :
    y ∈ executorOut o ↔ .executor y ∈ o := by
  constructor
  · intro hy
    obtain ⟨z, hz, heq⟩ := List.mem_filterMap.mp hy
    cases z with
    | executor z =>
        cases heq
        exact hz
    | logInfo | fEngineLoopExitOriginal => cases heq
  · exact fun hy => List.mem_filterMap.mpr ⟨_, hy, rfl⟩

/-- A join of the first `shutdown()` goes on to the next thread or returns. -/
theorem hookJoin_firstCall {s t : State} {o : List Effect}
    (hfirst : FirstCall s.executor) (hbusy : InShutdown s.executor)
    (h : hookJoin s = some (o, t)) :
    (t.phase = s.phase ∧ InShutdown t.executor) ∨ t.phase = .returned := by
  unfold hookJoin at h
  split at h
  next o' t' hstep =>
    obtain ⟨hcall, hphase, _⟩ := executorStep_spec hstep
    have hthrew := (TaskExecutor.step_firstCall hfirst hbusy hcall.step).2
    split at h
    next =>
      cases h
      exact .inr rfl
    next hnot =>
      split at h
      next hmem => exact (hthrew (mem_executorOut.mpr hmem)).elim
      next =>
        cases h
        rcases TaskExecutor.inShutdown_of_join hcall.step with
          hreturned | hthrown | hbusy'
        · exact (hnot (mem_executorOut.mp hreturned)).elim
        · exact (hthrew hthrown).elim
        · exact .inl ⟨hphase, hbusy'⟩
  next => cases h

/-- Inside of the hook, `thread` is the one whose step comes next; `rank` bounds
how many steps there are before the original is called. -/
inductive Exiting : Option (Fin 2) → ℕ → State → Prop
  | joining {thread : Option (Fin 2)} {s : State} (hphase : s.phase = .joining)
      (hfirst : FirstCall s.executor) (hbusy : InShutdown s.executor)
      (henabled : ∃ e, OfThread thread e ∧ (step s e).isSome = true) :
      Exiting thread (remaining s.executor + 1) s
  | returned {s : State} (hphase : s.phase = .returned)
      (hended : TaskExecutor.Ended s.executor) : Exiting none 0 s

theorem isSome_hookJoin {s : State}
    (h : (TaskExecutor.step s.executor .join).isSome = true) :
    (hookJoin s).isSome = true := by
  obtain ⟨⟨o, t⟩, hstep⟩ := Option.isSome_iff_exists.mp
    (isSome_executorStep h)
  simp only [hookJoin, hstep]
  split
  next => rfl
  next =>
    split
    next => rfl
    next => rfl

/-- In the joins some worker, or the game thread, can go on. -/
theorem exists_exiting {s : State} (hphase : s.phase = .joining)
    (hfirst : FirstCall s.executor) (hbusy : InShutdown s.executor) :
    ∃ thread, Exiting thread (remaining s.executor + 1) s := by
  obtain ⟨e, hown, hsome⟩ := TaskExecutor.firstCall_enabled hfirst hbusy
  cases e with
  | join =>
      refine ⟨none, .joining hphase hfirst hbusy ⟨.join, .inl rfl, ?_⟩⟩
      simp only [step, hphase, if_true]
      exact isSome_hookJoin hsome
  | dispatch w =>
      exact ⟨some w, .joining hphase hfirst hbusy
        (exists_ofThread (.inl rfl) hsome)⟩
  | perform w thrown =>
      exact ⟨some w, .joining hphase hfirst hbusy
        (exists_ofThread (.inr ⟨thrown, rfl⟩) hsome)⟩
  | run | shutdown | wake => cases hown

theorem Exiting.enabled {s : State} {thread : Option (Fin 2)} {rank : ℕ}
    (h : Exiting thread rank s) :
    ∃ e, OfThread thread e ∧ (step s e).isSome = true := by
  cases h with
  | joining _ _ _ henabled => exact henabled
  | returned hphase hended =>
      refine ⟨.finish none, .inr ⟨none, rfl⟩, ?_⟩
      simp [step, hphase, hookFinish, writeStatus, writeFile, executorStep,
        TaskExecutor.step, TaskExecutor.run, hended.shutting]

/-- Every step brings the joins nearer to their end. -/
theorem exiting_of_own {s t : State} {o : List Effect}
    {e : TaskExecutor.Event FileWrite 2} (hphase : t.phase = .joining)
    (hfirst : FirstCall s.executor) (hbusy : InShutdown s.executor)
    (hown : e.isOwn = true) (hbusy' : InShutdown t.executor)
    (hcall : ExecutorStep s e o t) :
    ∃ thread rank, rank < remaining s.executor + 1 ∧
      Exiting thread rank t := by
  have hlower := TaskExecutor.step_remaining hfirst hbusy hcall.step
  have hfirst' := (TaskExecutor.step_firstCall hfirst hbusy hcall.step).1
  rw [if_pos hown] at hlower
  obtain ⟨thread, hexiting⟩ := exists_exiting hphase hfirst' hbusy'
  exact ⟨thread, _, by omega, hexiting⟩

theorem exiting_of_join {files : Files} {history : History} {s t : State}
    {o : List Effect} (hrun : Run step (init files) history s)
    (hphase : s.phase = .joining) (hfirst : FirstCall s.executor)
    (hbusy : InShutdown s.executor) (h : step s .join = some (o, t)) :
    ∃ thread rank, rank < remaining s.executor + 1 ∧
      Exiting thread rank t := by
  have hjoin : hookJoin s = some (o, t) := by
    simpa [step, hphase] using h
  rcases hookJoin_firstCall hfirst hbusy hjoin with
    ⟨hphase', hbusy'⟩ | hreturned
  · have hcall : ExecutorStep s .join o t := by
      cases transition_of_step h with
      | join _ hcall => exact hcall
      | quiet hevent => cases hevent
      | call _ _ hevent => cases hevent
      | worker _ hworker => cases hworker
    exact exiting_of_own (hphase'.trans hphase) hfirst hbusy rfl hbusy' hcall
  · have hended := (run_phaseInv (hrun.snoc h)).ended (.inl hreturned)
    exact ⟨none, 0, by omega, .returned hreturned hended⟩

/-- A worker goes on while the game thread is in the joins. -/
theorem exiting_of_worker {s t : State} {o : List Effect}
    {e : TaskExecutor.Event FileWrite 2} (hphase : s.phase = .joining)
    (hfirst : FirstCall s.executor) (hbusy : InShutdown s.executor)
    (hown : e.isOwn = true) (he : e ≠ .join)
    (h : executorStep e s = some (o, t)) :
    ∃ thread rank, rank < remaining s.executor + 1 ∧
      Exiting thread rank t := by
  obtain ⟨hcall, hphase', _⟩ := executorStep_spec h
  have hshutdown : e ≠ .shutdown := by
    rintro rfl
    cases hown
  have hjoining := TaskExecutor.joining_of_step hcall.step hshutdown he
  refine exiting_of_own (hphase'.trans hphase) hfirst hbusy hown ?_ hcall
  rw [InShutdown, hjoining]
  exact hbusy

/-- The workers of an ended executor do nothing. -/
theorem not_executorStep_of_ended {s t : State} {o : List Effect}
    {e : TaskExecutor.Event FileWrite 2} {w : Fin 2}
    (hended : TaskExecutor.Ended s.executor)
    (he : e = .dispatch w ∨ e = .wake w ∨ ∃ thrown, e = .perform w thrown) :
    executorStep e s ≠ some (o, t) := by
  intro h
  obtain ⟨hcall, _, _⟩ := executorStep_spec h
  have hfinished := hended.finished w
  have hstep := hcall.step
  rcases he with rfl | rfl | ⟨thrown, rfl⟩
  · simp [TaskExecutor.step, TaskExecutor.dispatchTasks, hfinished] at hstep
  · simp [TaskExecutor.step, TaskExecutor.wake, hfinished] at hstep
  · simp [TaskExecutor.step, TaskExecutor.perform, hfinished] at hstep

theorem Exiting.step {files : Files} {history : History} {s t : State}
    {e : Event} {o : List Effect} {thread : Option (Fin 2)} {rank : ℕ}
    (h : Exiting thread rank s) (hrun : Run Status.step (init files) history s)
    (hstep : Status.step s e = some (o, t)) :
    .fEngineLoopExitOriginal ∈ o ∨
      ∃ thread' rank', rank' < rank ∧ Exiting thread' rank' t := by
  cases h with
  | joining hphase hfirst hbusy =>
      right
      cases e with
      | join => exact exiting_of_join hrun hphase hfirst hbusy hstep
      | dispatch w =>
          exact exiting_of_worker hphase hfirst hbusy rfl (by simp) hstep
      | perform w =>
          exact exiting_of_worker hphase hfirst hbusy rfl (by simp) hstep
      | wake w =>
          obtain ⟨hcall, _, _⟩ := executorStep_spec hstep
          have hwake := hcall.step
          simp only [TaskExecutor.step, TaskExecutor.wake] at hwake
          split at hwake
          next hwaiting => exact (hfirst.noSleeper w hwaiting).elim
          next => cases hwake
      | writeFile | onReady | onTick | setShuttingDown | exit | finish =>
          simp [Status.step, hphase] at hstep
  | returned hphase hended =>
      left
      cases e with
      | finish woken =>
          simp only [Status.step, hphase, if_true, hookFinish] at hstep
          split at hstep
          next =>
            cases hstep
            exact List.mem_append_right _ (List.mem_singleton_self _)
          next => cases hstep
      | dispatch w =>
          exact (not_executorStep_of_ended hended (.inl rfl) hstep).elim
      | wake w =>
          exact (not_executorStep_of_ended hended (.inr (.inl rfl))
            hstep).elim
      | perform w =>
          exact (not_executorStep_of_ended hended (.inr (.inr ⟨none, rfl⟩))
            hstep).elim
      | writeFile | onReady | onTick | setShuttingDown | exit | join =>
          simp [Status.step, hphase] at hstep

theorem Exiting.phase {s : State} {thread : Option (Fin 2)} {rank : ℕ}
    (h : Exiting thread rank s) : s.phase ≠ .serving := by
  cases h with
  | joining hphase => simp [hphase]
  | returned hphase => simp [hphase]

section Executions

variable {x : Execution step} {files : Files}

theorem run_of_execution (hstart : x.state 0 = init files) (i : ℕ) :
    Run step (init files) (x.history i) (x.state i) := by
  have hrun := x.run i
  rwa [hstart] at hrun

theorem executed_of_held (hstart : x.state 0 = init files)
    (hfair : ∀ thread, x.Fair (OfThread thread)) {i : ℕ}
    {c : TaskExecutor.Call FileWrite} (hc : c ∈ (x.state i).executor.held) :
    ∃ j, i ≤ j ∧
      c ∈ TaskExecutor.executedCalls (executorRecord (x.record j)) := by
  obtain ⟨w, rank, hway⟩ := TaskExecutor.onItsWay_of_held (by decide)
    (run_executor (run_of_execution hstart i)) hc
  refine Execution.eventually_of_rank
    (fun w rank s => OnItsWay c w rank s.executor)
    (fun w => hfair (some w)) ?_ ?_ hway
  · intro j w rank hpending
    obtain ⟨e, he, hsome⟩ := hpending.enabled
    exact exists_ofThread he hsome
  · exact fun j w rank hpending => onItsWay_of_step hpending (x.next j)

/-- Every write which `writeFile` is given is performed once, now or later, and
its file then holds its data. -/
theorem write_performed (hstart : x.state 0 = init files)
    (hfair : ∀ thread, x.Fair (OfThread thread)) {i : ℕ} {write : FileWrite}
    {woken : Option (Fin 2)} (hcall : executorEvent (x.state i) (x.event i) =
      some (.run write woken none)) :
    ∃ j, i ≤ j ∧
      ⟨(x.state i).executor.calls, write⟩ ∈
        TaskExecutor.executedCalls (executorRecord (x.record j)) ∧
      (x.state (j + 1)).files write.file = write.content ∧
      ∀ k, ⟨(x.state i).executor.calls, write⟩ ∈
        TaskExecutor.executedCalls (executorRecord (x.record k)) → k = j := by
  have hnodup : ∀ i, ((x.history i).flatMap fun r =>
      TaskExecutor.executedCalls (executorRecord r)).Nodup := by
    intro i
    have hexecuted := TaskExecutor.run_executed_nodup
      (run_executor (run_of_execution hstart i))
    rwa [TaskExecutor.executedCalls, executorHistory, List.flatMap_assoc]
      at hexecuted
  have hbalance := TaskExecutor.run_balance (executor_of_step (x.next i)).1
  have hmem : ⟨(x.state i).executor.calls, write⟩ ∈
      (x.state (i + 1)).executor.held +
        (TaskExecutor.executedCalls (executorRecord (x.record i)) :
          Multiset (TaskExecutor.Call FileWrite)) := by
    rw [Execution.record, hbalance, executorRecord_of_call hcall]
    simp [TaskExecutor.submittedCalls, TaskExecutor.submitted]
  have hdone : ∃ j, i ≤ j ∧ ⟨(x.state i).executor.calls, write⟩ ∈
      TaskExecutor.executedCalls (executorRecord (x.record j)) := by
    rcases Multiset.mem_add.mp hmem with hheld | hinline
    · obtain ⟨j, hj, hexecuted⟩ := executed_of_held hstart hfair hheld
      exact ⟨j, Nat.le_of_succ_le hj, hexecuted⟩
    · exact ⟨i, le_rfl, Multiset.mem_coe.mp hinline⟩
  obtain ⟨j, hj, hexecuted⟩ := hdone
  exact ⟨j, hj, hexecuted, files_of_executed (x.next j) hexecuted,
    fun k hk => x.eq_of_nodup hnodup hk hexecuted⟩

end Executions

/-- The exit finds a tick in the queue; after it the engine only ticks. -/
def closingRun : Option (History × State) :=
  execute step (init fun _ => none)
    [.onTick 1700000000 none, .setShuttingDown true, .exit, .dispatch worker0,
      .perform worker0, .dispatch worker0, .dispatch worker1, .join, .join,
      .join, .finish none]

theorem closed_ticks :
    step (closingRun.get (by decide)).2 (.onTick 1700000000 none) =
      some ([], (closingRun.get (by decide)).2) := by
  have hphase : (closingRun.get (by decide)).2.phase = .original := by decide
  have hrate : ¬ 1700000000 - (closingRun.get (by decide)).2.lastTickStatus >
      15 := by decide
  rw [step, if_pos (.inr hphase), onTick, if_neg hrate]

def closing : Execution step :=
  lasso (closingRun.get (by decide)).1 [⟨_, _, _, _⟩] Nat.one_pos
    (run_of_execute_get (by decide)) (.single closed_ticks)

theorem closing_fair (thread : Option (Fin 2)) :
    closing.Fair (OfThread thread) := by
  refine lasso_fair_of_disabled ⟨_, List.mem_singleton_self _, ?_⟩
  cases thread with
  | none =>
      rintro e (rfl | ⟨woken, rfl⟩)
      · decide
      · revert woken
        decide
  | some w =>
      rintro e (rfl | rfl)
      · revert w
        decide
      · revert w
        decide

theorem write_performed_closing :
    ∃ j, 0 ≤ j ∧
      ⟨0, ⟨"tick.txt", "1700000000"⟩⟩ ∈
        TaskExecutor.executedCalls (executorRecord (closing.record j)) ∧
      (closing.state (j + 1)).files "tick.txt" = some "1700000000\n" ∧
      ∀ k, ⟨0, ⟨"tick.txt", "1700000000"⟩⟩ ∈
        TaskExecutor.executedCalls (executorRecord (closing.record k)) →
          k = j :=
  have hcall : executorEvent (closing.state 0) (closing.event 0) =
      some (.run ⟨"tick.txt", "1700000000"⟩ none none) := by
    have htext : toString (1700000000 : UInt64) = "1700000000" := by decide
    rw [← htext]
    rfl
  write_performed lasso_state_zero closing_fair hcall

end SAOmega.Status
