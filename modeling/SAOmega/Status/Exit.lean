import SAOmega.Status.Transition

/-!
# The status after the exit of the engine

When `shutdown()` has returned inside of `Hook_FEngineLoop_Exit`, no task is left
and none can be queued any more.  The last status is written inline, and what
can still happen does not touch its file.
-/

namespace SAOmega.Status

open SAOmega.Support
open SAOmega.TaskExecutor (worker0 worker1)

/-- The executor takes tasks before the hook, and has ended after it. -/
structure PhaseInv (s : State) : Prop where
  serving : s.phase = .serving → s.executor.isShuttingDownTaskQueue = false
  ended : s.phase = .returned ∨ s.phase = .original →
    TaskExecutor.Ended s.executor

theorem PhaseInv.of_busy {s : State}
    (h : s.phase = .joining ∨ s.phase = .escaped) : PhaseInv s := by
  constructor
  · intro hserving
    rcases h with h | h <;> cases hserving.symm.trans h
  · intro hended
    rcases h with h | h <;> rcases hended with h' | h' <;> cases h'.symm.trans h

/-- A step of the executor in a phase which stays. -/
theorem PhaseInv.step {s t : State} (hs : PhaseInv s)
    {e : TaskExecutor.Event FileWrite 2} {o : List Effect}
    (he : e ≠ .shutdown) (hcall : ExecutorStep s e o t)
    (hphase : t.phase = s.phase) : PhaseInv t := by
  constructor
  · intro hserving
    rw [TaskExecutor.flag_of_step hcall.step he]
    exact hs.serving (hphase.symm.trans hserving)
  · intro hended
    rw [hphase] at hended
    exact (hs.ended hended).step hcall.step

theorem ne_shutdown_of_worker {s : State} {e : Event}
    {e' : TaskExecutor.Event FileWrite 2} (hworker : e.isWorker = true)
    (hevent : executorEvent s e = some e') :
    e' ≠ .shutdown ∧ ∀ executor o executor',
      TaskExecutor.submitted ⟨executor, e', o, executor'⟩ = [] := by
  cases e with
  | dispatch | wake | perform =>
      cases hevent
      exact ⟨by simp, fun _ _ _ => rfl⟩
  | writeFile | onReady | onTick | setShuttingDown | exit | join | finish =>
      cases hworker

theorem run_phaseInv {files : Files} {history : History} {s : State}
    (h : Run step (init files) history s) : PhaseInv s := by
  induction h with
  | nil => exact ⟨fun _ => rfl, by simp [init]⟩
  | @snoc history s t e o hrun hstep ih =>
      cases transition_of_step hstep with
      | quiet _ hexecutor _ hphase =>
          constructor
          · rw [hphase, hexecutor]
            exact ih.serving
          · rw [hphase, hexecutor]
            exact ih.ended
      | call write woken _ _ hcall hphase => exact ih.step (by simp) hcall hphase
      | worker e' hworker hevent hcall hphase =>
          exact ih.step (ne_shutdown_of_worker hworker hevent).1 hcall hphase
      | exit _ _ hphase => exact .of_busy (.inl hphase)
      | join _ hcall hphase =>
          rcases hphase with hphase | hphase | ⟨hphase, hreturned⟩
          · exact .of_busy (.inl hphase)
          · exact .of_busy (.inr hphase)
          · refine ⟨by simp [hphase], fun _ => ?_⟩
            exact TaskExecutor.ended_of_returned (by decide)
              (run_executor hrun) hcall.step hreturned
      | finish woken hreturned hcall hphase =>
          refine ⟨by simp [hphase], fun _ => ?_⟩
          exact (ih.ended (.inl hreturned)).step hcall.step

/-- An ended executor writes what it is given at once. -/
theorem ExecutorStep.files_of_ended {s t : State} {o : List Effect}
    {write : FileWrite} {woken : Option (Fin 2)}
    (h : ExecutorStep s (.run write woken none) o t)
    (hs : TaskExecutor.Ended s.executor) :
    t.files = Function.update s.files write.file write.content := by
  have hexecuted := hs.executed h.step
  rw [h.files, written]
  simp only [TaskExecutor.executed, TaskExecutor.submitted] at hexecuted
  rw [hexecuted]
  rfl

/-- The hook is over, and the status file holds `content`. -/
structure AfterExit (content : Option String) (s : State) : Prop where
  ended : TaskExecutor.Ended s.executor
  original : s.phase = .original
  status : s.files "status.txt" = content

/-- What can still happen after the hook leaves the status alone. -/
theorem step_afterExit {content : Option String} (s : State) (e : Event)
    (o : List Effect) (t : State) (hs : AfterExit content s)
    (h : step s e = some (o, t)) : AfterExit content t := by
  have hstatus := hs.status
  cases transition_of_step h with
  | quiet _ hexecutor hfiles hphase =>
      exact ⟨hexecutor ▸ hs.ended, hphase.trans hs.original, hfiles ▸ hstatus⟩
  | call write woken _ hfree hcall hphase =>
      refine ⟨hs.ended.step hcall.step, hphase.trans hs.original, ?_⟩
      have htick : write.file = "tick.txt" := by
        rcases hfree with hserving | ⟨_, htick⟩
        · cases hserving.symm.trans hs.original
        · exact htick
      rw [hcall.files_of_ended hs.ended, htick,
        Function.update_of_ne (by decide)]
      exact hstatus
  | exit hserving => cases hserving.symm.trans hs.original
  | join hjoining => cases hjoining.symm.trans hs.original
  | finish _ hreturned => cases hreturned.symm.trans hs.original
  | worker e' hworker hevent hcall hphase =>
      refine ⟨hs.ended.step hcall.step, hphase.trans hs.original, ?_⟩
      have hexecuted := hs.ended.executed hcall.step
      rw [(ne_shutdown_of_worker hworker hevent).2] at hexecuted
      simp only [TaskExecutor.executed] at hexecuted
      rw [hcall.files, written, hexecuted]
      exact hstatus

/-- The step which calls `FEngineLoop_Exit_original` has just written the
status. -/
theorem afterExit_of_original {s t : State} {e : Event} {o : List Effect}
    (hs : PhaseInv s) (h : step s e = some (o, t))
    (ho : .fEngineLoopExitOriginal ∈ o) :
    AfterExit (some (exitStatus s.shuttingDown ++ "\n")) t := by
  cases transition_of_step h with
  | quiet => cases ho
  | call _ _ _ _ _ _ horiginal => exact (horiginal ho).elim
  | exit _ _ _ horiginal => exact (horiginal ho).elim
  | join _ _ _ horiginal => exact (horiginal ho).elim
  | worker _ _ _ _ _ horiginal => exact (horiginal ho).elim
  | finish woken hreturned hcall hphase =>
      have hended := hs.ended (.inl hreturned)
      refine ⟨hended.step hcall.step, hphase, ?_⟩
      rw [hcall.files_of_ended hended, Function.update_self]
      rfl

/-- When `Hook_FEngineLoop_Exit` reaches the original, `status.txt` tells whether
the server was shutting down, and nothing that happens later changes that. -/
theorem status_after_exit {files : Files} {history : History} {s : State}
    (h : Run step (init files) history s) :
    ∀ before r after, history = before ++ r :: after →
      .fEngineLoopExitOriginal ∈ r.out →
        r.post.files "status.txt" =
            some ((if r.pre.shuttingDown then "cleanshutdown"
              else "unexpectedshutdown") ++ "\n") ∧
          s.files "status.txt" = r.post.files "status.txt" := by
  rintro before r after rfl ho
  obtain ⟨hbefore, hstep, hafter⟩ := h.split
  have hexit : AfterExit _ r.post :=
    afterExit_of_original (run_phaseInv hbefore) hstep ho
  have hlater : AfterExit _ s := hafter.invariant step_afterExit hexit
  exact ⟨hexit.status, hlater.status.trans hexit.status.symm⟩

/-- The exit comes while both workers hold a status, and the server ticks once
more after it. -/
def exitRun : Option (History × State) :=
  execute step (init fun _ => none)
    [.writeFile "status.txt" "load" none, .onReady none, .dispatch worker0,
      .onTick 1700000000 none, .setShuttingDown true, .dispatch worker1,
      .exit, .perform worker1, .perform worker0, .dispatch worker0,
      .perform worker0, .dispatch worker0, .dispatch worker1, .join, .join,
      .join, .finish none, .onTick 1700000016 none]

theorem status_after_exit_clean :
    let history := (exitRun.get (by decide)).1
    let s := (exitRun.get (by decide)).2
    s.files "status.txt" = some "cleanshutdown\n" ∧
      ∀ before r after, history = before ++ r :: after →
        .fEngineLoopExitOriginal ∈ r.out →
          r.post.files "status.txt" =
              some ((if r.pre.shuttingDown then "cleanshutdown"
                else "unexpectedshutdown") ++ "\n") ∧
            s.files "status.txt" = r.post.files "status.txt" :=
  ⟨by decide, status_after_exit (run_of_execute_get (by decide))⟩

end SAOmega.Status
