import SAOmega.Status.Model
import SAOmega.Support.Simulation

/-!
# The executor below the status files

Every step of the game thread or of a worker is at most one step of the
executor, and the files change by the tasks which that step executes.  What is
known about the executor's runs therefore holds here.
-/

namespace SAOmega.Status

open SAOmega.Support

abbrev Record := Step State Event (List Effect)

/-- The steps of a run, oldest first. -/
abbrev History := List Record

def Effect.executor? : Effect → Option (TaskExecutor.Effect FileWrite 2)
  | .executor x => some x
  | _ => none

/-- What the executor does in a step. -/
def executorOut (o : List Effect) : List (TaskExecutor.Effect FileWrite 2) :=
  o.filterMap Effect.executor?

theorem executorOut_map (x : List (TaskExecutor.Effect FileWrite 2)) :
    executorOut (x.map .executor) = x := by
  induction x with
  | nil => rfl
  | cons a x ih => rw [List.map_cons, executorOut, List.filterMap_cons,
      Effect.executor?, ← executorOut, ih]

theorem executorOut_snoc (o : List Effect) {x : Effect}
    (hx : x.executor? = none) : executorOut (o ++ [x]) = executorOut o := by
  simp [executorOut, hx]

/-- The step which an event makes the executor take. -/
def executorEvent (s : State) :
    Event → Option (TaskExecutor.Event FileWrite 2)
  | .writeFile file data woken => some (.run ⟨file, data⟩ woken none)
  | .onReady woken => some (.run ⟨"status.txt", "ready"⟩ woken none)
  | .onTick now woken =>
      if now - s.lastTickStatus > 15 then
        some (.run ⟨"tick.txt", toString now⟩ woken none)
      else none
  | .setShuttingDown _ => none
  | .exit => some .shutdown
  | .join => some .join
  | .finish woken =>
      some (.run ⟨"status.txt", exitStatus s.shuttingDown⟩ woken none)
  | .dispatch w => some (.dispatch w)
  | .wake w => some (.wake w)
  | .perform w => some (.perform w none)

/-- The step takes the executor and the files along. -/
structure ExecutorStep (s : State) (e : TaskExecutor.Event FileWrite 2)
    (o : List Effect) (t : State) : Prop where
  step : TaskExecutor.step s.executor e = some (executorOut o, t.executor)
  files : t.files = written (executorOut o) s.files

theorem executorStep_spec {s t : State} {e : TaskExecutor.Event FileWrite 2}
    {o : List Effect} (h : executorStep e s = some (o, t)) :
    ExecutorStep s e o t ∧ t.phase = s.phase ∧
      .fEngineLoopExitOriginal ∉ o := by
  unfold executorStep at h
  split at h
  next x executor hstep =>
    cases h
    refine ⟨⟨?_, ?_⟩, rfl, by simp⟩
    · rw [executorOut_map]
      exact hstep
    · rw [executorOut_map]
  next => cases h

/-- The steps of the workers. -/
def Event.isWorker : Event → Bool
  | .dispatch _ | .wake _ | .perform _ => true
  | _ => false

inductive Transition (s : State) : Event → List Effect → State → Prop
  | quiet {e : Event} {t : State} (hevent : executorEvent s e = none)
      (hexecutor : t.executor = s.executor) (hfiles : t.files = s.files)
      (hphase : t.phase = s.phase) : Transition s e [] t
  | call {e : Event} {o : List Effect} {t : State} (write : FileWrite)
      (woken : Option (Fin 2))
      (hevent : executorEvent s e = some (.run write woken none))
      (hfree : s.phase = .serving ∨
        (s.phase = .original ∧ write.file = "tick.txt"))
      (hcall : ExecutorStep s (.run write woken none) o t)
      (hphase : t.phase = s.phase)
      (horiginal : .fEngineLoopExitOriginal ∉ o) : Transition s e o t
  | exit {o : List Effect} {t : State} (hserving : s.phase = .serving)
      (hcall : ExecutorStep s .shutdown o t) (hphase : t.phase = .joining)
      (horiginal : .fEngineLoopExitOriginal ∉ o) : Transition s .exit o t
  | join {o : List Effect} {t : State} (hjoining : s.phase = .joining)
      (hcall : ExecutorStep s .join o t)
      (hphase : t.phase = .joining ∨ t.phase = .escaped ∨
        (t.phase = .returned ∧ .shutdownReturned ∈ executorOut o))
      (horiginal : .fEngineLoopExitOriginal ∉ o) : Transition s .join o t
  | finish {o : List Effect} {t : State} (woken : Option (Fin 2))
      (hreturned : s.phase = .returned)
      (hcall : ExecutorStep s
        (.run ⟨"status.txt", exitStatus s.shuttingDown⟩ woken none) o t)
      (hphase : t.phase = .original) : Transition s (.finish woken) o t
  | worker {e : Event} {o : List Effect} {t : State}
      (e' : TaskExecutor.Event FileWrite 2) (hworker : e.isWorker = true)
      (hevent : executorEvent s e = some e')
      (hcall : ExecutorStep s e' o t) (hphase : t.phase = s.phase)
      (horiginal : .fEngineLoopExitOriginal ∉ o) : Transition s e o t

theorem transition_of_hookJoin {s t : State} {o : List Effect}
    (hjoining : s.phase = .joining) (h : hookJoin s = some (o, t)) :
    Transition s .join o t := by
  unfold hookJoin at h
  split at h
  next o' t' hstep =>
    obtain ⟨hcall, hphase, horiginal⟩ := executorStep_spec hstep
    split at h
    next hreturned =>
      cases h
      refine .join hjoining ⟨hcall.step, hcall.files⟩ (.inr (.inr ⟨rfl, ?_⟩))
        horiginal
      exact List.mem_filterMap.mpr ⟨_, hreturned, rfl⟩
    next =>
      split at h
      next =>
        cases h
        exact .join hjoining ⟨hcall.step, hcall.files⟩ (.inr (.inl rfl))
          horiginal
      next =>
        cases h
        exact .join hjoining hcall (.inl (hphase.trans hjoining)) horiginal
  next => cases h

theorem transition_of_hookFinish {s t : State} {o : List Effect}
    {woken : Option (Fin 2)} (hreturned : s.phase = .returned)
    (h : hookFinish woken s = some (o, t)) :
    Transition s (.finish woken) o t := by
  unfold hookFinish writeStatus writeFile at h
  split at h
  next o' t' hstep =>
    cases h
    obtain ⟨hcall, _, _⟩ := executorStep_spec hstep
    refine .finish woken hreturned ⟨?_, ?_⟩ rfl
    · rw [executorOut_snoc o' rfl]
      exact hcall.step
    · rw [executorOut_snoc o' rfl]
      exact hcall.files
  next => cases h

theorem transition_of_onReady {s t : State} {o : List Effect}
    {woken : Option (Fin 2)} (hserving : s.phase = .serving)
    (h : onReady woken s = some (o, t)) :
    Transition s (.onReady woken) o t := by
  unfold onReady writeStatus writeFile at h
  split at h
  next o' t' hstep =>
    cases h
    obtain ⟨hcall, hphase, horiginal⟩ := executorStep_spec hstep
    refine .call ⟨"status.txt", "ready"⟩ woken rfl (.inl hserving) ⟨?_, ?_⟩
      hphase (by simpa using horiginal)
    · rw [executorOut_snoc o' rfl]
      exact hcall.step
    · rw [executorOut_snoc o' rfl]
      exact hcall.files
  next => cases h

theorem transition_of_onTick {s t : State} {o : List Effect} {now : UInt64}
    {woken : Option (Fin 2)} (hfree : s.phase = .serving ∨ s.phase = .original)
    (h : onTick now woken s = some (o, t)) :
    Transition s (.onTick now woken) o t := by
  unfold onTick writeFile at h
  split at h
  next hrate =>
    obtain ⟨hcall, hphase, horiginal⟩ := executorStep_spec h
    refine .call ⟨"tick.txt", toString now⟩ woken ?_ ?_
      ⟨hcall.step, hcall.files⟩ hphase horiginal
    · rw [executorEvent, if_pos hrate]
    · exact hfree.imp_right fun horiginal => ⟨horiginal, rfl⟩
  next hrate =>
    cases h
    refine .quiet ?_ rfl rfl rfl
    rw [executorEvent, if_neg hrate]

theorem transition_of_step {s t : State} {e : Event} {o : List Effect}
    (h : step s e = some (o, t)) : Transition s e o t := by
  cases e with
  | writeFile file data woken =>
      simp only [step, Option.ite_none_right_eq_some] at h
      obtain ⟨hcall, hphase, horiginal⟩ := executorStep_spec h.2
      exact .call ⟨file, data⟩ woken rfl (.inl h.1) hcall hphase horiginal
  | onReady woken =>
      simp only [step, Option.ite_none_right_eq_some] at h
      exact transition_of_onReady h.1 h.2
  | onTick now woken =>
      simp only [step, Option.ite_none_right_eq_some] at h
      exact transition_of_onTick h.1 h.2
  | setShuttingDown value =>
      simp only [step, Option.ite_none_right_eq_some] at h
      obtain ⟨_, heq⟩ := h
      cases heq
      exact .quiet rfl rfl rfl rfl
  | exit =>
      simp only [step, Option.ite_none_right_eq_some] at h
      obtain ⟨hcall, hphase, horiginal⟩ := executorStep_spec h.2
      exact .exit h.1 ⟨hcall.step, hcall.files⟩ hphase horiginal
  | join =>
      simp only [step, Option.ite_none_right_eq_some] at h
      exact transition_of_hookJoin h.1 h.2
  | finish woken =>
      simp only [step, Option.ite_none_right_eq_some] at h
      exact transition_of_hookFinish h.1 h.2
  | dispatch w | wake w | perform w =>
      obtain ⟨hcall, hphase, horiginal⟩ := executorStep_spec h
      exact .worker _ rfl rfl hcall hphase horiginal

/-! ## The executor's run -/

/-- What a step is to the executor. -/
def executorRecord (r : Record) : TaskExecutor.History FileWrite 2 :=
  match executorEvent r.pre r.event with
  | some e => [⟨r.pre.executor, e, executorOut r.out, r.post.executor⟩]
  | none => []

def executorHistory (history : History) : TaskExecutor.History FileWrite 2 :=
  history.flatMap executorRecord

theorem executorHistory_snoc (history : History) (r : Record) :
    executorHistory (history ++ [r]) =
      executorHistory history ++ executorRecord r := by
  simp [executorHistory]

theorem executorRecord_of_call {s t : State} {e : Event} {o : List Effect}
    {e' : TaskExecutor.Event FileWrite 2}
    (hevent : executorEvent s e = some e') :
    executorRecord ⟨s, e, o, t⟩ =
      [⟨s.executor, e', executorOut o, t.executor⟩] := by
  simp [executorRecord, hevent]

theorem executor_of_call {s t : State} {e : Event} {o : List Effect}
    {e' : TaskExecutor.Event FileWrite 2}
    (hevent : executorEvent s e = some e') (hcall : ExecutorStep s e' o t) :
    Run TaskExecutor.step s.executor (executorRecord ⟨s, e, o, t⟩)
        t.executor ∧
      t.files = overwrite (fun call => call.task.file)
        (fun call => call.task.content) s.files
        (TaskExecutor.executedCalls (executorRecord ⟨s, e, o, t⟩)) := by
  rw [executorRecord_of_call hevent]
  refine ⟨.single hcall.step, ?_⟩
  rw [hcall.files, TaskExecutor.executedCalls, List.flatMap_singleton]
  rfl

/-- A step is a step of the executor or none of it, and the files follow. -/
theorem executor_of_step {s t : State} {e : Event} {o : List Effect}
    (h : step s e = some (o, t)) :
    Run TaskExecutor.step s.executor (executorRecord ⟨s, e, o, t⟩)
        t.executor ∧
      t.files = overwrite (fun call => call.task.file)
        (fun call => call.task.content) s.files
        (TaskExecutor.executedCalls (executorRecord ⟨s, e, o, t⟩)) := by
  cases transition_of_step h with
  | quiet hevent hexecutor hfiles =>
      simp only [executorRecord, hevent, hexecutor, hfiles]
      exact ⟨.nil, rfl⟩
  | call write woken hevent _ hcall => exact executor_of_call hevent hcall
  | exit _ hcall => exact executor_of_call rfl hcall
  | join _ hcall => exact executor_of_call rfl hcall
  | finish woken _ hcall => exact executor_of_call rfl hcall
  | worker e' _ hevent hcall => exact executor_of_call hevent hcall

/-- The status files refine the executor. -/
def executorSimulation : Simulation step
    (TaskExecutor.step : TaskExecutor.State FileWrite 2 → _ → _) where
  inv _ := True
  abs s := s.executor
  image := executorRecord
  preserves _ _ _ _ _ _ := trivial
  matches_step _ _ _ _ _ h := (executor_of_step h).1

theorem run_executor {files : Files} {history : History} {s : State}
    (h : Run step (init files) history s) :
    Run TaskExecutor.step (TaskExecutor.init FileWrite 2)
      (executorHistory history) s.executor :=
  executorSimulation.run trivial h

/-- The files are those at the start, overwritten by the executed tasks. -/
theorem run_files {files : Files} {history : History} {s : State}
    (h : Run step (init files) history s) :
    s.files = overwrite (fun call => call.task.file)
      (fun call => call.task.content) files
      (TaskExecutor.executedCalls (executorHistory history)) := by
  induction h with
  | nil => rfl
  | snoc _ hstep ih =>
      rw [executorHistory_snoc, TaskExecutor.executedCalls_append,
        overwrite_append, ← ih]
      exact (executor_of_step hstep).2

end SAOmega.Status
