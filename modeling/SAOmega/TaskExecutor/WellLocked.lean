import SAOmega.TaskExecutor.Nested

/-!
# Who has the mutex

The thread which has the mutex is executing a task inline, and is at its first
call if the task makes any: that call waits for the mutex which the thread has.
Every other thread is in one call of `run` at most, in front of the mutex.
-/

namespace SAOmega.TaskExecutor.Nested

open SAOmega.Support

variable {κ : Type*} {n : ℕ}

/-! ## Calls in progress -/

/-- The task of a call of `run`. -/
def Frame.given? : Frame → Option Task
  | .locking task | .holding task => some task
  | .body _ => none

/-- The stack without calls of `run`: a worker's own task, or nothing. -/
def NoCalls (frames : List Frame) : Prop :=
  ∀ f ∈ frames, f.given? = none

/-- A call of `run` with `task` is in progress, made on top of `rest`. -/
inductive CallAt (task : Task) (rest : List Frame) : List Frame → Prop
  | here {f : Frame} (hf : f.given? = some task) : CallAt task rest (f :: rest)
  | deeper {f : Frame} {frames : List Frame} (h : CallAt task rest frames) :
      CallAt task rest (f :: frames)

theorem callAt_cons {f : Frame} {frames rest : List Frame} {task : Task} :
    CallAt task rest (f :: frames) ↔
      (f.given? = some task ∧ frames = rest) ∨ CallAt task rest frames := by
  constructor
  · intro h
    cases h with
    | here hf => exact .inl ⟨hf, rfl⟩
    | deeper h => exact .inr h
  · rintro (⟨hf, rfl⟩ | h)
    · exact .here hf
    · exact .deeper h

theorem callAt_body {pending : List Task} {frames rest : List Frame}
    {task : Task} :
    CallAt task rest (.body pending :: frames) ↔ CallAt task rest frames := by
  simp [callAt_cons, Frame.given?]

/-- The thread is about to take the mutex. -/
def Acquiring (s : State κ n) (thread : Thread κ n) : Prop :=
  (∃ task rest, s.stack thread = .locking task :: rest) ∨
    ∃ w, thread = .inl w ∧ s.executor.workers w = .locking

/-- The stack of a thread which does not have the mutex. -/
inductive Outside : List Frame → Prop
  | noCall {rest : List Frame} (hrest : NoCalls rest) : Outside rest
  | locking {rest : List Frame} (task : Task) (hrest : NoCalls rest) :
      Outside (.locking task :: rest)

/-- The stack of the thread which has the mutex: it never gets past the first
call of its task. -/
inductive Inside : List Frame → Prop
  | begun {rest : List Frame} (task : Task) (hrest : NoCalls rest) :
      Inside (.body task.children :: .holding task :: rest)
  | calling {task child : Task} {pending : List Task} {rest : List Frame}
      (hchildren : task.children = child :: pending) (hrest : NoCalls rest) :
      Inside (.locking child :: .body pending :: .holding task :: rest)

theorem Inside.of_body {pending : List Task} {rest : List Frame}
    (h : Inside (.body pending :: rest)) :
    ∃ task rest', pending = task.children ∧ rest = .holding task :: rest' ∧
      NoCalls rest' := by
  generalize hframes : Frame.body pending :: rest = frames at h
  cases h with
  | @begun rest' task hrest =>
      obtain ⟨⟨rfl⟩, rfl⟩ := List.cons.inj hframes
      exact ⟨task, rest', rfl, rfl, hrest⟩
  | calling => simp at hframes

structure WellLocked (s : State κ n) : Prop where
  outside : ∀ thread, s.owner ≠ some thread → Outside (s.stack thread)
  inside : ∀ thread, s.owner = some thread → Inside (s.stack thread)
  shutting : s.owner ≠ none → s.executor.isShuttingDownTaskQueue = true
  idle : ∀ w, (s.executor.workers w).isRunning = false → s.stack (.inl w) = []

theorem noCalls_of_cons {f : Frame} {rest : List Frame}
    (h : NoCalls (f :: rest)) : f.given? = none ∧ NoCalls rest :=
  ⟨h f List.mem_cons_self, fun g hg => h g (List.mem_cons_of_mem f hg)⟩

theorem NoCalls.not_callAt {frames rest : List Frame} {task : Task}
    (h : NoCalls frames) : ¬ CallAt task rest frames := by
  intro hcall
  induction hcall with
  | here hf => simp [(noCalls_of_cons h).1] at hf
  | deeper _ ih => exact ih (noCalls_of_cons h).2

theorem Outside.noCalls_tail {f : Frame} {rest : List Frame}
    (h : Outside (f :: rest)) : NoCalls rest := by
  cases h with
  | noCall hrest => exact (noCalls_of_cons hrest).2
  | locking task hrest => exact hrest

theorem wellLocked_init : WellLocked (init κ n) where
  outside _ _ := .noCall (by simp [NoCalls, init])
  inside _ h := by simp [init] at h
  shutting h := (h rfl).elim
  idle _ _ := rfl

/-- Only the thread with the mutex is in a call which executes its task. -/
theorem WellLocked.owner_of_holding {s : State κ n} (hs : WellLocked s)
    {thread : Thread κ n} {task : Task}
    (h : .holding task ∈ s.stack thread) : s.owner = some thread := by
  by_contra hne
  have hout := hs.outside thread hne
  generalize s.stack thread = frames at h hout
  cases hout with
  | noCall hrest => simpa [Frame.given?] using hrest _ h
  | locking task' hrest =>
      have hmem : Frame.holding task ∈ _ := (List.mem_cons.mp h).resolve_left nofun
      simpa [Frame.given?] using hrest _ hmem

variable [DecidableEq κ]

@[simp] theorem setStack_stack (s : State κ n) (thread : Thread κ n)
    (frames : List Frame) :
    (setStack s thread frames).stack thread = frames := by
  simp [setStack]

theorem setStack_stack_of_ne (s : State κ n) {thread thread' : Thread κ n}
    (h : thread' ≠ thread) (frames : List Frame) :
    (setStack s thread frames).stack thread' = s.stack thread' := by
  simp [setStack, h]

/-! ## The stacks along a run -/

omit [DecidableEq κ] in
theorem WellLocked.not_idle {s : State κ n} (hs : WellLocked s)
    {thread : Thread κ n} {f : Frame} {rest : List Frame}
    (hstack : s.stack thread = f :: rest) (w : Fin n) (hw : thread = .inl w) :
    (s.executor.workers w).isRunning ≠ false := by
  intro hrunning
  subst hw
  simp [hs.idle w hrunning] at hstack

omit [DecidableEq κ] in
/-- A step of the executor which neither starts nor ends a task. -/
theorem WellLocked.executorStep {s : State κ n} (hs : WellLocked s)
    {e : TaskExecutor.Event Task n} {o : List (Effect Task n)}
    {executor : TaskExecutor.State Task n}
    (hstep : TaskExecutor.step s.executor e = some (o, executor))
    (hdispatch : ∀ w, e ≠ .dispatch w)
    (hperform : ∀ w thrown, e ≠ .perform w thrown) :
    WellLocked { s with executor := executor } where
  outside := hs.outside
  inside := hs.inside
  shutting howner := flag_mono_of_step hstep (hs.shutting howner)
  idle w hw := hs.idle w (by
    rwa [← isRunning_of_step hstep w (hdispatch w) (hperform w)])

/-- A step which changes the stack of one thread, and lets it take the mutex or
give it back. -/
theorem WellLocked.update {s t : State κ n} (hs : WellLocked s)
    {thread : Thread κ n} {frames : List Frame}
    (hstack : t.stack = Function.update s.stack thread frames)
    (hout : t.owner ≠ some thread → Outside frames)
    (hin : t.owner = some thread → Inside frames)
    (hothers : ∀ thread', thread' ≠ thread →
      (t.owner = some thread' ↔ s.owner = some thread'))
    (hflag : t.owner ≠ none → t.executor.isShuttingDownTaskQueue = true)
    (hidle : ∀ w, thread = .inl w →
      (t.executor.workers w).isRunning = false → frames = [])
    (hworkers : ∀ w, thread ≠ .inl w →
      (t.executor.workers w).isRunning = (s.executor.workers w).isRunning) :
    WellLocked t where
  outside thread' hne := by
    rw [hstack]
    by_cases heq : thread' = thread
    · subst heq
      rw [Function.update_self]
      exact hout hne
    · rw [Function.update_of_ne heq]
      exact hs.outside thread' (mt (hothers thread' heq).mpr hne)
  inside thread' howner := by
    rw [hstack]
    by_cases heq : thread' = thread
    · subst heq
      rw [Function.update_self]
      exact hin howner
    · rw [Function.update_of_ne heq]
      exact hs.inside thread' ((hothers thread' heq).mp howner)
  shutting := hflag
  idle w hw := by
    rw [hstack]
    by_cases heq : .inl w = thread
    · subst heq
      rw [Function.update_self]
      exact hidle w rfl hw
    · rw [Function.update_of_ne heq]
      apply hs.idle w
      rwa [← hworkers w (Ne.symm heq)]

theorem WellLocked.setStack {s : State κ n} (hs : WellLocked s)
    {thread : Thread κ n} {frames : List Frame}
    (hout : s.owner ≠ some thread → Outside frames)
    (hin : s.owner = some thread → Inside frames)
    (hidle : ∀ w, thread = .inl w →
      (s.executor.workers w).isRunning ≠ false) :
    WellLocked (Nested.setStack s thread frames) := by
  apply hs.update rfl
  · exact hout
  · exact hin
  · exact fun _ _ => Iff.rfl
  · exact hs.shutting
  · exact fun w hw hrunning => (hidle w hw hrunning).elim
  · exact fun _ _ => rfl

theorem noCalls_taskFrames (worker : Worker Task) :
    NoCalls (taskFrames worker) := by
  cases worker with
  | running call => simp [NoCalls, taskFrames, Frame.given?]
  | locking | waiting | finished => simp [NoCalls, taskFrames]

theorem taskFrames_of_not_isRunning {worker : Worker Task}
    (h : worker.isRunning = false) : taskFrames worker = [] := by
  cases worker with
  | running call => simp [Worker.isRunning] at h
  | locking | waiting | finished => rfl

/-- A call takes the mutex and executes its task. -/
theorem wellLocked_lockInline {s : State κ n} (hs : WellLocked s)
    {thread : Thread κ n} {task : Task} {rest : List Frame}
    (howner : s.owner = none) (hstack : s.stack thread = .locking task :: rest)
    (hflag : s.executor.isShuttingDownTaskQueue = true) :
    WellLocked { setStack s thread
      (.body task.children :: .holding task :: rest) with
      owner := some thread } := by
  have hout := hs.outside thread (by simp [howner])
  rw [hstack] at hout
  apply hs.update rfl
  · exact fun hne => (hne rfl).elim
  · exact fun _ => .begun task hout.noCalls_tail
  · intro thread' hne
    simp [howner, hne.symm]
  · exact fun _ => hflag
  · exact fun w hw hrunning => (hs.not_idle hstack w hw hrunning).elim
  · exact fun _ _ => rfl

/-- The call ends and gives the mutex back. -/
theorem wellLocked_unlock {s : State κ n} (hs : WellLocked s)
    {thread : Thread κ n} {task : Task} {rest : List Frame}
    (hstack : s.stack thread = .body [] :: .holding task :: rest) :
    WellLocked { setStack s thread rest with owner := none } := by
  have hmem : Frame.holding task ∈ s.stack thread := by simp [hstack]
  have howner := hs.owner_of_holding hmem
  have hin := hs.inside thread howner
  rw [hstack] at hin
  obtain ⟨task', rest', _, ⟨rfl⟩, hrest⟩ := hin.of_body
  apply hs.update rfl
  · exact fun _ => .noCall hrest
  · exact fun h => by cases h
  · intro thread' hne
    simp [howner, hne.symm]
  · exact fun h => (h rfl).elim
  · exact fun w hw hrunning => (hs.not_idle hstack w hw hrunning).elim
  · exact fun _ _ => rfl

/-- A worker moves on in its loop. -/
theorem wellLocked_worker {s : State κ n} (hs : WellLocked s)
    {e : TaskExecutor.Event Task n} {o : List (Effect Task n)}
    {executor : TaskExecutor.State Task n} {w : Fin n} {frames : List Frame}
    (hstep : TaskExecutor.step s.executor e = some (o, executor))
    (howner : s.owner ≠ some (.inl w)) (hframes : NoCalls frames)
    (hidle : (executor.workers w).isRunning = false → frames = [])
    (hdispatch : ∀ w', w ≠ w' → e ≠ .dispatch w')
    (hperform : ∀ w', w ≠ w' → ∀ thrown, e ≠ .perform w' thrown) :
    WellLocked { setStack s (.inl w) frames with executor := executor } := by
  apply hs.update rfl
  · exact fun _ => .noCall hframes
  · exact fun h => (howner h).elim
  · exact fun _ _ => Iff.rfl
  · exact fun h => flag_mono_of_step hstep (hs.shutting h)
  · rintro w' ⟨rfl⟩ hrunning
    exact hidle hrunning
  · intro w' hne
    have hne' : w ≠ w' := by simpa using hne
    exact isRunning_of_step hstep w' (hdispatch w' hne') (hperform w' hne')

theorem step_wellLocked (s : State κ n) (e : Event κ n)
    (o : List (Effect Task n)) (t : State κ n) (hs : WellLocked s)
    (h : step s e = some (o, t)) : WellLocked t := by
  cases transition_of_step h with
  | submit client task hstack =>
      apply hs.setStack
      · exact fun _ => .locking task (by simp [NoCalls])
      · intro howner
        have hin := hs.inside _ howner
        rw [hstack] at hin
        cases hin
      · exact fun w hw => by cases hw
  | @call task pending rest thread hstack =>
      apply hs.setStack
      · intro howner
        have hout := hs.outside thread howner
        rw [hstack] at hout
        refine .locking task ?_
        intro f hf
        rcases List.mem_cons.mp hf with rfl | hf
        · rfl
        · exact hout.noCalls_tail f hf
      · intro howner
        have hin := hs.inside thread howner
        rw [hstack] at hin
        obtain ⟨parent, rest', hchildren, rfl, hrest⟩ := hin.of_body
        exact .calling hchildren.symm hrest
      · exact hs.not_idle hstack
  | lockInline thread woken howner hstack hflag =>
      exact wellLocked_lockInline hs howner hstack hflag
  | @lockQueued task rest o executor thread woken howner hstack hflag hstep =>
      have hset : WellLocked (setStack s thread rest) := by
        apply hs.setStack
        · intro hne
          have hout := hs.outside thread hne
          rw [hstack] at hout
          exact .noCall hout.noCalls_tail
        · exact fun heq => by simp [howner] at heq
        · exact hs.not_idle hstack
      exact hset.executorStep hstep (by simp) (by simp)
  | @unlock task rest o executor thread hstack hstep =>
      exact (wellLocked_unlock hs hstack).executorStep hstep (by simp) (by simp)
  | shutdown howner hstep =>
      exact hs.executorStep hstep (by simp) (by simp)
  | join hstep =>
      exact hs.executorStep hstep (by simp) (by simp)
  | wake w hstep =>
      exact hs.executorStep hstep (by simp) (by simp)
  | @dispatch o executor w howner hstep =>
      exact wellLocked_worker hs hstep (by simp [howner])
        (noCalls_taskFrames _) (fun hw => taskFrames_of_not_isRunning hw)
        (by simp) (by simp)
  | @perform call o executor w hworker hstack hstep =>
      have hout : s.owner ≠ some (.inl w) := by
        intro howner
        have hin := hs.inside _ howner
        rw [hstack] at hin
        obtain ⟨task, rest, _, hrest, _⟩ := hin.of_body
        cases hrest
      exact wellLocked_worker hs hstep hout (by simp [NoCalls]) (fun _ => rfl)
        (by simp) (by simp)

theorem run_wellLocked {s : State κ n} {history : History κ n}
    (h : Run step (init κ n) history s) : WellLocked s :=
  h.invariant step_wellLocked wellLocked_init

end SAOmega.TaskExecutor.Nested
