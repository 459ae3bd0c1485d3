import SAOmega.TaskExecutor.WellLocked

/-!
# Threads which wait for themselves

After `shutdown()` a call of `run` executes its task with the mutex taken, and
the first call which that task makes waits for the mutex forever.  A worker
executes its tasks without the mutex, but the calls which they make after
`shutdown()` are such calls as well.
-/

namespace SAOmega.TaskExecutor.Nested

open SAOmega.Support

variable {κ : Type*} {n : ℕ} [DecidableEq κ]

/-- The call of `run` which was made on top of `rest` can return. -/
def CanReturn (s : State κ n) (thread : Thread κ n) (rest : List Frame) :
    Prop :=
  ∃ (history : History κ n) (t : State κ n),
    Run step s history t ∧ t.stack thread = rest

/-- What is expected of the calls of `run` which are in progress. -/
structure CallsComplete (s : State κ n) : Prop where
  noSelfLock : ∀ thread, s.owner = some thread → ¬ Acquiring s thread
  returns : ∀ thread task rest, CallAt task rest (s.stack thread) →
    CanReturn s thread rest

/-- Not a call of `run` with a task which makes calls. -/
def Frame.flat : Frame → Bool
  | .locking task | .holding task => task.children.isEmpty
  | .body _ => true

/-- The task with which the innermost task makes its next call. -/
def nextCall? : List Frame → Option Task
  | .body (task :: _) :: _ => some task
  | _ => none

/-- After `shutdown()` no call of `run` has a task which makes calls. -/
def Flat (s : State κ n) : Prop :=
  s.executor.isShuttingDownTaskQueue = true →
    ∀ thread, (s.stack thread).all Frame.flat = true

/-- A step which leaves the calls so: `run` gets no such task after
`shutdown()`, and `shutdown()` does not come while `run` has one. -/
def KeepsFlat (s : State κ n) : Event κ n → Prop
  | .submit _ task =>
      s.executor.isShuttingDownTaskQueue = true → task.children = []
  | .call thread =>
      ∀ task ∈ nextCall? (s.stack thread),
        s.executor.isShuttingDownTaskQueue = true → task.children = []
  | .shutdown => ∀ thread, (s.stack thread).all Frame.flat = true
  | _ => True

theorem CallAt.children_eq_nil {frames rest : List Frame} {task : Task}
    (h : CallAt task rest frames) (hflat : frames.all Frame.flat = true) :
    task.children = [] := by
  induction h with
  | @here f hf =>
      cases f with
      | locking | holding =>
          cases hf
          simp only [List.all_cons, Bool.and_eq_true] at hflat
          simpa [Frame.flat] using hflat.1
      | body => cases hf
  | deeper _ ih =>
      simp only [List.all_cons, Bool.and_eq_true] at hflat
      exact ih hflat.2

theorem all_flat_of_callAt {frames : List Frame}
    (h : ∀ task rest, CallAt task rest frames → task.children = []) :
    frames.all Frame.flat = true := by
  induction frames with
  | nil => rfl
  | cons f frames ih =>
      have htail := ih fun task rest hcall => h task rest (.deeper hcall)
      rw [List.all_cons, htail, Bool.and_true]
      cases f with
      | locking task | holding task => simp [Frame.flat, h task _ (.here rfl)]
      | body => rfl

/-! ## Calls which never return -/

/-- The stack of a thread since its call with `task`, until this returns, when
the task makes calls and is executed inline. -/
inductive Unfinished (task : Task) (rest : List Frame) : List Frame → Prop
  | locking : Unfinished task rest (.locking task :: rest)
  | begun : Unfinished task rest (.body task.children :: .holding task :: rest)
  | calling {child : Task} {pending : List Task}
      (hchildren : task.children = child :: pending) :
      Unfinished task rest (.locking child :: .body pending ::
        .holding task :: rest)

theorem Unfinished.length_lt {task : Task} {rest frames : List Frame}
    (h : Unfinished task rest frames) : rest.length < frames.length := by
  cases h with
  | locking | begun | calling => simp only [List.length_cons]; omega

theorem Unfinished.of_body {task : Task} {rest rest' : List Frame}
    {pending : List Task} (h : Unfinished task rest (.body pending :: rest')) :
    pending = task.children ∧ rest' = .holding task :: rest := by
  generalize hframes : Frame.body pending :: rest' = frames at h
  cases h with
  | begun =>
      obtain ⟨⟨rfl⟩, rfl⟩ := List.cons.inj hframes
      exact ⟨rfl, rfl⟩
  | locking | calling => simp at hframes

omit [DecidableEq κ] in
/-- Without the mutex a call is still in front of it. -/
theorem locking_of_callAt {s : State κ n} (hs : WellLocked s)
    {thread : Thread κ n} (howner : s.owner ≠ some thread) {task : Task}
    {rest : List Frame} (hcall : CallAt task rest (s.stack thread)) :
    s.stack thread = .locking task :: rest := by
  have hout := hs.outside thread howner
  generalize s.stack thread = frames at hcall hout
  cases hout with
  | noCall hrest => exact (hrest.not_callAt hcall).elim
  | locking task' hrest =>
      rcases callAt_cons.mp hcall with ⟨hgiven, rfl⟩ | hcall
      · obtain rfl := Option.some.inj hgiven
        rfl
      · exact (hrest.not_callAt hcall).elim

omit [DecidableEq κ] in
/-- Every call in progress is at one of these places. -/
theorem unfinished_of_callAt {s : State κ n} (hs : WellLocked s)
    {thread : Thread κ n} {task : Task} {rest : List Frame}
    (hcall : CallAt task rest (s.stack thread)) :
    Unfinished task rest (s.stack thread) := by
  by_cases howner : s.owner = some thread
  · have hin := hs.inside thread howner
    generalize s.stack thread = frames at hcall hin
    cases hin with
    | begun task' hrest =>
        rcases callAt_cons.mp (callAt_body.mp hcall) with ⟨hgiven, rfl⟩ | hcall
        · obtain rfl := Option.some.inj hgiven
          exact .begun
        · exact (hrest.not_callAt hcall).elim
    | calling hchildren hrest =>
        rcases callAt_cons.mp hcall with ⟨hgiven, rfl⟩ | hcall
        · obtain rfl := Option.some.inj hgiven
          exact .locking
        · rcases callAt_cons.mp (callAt_body.mp hcall) with
            ⟨hgiven, rfl⟩ | hcall
          · obtain rfl := Option.some.inj hgiven
            exact .calling hchildren
          · exact (hrest.not_callAt hcall).elim
  · rw [locking_of_callAt hs howner hcall]
    exact .locking

theorem Unfinished.setStack {s : State κ n} {thread thread' : Thread κ n}
    {task : Task} {rest frames : List Frame}
    (hthread : thread = thread' → Unfinished task rest frames)
    (h : Unfinished task rest (s.stack thread)) :
    Unfinished task rest ((Nested.setStack s thread' frames).stack thread) := by
  by_cases heq : thread = thread'
  · rw [heq, setStack_stack]
    exact hthread heq
  · rwa [setStack_stack_of_ne s heq]

/-- The call waits for the mutex, or for its task, which waits for it. -/
theorem step_unfinished {s t : State κ n} {e : Event κ n}
    {o : List (Effect Task n)} (hs : WellLocked s)
    (hflag : s.executor.isShuttingDownTaskQueue = true) {thread : Thread κ n}
    {task : Task} {rest : List Frame} (hchildren : task.children ≠ [])
    (hunf : Unfinished task rest (s.stack thread))
    (h : step s e = some (o, t)) : Unfinished task rest (t.stack thread) := by
  cases transition_of_step h with
  | submit client task' hstack =>
      refine hunf.setStack ?_
      rintro rfl
      rw [hstack] at hunf
      cases hunf
  | call thread' hstack =>
      refine hunf.setStack ?_
      rintro rfl
      rw [hstack] at hunf
      obtain ⟨hpending, rfl⟩ := hunf.of_body
      exact .calling hpending.symm
  | lockInline thread' woken howner hstack =>
      refine hunf.setStack ?_
      rintro rfl
      rw [hstack] at hunf
      cases hunf with
      | locking => exact .begun
      | calling =>
          have hmem : Frame.holding task ∈ s.stack thread := by simp [hstack]
          have hown := hs.owner_of_holding hmem
          simp [howner] at hown
  | lockQueued thread' woken howner hstack hfalse => simp [hflag] at hfalse
  | unlock thread' hstack =>
      refine hunf.setStack ?_
      rintro rfl
      rw [hstack] at hunf
      exact (hchildren hunf.of_body.1.symm).elim
  | shutdown | join | wake => exact hunf
  | dispatch w howner hstep =>
      refine hunf.setStack ?_
      rintro rfl
      have hidle := hs.idle w (by simp [locking_of_dispatch hstep, Worker.isRunning])
      rw [hidle] at hunf
      cases hunf
  | perform w hworker hstack =>
      refine hunf.setStack ?_
      rintro rfl
      rw [hstack] at hunf
      cases hunf.of_body.2

theorem flag_mono {s t : State κ n} {e : Event κ n} {o : List (Effect Task n)}
    (h : step s e = some (o, t))
    (hflag : s.executor.isShuttingDownTaskQueue = true) :
    t.executor.isShuttingDownTaskQueue = true := by
  rcases executor_of_step h with ⟨_, hsame⟩ | ⟨e', hstep⟩
  · rwa [hsame]
  · exact flag_mono_of_step hstep hflag

theorem not_canReturn {s : State κ n} (hs : WellLocked s)
    (hflag : s.executor.isShuttingDownTaskQueue = true) {thread : Thread κ n}
    {task : Task} {rest : List Frame} (hchildren : task.children ≠ [])
    (hcall : CallAt task rest (s.stack thread)) :
    ¬ CanReturn s thread rest := by
  rintro ⟨history, t, hrun, hreturned⟩
  have hinv : WellLocked t ∧ t.executor.isShuttingDownTaskQueue = true ∧
      Unfinished task rest (t.stack thread) := by
    apply hrun.invariant (I := fun u => WellLocked u ∧
      u.executor.isShuttingDownTaskQueue = true ∧
        Unfinished task rest (u.stack thread))
    · rintro u e o u' ⟨hu, huflag, hunf⟩ hstep
      exact ⟨step_wellLocked u e o u' hu hstep, flag_mono hstep huflag,
        step_unfinished hu huflag hchildren hunf hstep⟩
    · exact ⟨hs, hflag, unfinished_of_callAt hs hcall⟩
  have hlt := hinv.2.2.length_lt
  rw [hreturned] at hlt
  exact Nat.lt_irrefl _ hlt

/-! ## Calls which return -/

theorem exists_unlock {s : State κ n} {thread : Thread κ n} {task : Task}
    {rest : List Frame}
    (hstack : s.stack thread = .body [] :: .holding task :: rest)
    (hflag : s.executor.isShuttingDownTaskQueue = true) :
    ∃ o t, step s (.unlock thread) = some (o, t) ∧ t.owner = none ∧
      t.executor.isShuttingDownTaskQueue = true ∧
      t.stack = Function.update s.stack thread rest := by
  obtain ⟨o, executor, hrun⟩ := exists_run_inline task none task.thrown hflag
  refine ⟨o, { setStack s thread rest with executor := executor, owner := none },
    ?_, rfl, flag_mono_of_step hrun hflag, rfl⟩
  simp [step, unlock, hstack, hrun, onExecutor]

/-- Nobody has the mutex: the call takes it, and its task makes no calls. -/
theorem canReturn_of_unowned {s : State κ n} (howner : s.owner = none)
    {thread : Thread κ n} {task : Task} {rest : List Frame}
    (hstack : s.stack thread = .locking task :: rest)
    (hflat : s.executor.isShuttingDownTaskQueue = true → task.children = []) :
    CanReturn s thread rest := by
  cases hflag : s.executor.isShuttingDownTaskQueue with
  | true =>
      let u : State κ n := { setStack s thread
        (.body task.children :: .holding task :: rest) with
        owner := some thread }
      have hlock : step s (.lock thread none) = some ([], u) := by
        simp [step, lock, howner, hstack, hflag, u]
      have hbegun : u.stack thread = .body [] :: .holding task :: rest := by
        rw [← hflat hflag]
        exact setStack_stack s thread _
      obtain ⟨o, t, hunlock, _, _, hreturned⟩ := exists_unlock hbegun hflag
      exact ⟨_, t, (Run.single hlock).snoc hunlock, by simp [hreturned]⟩
  | false =>
      obtain ⟨woken, o, executor, hrun⟩ := exists_run_queued task none hflag
      have hlock : step s (.lock thread woken) =
          some (o, { setStack s thread rest with executor := executor }) := by
        simp [step, lock, howner, hstack, hflag, hrun, onExecutor]
      exact ⟨_, _, Run.single hlock, setStack_stack s thread rest⟩

omit [DecidableEq κ] in
theorem begun_of_owner {s : State κ n} (hs : WellLocked s) (hflat : Flat s)
    {thread : Thread κ n} (howner : s.owner = some thread) :
    ∃ task rest, s.stack thread = .body [] :: .holding task :: rest := by
  have hflag := hs.shutting (by simp [howner])
  have hin := hs.inside thread howner
  have hcalls := hflat hflag thread
  generalize s.stack thread = frames at hin hcalls
  cases hin with
  | begun task =>
      simp only [List.all_cons, Frame.flat, Bool.and_eq_true,
        List.isEmpty_iff] at hcalls
      exact ⟨task, _, by rw [hcalls.2.1]⟩
  | calling hchildren => simp [Frame.flat, hchildren] at hcalls

omit [DecidableEq κ] in
theorem not_acquiring_of_flat {s : State κ n} (hs : WellLocked s)
    (hflat : Flat s) {thread : Thread κ n} (howner : s.owner = some thread) :
    ¬ Acquiring s thread := by
  obtain ⟨task, rest, hstack⟩ := begun_of_owner hs hflat howner
  rintro (⟨task', rest', hstack'⟩ | ⟨w, hw, hworker⟩)
  · simp [hstack] at hstack'
  · exact hs.not_idle hstack w hw (by simp [hworker, Worker.isRunning])

/-- Whoever has the mutex ends its call first. -/
theorem canReturn_of_flat {s : State κ n} (hs : WellLocked s) (hflat : Flat s)
    {thread : Thread κ n} {task : Task} {rest : List Frame}
    (hcall : CallAt task rest (s.stack thread)) : CanReturn s thread rest := by
  have hleaf := fun hflag => hcall.children_eq_nil (hflat hflag thread)
  cases howner : s.owner with
  | none =>
      have hlocking := locking_of_callAt hs (by simp [howner]) hcall
      exact canReturn_of_unowned howner hlocking hleaf
  | some holder =>
      have hflag := hs.shutting (by simp [howner])
      obtain ⟨task', rest', hstack⟩ := begun_of_owner hs hflat howner
      obtain ⟨o, t, hunlock, howner', hflag', hstack'⟩ :=
        exists_unlock hstack hflag
      by_cases heq : thread = holder
      · subst heq
        have hunf := unfinished_of_callAt hs hcall
        rw [hstack] at hunf
        cases hunf.of_body.2
        exact ⟨_, t, Run.single hunlock, by simp [hstack']⟩
      · have hne : s.owner ≠ some thread := by
          rw [howner]
          exact fun h => heq (Option.some.inj h).symm
        have hlocking : t.stack thread = .locking task :: rest := by
          rw [hstack', Function.update_of_ne heq]
          exact locking_of_callAt hs hne hcall
        obtain ⟨history, u, hrun, hreturned⟩ :=
          canReturn_of_unowned howner' hlocking fun _ => hleaf hflag
        exact ⟨_, u, (Run.single hunlock).append hrun, hreturned⟩

theorem callsComplete_of_flat {s : State κ n} (hs : WellLocked s)
    (hflat : Flat s) : CallsComplete s where
  noSelfLock _ howner := not_acquiring_of_flat hs hflat howner
  returns _ _ _ hcall := canReturn_of_flat hs hflat hcall

/-- In the other states some call never returns. -/
theorem flat_of_callsComplete {s : State κ n} (hs : WellLocked s)
    (hok : CallsComplete s) : Flat s := by
  intro hflag thread
  apply all_flat_of_callAt
  intro task rest hcall
  by_contra hchildren
  exact not_canReturn hs hflag hchildren hcall
    (hok.returns thread task rest hcall)

/-! ## The steps which keep the calls flat -/

theorem all_flat_setStack {s : State κ n} {thread thread' : Thread κ n}
    {frames : List Frame}
    (hframes : (s.stack thread').all Frame.flat = true →
      frames.all Frame.flat = true)
    (h : ∀ thread, (s.stack thread).all Frame.flat = true) :
    ((setStack s thread' frames).stack thread).all Frame.flat = true := by
  by_cases heq : thread = thread'
  · rw [heq, setStack_stack]
    exact hframes (h thread')
  · rw [setStack_stack_of_ne s heq]
    exact h thread

theorem all_flat_taskFrames (worker : Worker Task) :
    (taskFrames worker).all Frame.flat = true := by
  cases worker with
  | running call => rfl
  | locking | waiting | finished => rfl

theorem flag_eq_of_step {s t : State κ n} {e : Event κ n}
    {o : List (Effect Task n)} (h : step s e = some (o, t))
    (he : e ≠ .shutdown) :
    t.executor.isShuttingDownTaskQueue =
      s.executor.isShuttingDownTaskQueue := by
  cases transition_of_step h with
  | shutdown => exact (he rfl).elim
  | submit | call | lockInline => rfl
  | lockQueued _ _ _ _ _ hstep => exact flag_of_step hstep (by simp)
  | unlock _ _ hstep => exact flag_of_step hstep (by simp)
  | join hstep => exact flag_of_step hstep (by simp)
  | dispatch _ _ hstep => exact flag_of_step hstep (by simp)
  | wake _ hstep => exact flag_of_step hstep (by simp)
  | perform _ _ _ hstep => exact flag_of_step hstep (by simp)

theorem step_flat {s t : State κ n} {e : Event κ n}
    {o : List (Effect Task n)} (hs : Flat s) (hkeeps : KeepsFlat s e)
    (h : step s e = some (o, t)) : Flat t := by
  intro hflag thread
  by_cases he : e = .shutdown
  · subst he
    cases transition_of_step h with
    | shutdown => exact hkeeps thread
  · rw [flag_eq_of_step h he] at hflag
    have hold := hs hflag
    cases transition_of_step h with
    | submit client task =>
        exact all_flat_setStack (fun _ => by simp [Frame.flat, hkeeps hflag]) hold
    | call thread' hstack =>
        refine all_flat_setStack ?_ hold
        simp [hstack, Frame.flat, hkeeps _ (by rw [hstack]; rfl) hflag]
    | lockInline thread' woken howner hstack =>
        refine all_flat_setStack ?_ hold
        simp [hstack, Frame.flat]
    | lockQueued thread' woken howner hstack hfalse => simp [hflag] at hfalse
    | unlock thread' hstack =>
        refine all_flat_setStack ?_ hold
        simp [hstack, Frame.flat]
    | shutdown => exact (he rfl).elim
    | join | wake => exact hold thread
    | dispatch w => exact all_flat_setStack (fun _ => all_flat_taskFrames _) hold
    | perform w => exact all_flat_setStack (fun _ => rfl) hold

theorem keepsFlat_of_step {s t : State κ n} {e : Event κ n}
    {o : List (Effect Task n)} (ht : Flat t) (h : step s e = some (o, t)) :
    KeepsFlat s e := by
  cases transition_of_step h with
  | submit client task =>
      intro hflag
      have hnew := ht hflag (.inr client)
      rw [setStack_stack] at hnew
      simpa [Frame.flat] using hnew
  | call thread hstack =>
      intro task' htask hflag
      rw [hstack] at htask
      cases htask
      have hnew := ht hflag thread
      rw [setStack_stack, List.all_cons, Bool.and_eq_true] at hnew
      simpa [Frame.flat] using hnew.1
  | shutdown howner hstep => exact ht (flag_of_shutdown hstep)
  | lockInline | lockQueued | unlock | join | dispatch | wake | perform =>
      trivial

theorem run_flat {s : State κ n} {history : History κ n}
    (h : Run step (init κ n) history s)
    (hkeeps : ∀ r ∈ history, KeepsFlat r.pre r.event) : Flat s := by
  induction h with
  | nil => exact fun hflag => by simp [init, TaskExecutor.init] at hflag
  | @snoc history s t e o _ hstep ih =>
      have hpast := ih fun r hr => hkeeps r (List.mem_append_left _ hr)
      exact step_flat hpast (hkeeps ⟨s, e, o, t⟩ (by simp)) hstep

/-! ## Runs -/

/-- No thread ever waits for itself, and every call can return, exactly as long
as the steps keep the calls flat. -/
theorem calls_complete_iff {s : State κ n} {history : History κ n}
    (h : Run step (init κ n) history s) :
    (∀ r ∈ history, KeepsFlat r.pre r.event) ↔
      (∀ r ∈ history, CallsComplete r.pre) ∧ CallsComplete s := by
  constructor
  · intro hkeeps
    refine ⟨?_, callsComplete_of_flat (run_wellLocked h) (run_flat h hkeeps)⟩
    intro r hr
    obtain ⟨before, after, rfl⟩ := List.append_of_mem hr
    obtain ⟨hbefore, _, _⟩ := h.split
    exact callsComplete_of_flat (run_wellLocked hbefore)
      (run_flat hbefore fun r' hr' => hkeeps r' (List.mem_append_left _ hr'))
  · rintro ⟨hpast, hlast⟩
    induction h with
    | nil => exact fun r hr => by cases hr
    | @snoc history s t e o hrun hstep ih =>
        have hbefore := ih (fun r hr => hpast r (List.mem_append_left _ hr))
          (hpast ⟨s, e, o, t⟩ (by simp))
        have hflat := flat_of_callsComplete
          (step_wellLocked s e o t (run_wellLocked hrun) hstep) hlast
        intro r hr
        rcases List.mem_append.mp hr with hr | hr
        · exact hbefore r hr
        · rw [List.mem_singleton.mp hr]
          exact keepsFlat_of_step hflat hstep

instance [Fintype κ] (s : State κ n) :
    (e : Event κ n) → Decidable (KeepsFlat s e)
  | .submit _ task => inferInstanceAs (Decidable (_ → task.children = []))
  | .call thread => inferInstanceAs
      (Decidable (∀ task ∈ nextCall? (s.stack thread), _ → task.children = []))
  | .shutdown => inferInstanceAs
      (Decidable (∀ thread, (s.stack thread).all Frame.flat = true))
  | .lock _ _ | .unlock _ | .join | .dispatch _ | .wake _ | .perform _ =>
      inferInstanceAs (Decidable True)

def Task.leaf : Task := .mk [] none

/-- A task which a worker has popped submits another one after `shutdown()`. -/
def leafRun : Option (History Unit 2 × State Unit 2) :=
  execute step (init Unit 2)
    [.submit () (.mk [.leaf] none), .lock (.inr ()) none, .dispatch worker0,
      .shutdown, .call (.inl worker0), .lock (.inl worker0) none,
      .unlock (.inl worker0), .perform worker0]

theorem calls_complete_leaf :
    (∀ r ∈ (leafRun.get (by decide)).1, CallsComplete r.pre) ∧
      CallsComplete (leafRun.get (by decide)).2 :=
  (calls_complete_iff (run_of_execute_get (by decide))).mp (by decide)

/-- The same, but the task which it submits submits one as well. -/
def nestedRun : Option (History Unit 2 × State Unit 2) :=
  execute step (init Unit 2)
    [.submit () (.mk [.mk [.leaf] none] none), .lock (.inr ()) none,
      .dispatch worker0, .shutdown, .call (.inl worker0),
      .lock (.inl worker0) none, .call (.inl worker0)]

theorem calls_complete_not_nested :
    let s := (nestedRun.get (by decide)).2
    s.owner = some (.inl worker0) ∧ Acquiring s (.inl worker0) ∧
      ¬ ∀ (history : History Unit 2) (s : State Unit 2),
        Run step (init Unit 2) history s → CallsComplete s := by
  intro s
  have hacquiring : Acquiring s (.inl worker0) := .inl ⟨_, _, rfl⟩
  refine ⟨by decide, hacquiring, ?_⟩
  intro hall
  have hok := hall _ s (run_of_execute_get (by decide))
  exact hok.noSelfLock (.inl worker0) (by decide) hacquiring

end SAOmega.TaskExecutor.Nested
