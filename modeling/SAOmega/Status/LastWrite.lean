import SAOmega.Status.Exit
import SAOmega.TaskExecutor.Overtaking

/-!
# Which write of a file comes last

Nothing orders the tasks that the two workers have taken out of the queue.  When
everything is done a file holds what the last `writeFile` call for it gave, or
what an earlier one gave whose task was still running when the last one's task
left the queue.
-/

namespace SAOmega.Status

open SAOmega.Support
open SAOmega.TaskExecutor (worker0 worker1)

/-- A `run` call of `taskExecutor`. -/
abbrev Call := TaskExecutor.Call FileWrite

/-- The `writeFile` calls of a run, in their order. -/
def writeCalls (history : History) : List Call :=
  TaskExecutor.submittedCalls (executorHistory history)

/-- The task of `d` was running in one worker when the other one took the task
of `c` out of the queue. -/
def Overlapped (history : History) (d c : Call) : Prop :=
  ∃ r ∈ history, ∃ w w', w' ≠ w ∧ r.event = .dispatch w ∧
    r.post.executor.workers w = .running c ∧
    r.pre.executor.workers w' = .running d

/-- The queue is empty and no task is running. -/
structure Idle (s : State) : Prop where
  queue : s.executor.queue = []
  running : ∀ w, (s.executor.workers w).isRunning = false

theorem Idle.held {s : State} (hs : Idle s) : s.executor.held = 0 := by
  apply Multiset.eq_zero_of_forall_notMem
  intro call hcall
  rcases TaskExecutor.mem_held.mp hcall with hqueued | ⟨w, hw⟩
  · rw [hs.queue] at hqueued
    cases hqueued
  · have hrunning := hs.running w
    rw [hw] at hrunning
    cases hrunning

/-- What `writeFile` has been given is what has been executed. -/
theorem executedCalls_perm {files : Files} {history : History} {s : State}
    (h : Run step (init files) history s) (hs : Idle s) :
    (TaskExecutor.executedCalls (executorHistory history)).Perm
      (writeCalls history) := by
  have hbalance := TaskExecutor.run_balance (run_executor h)
  rw [hs.held, TaskExecutor.held_init, zero_add, zero_add] at hbalance
  exact Multiset.coe_eq_coe.mp hbalance

theorem writeCalls_sorted {files : Files} {history : History} {s : State}
    (h : Run step (init files) history s) :
    (writeCalls history).Pairwise fun c d => c.ticket < d.ticket := by
  have htickets := TaskExecutor.submittedCalls_tickets (run_executor h)
  rw [← List.pairwise_map, writeCalls, htickets]
  exact List.pairwise_lt_range

/-- A task that is executed inline finds the executor empty. -/
theorem held_of_inline {s t : State} {e : Event} {o : List Effect}
    (hs : PhaseInv s) (h : step s e = some (o, t))
    {e' : TaskExecutor.Event FileWrite 2}
    (hevent : executorEvent s e = some e') {c : Call}
    (hinline : TaskExecutor.RunsInline
      ⟨s.executor, e', executorOut o, t.executor⟩ c) :
    s.executor.held = 0 := by
  obtain ⟨hflag, hc⟩ := hinline
  cases transition_of_step h with
  | quiet hnone => cases hnone.symm.trans hevent
  | call write woken _ hfree =>
      rcases hfree with hserving | ⟨horiginal, _⟩
      · cases (hs.serving hserving).symm.trans hflag
      · exact (hs.ended (.inr horiginal)).held
  | exit | join =>
      cases hevent
      cases hc
  | finish _ hreturned => exact (hs.ended (.inl hreturned)).held
  | worker _ hworker =>
      rw [(ne_shutdown_of_worker hworker hevent).2] at hc
      cases hc

theorem dispatch_of_executorEvent {s : State} {e : Event} {w : Fin 2}
    (h : executorEvent s e = some (.dispatch w)) : e = .dispatch w := by
  cases e with
  | dispatch w' =>
      cases h
      rfl
  | onTick now woken => simp [executorEvent] at h
  | writeFile | onReady | setShuttingDown | exit | join | finish | wake
  | perform => cases h

theorem overlapped_of_overtakes {files : Files} {history : History} {s : State}
    (h : Run step (init files) history s) {c d : Call}
    (hovertakes : TaskExecutor.Overtakes (executorHistory history) c d)
    (hlt : d.ticket < c.ticket) : Overlapped history d c := by
  obtain ⟨x, hx, hstarts, hheld⟩ := hovertakes
  have hrun := run_executor h
  obtain ⟨r, hr, hrecord⟩ := List.mem_flatMap.mp hx
  obtain ⟨before, after, rfl⟩ := List.append_of_mem hr
  obtain ⟨hbefore, hstep, _⟩ := h.split
  unfold executorRecord at hrecord
  split at hrecord
  next e' hevent =>
    obtain rfl := List.mem_singleton.mp hrecord
    rcases hstarts with ⟨w, hdispatch, hw⟩ | hinline
    · obtain ⟨w', hne, hw'⟩ :=
        TaskExecutor.running_of_pops hrun hx hdispatch hw hheld hlt
      obtain rfl : e' = .dispatch w := hdispatch
      exact ⟨r, hr, w, w', hne, dispatch_of_executorEvent hevent, hw, hw'⟩
    · rw [held_of_inline (run_phaseInv hbefore) hstep hevent hinline] at hheld
      exact (Multiset.notMem_zero _ hheld).elim
  next => cases hrecord

/-- Once the queue is empty and no task is running, a file holds the data of
the last `writeFile` call for it, or of an earlier one whose task was still
running in the other worker when the task of the last one was popped. -/
theorem last_write_or_overlapped {files : Files} {history : History} {s : State}
    (h : Run step (init files) history s) (hs : Idle s) (file : String) :
    (∀ c, LastFor (fun call => call.task.file) file (writeCalls history) c →
        s.files file = c.task.content ∨
          ∃ d ∈ writeCalls history, d.task.file = file ∧
            d.ticket < c.ticket ∧ Overlapped history d c ∧
            s.files file = d.task.content) ∧
      ((∀ c ∈ writeCalls history, c.task.file ≠ file) →
        s.files file = files file) := by
  have hperm := executedCalls_perm h hs
  rw [run_files h]
  constructor
  · intro c hlast
    obtain ⟨hc, hfile⟩ := hlast.mem
    have hwritten : ∃ x ∈ TaskExecutor.executedCalls (executorHistory history),
        x.task.file = file := ⟨c, hperm.mem_iff.mpr hc, hfile⟩
    obtain ⟨d, hd⟩ := exists_lastFor hwritten
    rw [overwrite_of_lastFor hd]
    by_cases heq : d = c
    · exact .inl (by rw [heq])
    · obtain ⟨hexecuted, hfile'⟩ := hd.mem
      have hmem := hperm.mem_iff.mp hexecuted
      have hlt : d.ticket < c.ticket :=
        hlast.pairwise (writeCalls_sorted h) hmem hfile' heq
      have hovertakes := hd.pairwise
        (TaskExecutor.executedCalls_order (run_executor h))
        (hperm.mem_iff.mpr hc) hfile (Ne.symm heq) hlt
      exact .inr ⟨d, hmem, hfile', hlt, overlapped_of_overtakes h hovertakes hlt,
        rfl⟩
  · intro hnone
    exact overwrite_of_forall_ne fun x hx => hnone x (hperm.mem_iff.mp hx)

/-- "load" and "ready" are taken by one worker each; `swapped` tells which of
the two is done first. -/
def twoStatuses (swapped : Bool) : Option (History × State) :=
  execute step (init fun _ => none)
    ([.writeFile "status.txt" "load" none, .onReady none, .dispatch worker0,
      .dispatch worker1] ++
      if swapped then [.perform worker1, .perform worker0]
      else [.perform worker0, .perform worker1])

theorem last_write_or_overlapped_ready :
    let history := ((twoStatuses false).get (by decide)).1
    let s := ((twoStatuses false).get (by decide)).2
    s.files "status.txt" = some "ready\n" ∧
      ∀ c, LastFor (fun call => call.task.file) "status.txt"
          (writeCalls history) c →
        s.files "status.txt" = c.task.content ∨
          ∃ d ∈ writeCalls history, d.task.file = "status.txt" ∧
            d.ticket < c.ticket ∧ Overlapped history d c ∧
            s.files "status.txt" = d.task.content :=
  ⟨by decide, (last_write_or_overlapped (run_of_execute_get (by decide))
    ⟨by decide, by decide⟩ "status.txt").1⟩

/-- "ready" is done first, and the file stays at "load". -/
theorem last_write_not_load :
    ¬ ∀ (files : Files) (history : History) (s : State),
      Run step (init files) history s → Idle s → ∀ file c,
        LastFor (fun call => call.task.file) file (writeCalls history) c →
          s.files file = c.task.content := by
  intro hall
  have hrun : Run step (init fun _ => none)
      ((twoStatuses true).get (by decide)).1
      ((twoStatuses true).get (by decide)).2 :=
    run_of_execute_get (by decide)
  have hlast : LastFor (fun call : Call => call.task.file) "status.txt"
      (writeCalls ((twoStatuses true).get (by decide)).1)
      ⟨1, ⟨"status.txt", "ready"⟩⟩ :=
    ⟨[⟨0, ⟨"status.txt", "load"⟩⟩], ⟨1, ⟨"status.txt", "ready"⟩⟩, [],
      by decide, by decide, by decide⟩
  have hready := hall _ _ _ hrun ⟨by decide, by decide⟩ _ _ hlast
  exact absurd hready (by decide)

end SAOmega.Status
