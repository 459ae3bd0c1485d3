import SAOmega.TaskExecutor.ExactlyOnce

/-!
# The order in which calls are executed

The queue is first in, first out, yet the executed calls need not come in the
order of the `run` calls: a call which is popped while an earlier one is still
running may be done first.  Every exception to the order is of this kind, or
comes from a `run` call that executes its task inline.
-/

namespace SAOmega.TaskExecutor

open SAOmega.Support

variable {τ : Type*} {n : ℕ}

abbrev Record (τ : Type*) (n : ℕ) :=
  Step (State τ n) (Event τ n) (List (Effect τ n))

/-- The step takes the call out of the queue. -/
def Pops (r : Record τ n) (c : Call τ) : Prop :=
  ∃ w, r.event = .dispatch w ∧ r.post.workers w = .running c

/-- The step is a `run` call which executes its task inline. -/
def RunsInline (r : Record τ n) (c : Call τ) : Prop :=
  r.pre.isShuttingDownTaskQueue = true ∧ c ∈ submitted r

def Starts (r : Record τ n) (c : Call τ) : Prop :=
  Pops r c ∨ RunsInline r c

/-- `c` was started while the executor still held `d`. -/
def Overtakes (history : History τ n) (c d : Call τ) : Prop :=
  ∃ r ∈ history, Starts r c ∧ d ∈ r.pre.held

theorem Overtakes.snoc {history : History τ n} {c d : Call τ}
    (h : Overtakes history c d) (r : Record τ n) :
    Overtakes (history ++ [r]) c d := by
  obtain ⟨q, hq, hstarts⟩ := h
  exact ⟨q, List.mem_append_left _ hq, hstarts⟩

/-! ## Started and held calls -/

/-- The call has been executed or is running in a worker. -/
def Started (history : History τ n) (s : State τ n) (c : Call τ) : Prop :=
  c ∈ executedCalls history ∨ ∃ w, s.workers w = .running c

theorem mem_workerHeld {worker : Worker τ} {d : Call τ} :
    d ∈ worker.held ↔ worker = .running d := by
  cases worker with
  | locking | waiting | finished => simp
  | running call => simp [eq_comm]

theorem mem_held {s : State τ n} {d : Call τ} :
    d ∈ s.held ↔ d ∈ s.queue ∨ ∃ w, s.workers w = .running d := by
  simp [State.held, Multiset.mem_sum, mem_workerHeld]

/-- Executed calls were held or are just being submitted, and so are the calls
which are held afterwards. -/
theorem mem_of_step {s t : State τ n} {e : Event τ n} {o : List (Effect τ n)}
    (h : step s e = some (o, t)) {d : Call τ}
    (hd : d ∈ t.held ∨ d ∈ executed ⟨s, e, o, t⟩) :
    d ∈ s.held ∨ d ∈ submitted ⟨s, e, o, t⟩ := by
  have hmem : d ∈ t.held + (executed ⟨s, e, o, t⟩ : Multiset (Call τ)) := by
    simpa using hd
  rw [step_balance s e o t h] at hmem
  simpa using hmem

theorem ticket_lt {s : State τ n} {history : History τ n}
    (h : Run step (init τ n) history s) {c : Call τ}
    (hc : c ∈ s.held ∨ c ∈ executedCalls history) : c.ticket < s.calls := by
  have hmem : c ∈ s.held + (executedCalls history : Multiset (Call τ)) := by
    simpa using hc
  rw [run_balance h, held_init, zero_add, Multiset.mem_coe] at hmem
  have hticket := List.mem_map_of_mem (f := Call.ticket) hmem
  rw [submittedCalls_tickets h] at hticket
  exact List.mem_range.mp hticket

theorem Started.ticket_lt {s : State τ n} {history : History τ n} {c : Call τ}
    (hc : Started history s c) (h : Run step (init τ n) history s) :
    c.ticket < s.calls := by
  rcases hc with hc | hc
  · exact TaskExecutor.ticket_lt h (.inr hc)
  · exact TaskExecutor.ticket_lt h (.inl (mem_held.mpr (.inr hc)))

/-- A call gets the next number. -/
theorem ticket_of_submitted {s t : State τ n} {e : Event τ n}
    {o : List (Effect τ n)} (h : step s e = some (o, t)) {d : Call τ}
    (hd : d ∈ submitted ⟨s, e, o, t⟩) :
    d.ticket = s.calls ∧ t.calls = s.calls + 1 := by
  have hlength := congrArg List.length (step_tickets h)
  cases e with
  | run task woken thrown =>
      refine ⟨?_, by simpa [submitted] using hlength.symm⟩
      rw [List.mem_singleton.mp hd]
  | shutdown | join | dispatch | wake | perform => cases hd

theorem running_setWorker {s : State τ n} {w w' : Fin n} {worker : Worker τ}
    {c : Call τ} (h : (setWorker s w worker).workers w' = .running c) :
    s.workers w' = .running c ∨ (w' = w ∧ worker = .running c) := by
  by_cases heq : w' = w
  · subst heq
    exact .inr ⟨rfl, by simpa [setWorker] using h⟩
  · exact .inl (by simpa [setWorker, heq] using h)

/-- Only a step that starts it makes a call running or executed. -/
theorem started_of_step {s t : State τ n} {e : Event τ n}
    {o : List (Effect τ n)} (h : step s e = some (o, t)) {c : Call τ}
    (hc : c ∈ executed ⟨s, e, o, t⟩ ∨ ∃ w, t.workers w = .running c) :
    (∃ w, s.workers w = .running c) ∨ Starts ⟨s, e, o, t⟩ c := by
  cases transition_of_step h with
  | runInline task woken thrown hflag =>
      rcases hc with hc | hc
      · refine .inr (.inr ⟨hflag, ?_⟩)
        simpa [executed, submitted, Effect.executedCall?] using hc
      · exact .inl hc
  | runQueued task woken thrown hflag hnotify =>
      obtain ⟨w, hw⟩ := hc.resolve_left (by simp [executed])
      rcases notifyOne_cases hnotify with ⟨w', _, rfl⟩ | ⟨_, rfl⟩
      · by_cases heq : w = w'
        · simp [heq] at hw
        · exact .inl ⟨w, by simpa [heq] using hw⟩
      · exact .inl ⟨w, hw⟩
  | shutdownFirst =>
      obtain ⟨w, hw⟩ := hc.resolve_left (by simp [executed])
      simp only [notifyAll] at hw
      split at hw
      · cases hw
      · exact .inl ⟨w, hw⟩
  | shutdownAgain | joinFinished =>
      exact .inl (hc.resolve_left (by simp [executed]))
  | joinThrows | joinReturns =>
      exact .inl (hc.resolve_left (by simp [executed, Effect.executedCall?]))
  | wait | exit | wake =>
      obtain ⟨w', hw'⟩ := hc.resolve_left (by simp [executed])
      exact .inl ⟨w', (running_setWorker hw').resolve_right (by simp)⟩
  | pop w hworker hqueue =>
      obtain ⟨w', hw'⟩ := hc.resolve_left (by simp [executed])
      rcases running_setWorker hw' with hold | ⟨rfl, hnew⟩
      · exact .inl ⟨w', hold⟩
      · exact .inr (.inl ⟨w', rfl, hw'⟩)
  | @perform call w thrown hworker =>
      rcases hc with hc | ⟨w', hw'⟩
      · obtain rfl : c = call := by
          simpa [executed, Effect.executedCall?] using hc
        exact .inl ⟨w, hworker⟩
      · exact .inl ⟨w', (running_setWorker hw').resolve_right (by simp)⟩

/-! ## Runs -/

/-- A started call has overtaken every earlier one that is still held. -/
theorem run_overtakes {s : State τ n} {history : History τ n}
    (h : Run step (init τ n) history s) {c d : Call τ}
    (hc : Started history s c) (hd : d ∈ s.held)
    (hlt : d.ticket < c.ticket) : Overtakes history c d := by
  induction h with
  | nil => simp at hd
  | @snoc history s t e o hrun hstep ih =>
      have hcalls := hc.ticket_lt (hrun.snoc hstep)
      rcases mem_of_step hstep (.inl hd) with hheld | hnew
      · have hstarted : Started history s c ∨ Starts ⟨s, e, o, t⟩ c := by
          rcases hc with hexecuted | hrunning
          · rw [executedCalls_append] at hexecuted
            rcases List.mem_append.mp hexecuted with hold | hlast
            · exact .inl (.inl hold)
            · have hlast : c ∈ executed ⟨s, e, o, t⟩ := by
                simpa [executedCalls] using hlast
              exact (started_of_step hstep (.inl hlast)).imp_left .inr
          · exact (started_of_step hstep (.inr hrunning)).imp_left .inr
        rcases hstarted with hold | hstarts
        · exact (ih hold hheld).snoc _
        · exact ⟨⟨s, e, o, t⟩, by simp, hstarts, hheld⟩
      · -- A call just submitted has the highest number so far.
        obtain ⟨hticket, hnext⟩ := ticket_of_submitted hstep hnew
        omega

theorem executed_subsingleton {s t : State τ n} {e : Event τ n}
    {o : List (Effect τ n)} (h : step s e = some (o, t)) :
    executed ⟨s, e, o, t⟩ = [] ∨ ∃ c, executed ⟨s, e, o, t⟩ = [c] := by
  cases transition_of_step h with
  | runInline | perform =>
      exact .inr ⟨_, by simp [executed, Effect.executedCall?]; rfl⟩
  | runQueued | shutdownFirst | shutdownAgain | joinFinished | joinThrows
  | joinReturns | wait | exit | pop | wake =>
      exact .inl (by simp [executed, Effect.executedCall?])

/-- Of two calls which are executed in the order opposite to that of their
`run` calls, the later one has overtaken the earlier one. -/
theorem executedCalls_order {s : State τ n} {history : History τ n}
    (h : Run step (init τ n) history s) :
    (executedCalls history).Pairwise fun c d =>
      d.ticket < c.ticket → Overtakes history c d := by
  induction h with
  | nil => exact .nil
  | @snoc history s t e o hrun hstep ih =>
      rw [executedCalls_append, List.pairwise_append]
      refine ⟨ih.imp fun hpast hlt => (hpast hlt).snoc _, ?_, ?_⟩
      · rw [executedCalls, List.flatMap_singleton]
        rcases executed_subsingleton hstep with hnone | ⟨c, hone⟩
        · rw [hnone]
          exact .nil
        · rw [hone]
          exact List.pairwise_singleton _ _
      · intro c hc d hd hlt
        have hd : d ∈ executed ⟨s, e, o, t⟩ := by
          simpa [executedCalls] using hd
        have hcalls := ticket_lt hrun (.inr hc)
        rcases mem_of_step hstep (.inr hd) with hheld | hnew
        · exact (run_overtakes hrun (.inl hc) hheld hlt).snoc _
        · obtain ⟨hticket, _⟩ := ticket_of_submitted hstep hnew
          omega

/-! ## The queue -/

/-- The queue is in the order of the `run` calls. -/
def QueueSorted (s : State τ n) : Prop :=
  s.queue.Pairwise fun c d => c.ticket < d.ticket

theorem run_queueSorted {s : State τ n} {history : History τ n}
    (h : Run step (init τ n) history s) : QueueSorted s := by
  induction h with
  | nil => exact .nil
  | @snoc history s t e o hrun hstep ih =>
      cases transition_of_step hstep with
      | runInline | shutdownFirst | shutdownAgain | joinFinished | joinThrows
      | joinReturns | wait | exit | wake | perform => exact ih
      | runQueued =>
          refine List.pairwise_append.mpr ⟨ih, List.pairwise_singleton _ _, ?_⟩
          intro c hc d hd
          rw [List.mem_singleton.mp hd]
          exact ticket_lt hrun (.inl (mem_held.mpr (.inl hc)))
      | pop w hworker hqueue =>
          have hsorted : QueueSorted s := ih
          rw [QueueSorted, hqueue] at hsorted
          exact hsorted.of_cons

theorem queue_of_pops {s t : State τ n} {e : Event τ n}
    {o : List (Effect τ n)} (h : step s e = some (o, t)) {c : Call τ}
    (hpops : Pops ⟨s, e, o, t⟩ c) : s.queue = c :: t.queue := by
  obtain ⟨w, hevent, hw⟩ := hpops
  obtain rfl : e = .dispatch w := hevent
  generalize he : Event.dispatch w = e at h
  cases transition_of_step h with
  | runInline | runQueued | shutdownFirst | shutdownAgain | joinFinished
  | joinThrows | joinReturns | wake | perform => cases he
  | wait | exit =>
      cases he
      simp [setWorker] at hw
  | @pop call queue w' hworker hqueue =>
      cases he
      obtain rfl : call = c := by simpa [setWorker] using hw
      exact hqueue

/-- What a popped call overtakes is running in another worker. -/
theorem running_of_pops {s : State τ n} {history : History τ n}
    (h : Run step (init τ n) history s) {r : Record τ n} (hr : r ∈ history)
    {c d : Call τ} {w : Fin n} (hevent : r.event = .dispatch w)
    (hw : r.post.workers w = .running c) (hd : d ∈ r.pre.held)
    (hlt : d.ticket < c.ticket) :
    ∃ w', w' ≠ w ∧ r.pre.workers w' = .running d := by
  obtain ⟨before, after, rfl⟩ := List.append_of_mem hr
  obtain ⟨hbefore, hstep, _⟩ := h.split
  have hqueue := queue_of_pops hstep ⟨w, hevent, hw⟩
  have hsorted := run_queueSorted hbefore
  rw [QueueSorted, hqueue] at hsorted
  have hrunning : ∃ w', r.pre.workers w' = .running d := by
    refine (mem_held.mp hd).resolve_left ?_
    rw [hqueue]
    intro hqueued
    rcases List.mem_cons.mp hqueued with rfl | hqueued
    · exact Nat.lt_irrefl _ hlt
    · exact Nat.lt_asymm hlt (List.rel_of_pairwise_cons hsorted hqueued)
  obtain ⟨w', hw'⟩ := hrunning
  refine ⟨w', ?_, hw'⟩
  rintro rfl
  rw [hevent] at hstep
  cases hw'.symm.trans (locking_of_dispatch hstep)

end SAOmega.TaskExecutor
