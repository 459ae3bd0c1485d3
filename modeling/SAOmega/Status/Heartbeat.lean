import SAOmega.Status.Progress

/-!
# The heartbeat of the server

`onTick` writes the time into `tick.txt` for whoever watches the server.  The
clock may jump in either direction; the differences are those of `uint64_t`.
-/

namespace SAOmega.Status

open SAOmega.Support
open SAOmega.TaskExecutor (worker0 worker1)

/-- The time which a step gives to `writeFile("tick.txt", ..)`, if it does. -/
def heartbeat? (r : Record) : Option UInt64 :=
  match r.event with
  | .onTick now _ => if now - r.pre.lastTickStatus > 15 then some now else none
  | _ => none

def heartbeats (history : History) : List UInt64 :=
  history.filterMap heartbeat?

/-! ## The last heartbeat -/

/-- `lastTickStatus` is the last heartbeat. -/
theorem lastTickStatus_of_step {s t : State} {e : Event} {o : List Effect}
    (h : step s e = some (o, t)) :
    t.lastTickStatus = (heartbeat? ⟨s, e, o, t⟩).getD s.lastTickStatus := by
  have hdecisive := congrArg Decisive.lastTickStatus (decisive_of_step h)
  change t.lastTickStatus = _ at hdecisive
  rw [hdecisive]
  cases e with
  | onTick now woken =>
      by_cases hrate : now - s.lastTickStatus > 15
      · have hassign : Event.assign (.onTick now woken) s.decisive =
            { s.decisive with lastTickStatus := now } := if_pos hrate
        have hbeat : heartbeat? ⟨s, .onTick now woken, o, t⟩ = some now :=
          if_pos hrate
        rw [hassign, hbeat]
        rfl
      · have hassign : Event.assign (.onTick now woken) s.decisive =
            s.decisive := if_neg hrate
        have hbeat : heartbeat? ⟨s, .onTick now woken, o, t⟩ = none :=
          if_neg hrate
        rw [hassign, hbeat]
        rfl
  | writeFile | onReady | setShuttingDown | exit | join | finish | dispatch
  | wake | perform => rfl

theorem heartbeat?_eq_some {r : Record} {now : UInt64}
    (h : heartbeat? r = some now) :
    15 < now - r.pre.lastTickStatus ∧ ∃ woken, r.event = .onTick now woken ∧
      executorEvent r.pre r.event =
        some (.run ⟨"tick.txt", toString now⟩ woken none) := by
  unfold heartbeat? at h
  split at h
  next now' woken hevent =>
    split at h
    next hrate =>
      cases h
      refine ⟨hrate, woken, hevent, ?_⟩
      rw [hevent, executorEvent, if_pos hrate]
    next => cases h
  next => cases h

/-- A heartbeat is a tick in which the executor is given the write. -/
theorem heartbeat?_eq_some_iff {s t : State} {e : Event} {o : List Effect}
    {now : UInt64} (h : step s e = some (o, t)) :
    heartbeat? ⟨s, e, o, t⟩ = some now ↔
      ∃ woken, e = .onTick now woken ∧
        TaskExecutor.step s.executor
            (.run ⟨"tick.txt", toString now⟩ woken none) =
          some (executorOut o, t.executor) := by
  have hrun := (executor_of_step h).1
  constructor
  · intro hbeat
    obtain ⟨_, woken, hevent, hcall⟩ := heartbeat?_eq_some hbeat
    rw [executorRecord_of_call hcall] at hrun
    exact ⟨woken, hevent, hrun.step_of_mem (List.mem_singleton_self _)⟩
  · rintro ⟨woken, rfl, hstep⟩
    refine if_pos ?_
    by_contra hrate
    -- Otherwise the tick leaves the executor alone, and `run` counts its calls.
    have hevent : executorEvent s (.onTick now woken) = none := if_neg hrate
    have hsame : t.executor = s.executor := by
      simp only [executorRecord, hevent] at hrun
      exact hrun.eq_of_nil
    have hcalls := (TaskExecutor.ticket_of_submitted hstep
      (List.mem_singleton_self _)).2
    rw [hsame] at hcalls
    exact Nat.succ_ne_self _ hcalls.symm

theorem run_heartbeats {files : Files} {history : History} {s : State}
    (h : Run step (init files) history s) :
    s.lastTickStatus = (heartbeats history).getLast?.getD 0 ∧
      (0 :: heartbeats history).IsChain fun p q => 15 < q - p := by
  induction h with
  | nil => exact ⟨rfl, .singleton 0⟩
  | @snoc history s t e o _ hstep ih =>
      obtain ⟨hlast, hchain⟩ := ih
      rw [lastTickStatus_of_step hstep, heartbeats, List.filterMap_append,
        List.filterMap_cons, List.filterMap_nil]
      cases hbeat : heartbeat? ⟨s, e, o, t⟩ with
      | none =>
          rw [List.append_nil]
          exact ⟨hlast, hchain⟩
      | some now =>
          refine ⟨by simp, ?_⟩
          have hrate := (heartbeat?_eq_some hbeat).1
          rw [hlast] at hrate
          rw [← List.cons_append, List.isChain_append]
          refine ⟨hchain, .singleton now, ?_⟩
          intro p hp q hq
          rw [List.getLast?_cons, Option.mem_some_iff] at hp
          rw [List.head?_cons, Option.mem_some_iff] at hq
          rw [← hp, ← hq]
          exact hrate

theorem fresh_of_tick {s t : State} {now : UInt64} {woken : Option (Fin 2)}
    {o : List Effect} (h : step s (.onTick now woken) = some (o, t)) :
    now - t.lastTickStatus ≤ 15 := by
  rw [lastTickStatus_of_step h]
  by_cases hrate : now - s.lastTickStatus > 15
  · have hbeat : heartbeat? ⟨s, .onTick now woken, o, t⟩ = some now :=
      if_pos hrate
    rw [hbeat, Option.getD_some, UInt64.sub_self]
    decide
  · have hbeat : heartbeat? ⟨s, .onTick now woken, o, t⟩ = none :=
      if_neg hrate
    rw [hbeat]
    exact UInt64.not_lt.mp hrate

/-- Two heartbeats in a row are more than 15 seconds apart, and after every tick
the last one is 15 seconds old at most; neither needs a clock which only goes
forward.  The heartbeats are the ticks which call `writeFile`. -/
theorem heartbeats_spaced {files : Files} {history : History} {s : State}
    (h : Run step (init files) history s) :
    ((0 :: heartbeats history).IsChain fun p q => 15 < q - p) ∧
      (∀ before r after, history = before ++ r :: after →
        ∀ now woken, r.event = .onTick now woken →
          now - (heartbeats (before ++ [r])).getLast?.getD 0 ≤ 15) ∧
      ∀ r ∈ history, ∀ now, heartbeat? r = some now ↔
        ∃ woken, r.event = .onTick now woken ∧
          TaskExecutor.step r.pre.executor
              (.run ⟨"tick.txt", toString now⟩ woken none) =
            some (executorOut r.out, r.post.executor) := by
  refine ⟨(run_heartbeats h).2, ?_,
    fun r hr now => heartbeat?_eq_some_iff (h.step_of_mem hr)⟩
  rintro before ⟨m, e, o, t⟩ after rfl now woken rfl
  rw [← (run_heartbeats h.upTo).1]
  exact fresh_of_tick h.split.2.1

/-- The clock is set back by an hour between two ticks. -/
def clockRun : Option (History × State) :=
  execute step (init fun _ => none)
    [.onTick 1700000000 none, .onTick 1700000015 none,
      .onTick 1700000016 none, .onTick 1699996416 none]

theorem heartbeats_spaced_clock :
    let history := (clockRun.get (by decide)).1
    heartbeats history = [1700000000, 1700000016, 1699996416] ∧
      ((0 :: heartbeats history).IsChain fun p q => 15 < q - p) ∧
        (∀ before r after, history = before ++ r :: after →
          ∀ now woken, r.event = .onTick now woken →
            now - (heartbeats (before ++ [r])).getLast?.getD 0 ≤ 15) ∧
        ∀ r ∈ history, ∀ now, heartbeat? r = some now ↔
          ∃ woken, r.event = .onTick now woken ∧
            TaskExecutor.step r.pre.executor
                (.run ⟨"tick.txt", toString now⟩ woken none) =
              some (executorOut r.out, r.post.executor) :=
  ⟨by decide, heartbeats_spaced (run_of_execute_get (by decide))⟩

/-! ## The file -/

/-- The heartbeat which counts for a tick gets into the file. -/
theorem heartbeat_written {x : Execution step} {files : Files}
    (hstart : x.state 0 = init files)
    (hfair : ∀ thread, x.Fair (OfThread thread)) {i : ℕ} {now : UInt64}
    {woken : Option (Fin 2)} (htick : x.event i = .onTick now woken)
    (hnow : 15 < now) :
    ∃ t j, now - t ≤ 15 ∧
      (x.state (j + 1)).files "tick.txt" = some (toString t ++ "\n") ∧
        ∃ k ≤ i, k ≤ j ∧ heartbeat? (x.record k) = some t := by
  have hnext := x.next i
  rw [htick] at hnext
  have hfresh := fresh_of_tick hnext
  have hlast := (run_heartbeats (run_of_execution hstart (i + 1))).1
  rw [hlast] at hfresh
  cases hbeats : (heartbeats (x.history (i + 1))).getLast? with
  | none =>
      rw [hbeats, Option.getD_none, UInt64.sub_zero] at hfresh
      exact (UInt64.not_lt.mpr hfresh hnow).elim
  | some t =>
      rw [hbeats, Option.getD_some] at hfresh
      obtain ⟨r, hr, hbeat⟩ := List.mem_filterMap.mp
        (List.mem_of_getLast? hbeats)
      obtain ⟨k, hk, rfl⟩ := x.mem_history.mp hr
      obtain ⟨_, woken', _, hcall⟩ := heartbeat?_eq_some hbeat
      obtain ⟨j, hj, _, hfile, _⟩ := write_performed hstart hfair hcall
      exact ⟨t, j, hfresh, hfile, k, Nat.le_of_lt_succ hk, hj, hbeat⟩

theorem heartbeat_written_closing :
    ∃ t j, 1700000000 - t ≤ 15 ∧
      (closing.state (j + 1)).files "tick.txt" = some (toString t ++ "\n") ∧
        ∃ k ≤ 0, k ≤ j ∧ heartbeat? (closing.record k) = some t :=
  have htick : closing.event 0 = .onTick 1700000000 none := rfl
  heartbeat_written lasso_state_zero closing_fair htick (by decide)

end SAOmega.Status
