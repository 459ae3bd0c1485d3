import SAOmega.SafeQueue.Fifo
import SAOmega.Support.Family

/-!
# Sleepers of the queue

An element in the queue has a thread which is on its way to `m` as long as
anybody sleeps in `c.wait`.  After `shutdown` the sleepers depend on one
`notify_one` for each call of it, and the thread that is woken finds nothing to
return.
-/

namespace SAOmega.SafeQueue

open SAOmega.Support

variable {τ : Type*} {n : ℕ}

/-! ## Counting threads -/

/-- How many threads stand at the place. -/
def standing (place : Consumer) (s : State τ n) : ℕ :=
  ∑ c, if s.consumers c = place then 1 else 0

theorem standing_setConsumer (place : Consumer) (s : State τ n) (c : Fin n)
    (consumer : Consumer) :
    standing place (setConsumer s c consumer) +
        (if s.consumers c = place then 1 else 0) =
      standing place s + if consumer = place then 1 else 0 :=
  sum_update_add (fun x => if x = place then 1 else 0) s.consumers c consumer

theorem consumers_setConsumer (s : State τ n) (c d : Fin n)
    (consumer : Consumer) :
    (setConsumer s c consumer).consumers d =
      if d = c then consumer else s.consumers d := by
  simp [setConsumer, Function.update_apply]

/-- A thread at another place leaves those at this one there. -/
theorem standing_le_setConsumer {place consumer : Consumer} {s : State τ n}
    {c : Fin n} (hc : s.consumers c ≠ place) :
    standing place s ≤ standing place (setConsumer s c consumer) := by
  have hcount := standing_setConsumer place s c consumer
  rw [if_neg hc] at hcount
  omega

/-- Nobody comes to a place but the thread which moves there. -/
theorem consumers_of_setConsumer {place consumer : Consumer} {s : State τ n}
    {c d : Fin n} (hne : consumer ≠ place)
    (h : (setConsumer s c consumer).consumers d = place) :
    s.consumers d = place := by
  rw [consumers_setConsumer] at h
  split at h
  next => exact (hne h).elim
  next => exact h

/-! ## No lost wake-up -/

structure WakeUp (s : State τ n) : Prop where
  /-- Who is about to sleep has seen the queue empty, and holds `m` since. -/
  deciding : ∀ c, s.consumers c = .deciding → s.q = []
  /-- Each element has a thread of its own on the way to it. -/
  served : (∃ c, s.consumers c = .waiting) →
    s.q.length ≤ standing .locking s

theorem wakeUp_init : WakeUp (init τ n) where
  deciding _ h := by cases h
  served := by
    rintro ⟨c, hc⟩
    cases hc

/-- `notify_one` finds a sleeper if there is one, and so makes up for one more
element. -/
theorem wakeUp_of_notifyOne {s t : State τ n} {woken : Option (Fin n)}
    (hdeciding : ∀ c, s.consumers c = .deciding → s.q = [])
    (hserved : (∃ c, s.consumers c = .waiting) →
      s.q.length ≤ standing .locking s + 1)
    (h : notifyOne woken s = some t) : WakeUp t := by
  rcases notifyOne_cases h with ⟨c, hc, rfl⟩ | ⟨hnone, rfl⟩
  · constructor
    · exact fun d hd => hdeciding d (consumers_of_setConsumer (by decide) hd)
    · intro _
      have hcount := standing_setConsumer .locking s c .locking
      have hle := hserved ⟨c, hc⟩
      rw [hc, if_neg (by decide), if_pos rfl] at hcount
      change s.q.length ≤ _
      omega
  · exact ⟨hdeciding, fun ⟨c, hc⟩ => (hnone c hc).elim⟩

theorem step_wakeUp (s : State τ n) (e : Event τ n) (o : List (Effect τ n))
    (t : State τ n) (hs : WakeUp s) (h : step s e = some (o, t)) :
    WakeUp t := by
  cases transition_of_step h with
  | enqueue val hfree hnotify =>
      refine wakeUp_of_notifyOne ?_ ?_ hnotify
      · exact fun c hc => (hfree c hc).elim
      · intro hwaiting
        have hle := hs.served hwaiting
        simpa [standing] using hle
  | notify hk hnotify =>
      refine wakeUp_of_notifyOne ?_ ?_ hnotify
      · exact hs.deciding
      · exact fun hwaiting => Nat.le_succ_of_le (hs.served hwaiting)
  | shutdown => exact ⟨hs.deciding, hs.served⟩
  | @call c hc =>
      constructor
      · exact fun d hd =>
          hs.deciding d (consumers_of_setConsumer (by decide) hd)
      · rintro ⟨d, hd⟩
        have hwaiting : s.consumers d = .waiting :=
          consumers_of_setConsumer (by decide) hd
        exact (hs.served ⟨d, hwaiting⟩).trans
          (standing_le_setConsumer (by simp [hc]))
  | @wake c hc =>
      constructor
      · exact fun d hd =>
          hs.deciding d (consumers_of_setConsumer (by decide) hd)
      · intro _
        exact (hs.served ⟨c, hc⟩).trans
          (standing_le_setConsumer (by simp [hc]))
  | empty hc hfree hshutdown hq =>
      exact ⟨fun _ _ => hq, fun _ => by simp [setConsumer, hq]⟩
  | @wait c hc =>
      have hq : s.q = [] := hs.deciding c hc
      exact ⟨fun _ _ => hq, fun _ => by simp [setConsumer, hq]⟩
  | front hc hfree hshutdown hq =>
      exact ⟨fun _ _ => hq, fun _ => by simp [setConsumer, hq]⟩
  | @take c val q hc hfree hq =>
      have hcount := standing_setConsumer .locking s c .outside
      rw [if_pos hc, if_neg (by decide)] at hcount
      constructor
      · intro d hd
        have hmoved : (setConsumer s c .outside).consumers d = .deciding := hd
        exact (hfree d (consumers_of_setConsumer (by decide) hmoved)).elim
      · rintro ⟨d, hd⟩
        have hmoved : (setConsumer s c .outside).consumers d = .waiting := hd
        have hwaiting : s.consumers d = .waiting :=
          consumers_of_setConsumer (by decide) hmoved
        have hle := hs.served ⟨d, hwaiting⟩
        rw [hq, List.length_cons] at hle
        change q.length ≤ standing .locking (setConsumer s c .outside)
        omega

/-- As long as a thread sleeps in `dequeue`, no element is left without a thread
that is awake and about to take `m`; and who is about to fall asleep sees the
queue as it is. -/
theorem sleepers_served {s : State τ n} {history : History τ n}
    (h : Run step (init τ n) history s) :
    ((∃ c, s.consumers c = .waiting) →
        s.q.length ≤ standing .locking s) ∧
      ∀ c, s.consumers c = .deciding → s.q = [] :=
  have hs := h.invariant step_wakeUp wakeUp_init
  ⟨hs.served, hs.deciding⟩

/-- Two elements come before either of the two sleepers has `m` again. -/
def burstRun : Option (History ℕ 3 × State ℕ 3) :=
  execute step (init ℕ 3)
    [.dequeue 0, .test 0, .wait 0, .dequeue 1, .test 1, .wait 1, .dequeue 2,
      .test 2, .wait 2, .enqueue 7 (some 1), .enqueue 8 (some 0)]

theorem sleepers_served_burst :
    let s := (burstRun.get (by decide)).2
    s.q = [7, 8] ∧ s.q.length ≤ standing .locking s :=
  ⟨by decide,
    (sleepers_served (run_of_execute_get (by decide))).1 ⟨2, by decide⟩⟩

/-! ## Shutdown -/

/-- Whether the call, or the accident, wakes a sleeper: at most one each. -/
def Event.releases : Event τ n → Bool
  | .enqueue _ _ | .wake _ | .shutdown => true
  | _ => false

theorem standing_waiting_of_notifyOne {s t : State τ n}
    {woken : Option (Fin n)} (h : notifyOne woken s = some t) :
    standing .waiting s ≤ standing .waiting t + 1 ∧
      t.notifying = s.notifying := by
  rcases notifyOne_cases h with ⟨c, hc, rfl⟩ | ⟨_, rfl⟩
  · have hcount := standing_setConsumer .waiting s c .locking
    rw [if_pos hc, if_neg (by decide)] at hcount
    exact ⟨by omega, rfl⟩
  · exact ⟨Nat.le_succ _, rfl⟩

theorem step_sleepers {s t : State τ n} {e : Event τ n}
    {o : List (Effect τ n)} (h : step s e = some (o, t)) :
    standing .waiting s + t.notifying ≤
      standing .waiting t + s.notifying + if e.releases then 1 else 0 := by
  cases transition_of_step h with
  | enqueue val hfree hnotify =>
      have hwoken := standing_waiting_of_notifyOne hnotify
      obtain ⟨hle, heq⟩ : standing .waiting s ≤ standing .waiting t + 1 ∧
          t.notifying = s.notifying := hwoken
      rw [Event.releases, if_pos rfl]
      omega
  | @notify k woken u hk hnotify =>
      have hwoken := standing_waiting_of_notifyOne hnotify
      obtain ⟨hle, heq⟩ : standing .waiting s ≤ standing .waiting t + 1 ∧
          t.notifying = k := hwoken
      omega
  | shutdown =>
      change _ + (s.notifying + 1) ≤ standing .waiting s + _ + 1
      omega
  | @wake c hc =>
      have hcount := standing_setConsumer .waiting s c .locking
      rw [if_pos hc, if_neg (by decide)] at hcount
      change _ + s.notifying ≤ _ + _ + 1
      omega
  | @call c hc | @empty c hc | @front c hc | @wait c hc =>
      refine Nat.le_add_right_of_le (Nat.add_le_add_right ?_ _)
      exact standing_le_setConsumer (by simp [hc])
  | @take c val q hc hfree hq =>
      refine Nat.le_add_right_of_le (Nat.add_le_add_right ?_ _)
      exact standing_le_setConsumer (by simp [hc])

theorem run_sleepers {s t : State τ n} {history : History τ n}
    (h : Run step s history t) :
    standing .waiting s + t.notifying ≤
      standing .waiting t + s.notifying +
        history.countP fun r => r.event.releases := by
  induction h with
  | nil => simp
  | snoc _ hstep ih =>
      have hlast := step_sleepers hstep
      simp only [List.countP_append, List.countP_singleton]
      omega

/-- After `shutdown`, with nothing queued. -/
structure Drained (s : State τ n) : Prop where
  shutdown : s.shutdown = true
  q : s.q = []

theorem step_drained {s t : State τ n} {e : Event τ n} {o : List (Effect τ n)}
    (hs : Drained s) (hadded : enqueued ⟨s, e, o, t⟩ = [])
    (h : step s e = some (o, t)) : Drained t where
  shutdown := by
    rcases shutdown_of_step h with ⟨_, hset⟩ | hkeep
    · exact hset
    · exact hkeep.trans hs.shutdown
  q := by
    cases transition_of_step h with
    | enqueue => cases hadded
    | take _ _ hq => cases hs.q.symm.trans hq
    | notify _ hnotify => exact (q_of_notifyOne hnotify).trans hs.q
    | call | empty | front | wait | wake | shutdown => exact hs.q

theorem run_drained {s t : State τ n} {history : History τ n}
    (h : Run step s history t) (hs : Drained s)
    (hadded : history.flatMap enqueued = []) : Drained t := by
  induction h with
  | nil => exact hs
  | snoc _ hstep ih =>
      rw [List.flatMap_append, List.flatMap_singleton, List.append_eq_nil_iff]
        at hadded
      exact step_drained (ih hadded.1) hadded.2 hstep

/-- Whoever gets `m` finds the loop over and the queue empty. -/
theorem frontOfEmpty_of_drained {s t : State τ n} {c : Fin n}
    {o : List (Effect τ n)} (hs : Drained s)
    (h : step s (.test c) = some (o, t)) : o = [.frontOfEmpty c] := by
  cases transition_of_step h with
  | empty _ _ hshutdown => cases hs.shutdown.symm.trans hshutdown
  | take _ _ hq => cases hs.q.symm.trans hq
  | front => rfl

/-- After `shutdown`, with nothing queued and nothing added, no `dequeue` has a
defined end: the first thread that gets `m` calls `q.front()` on the empty queue,
and the run is over.  Until then all sleepers stay asleep but one for each
`shutdown` and each spurious wake-up. -/
theorem shutdown_strands {s t : State τ n} {history : History τ n}
    (h : Run step s history t) (hshutdown : s.shutdown = true)
    (hq : s.q = [])
    (hadded : history.flatMap enqueued = []) :
    (∀ before r after c, history = before ++ r :: after →
        r.event = .test c → r.out = [.frontOfEmpty c] ∧ after = []) ∧
      standing .waiting s ≤ standing .waiting t + s.notifying +
        history.countP fun r => r.event.releases := by
  constructor
  · rintro before ⟨u, e, o, v⟩ after c rfl rfl
    obtain ⟨hbefore, hstep, hafter⟩ := h.split
    rw [List.flatMap_append, List.append_eq_nil_iff] at hadded
    have hdrained : Drained u :=
      run_drained hbefore ⟨hshutdown, hq⟩ hadded.1
    have hfront : o = [.frontOfEmpty c] :=
      frontOfEmpty_of_drained hdrained hstep
    refine ⟨hfront, nil_of_frontOfEmpty (c := c) hstep ?_ hafter⟩
    rw [hfront]
    exact List.mem_singleton_self _
  · have hsleepers := run_sleepers h
    omega

/-- `shutdown` is called on two sleepers. -/
def strandedRun : Option (History ℕ 2 × State ℕ 2) :=
  execute step (init ℕ 2)
    [.dequeue consumer0, .test consumer0, .wait consumer0, .dequeue consumer1,
      .test consumer1, .wait consumer1, .shutdown]

def strandedLater : Option (History ℕ 2 × State ℕ 2) :=
  execute step (strandedRun.get (by decide)).2
    [.notify (some consumer1), .test consumer1]

theorem shutdown_strands_sleeper :
    let s := (strandedRun.get (by decide)).2
    let later := (strandedLater.get (by decide)).1
    let t := (strandedLater.get (by decide)).2
    (standing .waiting s = 2 ∧ standing .waiting t = 1) ∧
      (∀ before r after c, later = before ++ r :: after →
        r.event = .test c → r.out = [.frontOfEmpty c] ∧ after = []) ∧
      standing .waiting s ≤ standing .waiting t + s.notifying +
        later.countP fun r => r.event.releases :=
  ⟨by decide,
    shutdown_strands (run_of_execute_get (by decide)) (by decide) (by decide)
      (by decide)⟩

end SAOmega.SafeQueue
