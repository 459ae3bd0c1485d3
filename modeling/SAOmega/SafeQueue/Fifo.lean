import SAOmega.SafeQueue.Model
import SAOmega.Support.Channel

/-!
# What goes through the queue

Whatever the threads do and whenever `shutdown` is called, the elements leave the
queue as they came.
-/

namespace SAOmega.SafeQueue

open SAOmega.Support

variable {τ : Type*} {n : ℕ}

/-- The element a step puts into the queue. -/
def enqueued (r : Record τ n) : List τ :=
  match r.event with
  | .enqueue t _ => [t]
  | _ => []

def Effect.val? : Effect τ n → Option τ
  | .dequeued _ val => some val
  | .frontOfEmpty _ => none

/-- The element with which `dequeue` returns in a step. -/
def dequeued (r : Record τ n) : List τ :=
  r.out.filterMap Effect.val?

/-- The step as one of a channel, if it is one. -/
def channelStep (r : Record τ n) :
    List (Step (List τ) (Channel.Event τ) (List τ)) :=
  match r.event, r.out with
  | .enqueue t _, _ => [⟨r.pre.q, .send t, [], r.post.q⟩]
  | .test _, [.dequeued _ val] => [⟨r.pre.q, .receive, [val], r.post.q⟩]
  | _, _ => []

theorem q_of_notifyOne {s t : State τ n} {woken : Option (Fin n)}
    (h : notifyOne woken s = some t) : t.q = s.q := by
  rcases notifyOne_cases h with ⟨c, _, rfl⟩ | ⟨_, rfl⟩
  · rfl
  · rfl

theorem step_channel (s : State τ n) (e : Event τ n) (o : List (Effect τ n))
    (t : State τ n) (h : step s e = some (o, t)) :
    Run Channel.step s.q (channelStep ⟨s, e, o, t⟩) t.q := by
  cases transition_of_step h with
  | enqueue val hfree hnotify =>
      refine Run.single ?_
      rw [q_of_notifyOne hnotify]
      rfl
  | take hc hfree hq =>
      refine Run.single ?_
      rw [hq]
      rfl
  | call | empty | front | wait | wake | shutdown => exact .nil
  | notify hk hnotify =>
      rw [q_of_notifyOne hnotify]
      exact .nil

/-- The queue is a channel. -/
def channel : Simulation (step (τ := τ) (n := n)) (Channel.step (α := τ)) where
  inv _ := True
  abs := State.q
  image := channelStep
  preserves _ _ _ _ _ _ := trivial
  matches_step s e o t _ h := step_channel s e o t h

theorem channelStep_sent (s : State τ n) (e : Event τ n)
    (o : List (Effect τ n)) (t : State τ n) (h : step s e = some (o, t)) :
    (channelStep ⟨s, e, o, t⟩).flatMap (fun q => q.event.sent) =
      enqueued ⟨s, e, o, t⟩ := by
  cases transition_of_step h with
  | enqueue | call | empty | take | front | wait | wake | shutdown | notify =>
      rfl

theorem channelStep_received (s : State τ n) (e : Event τ n)
    (o : List (Effect τ n)) (t : State τ n) (h : step s e = some (o, t)) :
    (channelStep ⟨s, e, o, t⟩).flatMap Step.out = dequeued ⟨s, e, o, t⟩ := by
  cases transition_of_step h with
  | enqueue | call | empty | take | front | wait | wake | shutdown | notify =>
      rfl

/-- `shutdown` has been called, up to its `notify_one` at least. -/
def ShutdownCalled (history : History τ n) : Prop :=
  ∃ r ∈ history, r.event = .shutdown

theorem shutdown_of_notifyOne {s t : State τ n} {woken : Option (Fin n)}
    (h : notifyOne woken s = some t) : t.shutdown = s.shutdown := by
  rcases notifyOne_cases h with ⟨c, _, rfl⟩ | ⟨_, rfl⟩
  · rfl
  · rfl

/-- Only `shutdown` sets the flag, and nothing clears it. -/
theorem shutdown_of_step {s t : State τ n} {e : Event τ n}
    {o : List (Effect τ n)} (h : step s e = some (o, t)) :
    (e = .shutdown ∧ t.shutdown = true) ∨ t.shutdown = s.shutdown := by
  cases transition_of_step h with
  | shutdown => exact .inl ⟨rfl, rfl⟩
  | enqueue val hfree hnotify =>
      have hkeep := shutdown_of_notifyOne hnotify
      exact .inr hkeep
  | notify hk hnotify =>
      have hkeep := shutdown_of_notifyOne hnotify
      exact .inr hkeep
  | call | empty | take | front | wait | wake => exact .inr rfl

theorem shutdownCalled_of_run {history : History τ n} {s : State τ n}
    (h : Run step (init τ n) history s) (hshutdown : s.shutdown = true) :
    ShutdownCalled history := by
  induction h with
  | nil => cases hshutdown
  | @snoc history t u e o _ hstep ih =>
      rcases shutdown_of_step hstep with ⟨rfl, _⟩ | hkeep
      · exact ⟨⟨t, .shutdown, o, u⟩, by simp, rfl⟩
      · rw [hkeep] at hshutdown
        obtain ⟨r, hr, hevent⟩ := ih hshutdown
        exact ⟨r, List.mem_append_left _ hr, hevent⟩

theorem frontOfEmpty_of_step {s t : State τ n} {e : Event τ n}
    {o : List (Effect τ n)} {c : Fin n} (h : step s e = some (o, t))
    (ho : .frontOfEmpty c ∈ o) : s.q = [] ∧ s.shutdown = true := by
  cases transition_of_step h with
  | front _ _ hshutdown hq => exact ⟨hq, hshutdown⟩
  | enqueue | call | empty | take | wait | wake | shutdown | notify =>
      simp at ho

/-- The call of `q.front()` on the empty queue is the end of the run. -/
theorem nil_of_frontOfEmpty {s t u : State τ n} {e : Event τ n}
    {o : List (Effect τ n)} {c : Fin n} {after : History τ n}
    (h : step s e = some (o, t)) (ho : .frontOfEmpty c ∈ o)
    (hafter : Run step t after u) : after = [] := by
  have hundefined : ¬ Defined t := by
    cases transition_of_step h with
    | @front c' =>
        intro hdefined
        exact hdefined c' (Function.update_self ..)
    | enqueue | call | empty | take | wait | wake | shutdown | notify =>
        simp at ho
  exact hafter.nil_of_stuck fun e' => if_neg hundefined

/-- In every run the elements that went in are those that came out, in the same
order, followed by those in the queue; and before `shutdown` is called nobody
asks the empty queue for its front, which would end the run. -/
theorem fifo {history : History τ n} {s : State τ n}
    (h : Run step (init τ n) history s) :
    history.flatMap enqueued = history.flatMap dequeued ++ s.q ∧
      ∀ before r after c, history = before ++ r :: after →
        .frontOfEmpty c ∈ r.out →
          r.pre.q = [] ∧ ShutdownCalled before ∧ after = [] := by
  constructor
  · have hchannel := Channel.fifo_of_simulation channel channelStep_sent
      channelStep_received trivial h
    exact hchannel
  · rintro before r after c rfl hc
    obtain ⟨hbefore, hstep, hafter⟩ := h.split
    obtain ⟨hq, hshutdown⟩ := frontOfEmpty_of_step hstep hc
    exact ⟨hq, shutdownCalled_of_run hbefore hshutdown,
      nil_of_frontOfEmpty hstep hc hafter⟩

/-- Two elements for two threads, and a third call after the shutdown. -/
def drainedRun : Option (History ℕ 2 × State ℕ 2) :=
  execute step (init ℕ 2)
    [.dequeue consumer0, .test consumer0, .wait consumer0,
      .enqueue 7 (some consumer0), .enqueue 8 none, .dequeue consumer1,
      .test consumer1, .test consumer0, .shutdown, .dequeue consumer0,
      .test consumer0]

theorem drained_fifo :
    (drainedRun.get (by decide)).1.flatMap dequeued = [7, 8] ∧
      (drainedRun.get (by decide)).1.flatMap enqueued =
        (drainedRun.get (by decide)).1.flatMap dequeued ++
          (drainedRun.get (by decide)).2.q :=
  ⟨by decide, (fifo (run_of_execute_get (by decide))).1⟩

end SAOmega.SafeQueue
