import SAOmega.Support.Run
import Mathlib.Data.Fintype.Basic
import Mathlib.Logic.Function.Basic

/-!
# The thread-safe queue

`Helpers/SafeQueue.hpp` with `n` threads which may call `dequeue`, and any
number of others.  Every block which holds `m` is one step, except that a thread
which has found the queue empty in `dequeue` keeps `m` until `c.wait` releases
it: `shutdown` does not take `m` and can come in between.

After `shutdown`, `dequeue` calls `q.front()` on an empty queue, and goes on with
`q.pop()`.  The behaviour is undefined from there on, so a run ends with that
call, and no result says anything about what comes after it.
-/

namespace SAOmega.SafeQueue

open SAOmega.Support

/-- Where a thread stands in `dequeue`. -/
inductive Consumer
  | outside
  /-- About to take `m`: at the top of `dequeue`, or woken inside of `c.wait`. -/
  | locking
  /-- With `m`, between the test of the loop and `c.wait`. -/
  | deciding
  /-- Asleep in `c.wait`. -/
  | waiting
  /-- In the call of `q.front()` on the empty queue. -/
  | undefined
deriving DecidableEq

structure State (τ : Type*) (n : ℕ) where
  q : List τ
  shutdown : Bool
  consumers : Fin n → Consumer
  /-- The `shutdown` calls before their `notify_one`. -/
  notifying : ℕ

variable {τ : Type*} {n : ℕ}

def init (τ : Type*) (n : ℕ) : State τ n where
  q := []
  shutdown := false
  consumers _ := .outside
  notifying := 0

inductive Event (τ : Type*) (n : ℕ)
  /-- The whole of `enqueue`; `woken` is the sleeper `notify_one` picks. -/
  | enqueue (t : τ) (woken : Option (Fin n))
  | dequeue (c : Fin n)
  /-- `lock(m)` or the end of `c.wait`, and the test of the loop; when that
  fails, the rest of `dequeue`. -/
  | test (c : Fin n)
  /-- `c.wait(lock)` falls asleep and releases `m`. -/
  | wait (c : Fin n)
  /-- A spurious wake-up out of `c.wait`. -/
  | wake (c : Fin n)
  /-- `_shutdown = true` in `shutdown`. -/
  | shutdown
  /-- `c.notify_one()` in `shutdown`. -/
  | notify (woken : Option (Fin n))

inductive Effect (τ : Type*) (n : ℕ)
  /-- `dequeue` returns the element to the thread. -/
  | dequeued (c : Fin n) (val : τ)
  | frontOfEmpty (c : Fin n)
deriving DecidableEq

/-! ## The operations -/

/-- Nobody holds `m`. -/
def MutexFree (s : State τ n) : Prop := ∀ c, s.consumers c ≠ .deciding

instance (s : State τ n) : Decidable (MutexFree s) :=
  inferInstanceAs (Decidable (∀ _, _ ≠ _))

/-- Nobody has called `q.front()` on the empty queue. -/
def Defined (s : State τ n) : Prop := ∀ c, s.consumers c ≠ .undefined

instance (s : State τ n) : Decidable (Defined s) :=
  inferInstanceAs (Decidable (∀ _, _ ≠ _))

def setConsumer (s : State τ n) (c : Fin n) (consumer : Consumer) : State τ n :=
  { s with consumers := Function.update s.consumers c consumer }

/-- `c.notify_one()`: it wakes one sleeper if there is one. -/
def notifyOne (woken : Option (Fin n)) (s : State τ n) : Option (State τ n) :=
  match woken with
  | some c =>
      if s.consumers c = .waiting then some (setConsumer s c .locking)
      else none
  | none => if ∀ c, s.consumers c ≠ .waiting then some s else none

def enqueue (t : τ) (woken : Option (Fin n)) (s : State τ n) :
    Option (State τ n) :=
  if MutexFree s then notifyOne woken { s with q := s.q ++ [t] } else none

/-- `dequeue` from the mutex on, up to the next wait, its return or the call of
`q.front()` on the empty queue. -/
def dequeue (c : Fin n) (s : State τ n) :
    Option (List (Effect τ n) × State τ n) :=
  if s.consumers c = .locking ∧ MutexFree s then
    if !s.shutdown && s.q.isEmpty then
      some ([], setConsumer s c .deciding)
    else
      match s.q with
      | [] => some ([.frontOfEmpty c], setConsumer s c .undefined)
      | val :: q =>
          some ([.dequeued c val], { setConsumer s c .outside with q := q })
  else
    none

/-- A thread goes on from one place in `dequeue` to another. -/
def move (c : Fin n) (source target : Consumer) (s : State τ n) :
    Option (List (Effect τ n) × State τ n) :=
  if s.consumers c = source then some ([], setConsumer s c target) else none

def step (s : State τ n) (e : Event τ n) :
    Option (List (Effect τ n) × State τ n) :=
  if Defined s then
    match e with
    | .enqueue t woken => (enqueue t woken s).map fun t => ([], t)
    | .dequeue c => move c .outside .locking s
    | .test c => dequeue c s
    | .wait c => move c .deciding .waiting s
    | .wake c => move c .waiting .locking s
    | .shutdown =>
        some ([], { s with shutdown := true, notifying := s.notifying + 1 })
    | .notify woken =>
        match s.notifying with
        | 0 => none
        | k + 1 =>
            (notifyOne woken { s with notifying := k }).map fun t => ([], t)
  else
    none

abbrev Record (τ : Type*) (n : ℕ) :=
  Step (State τ n) (Event τ n) (List (Effect τ n))

/-- The steps of a run, oldest first. -/
abbrev History (τ : Type*) (n : ℕ) := List (Record τ n)

/-- The threads, where there are two. -/
def consumer0 : Fin 2 := ⟨0, Nat.two_pos⟩

def consumer1 : Fin 2 := ⟨1, Nat.one_lt_two⟩

/-! ## What a step can do -/

inductive Transition (s : State τ n) :
    Event τ n → List (Effect τ n) → State τ n → Prop
  | enqueue (t : τ) {woken : Option (Fin n)} {u : State τ n}
      (hfree : MutexFree s)
      (hnotify : notifyOne woken { s with q := s.q ++ [t] } = some u) :
      Transition s (.enqueue t woken) [] u
  | call {c : Fin n} (hc : s.consumers c = .outside) :
      Transition s (.dequeue c) [] (setConsumer s c .locking)
  | empty {c : Fin n} (hc : s.consumers c = .locking) (hfree : MutexFree s)
      (hshutdown : s.shutdown = false) (hq : s.q = []) :
      Transition s (.test c) [] (setConsumer s c .deciding)
  | take {c : Fin n} {val : τ} {q : List τ} (hc : s.consumers c = .locking)
      (hfree : MutexFree s) (hq : s.q = val :: q) :
      Transition s (.test c) [.dequeued c val]
        { setConsumer s c .outside with q := q }
  | front {c : Fin n} (hc : s.consumers c = .locking) (hfree : MutexFree s)
      (hshutdown : s.shutdown = true) (hq : s.q = []) :
      Transition s (.test c) [.frontOfEmpty c] (setConsumer s c .undefined)
  | wait {c : Fin n} (hc : s.consumers c = .deciding) :
      Transition s (.wait c) [] (setConsumer s c .waiting)
  | wake {c : Fin n} (hc : s.consumers c = .waiting) :
      Transition s (.wake c) [] (setConsumer s c .locking)
  | shutdown :
      Transition s .shutdown []
        { s with shutdown := true, notifying := s.notifying + 1 }
  | notify {k : ℕ} {woken : Option (Fin n)} {u : State τ n}
      (hk : s.notifying = k + 1)
      (hnotify : notifyOne woken { s with notifying := k } = some u) :
      Transition s (.notify woken) [] u

theorem transition_of_move {s t : State τ n} {c : Fin n}
    {source target : Consumer} {o : List (Effect τ n)}
    (h : move c source target s = some (o, t)) :
    s.consumers c = source ∧ o = [] ∧ t = setConsumer s c target := by
  unfold move at h
  split at h
  next hc =>
    cases h
    exact ⟨hc, rfl, rfl⟩
  next => cases h

theorem transition_of_dequeue {s t : State τ n} {c : Fin n}
    {o : List (Effect τ n)} (h : dequeue c s = some (o, t)) :
    Transition s (.test c) o t := by
  unfold dequeue at h
  split at h
  next hready =>
    obtain ⟨hc, hfree⟩ := hready
    split at h
    next hwait =>
      cases h
      simp only [Bool.and_eq_true, Bool.not_eq_true', List.isEmpty_iff]
        at hwait
      exact .empty hc hfree hwait.1 hwait.2
    next hwait =>
      split at h
      next hq =>
        cases h
        have hshutdown : s.shutdown = true := by simpa [hq] using hwait
        exact .front hc hfree hshutdown hq
      next val q hq =>
        cases h
        exact .take hc hfree hq
  next => cases h

theorem transition_of_step {s t : State τ n} {e : Event τ n}
    {o : List (Effect τ n)} (h : step s e = some (o, t)) :
    Transition s e o t := by
  unfold step at h
  rw [Option.ite_none_right_eq_some] at h
  replace h := h.2
  cases e with
  | enqueue val woken =>
      simp only [enqueue] at h
      split at h
      next hfree =>
        obtain ⟨u, hnotify, hu⟩ := Option.map_eq_some_iff.mp h
        cases hu
        exact .enqueue val hfree hnotify
      next => cases h
  | dequeue c =>
      obtain ⟨hc, rfl, rfl⟩ := transition_of_move h
      exact .call hc
  | test c => exact transition_of_dequeue h
  | wait c =>
      obtain ⟨hc, rfl, rfl⟩ := transition_of_move h
      exact .wait hc
  | wake c =>
      obtain ⟨hc, rfl, rfl⟩ := transition_of_move h
      exact .wake hc
  | shutdown =>
      cases h
      exact .shutdown
  | notify woken =>
      simp only at h
      split at h
      next => cases h
      next k hk =>
        obtain ⟨u, hnotify, hu⟩ := Option.map_eq_some_iff.mp h
        cases hu
        exact .notify hk hnotify

theorem notifyOne_cases {s t : State τ n} {woken : Option (Fin n)}
    (h : notifyOne woken s = some t) :
    (∃ c, s.consumers c = .waiting ∧ t = setConsumer s c .locking) ∨
      ((∀ c, s.consumers c ≠ .waiting) ∧ t = s) := by
  unfold notifyOne at h
  split at h
  next c =>
    split at h
    next hc =>
      cases h
      exact .inl ⟨c, hc, rfl⟩
    next => cases h
  next =>
    split at h
    next hnone =>
      cases h
      exact .inr ⟨hnone, rfl⟩
    next => cases h

end SAOmega.SafeQueue
