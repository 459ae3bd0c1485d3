import Mathlib.Data.Int.Notation
import Mathlib.Data.List.Nodup
import Mathlib.Algebra.Order.Group.Multiset

/-!
# Delayed callbacks

A timer that runs each callback it is given once, later.  It keeps the ones
which it has not run yet.  Two callbacks of equal content are still different
ones, which their number tells apart.
-/

namespace SAOmega.Support

/-- A callback waiting for its time. -/
structure Delayed (κ : Type*) where
  id : ℕ
  callback : κ
  due : ℤ
deriving DecidableEq

/-- The same entry seen as one of another kind of callbacks. -/
def Delayed.map {κ κ' : Type*} (f : κ → κ') (d : Delayed κ) : Delayed κ' :=
  ⟨d.id, f d.callback, d.due⟩

/-- The outstanding callbacks, each with a number of its own. -/
structure Timer (κ : Type*) where
  /-- How many callbacks the timer has been given. -/
  scheduled : ℕ
  outstanding : List (Delayed κ)
  id_lt : ∀ d ∈ outstanding, d.id < scheduled
  nodup : outstanding.Nodup
deriving DecidableEq

namespace Timer

variable {κ : Type*}

def empty : Timer κ where
  scheduled := 0
  outstanding := []
  id_lt := by simp
  nodup := List.nodup_nil

/-- The entry which `delayExecute` makes for a callback. -/
def entry (timer : Timer κ) (callback : κ) (due : ℤ) : Delayed κ :=
  ⟨timer.scheduled, callback, due⟩

theorem entry_notMem (timer : Timer κ) (callback : κ) (due : ℤ) :
    timer.entry callback due ∉ timer.outstanding :=
  fun h => Nat.lt_irrefl _ (timer.id_lt _ h)

def delayExecute (timer : Timer κ) (callback : κ) (due : ℤ) : Timer κ where
  scheduled := timer.scheduled + 1
  outstanding := timer.outstanding ++ [timer.entry callback due]
  id_lt := by
    intro d hd
    rcases List.mem_append.mp hd with hold | hnew
    · exact Nat.lt_succ_of_lt (timer.id_lt d hold)
    · rw [List.mem_singleton.mp hnew]
      exact Nat.lt_succ_self _
  nodup := by
    apply timer.nodup.append (List.nodup_singleton _)
    intro d hold hnew
    rw [List.mem_singleton.mp hnew] at hold
    exact timer.entry_notMem callback due hold

@[simp] theorem mem_delayExecute {timer : Timer κ} {callback : κ} {due : ℤ}
    {d : Delayed κ} :
    d ∈ (timer.delayExecute callback due).outstanding ↔
      d ∈ timer.outstanding ∨ d = timer.entry callback due := by
  simp [delayExecute]

theorem mem_of_callback_ne {timer : Timer κ} {callback : κ} {due : ℤ}
    {d : Delayed κ} (hd : d ∈ (timer.delayExecute callback due).outstanding)
    (hne : d.callback ≠ callback) : d ∈ timer.outstanding := by
  rcases mem_delayExecute.mp hd with hold | rfl
  · exact hold
  · exact (hne rfl).elim

theorem coe_delayExecute (timer : Timer κ) (callback : κ) (due : ℤ) :
    ((timer.delayExecute callback due).outstanding : Multiset (Delayed κ)) =
      timer.outstanding + {timer.entry callback due} := by
  rw [delayExecute, ← Multiset.coe_add, Multiset.coe_singleton]

variable [DecidableEq κ]

instance (timer : Timer κ) (d : Delayed κ) :
    Decidable (d ∈ timer.outstanding) :=
  List.instDecidableMemOfLawfulBEq d timer.outstanding

/-- Take a callback out, to run it. -/
def remove (timer : Timer κ) (d : Delayed κ) : Timer κ where
  scheduled := timer.scheduled
  outstanding := timer.outstanding.erase d
  id_lt := fun x hx => timer.id_lt x (List.mem_of_mem_erase hx)
  nodup := timer.nodup.erase d

@[simp] theorem mem_remove {timer : Timer κ} {d x : Delayed κ} :
    x ∈ (timer.remove d).outstanding ↔ x ≠ d ∧ x ∈ timer.outstanding := by
  simp [remove, timer.nodup.mem_erase_iff]

theorem coe_remove {timer : Timer κ} {d : Delayed κ}
    (hd : d ∈ timer.outstanding) :
    ((timer.remove d).outstanding : Multiset (Delayed κ)) + {d} =
      timer.outstanding := by
  rw [add_comm, Multiset.singleton_add, remove, ← Multiset.coe_erase]
  exact Multiset.cons_erase hd

end Timer

end SAOmega.Support
