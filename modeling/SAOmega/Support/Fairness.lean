import SAOmega.Support.Run
import Mathlib.Order.WellFounded

/-!
# Infinite executions and fairness

An execution goes on for ever; its beginnings are runs.  A class of events is
treated fairly when it is not put off for ever once some event of it stays
possible.  The rule for progress keeps an obligation with a rank and a class
which helps: a step fulfils the goal, or passes on to an obligation of lower
rank, or leaves the obligation as it is without being one of the class.
-/

namespace SAOmega.Support

variable {σ ε ω : Type*}

/-- A component that never stops. -/
structure Execution (step : σ → ε → Option (ω × σ)) where
  state : ℕ → σ
  event : ℕ → ε
  out : ℕ → ω
  next : ∀ i, step (state i) (event i) = some (out i, state (i + 1))

variable {step : σ → ε → Option (ω × σ)}

namespace Execution

variable (x : Execution step)

def record (i : ℕ) : Step σ ε ω :=
  ⟨x.state i, x.event i, x.out i, x.state (i + 1)⟩

/-- The first `i` steps. -/
def history (i : ℕ) : List (Step σ ε ω) := (List.range i).map x.record

theorem history_succ (i : ℕ) :
    x.history (i + 1) = x.history i ++ [x.record i] := by
  simp [history, List.range_succ]

theorem mem_history {i : ℕ} {r : Step σ ε ω} :
    r ∈ x.history i ↔ ∃ j < i, x.record j = r := by
  simp [history]

theorem run (i : ℕ) : Run step (x.state 0) (x.history i) (x.state i) := by
  induction i with
  | zero => exact .nil
  | succ i ih =>
      rw [history_succ]
      exact ih.snoc (x.next i)

/-- What every step keeps holds for ever once it holds. -/
theorem invariant {I : σ → Prop}
    (hstep : ∀ s e o t, I s → step s e = some (o, t) → I t) {i j : ℕ}
    (hij : i ≤ j) (h : I (x.state i)) : I (x.state j) := by
  induction j, hij using Nat.le_induction with
  | base => exact h
  | succ j _ ih => exact hstep _ _ _ _ ih (x.next j)

/-- What the history shows once only is shown by one step only. -/
theorem eq_of_nodup {α : Type*} {f : Step σ ε ω → List α}
    (h : ∀ i, ((x.history i).flatMap f).Nodup) {a : α} {j k : ℕ}
    (hj : a ∈ f (x.record j)) (hk : a ∈ f (x.record k)) : j = k := by
  have hle : ∀ {j k : ℕ}, a ∈ f (x.record j) → a ∈ f (x.record k) →
      k ≤ j := by
    intro j k hj hk
    by_contra hlt
    have hpast : a ∈ (x.history k).flatMap f :=
      List.mem_flatMap.mpr
        ⟨_, x.mem_history.mpr ⟨j, not_le.mp hlt, rfl⟩, hj⟩
    have hnodup := h (k + 1)
    rw [history_succ, List.flatMap_append, List.flatMap_singleton] at hnodup
    exact List.disjoint_of_nodup_append hnodup hpast hk
  exact le_antisymm (hle hk hj) (hle hj hk)

/-! ## Progress -/

/-- The class `mine` is not put off for ever while it stays possible. -/
def Fair (mine : ε → Prop) : Prop :=
  ∀ i, (∀ j, i ≤ j → ∃ e, mine e ∧ (step (x.state j) e).isSome = true) →
    ∃ j, i ≤ j ∧ mine (x.event j)

variable {x} {κ ρ : Type*} [Preorder ρ] [WellFoundedLT ρ]
  {mine : κ → ε → Prop} {goal : ℕ → Prop}

/-- An obligation is fulfilled when the class which helps with it stays
possible, and when every step either fulfils it, lowers its rank, or leaves it
to the same class. -/
theorem eventually_of_rank (pending : κ → ρ → σ → Prop)
    (hfair : ∀ k, x.Fair (mine k))
    (henabled : ∀ i k r, pending k r (x.state i) →
      ∃ e, mine k e ∧ (step (x.state i) e).isSome = true)
    (hnext : ∀ i k r, pending k r (x.state i) →
      goal i ∨ (∃ k' r', r' < r ∧ pending k' r' (x.state (i + 1))) ∨
        (pending k r (x.state (i + 1)) ∧ ¬ mine k (x.event i)))
    {i : ℕ} {k : κ} {r : ρ} (h : pending k r (x.state i)) :
    ∃ j, i ≤ j ∧ goal j := by
  induction r using WellFoundedLT.induction generalizing i k with
  | ind r ih =>
      by_contra hnever
      have hgoal : ∀ j, i ≤ j → ¬ goal j := fun j hj hg => hnever ⟨j, hj, hg⟩
      have hlower : ∀ j, i ≤ j → ∀ k' r', r' < r →
          ¬ pending k' r' (x.state j) := by
        intro j hj k' r' hr hpending
        obtain ⟨l, hl, hg⟩ := ih r' hr hpending
        exact hgoal l (hj.trans hl) hg
      -- So the obligation stays as it is, and its class does nothing.
      have hstep : ∀ j, i ≤ j → pending k r (x.state j) →
          pending k r (x.state (j + 1)) ∧ ¬ mine k (x.event j) := by
        intro j hj hpending
        rcases hnext j k r hpending with hg | ⟨k', r', hr, hnew⟩ | hkeep
        · exact (hgoal j hj hg).elim
        · exact (hlower (j + 1) (Nat.le_succ_of_le hj) k' r' hr hnew).elim
        · exact hkeep
      have hstays : ∀ j, i ≤ j → pending k r (x.state j) := by
        intro j hj
        induction j, hj using Nat.le_induction with
        | base => exact h
        | succ j hj ih => exact (hstep j hj ih).1
      obtain ⟨j, hj, hmine⟩ :=
        hfair k i fun j hj => henabled j k r (hstays j hj)
      exact (hstep j hj (hstays j hj)).2 hmine

end Execution

/-! ## Lassos -/

section Lasso

variable {s t : σ} {history : List (Step σ ε ω)}

theorem Run.nil_eq (h : Run step s [] t) : s = t := by
  generalize hnil : [] = history at h
  cases h with
  | nil => rfl
  | snoc => simp at hnil

theorem Run.pre_head {r : Step σ ε ω} {after : List (Step σ ε ω)}
    (h : Run step s (r :: after) t) : r.pre = s := by
  have hbefore : Run step s ([] ++ r :: after) t := h
  exact hbefore.split.1.nil_eq.symm

theorem Run.pre_zero (h : Run step s history t) (hi : 0 < history.length) :
    history[0].pre = s := by
  obtain ⟨r, after, rfl⟩ := List.exists_cons_of_length_pos hi
  exact h.pre_head

theorem Run.pre_succ (h : Run step s history t) {i : ℕ}
    (hi : i + 1 < history.length) :
    history[i + 1].pre = history[i].post := by
  rw [← List.take_append_drop i history,
    List.drop_eq_getElem_cons (Nat.lt_of_succ_lt hi),
    List.drop_eq_getElem_cons hi] at h
  exact h.split.2.2.pre_head

theorem Run.post_last (h : Run step s history t) {i : ℕ}
    (hi : i < history.length) (hlast : history.length ≤ i + 1) :
    history[i].post = t := by
  rw [← List.take_append_drop i history, List.drop_eq_getElem_cons hi,
    List.drop_eq_nil_of_le hlast] at h
  exact h.of_snoc.2.2

/-- The steps of the stem, and then those of the loop over and over. -/
def lassoRecord (stem loop : List (Step σ ε ω)) (hloop : 0 < loop.length)
    (i : ℕ) : Step σ ε ω :=
  if h : i < stem.length then stem[i]
  else loop.get ⟨(i - stem.length) % loop.length, Nat.mod_lt _ hloop⟩

variable {stem loop : List (Step σ ε ω)} {hloop : 0 < loop.length}

theorem lassoRecord_stem {i : ℕ} (h : i < stem.length) :
    lassoRecord stem loop hloop i = stem[i] :=
  dif_pos h

theorem lassoRecord_loop (i : ℕ) :
    lassoRecord stem loop hloop (stem.length + i) =
      loop.get ⟨i % loop.length, Nat.mod_lt _ hloop⟩ := by
  simp [lassoRecord]

theorem lassoRecord_mem (i : ℕ) :
    lassoRecord stem loop hloop i ∈ stem ++ loop := by
  rw [lassoRecord]
  split
  next h => exact List.mem_append_left _ (List.getElem_mem h)
  next => exact List.mem_append_right _ (List.get_mem _ _)

theorem lassoRecord_add_loop {i : ℕ} (hi : stem.length ≤ i) :
    lassoRecord stem loop hloop (i + loop.length) =
      lassoRecord stem loop hloop i := by
  obtain ⟨k, rfl⟩ := Nat.exists_eq_add_of_le hi
  rw [add_assoc, lassoRecord_loop, lassoRecord_loop]
  simp only [Nat.add_mod_right]

/-- What relates the neighbours on the stem and on one round of the loop relates
all neighbours. -/
theorem lassoRecord_neighbours {R : Step σ ε ω → Step σ ε ω → Prop}
    (h : ∀ i < stem.length + loop.length,
      R (lassoRecord stem loop hloop i) (lassoRecord stem loop hloop (i + 1)))
    (i : ℕ) :
    R (lassoRecord stem loop hloop i)
      (lassoRecord stem loop hloop (i + 1)) := by
  induction i using Nat.strong_induction_on with
  | h i ih =>
      rcases Nat.lt_or_ge i (stem.length + loop.length) with hi | hi
      · exact h i hi
      · obtain ⟨k, rfl⟩ := Nat.exists_eq_add_of_le hi
        have hround : stem.length + loop.length + k =
            stem.length + k + loop.length := by omega
        have hround' : stem.length + loop.length + k + 1 =
            stem.length + k + 1 + loop.length := by omega
        rw [hround', lassoRecord_add_loop (by omega), hround,
          lassoRecord_add_loop (by omega)]
        exact ih _ (by omega)

theorem lassoRecord_next (hstem : Run step s stem t)
    (hrun : Run step t loop t) (i : ℕ) :
    (lassoRecord stem loop hloop (i + 1)).pre =
      (lassoRecord stem loop hloop i).post := by
  rcases Nat.lt_or_ge i stem.length with hi | hi
  · rw [lassoRecord_stem hi]
    rcases Nat.lt_or_ge (i + 1) stem.length with hnext | hnext
    · rw [lassoRecord_stem hnext]
      exact hstem.pre_succ hnext
    · have hstart : i + 1 = stem.length + 0 := by omega
      rw [hstem.post_last hi hnext, hstart, lassoRecord_loop]
      simpa using hrun.pre_zero hloop
  · obtain ⟨k, rfl⟩ := Nat.exists_eq_add_of_le hi
    rw [add_assoc, lassoRecord_loop, lassoRecord_loop]
    have hk : k % loop.length < loop.length := Nat.mod_lt _ hloop
    have hmod : (k + 1) % loop.length =
        (k % loop.length + 1) % loop.length := (Nat.mod_add_mod k _ 1).symm
    rcases Nat.lt_or_ge (k % loop.length + 1) loop.length with hnext | hnext
    · rw [Nat.mod_eq_of_lt hnext] at hmod
      simpa [hmod] using hrun.pre_succ hnext
    · -- The loop is through and starts again.
      have hend : k % loop.length + 1 = loop.length := by omega
      rw [hend, Nat.mod_self] at hmod
      simpa [hmod, hrun.post_last hk hnext] using hrun.pre_zero hloop

/-- A run followed by a run that leads back to where it started. -/
def lasso (stem loop : List (Step σ ε ω)) (hloop : 0 < loop.length)
    (hstem : Run step s stem t) (hrun : Run step t loop t) :
    Execution step where
  state i := (lassoRecord stem loop hloop i).pre
  event i := (lassoRecord stem loop hloop i).event
  out i := (lassoRecord stem loop hloop i).out
  next i := by
    rw [lassoRecord_next hstem hrun]
    rcases Nat.lt_or_ge i stem.length with hi | hi
    · rw [lassoRecord_stem hi]
      exact hstem.step_of_mem (List.getElem_mem hi)
    · obtain ⟨k, rfl⟩ := Nat.exists_eq_add_of_le hi
      rw [lassoRecord_loop]
      exact hrun.step_of_mem (List.get_mem _ _)

variable {hstem : Run step s stem t} {hrun : Run step t loop t}

theorem lasso_state_zero : (lasso stem loop hloop hstem hrun).state 0 = s := by
  change (lassoRecord stem loop hloop 0).pre = s
  rcases Nat.eq_zero_or_pos stem.length with hzero | hpos
  · obtain rfl := List.eq_nil_of_length_eq_zero hzero
    obtain rfl := hstem.nil_eq
    simpa [lassoRecord] using hrun.pre_zero hloop
  · rw [lassoRecord_stem hpos]
    exact hstem.pre_zero hpos

/-- What happens in the loop happens again and again. -/
theorem lasso_fair {mine : ε → Prop} (h : ∃ r ∈ loop, mine r.event) :
    (lasso stem loop hloop hstem hrun).Fair mine := by
  intro i _
  obtain ⟨r, hr, hmine⟩ := h
  obtain ⟨k, hk, rfl⟩ := List.mem_iff_getElem.mp hr
  refine ⟨stem.length + (k + loop.length * i), ?_, ?_⟩
  · have hle : i ≤ loop.length * i := Nat.le_mul_of_pos_left i hloop
    omega
  · change mine (lassoRecord stem loop hloop _).event
    rw [lassoRecord_loop]
    simpa [Nat.mod_eq_of_lt hk] using hmine

/-- What the loop makes impossible is not owed. -/
theorem lasso_fair_of_disabled {mine : ε → Prop}
    (h : ∃ r ∈ loop, ∀ e, mine e → step r.pre e = none) :
    (lasso stem loop hloop hstem hrun).Fair mine := by
  intro i hpossible
  obtain ⟨r, hr, hnone⟩ := h
  obtain ⟨k, hk, rfl⟩ := List.mem_iff_getElem.mp hr
  have hle : i ≤ loop.length * i := Nat.le_mul_of_pos_left i hloop
  obtain ⟨e, hmine, hsome⟩ :=
    hpossible (stem.length + (k + loop.length * i)) (by omega)
  change (step (lassoRecord stem loop hloop _).pre e).isSome = true at hsome
  rw [lassoRecord_loop] at hsome
  simp [Nat.mod_eq_of_lt hk, hnone e hmine] at hsome

end Lasso

end SAOmega.Support
