import SAOmega.Experience.Model
import Mathlib.Algebra.Order.Ring.Rat
import Mathlib.Tactic.Linarith

/-!
# The amount of an award

The cap has a floor, which is above one, so that an award of a tribe's character
is the smaller one of the boosted amount and the cap.  Both grow with what they
are computed from; where a negative difference of levels turns the multipliers
around, the floor is all that is left of the cap.
-/

namespace SAOmega.Experience.StatusComponent

/-- The least cap of a level. -/
def floor (component : StatusComponent) : ℚ :=
  if component.characterLevel < 30 then 5000 else 20000

/-- The greatest cap of a kind of character. -/
def ceiling (component : StatusComponent) : ℚ :=
  if component.isPlayer then 200000 else 50000

variable (component : StatusComponent)

theorem cap_eq (type : EXPType) :
    component.cap type = max component.floor (min component.ceiling
      (component.levelBasedCap * component.multipliers type)) := by
  simp only [cap, floor, ceiling]
  by_cases hlevel : component.characterLevel < 30
  · rw [if_pos hlevel, if_pos hlevel]
  · rw [if_neg hlevel, if_neg hlevel]

theorem one_lt_floor : 1 < component.floor := by
  unfold floor
  split
  · norm_num
  · norm_num

theorem floor_le_ceiling : component.floor ≤ component.ceiling := by
  unfold floor ceiling
  split
  · split
    · norm_num
    · norm_num
  · split
    · norm_num
    · norm_num

theorem floor_le_cap (type : EXPType) : component.floor ≤ component.cap type := by
  rw [cap_eq]
  exact le_max_left _ _

theorem cap_le_ceiling (type : EXPType) :
    component.cap type ≤ component.ceiling := by
  rw [cap_eq]
  exact max_le component.floor_le_ceiling (min_le_left _ _)

theorem one_le_multipliers (type : EXPType) :
    1 ≤ component.multipliers type :=
  le_max_left _ _

theorem multipliers_le_alphakill (type : EXPType) :
    component.multipliers type ≤ component.multipliers .XP_ALPHAKILL := by
  unfold multipliers
  apply max_le_max_left
  have halpha : (if type = .XP_ALPHAKILL then (10 : ℚ) else 0) ≤
      if EXPType.XP_ALPHAKILL = .XP_ALPHAKILL then 10 else 0 := by
    split
    · norm_num
    · norm_num
  gcongr

/-- Without a positive difference of levels the cap is its floor. -/
theorem cap_of_nonpos {type : EXPType} (h : component.levelBasedCap ≤ 0) :
    component.cap type = component.floor := by
  rw [cap_eq]
  apply max_eq_left
  have hpos := component.one_le_multipliers type
  have hfloor := component.one_lt_floor
  have hproduct : component.levelBasedCap * component.multipliers type ≤ 0 :=
    mul_nonpos_of_nonpos_of_nonneg h (by linarith)
  exact (min_le_right _ _).trans (by linarith)

theorem cap_le_alphakill (type : EXPType) :
    component.cap type ≤ component.cap .XP_ALPHAKILL := by
  rcases le_total component.levelBasedCap 0 with hneg | hpos
  · rw [component.cap_of_nonpos hneg, component.cap_of_nonpos hneg]
  · rw [cap_eq, cap_eq]
    apply max_le_max_left
    apply min_le_min_left
    exact mul_le_mul_of_nonneg_left (component.multipliers_le_alphakill type) hpos

/-! ## The uncapped amount -/

theorem exists_boost :
    ∃ factor : ℚ, 1 ≤ factor ∧
      ∀ howMuch, component.boosted howMuch = howMuch * factor := by
  by_cases hyoung : component.characterLevel < 25
  · exact ⟨6, by norm_num, fun _ => by rw [boosted, if_pos hyoung]⟩
  · by_cases hgrown : component.characterLevel < 50
    · exact ⟨4, by norm_num, fun _ => by
        rw [boosted, if_neg hyoung, if_pos hgrown]⟩
    · by_cases hold : component.characterLevel ≤ 100
      · exact ⟨2, by norm_num, fun _ => by
          rw [boosted, if_neg hyoung, if_neg hgrown, if_pos hold]⟩
      · exact ⟨1, le_rfl, fun howMuch => by
          rw [boosted, if_neg hyoung, if_neg hgrown, if_neg hold, mul_one]⟩

theorem le_boosted {howMuch : ℚ} (h : 0 ≤ howMuch) :
    howMuch ≤ component.boosted howMuch := by
  obtain ⟨factor, hone, hboost⟩ := component.exists_boost
  rw [hboost]
  exact le_mul_of_one_le_right h hone

theorem boosted_mono {a b : ℚ} (h : a ≤ b) :
    component.boosted a ≤ component.boosted b := by
  obtain ⟨factor, hone, hboost⟩ := component.exists_boost
  rw [hboost, hboost]
  exact mul_le_mul_of_nonneg_right h (by linarith)

theorem le_uncapped {addExpAmount howMuch : ℚ} (h : 0 ≤ howMuch) :
    howMuch ≤ component.uncapped addExpAmount howMuch := by
  have hboost := component.le_boosted h
  unfold uncapped shared
  split
  · exact hboost.trans (le_max_right _ _)
  · exact hboost

theorem uncapped_mono {addExpAmount a b : ℚ} (h : a ≤ b) :
    component.uncapped addExpAmount a ≤ component.uncapped addExpAmount b := by
  have hboost := component.boosted_mono h
  unfold uncapped shared
  split
  · exact max_le_max_left _ hboost
  · exact hboost

/-! ## The amount passed on -/

variable {component}

theorem passed_eq_min (h : component.isTribe = true)
    (addExpAmount howMuch : ℚ) (type : EXPType) :
    component.passed addExpAmount howMuch type =
      min (component.uncapped addExpAmount howMuch) (component.cap type) := by
  unfold passed
  rw [if_pos h]
  split
  · rfl
  next hover =>
    have hone : 1 < component.cap type :=
      component.one_lt_floor.trans_le (component.floor_le_cap type)
    simp only [overCap, hone, decide_true, Bool.true_and, decide_eq_true_eq,
      not_lt] at hover
    exact (min_eq_left hover).symm

/-- The same character between other levels. -/
def withLevels (component : StatusComponent) (next previous : ℚ) :
    StatusComponent :=
  { component with
    experienceRequiredForNextLevelUp := next
    experienceRequiredForPreviousLevelUp := previous }

theorem cap_withLevels_mono {type : EXPType} {next previous : ℚ}
    (h : component.levelBasedCap ≤
      (component.withLevels next previous).levelBasedCap) :
    component.cap type ≤ (component.withLevels next previous).cap type := by
  rw [cap_eq, cap_eq]
  apply max_le_max_left
  apply min_le_min_left
  have hpos : 0 ≤ component.multipliers type :=
    zero_le_one.trans (component.one_le_multipliers type)
  exact mul_le_mul_of_nonneg_right h hpos

end SAOmega.Experience.StatusComponent

namespace SAOmega.Experience

/-- An award of a tribe's character is capped, not made smaller below the floor
of the cap, and grows with its amount, with the difference of the levels and
with the kind of the award; others are passed on as they are. -/
theorem awards_capped_monotone (component : StatusComponent)
    (addExpAmount : ℚ) :
    (component.isTribe = true → ∀ (howMuch : ℚ) (type : EXPType),
      component.passed addExpAmount howMuch type ≤
          (if component.isPlayer then 200000 else 50000) ∧
        (0 ≤ howMuch →
          min howMuch (if component.characterLevel < 30 then 5000 else 20000) ≤
            component.passed addExpAmount howMuch type) ∧
        (∀ more, howMuch ≤ more →
          component.passed addExpAmount howMuch type ≤
            component.passed addExpAmount more type) ∧
        (∀ next previous, component.levelBasedCap ≤
            (component.withLevels next previous).levelBasedCap →
          component.passed addExpAmount howMuch type ≤
            (component.withLevels next previous).passed addExpAmount howMuch
              type) ∧
        component.passed addExpAmount howMuch type ≤
          component.passed addExpAmount howMuch .XP_ALPHAKILL) ∧
      (component.isTribe = false → ∀ (howMuch : ℚ) (type : EXPType),
        component.passed addExpAmount howMuch type = howMuch) := by
  constructor
  · intro htribe howMuch type
    rw [StatusComponent.passed_eq_min htribe]
    refine ⟨?_, ?_, ?_, ?_, ?_⟩
    · exact (min_le_right _ _).trans (component.cap_le_ceiling type)
    · intro hnonneg
      exact min_le_min (component.le_uncapped hnonneg)
        (component.floor_le_cap type)
    · intro more hmore
      rw [StatusComponent.passed_eq_min htribe]
      exact min_le_min_right _ (component.uncapped_mono hmore)
    · intro next previous hcap
      rw [StatusComponent.passed_eq_min (by exact htribe)]
      exact min_le_min_left _ (StatusComponent.cap_withLevels_mono hcap)
    · rw [StatusComponent.passed_eq_min htribe]
      exact min_le_min_left _ (component.cap_le_alphakill type)
  · intro htribe howMuch type
    unfold StatusComponent.passed
    rw [htribe]
    rfl

/-- A tamed dino of level 60 which needs 1000 points for the next one. -/
def tamedRex : StatusComponent where
  isPlayer := false
  isDino := true
  targetingTeam := 1000000007
  isRider := false
  playerName := ""
  name := "Rex_Character_BP_C"
  characterLevel := 60
  experienceRequiredForNextLevelUp := 15000
  experienceRequiredForPreviousLevelUp := 14000

theorem awards_capped_monotone_rex :
    tamedRex.passed 0 90000 (.other 1) ≤ 50000 ∧
      20000 ≤ tamedRex.passed 0 90000 (.other 1) := by
  obtain ⟨hcap, hfloor, _⟩ :=
    (awards_capped_monotone tamedRex 0).1 rfl 90000 (.other 1)
  have hmin : min (90000 : ℚ)
      (if tamedRex.characterLevel < 30 then 5000 else 20000) = 20000 := by
    norm_num [tamedRex]
  refine ⟨hcap, ?_⟩
  rw [← hmin]
  exact hfloor (by norm_num)

end SAOmega.Experience
