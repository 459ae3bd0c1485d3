import Mathlib.Algebra.Order.Field.Rat

/-!
# Experience

The hook of `Plugin/experience.cpp` on `AddExperience`: it boosts and caps an
award, and shows its amount to the awards which the original makes from it.
The arithmetic of `float` is that of the rationals here, and `std::to_string`
of a `float` is the parameter `str`.
-/

namespace SAOmega.Experience

/-- The kind of an award; the plugin asks for one of them only. -/
inductive EXPType
  | XP_ALPHAKILL
  | other (value : ℕ)
deriving DecidableEq

/-- What the hook asks a status component and its character. -/
structure StatusComponent where
  /-- `IsA(AShooterCharacter::StaticClass())`. -/
  isPlayer : Bool
  /-- `IsA(APrimalDinoCharacter::StaticClass())`. -/
  isDino : Bool
  targetingTeam : ℤ
  isRider : Bool
  playerName : String
  name : String
  characterLevel : ℤ
  experienceRequiredForNextLevelUp : ℚ
  experienceRequiredForPreviousLevelUp : ℚ
deriving DecidableEq

namespace StatusComponent

variable (component : StatusComponent)

/-- A character whose awards the hook changes. -/
def isTribe : Bool :=
  (component.isPlayer || component.isDino) &&
    50000 ≤ component.targetingTeam

def levelBasedCap : ℚ :=
  component.experienceRequiredForNextLevelUp -
    component.experienceRequiredForPreviousLevelUp

/-- `multipliers` at the end of the additions to it. -/
def multipliers (type : EXPType) : ℚ :=
  let alpha := if type = .XP_ALPHAKILL then 10 else 0
  let band :=
    if component.characterLevel < 25 then 4
    else if component.characterLevel < 50 then 3
    else if component.characterLevel ≤ 100 then 2
    else 0
  let onFoot := if component.isPlayer && !component.isRider then 5 else 0
  max 1 (0 + alpha + band + onFoot)

/-- `howMuch` after the boost of its level. -/
def boosted (howMuch : ℚ) : ℚ :=
  if component.characterLevel < 25 then howMuch * 6
  else if component.characterLevel < 50 then howMuch * 4
  else if component.characterLevel ≤ 100 then howMuch * 2
  else howMuch

/-- `howMuch` after the share of a rider in the award around it. -/
def shared (addExpAmount howMuch : ℚ) : ℚ :=
  if component.isPlayer && (0 < addExpAmount && component.isRider) then
    max (addExpAmount / 2) howMuch
  else
    howMuch

def cap (type : EXPType) : ℚ :=
  let cap := min (if component.isPlayer then 200000 else 50000)
    (component.levelBasedCap * component.multipliers type)
  if component.characterLevel < 30 then max 5000 cap else max 20000 cap

/-- `howMuch` before the cap. -/
def uncapped (addExpAmount howMuch : ℚ) : ℚ :=
  component.shared addExpAmount (component.boosted howMuch)

/-- The condition under which an award is cut. -/
def overCap (addExpAmount howMuch : ℚ) (type : EXPType) : Bool :=
  1 < component.cap type &&
    component.cap type < component.uncapped addExpAmount howMuch

/-- The amount that the hook passes to the original. -/
def passed (addExpAmount howMuch : ℚ) (type : EXPType) : ℚ :=
  if component.isTribe then
    if component.overCap addExpAmount howMuch type then
      min (component.uncapped addExpAmount howMuch) (component.cap type)
    else
      component.uncapped addExpAmount howMuch
  else
    howMuch

/-- What the hook logs. -/
def log (str : ℚ → String) (addExpAmount howMuch : ℚ) (type : EXPType) :
    List String :=
  if component.isTribe && component.overCap addExpAmount howMuch type &&
      0 < component.levelBasedCap then
    ["XPOverCap "
      ++ (if component.isPlayer then component.playerName else component.name)
      ++ " xp: " ++ str (component.uncapped addExpAmount howMuch)
      ++ " - origXp: " ++ str howMuch ++ " - cap: " ++ str (component.cap type)
      ++ " level: " ++ toString component.characterLevel
      ++ " levelBasedCap: " ++ str component.levelBasedCap
      ++ " multipliers: " ++ str (component.multipliers type)]
  else
    []

end StatusComponent

/-! ## Calls and what they do -/

/-- A call of `AddExperience`, with the calls which its original makes. -/
structure Award where
  component : StatusComponent
  howMuch : ℚ
  bShareWithTribe : Bool
  type : EXPType
  nested : List Award

/-- A call of the hook from its entry to its return. -/
structure Invocation where
  component : StatusComponent
  howMuch : ℚ
  bShareWithTribe : Bool
  type : EXPType
  /-- `addExpAmount` at the entry. -/
  entered : ℚ
  log : List String
  /-- The amount the original is called with. -/
  passed : ℚ
  nested : List Invocation
  /-- `addExpAmount` at the return. -/
  returned : ℚ

mutual

/-- `Hook_UPrimalCharacterStatusComponent_AddExperience`, with the value of the
global `addExpAmount` before and after it. -/
def hookAddExperience (str : ℚ → String) :
    Award → ℚ → Invocation × ℚ
  | ⟨component, howMuch, bShareWithTribe, type, nested⟩, addExpAmount =>
      let origAddExpAmount := addExpAmount
      let inner := addExperienceOriginal str nested howMuch
      ({ component, howMuch, bShareWithTribe, type,
          entered := addExpAmount,
          log := component.log str addExpAmount howMuch type,
          passed := component.passed addExpAmount howMuch type,
          nested := inner.1,
          returned := origAddExpAmount },
        origAddExpAmount)

/-- The calls which an original makes, one after the other. -/
def addExperienceOriginal (str : ℚ → String) :
    List Award → ℚ → List Invocation × ℚ
  | [], addExpAmount => ([], addExpAmount)
  | award :: awards, addExpAmount =>
      let first := hookAddExperience str award addExpAmount
      let others := addExperienceOriginal str awards first.2
      (first.1 :: others.1, others.2)

end

end SAOmega.Experience
