import Mathlib.Data.Int.ModEq
import Mathlib.Logic.Function.Basic

/-!
# Breeding

The mating hook of `Plugin/breeding.cpp`.  It takes the mutation rolls away from
both parents for the time of the original `DoMate`, and gives them back.

What `DoMate` does to the dinos belongs to the engine and is the parameter
`original`.
-/

namespace SAOmega.Breeding

/-- The fields of an `APrimalDinoCharacter` which the hook uses. -/
structure Dino where
  maxAllowedRandomMutations : Int32
  randomMutationsMale : Int32
  randomMutationsFemale : Int32
  randomMutationRolls : Int32
  dinoNameTag : String
  descriptiveName : String
deriving DecidableEq

/-- `getDinoName` of `Plugin/util.cpp`. -/
def getDinoName (dino : Dino) : String :=
  dino.dinoNameTag ++ "(" ++ dino.descriptiveName ++ ")"

variable {δ : Type*}

/-- What the hook does besides writing fields, in order. -/
inductive Effect (δ : Type*)
  | logInfo (text : String)
  /-- The call of the original, with the dinos as it finds them. -/
  | doMateOriginal (femaleDino maleDino : δ) (dinos : δ → Dino)

/-- `totalNextMutations`, in the arithmetic of `int`. -/
def totalNextMutations (female male : Dino) : Int32 :=
  let femaleCount := female.randomMutationsMale + female.randomMutationsFemale
  let maleCount := male.randomMutationsMale + male.randomMutationsFemale
  maleCount + femaleCount

variable [DecidableEq δ]

/-- `RandomMutationRollsField() = rolls`. -/
def setRolls (dinos : δ → Dino) (dino : δ) (rolls : Int32) : δ → Dino :=
  Function.update dinos dino { dinos dino with randomMutationRolls := rolls }

/-- `Hook_APrimalDinoCharacter_DoMate` up to the call of the original. -/
def limitRolls (femaleDino maleDino : δ) (dinos : δ → Dino) :
    List (Effect δ) × (δ → Dino) :=
  let female := dinos femaleDino
  let male := dinos maleDino
  let max := female.maxAllowedRandomMutations
  let total := totalNextMutations female male
  if female.randomMutationRolls == 3 && male.randomMutationRolls == 3 then
    ([], setRolls (setRolls dinos femaleDino 0) maleDino 0)
  else if max ≤ total then
    ([.logInfo ("Mating Mutations " ++ toString total.toInt ++ " max "
        ++ toString max.toInt ++ " for " ++ getDinoName female)],
      setRolls (setRolls dinos femaleDino 0) maleDino 0)
  else
    ([], dinos)

/-- `Hook_APrimalDinoCharacter_DoMate`. -/
def hookDoMate (original : δ → δ → (δ → Dino) → δ → Dino)
    (femaleDino maleDino : δ) (dinos : δ → Dino) :
    List (Effect δ) × (δ → Dino) :=
  let limited := limitRolls femaleDino maleDino dinos
  let mated := original femaleDino maleDino limited.2
  (limited.1 ++ [.doMateOriginal femaleDino maleDino limited.2],
    setRolls (setRolls mated femaleDino (dinos femaleDino).randomMutationRolls)
      maleDino (dinos maleDino).randomMutationRolls)

end SAOmega.Breeding
