import SAOmega.Support.Timer

/-!
# Spyglass

`Plugin/spyglass.cpp`: the hook that finds the spyglass in the inventory of a
spawned player, and the callback that uses it five seconds later.
-/

namespace SAOmega.Spyglass

open SAOmega.Support

/-- What the hook asks an item of the inventory. -/
structure Item where
  id : ℕ
  /-- `IsA(spyGlassClass)`. -/
  isSpyGlass : Bool
  bIsEngram : Bool
  bIsBlueprint : Bool
deriving DecidableEq

/-- The items the loop does not `continue` over. -/
def Item.isUsable (item : Item) : Bool :=
  !(!item.isSpyGlass || item.bIsEngram || item.bIsBlueprint)

inductive Effect
  | startNewShooterPlayerOriginal
  /-- `playerPawn->DeactivateBuffs(spyGlassBuffClass, item, true)`. -/
  | deactivateBuffs (item : Item)
  /-- `API::Timer::Get().DelayExecute` of `item->Use(true)`. -/
  | delayExecute (d : Delayed Item)
  /-- `item->Use(true)`. -/
  | use (item : Item)
deriving DecidableEq

/-- `Hook_AShooterGameMode_StartNewShooterPlayer`: the inventory of the player's
pawn, if there is a pawn. -/
def hookStartNewShooterPlayer (now : UInt64)
    (playerPawn : Option (List Item)) (timer : Timer Item) :
    List Effect × Timer Item :=
  match playerPawn with
  | none => ([.startNewShooterPlayerOriginal], timer)
  | some inventoryItems =>
      match inventoryItems.find? Item.isUsable with
      | none => ([.startNewShooterPlayerOriginal], timer)
      | some item =>
          ([.startNewShooterPlayerOriginal, .deactivateBuffs item,
              .delayExecute (timer.entry item (now.toNat + 5))],
            timer.delayExecute item (now.toNat + 5))

end SAOmega.Spyglass
