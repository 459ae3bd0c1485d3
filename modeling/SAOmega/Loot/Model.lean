import Mathlib.Data.Nat.Notation
import Mathlib.Logic.Function.Basic

/-!
# The loot pass

`removeItems` of `Plugin/loot.cpp`: it walks over all objects of the engine and
takes undesired items out of what dinos drop.  The components which it changes
are class default objects, so several dinos may lead to the same one; they are
the cells of a store here, and the pass goes from store to store.

`FString::Contains` belongs to the engine and is the parameter `contains`, and
`TArray::RemoveAll` keeps the elements which do not match, in their order.
-/

namespace SAOmega.Loot

/-- A class of items. -/
structure UClass where
  id : ℕ
  /-- `NameField().ToString()`. -/
  name : String
deriving DecidableEq

structure TSubclassOf where
  uClass : Option UClass
deriving DecidableEq

structure FSupplyCrateItemEntry where
  items : List TSubclassOf
deriving DecidableEq

structure FSupplyCrateItemSet where
  itemEntries : List FSupplyCrateItemEntry
deriving DecidableEq

structure UPrimalInventoryComponent where
  itemSets : List FSupplyCrateItemSet
  additionalItemSets : List FSupplyCrateItemSet
deriving DecidableEq

/-- A death inventory template, with what the pass asks its class. -/
structure UBlueprint (κ : Type*) where
  /-- `GeneratedClassField().uClass->IsChildOf(dinoDropClass)`. -/
  isDinoDrop : Bool
  /-- `GeneratedClassField().uClass->ClassDefaultObjectField()`. -/
  component : κ
deriving DecidableEq

/-- What the pass asks an object of the array. -/
structure UObject (κ : Type*) where
  address : ℕ
  isValidLowLevelFast : Bool
  /-- `ClassField()->ClassDefaultObjectField()`. -/
  classDefaultObject : ℕ
  /-- `IsA(APrimalDinoCharacter::StaticClass())`. -/
  isDino : Bool
  /-- `DeathInventoryTemplatesField().AssociatedObjects`. -/
  deathInventoryTemplates : List (UBlueprint κ)
deriving DecidableEq

/-- The texts of `shouldFilter`. -/
def filteredTexts : List String :=
  ["_ApexDrop_", "RecipeNote_", "PrimalItemCostume_", "PrimalItemSkin_",
    "PrimalItemArmor_Cloth", "PrimalItemArmor_Hide", "PrimalItemArmor_Fur",
    "PrimalItemArmor_Chitin", "PrimalItemArmor_Metal", "PrimalItemArmor_Scuba",
    "PrimalItemConsumable_Berry", "PrimalItem_WeaponStone",
    "PrimalItem_WeaponMetal", "PrimalItem_WeaponGPS",
    "PrimalItem_WeaponCompass", "PrimalItem_WeaponSickle",
    "PrimalItem_WeaponBow_", "PrimalItem_WeaponTorch_",
    "PrimalItem_WeaponCrossBow_", "PrimalItem_WeaponBoomerang",
    "PrimalItem_WeaponMachined", "PrimalItem_WeaponGun",
    "PrimalItem_WeaponPike", "PrimalItem_WeaponGrenade",
    "PrimalItem_WeaponProd_", "PrimalItem_WeaponSpear",
    "PrimalItem_WeaponSlingshot", "_NamelessVenom_", "_Wishbone_"]

/-- `TArray::RemoveAll`. -/
def removeAll {α : Type*} (predicate : α → Bool) (items : List α) : List α :=
  items.filter fun item => !predicate item

variable (contains : String → String → Bool)

def shouldFilter (name : String) : Bool :=
  filteredTexts.any fun text => contains name text

/-- `RemoveUndesiredItems::operator()`. -/
def removeUndesiredItems (item : TSubclassOf) : Bool :=
  match item.uClass with
  | none => false
  | some uClass => shouldFilter contains uClass.name

/-- The two inner loops, over the sets and their entries. -/
def cleanSets (sets : List FSupplyCrateItemSet) : List FSupplyCrateItemSet :=
  sets.map fun set =>
    { set with
      itemEntries := set.itemEntries.map fun entry =>
        { entry with
          items := removeAll (removeUndesiredItems contains) entry.items } }

def cleanComponent (component : UPrimalInventoryComponent) :
    UPrimalInventoryComponent where
  itemSets := cleanSets contains component.itemSets
  additionalItemSets := cleanSets contains component.additionalItemSets

variable {κ : Type*} [DecidableEq κ]

/-- The loop over the templates of a dino. -/
def cleanTemplates :
    List (UBlueprint κ) → (κ → UPrimalInventoryComponent) →
      κ → UPrimalInventoryComponent
  | [], components => components
  | bp :: templates, components =>
      if !bp.isDinoDrop then
        cleanTemplates templates components
      else
        cleanTemplates templates (Function.update components bp.component
          (cleanComponent contains (components bp.component)))

/-- `removeItems`, on the objects from some index of the array on. -/
def removeItems :
    List (Option (UObject κ)) → (κ → UPrimalInventoryComponent) →
      κ → UPrimalInventoryComponent
  | [], components => components
  | none :: objects, components => removeItems objects components
  | some obj :: objects, components =>
      if !obj.isValidLowLevelFast then
        removeItems objects components
      else if obj.address ≠ obj.classDefaultObject then
        removeItems objects components
      else if !obj.isDino then
        removeItems objects components
      else
        removeItems objects
          (cleanTemplates contains obj.deathInventoryTemplates components)

end SAOmega.Loot
