import SAOmega.Spyglass.Model
import SAOmega.Support.Run

/-!
# Spyglass in a world where items go away

The two hooks of `Plugin/spyglass.cpp` and the delayed callback again, now with
every item and owner that they follow a pointer to, among items which the engine
makes, moves and destroys as it likes.  A hook calls its original before
anything else.
-/

namespace SAOmega.Spyglass

open SAOmega.Support

/-- An actor which has an inventory. -/
structure Owner where
  id : ℕ
  /-- `IsA(AShooterCharacter::StaticClass())`. -/
  isShooterCharacter : Bool
deriving DecidableEq

/-- The items and owners that exist.  An item keeps its number for good, and a
new one gets a number which no item has had. -/
structure World where
  /-- How many items there have been. -/
  created : ℕ
  items : List Item
  owners : List Owner
  /-- Whose inventory the item of that number is in. -/
  ownerOf : ℕ → Option Owner
  id_lt : ∀ item ∈ items, item.id < created
  nodup : (items.map Item.id).Nodup

namespace World

def createItem (w : World) (isSpyGlass bIsEngram bIsBlueprint : Bool)
    (owner : Option Owner) : World where
  created := w.created + 1
  items := w.items ++ [⟨w.created, isSpyGlass, bIsEngram, bIsBlueprint⟩]
  owners := w.owners
  ownerOf := Function.update w.ownerOf w.created owner
  id_lt := by
    intro item hitem
    rcases List.mem_append.mp hitem with hold | hnew
    · exact Nat.lt_succ_of_lt (w.id_lt item hold)
    · rw [List.mem_singleton.mp hnew]
      exact Nat.lt_succ_self _
  nodup := by
    rw [List.map_append]
    apply w.nodup.append (List.nodup_singleton _)
    intro id hold hnew
    obtain ⟨item, hitem, rfl⟩ := List.mem_map.mp hold
    have hid : item.id = w.created := List.mem_singleton.mp hnew
    exact Nat.ne_of_lt (w.id_lt item hitem) hid

def giveItem (w : World) (item : Item) (owner : Option Owner) : World :=
  { w with ownerOf := Function.update w.ownerOf item.id owner }

def destroyItems (w : World) (destroyed : List Item) : World :=
  { w with
    items := w.items.filter fun item => item ∉ destroyed
    id_lt := fun item hitem => w.id_lt item (List.mem_of_mem_filter hitem)
    nodup := w.nodup.sublist (List.filter_sublist.map Item.id) }

def createOwner (w : World) (owner : Owner) : World :=
  { w with owners := w.owners ++ [owner] }

def destroyOwner (w : World) (owner : Owner) : World :=
  { w with owners := w.owners.filter (· ≠ owner) }

/-- The inventory holds items of its owner and nothing else. -/
def IsInventory (w : World) (owner : Owner) (inventoryItems : List Item) :
    Prop :=
  ∀ item ∈ inventoryItems, item ∈ w.items ∧ w.ownerOf item.id = some owner

instance (w : World) (owner : Owner) (inventoryItems : List Item) :
    Decidable (w.IsInventory owner inventoryItems) :=
  inferInstanceAs (Decidable (∀ item ∈ inventoryItems, _ ∧ _))

@[simp] theorem mem_createItem {w : World}
    {isSpyGlass bIsEngram bIsBlueprint : Bool} {owner : Option Owner}
    {item : Item} :
    item ∈ (w.createItem isSpyGlass bIsEngram bIsBlueprint owner).items ↔
      item ∈ w.items ∨
        item = ⟨w.created, isSpyGlass, bIsEngram, bIsBlueprint⟩ := by
  simp [createItem]

@[simp] theorem mem_destroyItems {w : World} {destroyed : List Item}
    {item : Item} :
    item ∈ (w.destroyItems destroyed).items ↔
      item ∈ w.items ∧ item ∉ destroyed := by
  simp [destroyItems]

end World

/-- What the code does, with `none` for a null pointer. -/
inductive Action
  | effect (x : Effect)
  | notifyItemAddedOriginal (item : Option Item)
  /-- `item->` a field or an `IsA`. -/
  | followItem (item : Option Item)
  /-- `owner->IsA`, or the pawn's `MyInventoryComponentField`. -/
  | followOwner (owner : Option Owner)
deriving DecidableEq

/-! ## The hooks -/

/-- The loop of `Hook_AShooterGameMode_StartNewShooterPlayer`. -/
def searchInventory (now : UInt64) (playerPawn : Owner) (timer : Timer Item) :
    List Item → List Action × Timer Item
  | [] => ([], timer)
  | item :: inventoryItems =>
      if !item.isSpyGlass || item.bIsEngram || item.bIsBlueprint then
        let rest := searchInventory now playerPawn timer inventoryItems
        (.followItem (some item) :: rest.1, rest.2)
      else
        ([.followItem (some item), .followOwner (some playerPawn),
            .effect (.deactivateBuffs item),
            .effect (.delayExecute (timer.entry item (now.toNat + 5)))],
          timer.delayExecute item (now.toNat + 5))

/-- `Hook_AShooterGameMode_StartNewShooterPlayer`. -/
def startNewShooterPlayer (now : UInt64)
    (playerPawn : Option (Owner × List Item)) (timer : Timer Item) :
    List Action × Timer Item :=
  match playerPawn with
  | none => ([.effect .startNewShooterPlayerOriginal], timer)
  | some (playerPawn, inventoryItems) =>
      let searched := searchInventory now playerPawn timer inventoryItems
      (.effect .startNewShooterPlayerOriginal ::
          .followOwner (some playerPawn) :: searched.1, searched.2)

/-- `Hook_UPrimalInventoryComponent_NotifyItemAdded`.  Nothing comes after a
null pointer has been followed. -/
def notifyItemAdded (item : Option Item) (owner : Option Owner) : List Action :=
  .notifyItemAddedOriginal item ::
    if item.isNone && owner.isNone then
      []
    else
      .followOwner owner ::
        match owner with
        | none => []
        | some owner =>
            if !owner.isShooterCharacter then
              []
            else
              .followItem item ::
                match item with
                | none => []
                | some item =>
                    if !item.isSpyGlass || item.bIsEngram || item.bIsBlueprint
                    then []
                    else [.effect (.use item)]

theorem Item.skip_eq (item : Item) :
    (!item.isSpyGlass || item.bIsEngram || item.bIsBlueprint) =
      !item.isUsable :=
  (Bool.not_not _).symm

def Action.effect? : Action → Option Effect
  | .effect x => some x
  | _ => none

/-- Without the pointers the hook is the one of the model before. -/
theorem startNewShooterPlayer_effects (now : UInt64)
    (playerPawn : Option (Owner × List Item)) (timer : Timer Item) :
    let hook := startNewShooterPlayer now playerPawn timer
    (hook.1.filterMap Action.effect?, hook.2) =
      hookStartNewShooterPlayer now (playerPawn.map Prod.snd) timer := by
  rcases playerPawn with _ | ⟨playerPawn, inventoryItems⟩
  · rfl
  · induction inventoryItems with
    | nil => rfl
    | cons item inventoryItems ih =>
        cases husable : item.isUsable with
        | false =>
            simpa [startNewShooterPlayer, searchInventory, Item.skip_eq,
              hookStartNewShooterPlayer, husable, List.filterMap_cons,
              Action.effect?] using ih
        | true =>
            simp [startNewShooterPlayer, searchInventory, Item.skip_eq,
              hookStartNewShooterPlayer, husable, List.filterMap_cons,
              Action.effect?]

/-! ## The transition system -/

structure State where
  world : World
  timer : Timer Item

/-- No callback is outstanding in the world as the plugin finds it. -/
def init (world : World) : State := ⟨world, .empty⟩

inductive Event
  | createItem (isSpyGlass bIsEngram bIsBlueprint : Bool)
      (owner : Option Owner)
  | giveItem (item : Item) (owner : Option Owner)
  | destroyItem (item : Item)
  | createOwner (owner : Owner)
  | destroyOwner (owner : Owner)
  /-- A player spawns: its pawn with the inventory, if there is a pawn. -/
  | startNewShooterPlayer (now : UInt64)
      (playerPawn : Option (Owner × List Item))
  /-- An item is added to the inventory of `owner`; the original destroys the
  items `destroyed`. -/
  | notifyItemAdded (item : Option Item) (owner : Option Owner)
      (destroyed : List Item)
  /-- The timer runs a callback. -/
  | fire (d : Delayed Item)
deriving DecidableEq

/-- The engine hands over only what exists. -/
def step (s : State) : Event → Option (List Action × State)
  | .createItem isSpyGlass bIsEngram bIsBlueprint owner =>
      some ([], { s with
        world :=
          s.world.createItem isSpyGlass bIsEngram bIsBlueprint owner })
  | .giveItem item owner =>
      if item ∈ s.world.items then
        some ([], { s with world := s.world.giveItem item owner })
      else none
  | .destroyItem item =>
      if item ∈ s.world.items then
        some ([], { s with world := s.world.destroyItems [item] })
      else none
  | .createOwner owner =>
      some ([], { s with world := s.world.createOwner owner })
  | .destroyOwner owner =>
      some ([], { s with world := s.world.destroyOwner owner })
  | .startNewShooterPlayer now playerPawn =>
      if ∀ pawn ∈ playerPawn,
          pawn.1 ∈ s.world.owners ∧ s.world.IsInventory pawn.1 pawn.2 then
        let hook := startNewShooterPlayer now playerPawn s.timer
        some (hook.1, { s with timer := hook.2 })
      else none
  | .notifyItemAdded item owner destroyed =>
      if (∀ x ∈ item, x ∈ s.world.items) ∧ ∀ x ∈ owner, x ∈ s.world.owners then
        some (notifyItemAdded item owner,
          { s with world := s.world.destroyItems destroyed })
      else none
  | .fire d =>
      if d ∈ s.timer.outstanding then
        some ([.effect (.use d.callback)],
          { s with timer := s.timer.remove d })
      else none

abbrev Record := Step State Event (List Action)

/-- The steps of a run, oldest first. -/
abbrev History := List Record

end SAOmega.Spyglass
