import SAOmega.Loot.Model
import SAOmega.Support.InPlace

/-!
# What the loot pass leaves

The pass is a loop which rewrites components in place, and cleaning a component
a second time changes nothing.
-/

namespace SAOmega.Loot

open SAOmega.Support

variable {contains : String → String → Bool} {κ : Type*}

/-! ## Cleaning a component -/

theorem cleanSets_cleanSets (sets : List FSupplyCrateItemSet) :
    cleanSets contains (cleanSets contains sets) = cleanSets contains sets := by
  simp [cleanSets, removeAll]

theorem cleanComponent_cleanComponent (component : UPrimalInventoryComponent) :
    cleanComponent contains (cleanComponent contains component) =
      cleanComponent contains component := by
  simp [cleanComponent, cleanSets_cleanSets]

/-- The class of the item is there and its name passes the filter. -/
def Undesired (contains : String → String → Bool) (item : TSubclassOf) : Prop :=
  ∃ uClass, item.uClass = some uClass ∧
    shouldFilter contains uClass.name = true

theorem removeUndesiredItems_iff {item : TSubclassOf} :
    removeUndesiredItems contains item = true ↔ Undesired contains item := by
  unfold removeUndesiredItems Undesired
  split
  next hnone => simp [hnone]
  next uClass hsome => simp [hsome]

instance (item : TSubclassOf) : Decidable (Undesired contains item) :=
  decidable_of_iff _ removeUndesiredItems_iff

/-- The items of the entry without the undesired ones. -/
def EntryCleaned (contains : String → String → Bool)
    (before after : FSupplyCrateItemEntry) : Prop :=
  after.items = before.items.filter fun item => ¬ Undesired contains item

def SetCleaned (contains : String → String → Bool)
    (before after : FSupplyCrateItemSet) : Prop :=
  List.Forall₂ (EntryCleaned contains) before.itemEntries after.itemEntries

/-- The same sets with the same entries, each of them cleaned. -/
structure ComponentCleaned (contains : String → String → Bool)
    (before after : UPrimalInventoryComponent) : Prop where
  itemSets :
    List.Forall₂ (SetCleaned contains) before.itemSets after.itemSets
  additionalItemSets :
    List.Forall₂ (SetCleaned contains) before.additionalItemSets
      after.additionalItemSets

theorem removeAll_undesired (items : List TSubclassOf) :
    removeAll (removeUndesiredItems contains) items =
      items.filter fun item => ¬ Undesired contains item := by
  apply List.filter_congr
  intro item _
  simp [← removeUndesiredItems_iff]

theorem cleanSets_cleaned (sets : List FSupplyCrateItemSet) :
    List.Forall₂ (SetCleaned contains) sets (cleanSets contains sets) := by
  rw [cleanSets, List.forall₂_map_right_iff, List.forall₂_same]
  intro set _
  rw [SetCleaned, List.forall₂_map_right_iff, List.forall₂_same]
  intro entry _
  exact removeAll_undesired entry.items

theorem cleanComponent_cleaned (component : UPrimalInventoryComponent) :
    ComponentCleaned contains component (cleanComponent contains component) :=
  ⟨cleanSets_cleaned component.itemSets,
    cleanSets_cleaned component.additionalItemSets⟩

/-! ## The loops as one loop -/

/-- The object is not skipped. -/
def UObject.isDinoCDO (obj : UObject κ) : Bool :=
  obj.isValidLowLevelFast && obj.address == obj.classDefaultObject && obj.isDino

def UObject.dropComponents (obj : UObject κ) : List κ :=
  (obj.deathInventoryTemplates.filter UBlueprint.isDinoDrop).map
    UBlueprint.component

/-- The components which the pass comes to, in its order. -/
def visited (objects : List (Option (UObject κ))) : List κ :=
  ((objects.filterMap id).filter UObject.isDinoCDO).flatMap
    UObject.dropComponents

/-- A template of a dino leads to the component. -/
def Reached (objects : List (Option (UObject κ))) (component : κ) : Prop :=
  ∃ obj, some obj ∈ objects ∧ obj.isValidLowLevelFast = true ∧
    obj.address = obj.classDefaultObject ∧ obj.isDino = true ∧
    ∃ bp ∈ obj.deathInventoryTemplates, bp.isDinoDrop = true ∧
      bp.component = component

theorem mem_dropComponents {obj : UObject κ} {component : κ} :
    component ∈ obj.dropComponents ↔
      ∃ bp ∈ obj.deathInventoryTemplates, bp.isDinoDrop = true ∧
        bp.component = component := by
  simp [UObject.dropComponents, and_assoc]

theorem isDinoCDO_iff {obj : UObject κ} :
    obj.isDinoCDO = true ↔ obj.isValidLowLevelFast = true ∧
      obj.address = obj.classDefaultObject ∧ obj.isDino = true := by
  simp [UObject.isDinoCDO, and_assoc]

theorem mem_visited {objects : List (Option (UObject κ))} {component : κ} :
    component ∈ visited objects ↔ Reached objects component := by
  simp only [visited, Reached, List.mem_flatMap, List.mem_filter,
    List.mem_filterMap, id, exists_eq_right, isDinoCDO_iff, mem_dropComponents,
    and_assoc]

theorem visited_some (obj : UObject κ) (objects : List (Option (UObject κ))) :
    visited (some obj :: objects) =
      (if obj.isDinoCDO then obj.dropComponents else []) ++ visited objects := by
  have hsome : (some obj :: objects).filterMap id = obj :: objects.filterMap id :=
    rfl
  unfold visited
  rw [hsome, List.filter_cons]
  split
  · rw [List.flatMap_cons]
  · rfl

variable [DecidableEq κ]

theorem cleanTemplates_eq (templates : List (UBlueprint κ))
    (components : κ → UPrimalInventoryComponent) :
    cleanTemplates contains templates components =
      rewrite (cleanComponent contains) components
        ((templates.filter UBlueprint.isDinoDrop).map UBlueprint.component) := by
  induction templates generalizing components with
  | nil => rfl
  | cons bp templates ih =>
      rw [cleanTemplates]
      cases hdrop : bp.isDinoDrop with
      | false =>
          rw [if_pos (by rfl), ih, List.filter_cons_of_neg (by simp [hdrop])]
      | true =>
          rw [if_neg (by simp), ih, List.filter_cons_of_pos hdrop]
          rfl

/-- The three tests of the loop are one. -/
theorem removeItems_some (obj : UObject κ) (objects : List (Option (UObject κ)))
    (components : κ → UPrimalInventoryComponent) :
    removeItems contains (some obj :: objects) components =
      removeItems contains objects
        (if obj.isDinoCDO then
          cleanTemplates contains obj.deathInventoryTemplates components
        else components) := by
  rw [removeItems]
  by_cases hdino : obj.isDinoCDO = true
  · obtain ⟨hvalid, hdefault, hclass⟩ := isDinoCDO_iff.mp hdino
    rw [if_pos hdino, if_neg (by simp [hvalid]), if_neg (by simp [hdefault]),
      if_neg (by simp [hclass])]
  · rw [if_neg hdino]
    split
    next => rfl
    next hvalid =>
      split
      next => rfl
      next hdefault =>
        split
        next => rfl
        next hclass =>
          exact (hdino (isDinoCDO_iff.mpr ⟨by simpa using hvalid,
            by simpa using hdefault, by simpa using hclass⟩)).elim

theorem removeItems_eq (objects : List (Option (UObject κ)))
    (components : κ → UPrimalInventoryComponent) :
    removeItems contains objects components =
      rewrite (cleanComponent contains) components (visited objects) := by
  induction objects generalizing components with
  | nil => rfl
  | cons obj? objects ih =>
      cases obj? with
      | none => exact ih components
      | some obj =>
          rw [removeItems_some, visited_some, rewrite_append, ih]
          split
          next => rw [cleanTemplates_eq, UObject.dropComponents]
          next => rfl

/-! ## The result -/

/-- The pass cleans the components which a dino's template leads to and no
others, in whatever order the objects are, and once and for all. -/
theorem loot_pass (contains : String → String → Bool)
    (objects : List (Option (UObject κ)))
    (components : κ → UPrimalInventoryComponent) :
    (∀ component, Reached objects component →
      ComponentCleaned contains (components component)
        (removeItems contains objects components component)) ∧
      (∀ component, ¬ Reached objects component →
        removeItems contains objects components component =
          components component) ∧
      (∀ objects', objects'.Perm objects →
        removeItems contains objects' components =
          removeItems contains objects components) ∧
      removeItems contains objects (removeItems contains objects components) =
        removeItems contains objects components := by
  have hidem : ∀ component,
      cleanComponent contains (cleanComponent contains component) =
        cleanComponent contains component :=
    cleanComponent_cleanComponent
  simp only [removeItems_eq, ← mem_visited]
  refine ⟨?_, ?_, ?_, ?_⟩
  · intro component hreached
    rw [rewrite_of_mem hidem hreached]
    exact cleanComponent_cleaned (components component)
  · intro component hreached
    exact rewrite_of_notMem hreached
  · intro objects' hperm
    apply rewrite_congr hidem
    intro component
    simp only [mem_visited, Reached, hperm.mem_iff]
  · exact rewrite_rewrite hidem

/-- `Contains` on texts in one case. -/
def isInfix (name text : String) : Bool :=
  name.toList.tails.any fun rest => text.toList.isPrefixOf rest

def entryOf (names : List String) : FSupplyCrateItemEntry :=
  ⟨⟨none⟩ :: names.mapIdx fun id name => ⟨some ⟨id, name⟩⟩⟩

/-- A component for dinos and one for beacons. -/
def stock (dino : Bool) : UPrimalInventoryComponent :=
  if dino then
    ⟨[⟨[entryOf ["PrimalItemSkin_Bear_C", "PrimalItemResource_Hide_C"]]⟩],
      [⟨[entryOf ["PrimalItemResource_Hide_C", "PrimalItemArmor_HideBoots_C"]]⟩]⟩
  else
    ⟨[⟨[entryOf ["PrimalItemSkin_Bear_C"]]⟩], []⟩

/-- Two dinos with the same component, an instance of one of them, and a beacon
with a component of its own. -/
def herd : List (Option (UObject Bool)) :=
  [some ⟨1, true, 1, true, [⟨true, true⟩, ⟨true, true⟩]⟩, none,
    some ⟨2, true, 1, true, [⟨true, false⟩]⟩,
    some ⟨3, true, 3, true, [⟨false, false⟩, ⟨true, true⟩]⟩,
    some ⟨4, true, 4, false, [⟨true, false⟩]⟩]

theorem loot_pass_herd :
    ComponentCleaned isInfix (stock true) (removeItems isInfix herd stock true) ∧
      removeItems isInfix herd stock false = stock false ∧
      removeItems isInfix herd.reverse stock = removeItems isInfix herd stock := by
  obtain ⟨hcleaned, hkept, horder, _⟩ := loot_pass isInfix herd stock
  refine ⟨hcleaned true ?_, hkept false ?_, horder _ herd.reverse_perm⟩
  · simp [Reached, herd]
  · simp [Reached, herd]

example : removeItems isInfix herd stock true =
    ⟨[⟨[⟨[⟨none⟩, ⟨some ⟨1, "PrimalItemResource_Hide_C"⟩⟩]⟩]⟩],
      [⟨[⟨[⟨none⟩, ⟨some ⟨0, "PrimalItemResource_Hide_C"⟩⟩]⟩]⟩]⟩ := by
  decide +kernel

end SAOmega.Loot
