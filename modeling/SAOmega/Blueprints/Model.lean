import SAOmega.Support.Run
import Mathlib.Logic.Function.Basic

/-!
# Blueprint classes

`Helpers/BlueprintCache.h`, and the four variables of `Plugin/spyglass.cpp` and
`Plugin/loot.cpp` which read the caches.  They are static variables of functions:
the first call that comes to the declaration initialises the variable, and no
later one does.

`UVictoryCore::BPLoadClass` belongs to the engine.  It answers a class, of type
`κ`, or a null pointer, and not always the same.
-/

namespace SAOmega.Blueprints

open SAOmega.Support

/-- The objects of type `BlueprintCache`. -/
inductive Blueprint
  | spyGlassBuffBlueprint
  | spyGlassBlueprint
  /-- Of `Plugin/loot.cpp`. -/
  | bpPath
deriving DecidableEq

def Blueprint.path : Blueprint → String
  | .spyGlassBuffBlueprint =>
      "Blueprint'/Game/Mods/AwesomeSpyglass/AwesomeSpyGlass_Buff.AwesomeSpyGlass_Buff'"
  | .spyGlassBlueprint =>
      "Blueprint'/Game/Mods/AwesomeSpyglass/PrimalItem_AwesomeSpyGlass.PrimalItem_AwesomeSpyGlass'"
  | .bpPath =>
      "Blueprint'/Game/PrimalEarth/CoreBlueprints/Inventories/DinoDropInventoryComponent_BP_Base.DinoDropInventoryComponent_BP_Base'"

/-- The static variables. -/
inductive Site
  /-- `spyGlassBuffClass` of `Hook_AShooterGameMode_StartNewShooterPlayer`. -/
  | spawnBuffClass
  /-- `spyGlassClass` of `Hook_AShooterGameMode_StartNewShooterPlayer`. -/
  | spawnClass
  /-- `spyGlassClass` of `Hook_UPrimalInventoryComponent_NotifyItemAdded`. -/
  | addedClass
  /-- `dinoDropClass` of `removeItems`. -/
  | dinoDropClass
deriving DecidableEq

/-- The cache which the variable is initialised from. -/
def Site.blueprint : Site → Blueprint
  | .spawnBuffClass => .spyGlassBuffBlueprint
  | .spawnClass | .addedClass => .spyGlassBlueprint
  | .dinoDropClass => .bpPath

structure BlueprintCache (κ : Type*) where
  path : String
  /-- `none` is the null pointer. -/
  cls : Option κ
deriving DecidableEq

inductive Effect (κ : Type*)
  /-- `UVictoryCore::BPLoadClass(&path)` with its answer. -/
  | bpLoadClass (path : String) (answer : Option κ)
deriving DecidableEq

variable {κ : Type*}

/-- `BlueprintCache::Get`, when `BPLoadClass` would give `answer`. -/
def BlueprintCache.get (answer : Option κ) (cache : BlueprintCache κ) :
    List (Effect κ) × Option κ × BlueprintCache κ :=
  match cache.cls with
  | none =>
      ([.bpLoadClass cache.path answer], answer, { cache with cls := answer })
  | some cls => ([], some cls, cache)

theorem BlueprintCache.get_path (answer : Option κ)
    (cache : BlueprintCache κ) : (cache.get answer).2.2.path = cache.path := by
  unfold BlueprintCache.get
  split
  next => rfl
  next => rfl

structure State (κ : Type*) where
  cache : Blueprint → BlueprintCache κ
  /-- `none` before the declaration has been reached. -/
  statics : Site → Option (Option κ)
  path_eq : ∀ b, (cache b).path = b.path

/-- The caches have static storage, so their `cls` starts as a null pointer
although no constructor sets it. -/
def init (κ : Type*) : State κ where
  cache b := ⟨b.path, none⟩
  statics _ := none
  path_eq _ := rfl

/-- `static auto cls = blueprint.Get();` -/
def declare (site : Site) (answer : Option κ) (s : State κ) :
    List (Effect κ) × State κ :=
  match s.statics site with
  | some _ => ([], s)
  | none =>
      let result := (s.cache site.blueprint).get answer
      (result.1,
        { cache := Function.update s.cache site.blueprint result.2.2
          statics := Function.update s.statics site (some result.2.1)
          path_eq := by
            intro b
            by_cases heq : b = site.blueprint
            · subst heq
              rw [Function.update_self, BlueprintCache.get_path, s.path_eq]
            · rw [Function.update_of_ne heq, s.path_eq] })

/-- A call comes to the declaration of a static variable. -/
structure Event (κ : Type*) where
  site : Site
  answer : Option κ
deriving DecidableEq

/-- The hooks are called in any order. -/
def step (s : State κ) (e : Event κ) : Option (List (Effect κ) × State κ) :=
  some (declare e.site e.answer s)

/-- The steps of a run, oldest first. -/
abbrev History (κ : Type*) :=
  List (Step (State κ) (Event κ) (List (Effect κ)))

/-! ## What a step can do -/

inductive Transition (s : State κ) (e : Event κ) :
    List (Effect κ) → State κ → Prop
  | initialised {v : Option κ} (hstatic : s.statics e.site = some v) :
      Transition s e [] s
  | cached {c : κ} {t : State κ} (hstatic : s.statics e.site = none)
      (hcls : (s.cache e.site.blueprint).cls = some c)
      (hcache : ∀ b, (t.cache b).cls = (s.cache b).cls)
      (hstatics : t.statics =
        Function.update s.statics e.site (some (some c))) :
      Transition s e [] t
  | loads {t : State κ} (hstatic : s.statics e.site = none)
      (hcls : (s.cache e.site.blueprint).cls = none)
      (hcache : ∀ b, (t.cache b).cls =
        if b = e.site.blueprint then e.answer else (s.cache b).cls)
      (hstatics : t.statics =
        Function.update s.statics e.site (some e.answer)) :
      Transition s e [.bpLoadClass e.site.blueprint.path e.answer] t

theorem transition_of_step {s t : State κ} {e : Event κ} {o : List (Effect κ)}
    (h : step s e = some (o, t)) : Transition s e o t := by
  obtain ⟨site, answer⟩ := e
  simp only [step, declare, Option.some.injEq] at h
  split at h
  next v hstatic =>
    cases h
    exact .initialised hstatic
  next hstatic =>
    cases hcls : (s.cache site.blueprint).cls with
    | none =>
        simp only [BlueprintCache.get, hcls, s.path_eq] at h
        cases h
        refine .loads hstatic hcls (fun b => ?_) rfl
        by_cases heq : b = site.blueprint
        · subst heq
          simp
        · simp [heq]
    | some c =>
        simp only [BlueprintCache.get, hcls] at h
        cases h
        refine .cached hstatic hcls (fun b => ?_) rfl
        by_cases heq : b = site.blueprint
        · subst heq
          simp
        · simp [heq]

end SAOmega.Blueprints
