import SAOmega.Commands.Model
import Mathlib.Data.Int.Notation

/-!
# The command line and the alliances

Two parts of `Plugin/saomega.cpp` without a state of their own: how `Load` finds
the key of the server, and the three hooks which ally every tribe of players
with the one of the admins.

`Contains` and `RemoveFromStart` of `FString` belong to the engine and are the
parameters `contains` and `removeFromStart`, which answers the rest of the text
if there was something to remove.
-/

namespace SAOmega.Plugin

open SAOmega.Commands (FString)

/-! ## The key of the server -/

def serverKeyParam : FString := "-serverkey=".toList

section ServerKey

variable (contains : FString → FString → Bool)
  (removeFromStart : FString → FString → Option FString)

/-- The loop over `argv`; `serverKey` is what `ServerKey` holds so far. -/
def findServerKey (serverKey : FString) : List FString → FString
  | [] => serverKey
  | arg :: argv =>
      if contains arg serverKeyParam then
        match removeFromStart arg serverKeyParam with
        | some rest => rest
        | none => findServerKey serverKey argv
      else
        findServerKey serverKey argv

/-- The block of `Load`, on what `CommandLineToArgvW` gives. -/
def readServerKey (serverKey : FString) (argv : Option (List FString)) :
    FString :=
  match argv with
  | none => serverKey
  | some argv => findServerKey contains removeFromStart serverKey argv

variable {contains removeFromStart}

/-- The first argument that starts with the parameter counts, and asking before
whether it contains the parameter makes no difference. -/
theorem findServerKey_eq
    (hcontains : ∀ arg rest, removeFromStart arg serverKeyParam = some rest →
      contains arg serverKeyParam = true)
    (serverKey : FString) (argv : List FString) :
    findServerKey contains removeFromStart serverKey argv =
      (argv.findSome? fun arg => removeFromStart arg serverKeyParam).getD
        serverKey := by
  induction argv with
  | nil => rfl
  | cons arg argv ih =>
      rw [findServerKey, List.findSome?_cons]
      split
      next =>
        split
        next rest hrest => rw [hrest]; rfl
        next hnone => rw [hnone, ih]
      next hmissing =>
        have hnone : removeFromStart arg serverKeyParam = none := by
          cases hremove : removeFromStart arg serverKeyParam with
          | none => rfl
          | some rest => exact (hmissing (hcontains arg rest hremove)).elim
        rw [hnone, ih]

/-- The key which the server is started with is the one that `Load` finds. -/
theorem readServerKey_of_param
    (hcontains : ∀ arg rest, removeFromStart arg serverKeyParam = some rest →
      contains arg serverKeyParam = true)
    (hremove : ∀ text,
      removeFromStart (serverKeyParam ++ text) serverKeyParam = some text)
    (serverKey key : FString) {before : List FString}
    (hbefore : ∀ arg ∈ before, removeFromStart arg serverKeyParam = none)
    (after : List FString) :
    readServerKey contains removeFromStart serverKey
      (some (before ++ (serverKeyParam ++ key) :: after)) = key := by
  have hnone :
      before.findSome? (fun arg => removeFromStart arg serverKeyParam) =
        none :=
    List.findSome?_eq_none_iff.mpr hbefore
  rw [readServerKey, findServerKey_eq hcontains, List.findSome?_append, hnone,
    List.findSome?_cons, hremove]
  rfl

end ServerKey

/-! ## Alliances -/

def adminTribeId : ℤ := 1830631037

def isEitherAdminTribe (tribe1 tribe2 : ℤ) : Bool :=
  50000 ≤ tribe1 && 50000 ≤ tribe2 && tribe1 != tribe2 &&
    (tribe1 == adminTribeId || tribe2 == adminTribeId)

/-- What the three hooks do, for an object which stands for `tribe1`. -/
def hookAllied {α : Type*} (tribe1 : α → ℤ) (original : α → ℤ → Bool)
    (object : α) (tribe2 : ℤ) : Bool :=
  if isEitherAdminTribe (tribe1 object) tribe2 then true
  else original object tribe2

/-- The functions of the engine; `π` are the player states and `γ` the
characters, each with its `TargetingTeamField()`. -/
structure Alliances (π γ : Type*) where
  playerTeam : π → ℤ
  characterTeam : γ → ℤ
  areTribesAllied : ℤ → ℤ → Bool
  isAlliedWith : π → ℤ → Bool
  isAlliedWithOtherTeam : γ → ℤ → Bool

variable {π γ : Type*}

def hookAreTribesAllied (original : ℤ → ℤ → Bool) : ℤ → ℤ → Bool :=
  hookAllied id original

def hookIsAlliedWith (team : π → ℤ) (original : π → ℤ → Bool) :
    π → ℤ → Bool :=
  hookAllied team original

def hookIsAlliedWithOtherTeam (team : γ → ℤ) (original : γ → ℤ → Bool) :
    γ → ℤ → Bool :=
  hookAllied team original

/-- The functions with the hooks of the plugin. -/
def Alliances.hooked (engine : Alliances π γ) : Alliances π γ :=
  { engine with
    areTribesAllied := hookAreTribesAllied engine.areTribesAllied
    isAlliedWith := hookIsAlliedWith engine.playerTeam engine.isAlliedWith
    isAlliedWithOtherTeam :=
      hookIsAlliedWithOtherTeam engine.characterTeam
        engine.isAlliedWithOtherTeam }

/-- Alliances are mutual, and everybody is told the same about them. -/
structure Alliances.Agree (engine : Alliances π γ) : Prop where
  symm : ∀ tribe1 tribe2, engine.areTribesAllied tribe1 tribe2 =
    engine.areTribesAllied tribe2 tribe1
  player : ∀ player tribe, engine.isAlliedWith player tribe =
    engine.areTribesAllied (engine.playerTeam player) tribe
  character : ∀ character tribe,
    engine.isAlliedWithOtherTeam character tribe =
      engine.areTribesAllied (engine.characterTeam character) tribe

theorem isEitherAdminTribe_iff {tribe1 tribe2 : ℤ} :
    isEitherAdminTribe tribe1 tribe2 = true ↔
      50000 ≤ tribe1 ∧ 50000 ≤ tribe2 ∧ tribe1 ≠ tribe2 ∧
        (tribe1 = adminTribeId ∨ tribe2 = adminTribeId) := by
  simp [isEitherAdminTribe, and_assoc]

theorem isEitherAdminTribe_symm (tribe1 tribe2 : ℤ) :
    isEitherAdminTribe tribe1 tribe2 = isEitherAdminTribe tribe2 tribe1 := by
  have hswap : ∀ {tribe1 tribe2 : ℤ},
      isEitherAdminTribe tribe1 tribe2 = true →
        isEitherAdminTribe tribe2 tribe1 = true := by
    intro tribe1 tribe2 h
    obtain ⟨h₁, h₂, hne, hadmin⟩ := isEitherAdminTribe_iff.mp h
    exact isEitherAdminTribe_iff.mpr ⟨h₂, h₁, hne.symm, hadmin.symm⟩
  exact Bool.eq_iff_iff.mpr ⟨hswap, hswap⟩

/-- The three hooks change the answers together. -/
theorem Alliances.Agree.hooked {engine : Alliances π γ} (h : engine.Agree) :
    engine.hooked.Agree where
  symm tribe1 tribe2 := by
    simp only [Alliances.hooked, hookAreTribesAllied, hookAllied, id,
      isEitherAdminTribe_symm tribe1 tribe2, h.symm tribe1 tribe2]
  player player tribe := by
    simp only [Alliances.hooked, hookIsAlliedWith, hookAreTribesAllied,
      hookAllied, id]
    rw [h.player]
  character character tribe := by
    simp only [Alliances.hooked, hookIsAlliedWithOtherTeam,
      hookAreTribesAllied, hookAllied, id]
    rw [h.character]

end SAOmega.Plugin
