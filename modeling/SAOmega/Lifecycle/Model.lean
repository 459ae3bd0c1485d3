import SAOmega.Spyglass.Model
import SAOmega.WorldSave.Model

/-!
# Loading and unloading the plugin

`Load` and `Unload` of `Plugin/saomega.cpp` and of its six modules: what they
register with the server and remove from it, and what the plugin leaves to the
server's timer in between.
-/

namespace SAOmega.Lifecycle

open SAOmega.Support

/-- The namespaces of the plugin; `sa` is `saomega.cpp` itself. -/
inductive Module
  | breeding | spyglass | loot | experience | commands | worldSave | sa
deriving DecidableEq

/-- A function that can be registered. -/
inductive Pointer
  /-- `&Hook_className_functionName` in the namespace of a module. -/
  | hook (module : Module) (className functionName : String)
  | onTick
  | sendNotification
  | onDumpTarget
  /-- A function of the server or of another plugin. -/
  | foreign (address : ℕ)
deriving DecidableEq

def Pointer.isOwn : Pointer → Bool
  | .foreign _ => false
  | _ => true

/-- What the plugin leaves to the server's timer. -/
inductive Callback
  | removeItems
  | use (item : Spyglass.Item)
  | worldSave (callback : WorldSave.Callback)
deriving DecidableEq

/-! ## The server -/

/-- What the server has been given, apart from the plugin's own delayed
callbacks. -/
structure Registries where
  hooks : String × Pointer → Option Unit
  onTickCallbacks : String → Option Pointer
  rconCommands : String → Option Pointer
  chatCommands : String → Option Pointer
  /-- The delayed callbacks of others. -/
  foreignDelayed : List ℕ

structure State where
  registries : Registries
  /-- The delayed callbacks of `Loot`, which captures nothing. -/
  loot : Timer Unit
  /-- The delayed callbacks of `Spyglass`, with the item they capture. -/
  spyglass : Timer Spyglass.Item
  worldSave : WorldSave.State

def init (registries : Registries) : State where
  registries := registries
  loot := .empty
  spyglass := .empty
  worldSave := WorldSave.init

/-- The plugin's callbacks which the server has yet to run. -/
def State.outstanding (s : State) : List (Delayed Callback) :=
  s.loot.outstanding.map (Delayed.map fun _ => .removeItems) ++
    s.spyglass.outstanding.map (Delayed.map .use) ++
    s.worldSave.timer.outstanding.map (Delayed.map .worldSave)

/-- The calls of `Load` and `Unload` into the API of the server. -/
inductive ApiCall
  | setHook (function : String) (detour : Pointer)
  | disableHook (function : String) (detour : Pointer)
  | addOnTickCallback (id : String) (callback : Pointer)
  | removeOnTickCallback (id : String)
  | addRconCommand (command : String) (callback : Pointer)
  | removeRconCommand (command : String)
  | addChatCommand (command : String) (callback : Pointer)
  | removeChatCommand (command : String)
  /-- `DelayExecute(&removeItems, delay)`. -/
  | delayRemoveItems (delay : ℤ)
deriving DecidableEq

def Registries.call (s : Registries) : ApiCall → Registries
  | .setHook function detour =>
      { s with hooks := Function.update s.hooks (function, detour) (some ()) }
  | .disableHook function detour =>
      { s with hooks := Function.update s.hooks (function, detour) none }
  | .addOnTickCallback id callback =>
      { s with
        onTickCallbacks :=
          Function.update s.onTickCallbacks id (some callback) }
  | .removeOnTickCallback id =>
      { s with onTickCallbacks := Function.update s.onTickCallbacks id none }
  | .addRconCommand command callback =>
      { s with
        rconCommands :=
          Function.update s.rconCommands command (some callback) }
  | .removeRconCommand command =>
      { s with rconCommands := Function.update s.rconCommands command none }
  | .addChatCommand command callback =>
      { s with
        chatCommands :=
          Function.update s.chatCommands command (some callback) }
  | .removeChatCommand command =>
      { s with chatCommands := Function.update s.chatCommands command none }
  | .delayRemoveItems _ => s

def State.call (now : UInt64) (s : State) (call : ApiCall) : State :=
  { s with
    registries := s.registries.call call
    loot :=
      match call with
      | .delayRemoveItems delay => s.loot.delayExecute () (now.toNat + delay)
      | _ => s.loot }

/-! ## The modules -/

/-- `SET_HOOK(className, functionName)` in a module. -/
def setHook (module : Module) (className functionName : String) : ApiCall :=
  .setHook (className ++ "." ++ functionName)
    (.hook module className functionName)

/-- `DISABLE_HOOK(className, functionName)` in a module. -/
def disableHook (module : Module) (className functionName : String) :
    ApiCall :=
  .disableHook (className ++ "." ++ functionName)
    (.hook module className functionName)

def Breeding.load : List ApiCall :=
  [setHook .breeding "APrimalDinoCharacter" "DoMate",
    setHook .breeding "APrimalDinoCharacter" "BeginPlay",
    setHook .breeding "APrimalDinoCharacter" "UpdateBabyCuddling"]

def Breeding.unload : List ApiCall :=
  [disableHook .breeding "APrimalDinoCharacter" "DoMate",
    disableHook .breeding "APrimalDinoCharacter" "BeginPlay",
    disableHook .breeding "APrimalDinoCharacter" "UpdateBabyCuddling"]

def Spyglass.load : List ApiCall :=
  [setHook .spyglass "AShooterGameMode" "StartNewShooterPlayer",
    setHook .spyglass "UPrimalInventoryComponent" "NotifyItemAdded"]

def Spyglass.unload : List ApiCall :=
  [disableHook .spyglass "AShooterGameMode" "StartNewShooterPlayer",
    disableHook .spyglass "UPrimalInventoryComponent" "NotifyItemAdded"]

def Loot.load : List ApiCall := [.delayRemoveItems 0]

def Loot.unload : List ApiCall := []

def Experience.load : List ApiCall :=
  [setHook .experience "UPrimalCharacterStatusComponent" "AddExperience"]

def Experience.unload : List ApiCall :=
  [disableHook .experience "UPrimalCharacterStatusComponent" "AddExperience"]

def Commands.load : List ApiCall :=
  [.addRconCommand "SendNotification" .sendNotification,
    .addChatCommand "/dumptarget" .onDumpTarget]

def Commands.unload : List ApiCall :=
  [.removeRconCommand "SendNotification",
    .removeChatCommand "dumptarget"]

def WorldSave.load : List ApiCall :=
  [setHook .worldSave "APrimalDinoCharacter" "TakeDamage",
    setHook .worldSave "AShooterGameMode" "PreLogin",
    setHook .worldSave "AShooterGameMode" "SaveWorld",
    setHook .worldSave "UShooterCheatManager" "ServerChat",
    setHook .worldSave "UShooterCheatManager" "Broadcast",
    setHook .worldSave "AShooterGameMode" "StartNewShooterPlayer"]

def WorldSave.unload : List ApiCall :=
  [disableHook .worldSave "APrimalDinoCharacter" "TakeDamage",
    disableHook .worldSave "AShooterGameMode" "PreLogin",
    disableHook .worldSave "AShooterGameMode" "SaveWorld",
    disableHook .worldSave "UShooterCheatManager" "ServerChat",
    disableHook .worldSave "UShooterCheatManager" "Broadcast",
    disableHook .worldSave "AShooterGameMode" "StartNewShooterPlayer"]

/-- The API calls of `Load`. -/
def loadCalls : List ApiCall :=
  [.addOnTickCallback "SA::OnTick" .onTick] ++ Breeding.load ++
    Spyglass.load ++ Loot.load ++ Experience.load ++ Commands.load ++
    WorldSave.load ++
    [setHook .sa "APrimalCharacter" "TakeDamage",
      setHook .sa "AShooterGameMode" "BeginPlay",
      setHook .sa "AShooterGameMode" "AreTribesAllied",
      setHook .sa "AShooterPlayerState" "IsAlliedWith",
      setHook .sa "APrimalCharacter" "IsAlliedWithOtherTeam",
      setHook .sa "FEngineLoop" "Exit"]

/-- The API calls of `Unload`. -/
def unloadCalls : List ApiCall :=
  [.removeOnTickCallback "SA::OnTick"] ++ Breeding.unload ++
    Spyglass.unload ++ Loot.unload ++ Experience.unload ++ Commands.unload ++
    WorldSave.unload ++
    [disableHook .sa "APrimalCharacter" "TakeDamage",
      disableHook .sa "AShooterGameMode" "BeginPlay",
      disableHook .sa "AShooterGameMode" "AreTribesAllied",
      disableHook .sa "AShooterPlayerState" "IsAlliedWith",
      disableHook .sa "APrimalCharacter" "IsAlliedWithOtherTeam",
      disableHook .sa "FEngineLoop" "Exit"]

def load (now : UInt64) (registries : Registries) : State :=
  loadCalls.foldl (State.call now) (init registries)

/-- `WorldSave::Unload` sets `shuttingDown` as well. -/
def unload (now : UInt64) (s : State) : State :=
  unloadCalls.foldl (State.call now)
    { s with worldSave := { s.worldSave with shuttingDown := true } }

/-! ## Between the two -/

/-- The calls of the server into the plugin. -/
inductive Event
  | worldSave (e : WorldSave.Event)
  /-- `Spyglass`: `Hook_AShooterGameMode_StartNewShooterPlayer`. -/
  | startNewShooterPlayer (now : UInt64)
      (playerPawn : Option (List Spyglass.Item))
  /-- The callback of `Spyglass` fires. -/
  | use (d : Delayed Spyglass.Item)
  /-- The callback of `Loot` fires. -/
  | removeItems (d : Delayed Unit)
  /-- A hook or command which gives nothing to the server: those of `Breeding`,
  `Experience`, `Commands` and `saomega.cpp`, and `NotifyItemAdded`. -/
  | other (function : Pointer)
deriving DecidableEq

inductive Effect
  | worldSave (x : WorldSave.Effect)
  | spyglass (x : Spyglass.Effect)
  | removeItems
deriving DecidableEq

def step (contains : String → String → Bool) (s : State) :
    Event → Option (List Effect × State)
  | .worldSave e =>
      match SAOmega.WorldSave.step contains s.worldSave e with
      | some (o, worldSave) =>
          some (o.map .worldSave, { s with worldSave := worldSave })
      | none => none
  | .startNewShooterPlayer now playerPawn =>
      let called :=
        SAOmega.Spyglass.hookStartNewShooterPlayer now playerPawn s.spyglass
      some (called.1.map .spyglass, { s with spyglass := called.2 })
  | .use d =>
      if d ∈ s.spyglass.outstanding then
        some ([.spyglass (.use d.callback)],
          { s with spyglass := s.spyglass.remove d })
      else
        none
  | .removeItems d =>
      if d ∈ s.loot.outstanding then
        some ([.removeItems], { s with loot := s.loot.remove d })
      else
        none
  | .other _ => some ([], s)

end SAOmega.Lifecycle
