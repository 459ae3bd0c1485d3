import SAOmega.Support.Run
import SAOmega.Support.Timer
import Mathlib.Data.Rat.Defs
import Mathlib.Data.Int.ModEq

/-!
# World saves

`Plugin/worldsave.cpp`: the hooks that rate-limit world saves, the callbacks
they schedule, and the chat messages that switch the shutdown mode.  All of it
runs on the game thread, one hook or callback after the other.

`FString::Contains` belongs to the engine and is the parameter `contains`.
-/

namespace SAOmega.WorldSave

open SAOmega.Support

/-- The three callbacks which the module passes to `DelayExecute`. -/
inductive Callback
  /-- Scheduled by `Hook_AShooterGameMode_StartNewShooterPlayer`. -/
  | playerSpawn
  /-- Scheduled by `Hook_AShooterGameMode_SaveWorld` when it defers a save. -/
  | deferredSave
  /-- Scheduled by `Hook_AShooterGameMode_SaveWorld` when it admits a save. -/
  | immediateSave
deriving DecidableEq

/-- The global variables of the module, `shuttingDown` of `saomega.cpp`, and
the callbacks which the server has yet to run. -/
structure State where
  lastDmg : UInt64
  lastSave : UInt64
  hasPendingSave : Bool
  pendingForceSave : Bool
  shuttingDown : Bool
  timer : Timer Callback
deriving DecidableEq

def init : State where
  lastDmg := 0
  lastSave := 0
  hasPendingSave := false
  pendingForceSave := false
  shuttingDown := false
  timer := .empty

/-- What the hooks do besides changing the variables, in order. -/
inductive Effect
  | takeDamageOriginal
  /-- `*ErrorMessage` is overwritten and the login goes no further. -/
  | setErrorMessage (text : String)
  | preLoginOriginal (errorMessage : String)
  | startNewShooterPlayerOriginal
  | serverChatOriginal (msg : String)
  | saveWorldDisableTransfer
  | saveWorldOriginal (forceWaitOnSave : Bool)
  | logInfo (text : String)
  | sendNotificationToAll (color : ℕ × ℕ × ℕ × ℕ) (scale time : ℚ)
      (text : String)
  | delayExecute (d : Delayed Callback)
deriving DecidableEq

/-- A call of one of the hooks by the engine, or of a callback by its timer. -/
inductive Hook
  /-- The base level of the dino and, if there is a damage causer, its team. -/
  | takeDamage (base : ℤ) (damageCauser : Option ℤ)
  | preLogin (errorMessage : String)
  | startNewShooterPlayer (playerPawn isFromLogin : Bool)
  | broadcast (msg : String)
  | serverChat (msg : String)
  | saveWorld (forceWaitOnSave : Bool)
  | fire (d : Delayed Callback)
deriving DecidableEq

/-- A hook call together with the reading of `timestamp()` during it. -/
structure Event where
  now : UInt64
  hook : Hook
deriving DecidableEq

/-! ## The hooks -/

/-- `static_cast<int>` of a `uint64_t`. -/
def staticCastInt (x : UInt64) : ℤ := (x.toNat : ℤ).bmod (2 ^ 32)

def saveRate : UInt64 := 60 * 5

def dmgRate : UInt64 := 60

/-- `DELAYEXECUTE(callback, delay)` at the time `now`. -/
def State.delayExecute (s : State) (now : UInt64) (callback : Callback)
    (delay : ℤ) : List Effect × State :=
  ([.delayExecute (s.timer.entry callback (now.toNat + delay))],
    { s with timer := s.timer.delayExecute callback (now.toNat + delay) })

/-- `Hook_APrimalDinoCharacter_TakeDamage`. -/
def hookTakeDamage (now : UInt64) (base : ℤ) (damageCauser : Option ℤ)
    (s : State) : List Effect × State :=
  if base == 1 && damageCauser.any fun targetingTeam => 50000 ≤ targetingTeam then
    ([.takeDamageOriginal], { s with lastDmg := now })
  else
    ([.takeDamageOriginal], s)

def shuttingDownMsg : String :=
  "The server is currently shutting down. Reconnect in a few minutes."

/-- `Hook_AShooterGameMode_PreLogin`. -/
def hookPreLogin (errorMessage : String) (s : State) : List Effect × State :=
  if s.shuttingDown then
    ([.setErrorMessage shuttingDownMsg], s)
  else
    ([.preLoginOriginal errorMessage], s)

/-- `Hook_AShooterGameMode_StartNewShooterPlayer`. -/
def hookStartNewShooterPlayer (now : UInt64) (playerPawn isFromLogin : Bool)
    (s : State) : List Effect × State :=
  if !playerPawn || isFromLogin || now - s.lastSave > 60 * 8 ||
      s.hasPendingSave || s.pendingForceSave then
    ([.startNewShooterPlayerOriginal], s)
  else
    let scheduled :=
      { s with hasPendingSave := true, pendingForceSave := true }.delayExecute
        now .playerSpawn 30
    (.startNewShooterPlayerOriginal :: scheduled.1, scheduled.2)

/-- The end of `Hook_UShooterCheatManager_ServerChat`. -/
def forwardChat (contains : String → String → Bool) (msg : String) :
    List Effect :=
  if !contains msg "A world save is about to be performed" then
    [.serverChatOriginal msg]
  else
    []

/-- `Hook_UShooterCheatManager_ServerChat`.  A save that the engine makes
inside of `SaveWorldDisableTransfer` is a `saveWorld` call of its own: nothing
of the module runs after it in this hook. -/
def hookServerChat (contains : String → String → Bool) (msg : String)
    (s : State) : List Effect × State :=
  if contains msg "will shutdown in 1 minute" then
    (.saveWorldDisableTransfer :: forwardChat contains msg,
      { s with shuttingDown := true })
  else if !s.shuttingDown &&
      contains msg "Server is about to shutdown, performing a world save" then
    (.saveWorldDisableTransfer :: forwardChat contains msg,
      { s with shuttingDown := true })
  else if contains msg "no longer shutting down" then
    ([], { s with shuttingDown := false })
  else if !s.shuttingDown && contains msg "Server shutdown required." then
    (forwardChat contains msg, { s with shuttingDown := true })
  else
    (forwardChat contains msg, s)

/-- `Hook_UShooterCheatManager_Broadcast`. -/
def hookBroadcast (contains : String → String → Bool) (msg : String)
    (s : State) : List Effect × State :=
  hookServerChat contains msg s

/-- `Hook_AShooterGameMode_SaveWorld`. -/
def hookSaveWorld (now : UInt64) (forceWaitOnSave : Bool) (s : State) :
    List Effect × State :=
  let sinceDmg := now - s.lastDmg
  let sinceSave := now - s.lastSave
  if !forceWaitOnSave && !s.shuttingDown && !s.pendingForceSave &&
      sinceSave < 60 * 20 then
    if sinceDmg < dmgRate || sinceSave < saveRate then
      if !s.hasPendingSave && saveRate ≤ sinceSave then
        let scheduled := { s with hasPendingSave := true }.delayExecute now
          .deferredSave (dmgRate.toNat - staticCastInt sinceDmg)
        (.logInfo ("Delaying world save due to boss dmg or last save recently "
            ++ toString now ++ ":" ++ toString sinceDmg ++ ":"
            ++ toString sinceSave) :: scheduled.1,
          scheduled.2)
      else
        ([], s)
    else
      let scheduled :=
        { s with lastSave := now }.delayExecute now .immediateSave 0
      (.sendNotificationToAll (255, 0, 0, 255) 1.1 10
          "Server is performing a world save." :: scheduled.1,
        scheduled.2)
  else
    ([.saveWorldOriginal forceWaitOnSave],
      { s with
        lastSave := now, pendingForceSave := false, hasPendingSave := false })

/-- What the callbacks assign before they call `SaveWorld(false)`. -/
def Callback.assign : Callback → State → State
  | .playerSpawn, s => { s with hasPendingSave := false, pendingForceSave := true }
  | .deferredSave, s => { s with hasPendingSave := false }
  | .immediateSave, s => { s with pendingForceSave := true }

/-- The body of a callback. -/
def Callback.invoke (callback : Callback) (now : UInt64) (s : State) :
    List Effect × State :=
  hookSaveWorld now false (callback.assign s)

def step (contains : String → String → Bool) (s : State) (e : Event) :
    Option (List Effect × State) :=
  match e.hook with
  | .takeDamage base damageCauser =>
      some (hookTakeDamage e.now base damageCauser s)
  | .preLogin errorMessage => some (hookPreLogin errorMessage s)
  | .startNewShooterPlayer playerPawn isFromLogin =>
      some (hookStartNewShooterPlayer e.now playerPawn isFromLogin s)
  | .broadcast msg => some (hookBroadcast contains msg s)
  | .serverChat msg => some (hookServerChat contains msg s)
  | .saveWorld forceWaitOnSave => some (hookSaveWorld e.now forceWaitOnSave s)
  | .fire d =>
      if d ∈ s.timer.outstanding then
        some (d.callback.invoke e.now { s with timer := s.timer.remove d })
      else
        none

end SAOmega.WorldSave
