import SAOmega.Lifecycle.Model
import SAOmega.Support.Overwrite
import SAOmega.WorldSave.Transition

/-!
# What `Unload` leaves behind

`Unload` removes what `Load` has registered, key by key, except that the chat
command is added as "/dumptarget" and removed as "dumptarget".  Nothing cancels
a delayed callback: those which have not fired by then stay with the server.
-/

namespace SAOmega.Lifecycle

open SAOmega.Support

/-! ## The writes of a list of calls -/

def ApiCall.hookWrites : ApiCall → List ((String × Pointer) × Option Unit)
  | .setHook function detour => [((function, detour), some ())]
  | .disableHook function detour => [((function, detour), none)]
  | _ => []

def ApiCall.onTickWrites : ApiCall → List (String × Option Pointer)
  | .addOnTickCallback id callback => [(id, some callback)]
  | .removeOnTickCallback id => [(id, none)]
  | _ => []

def ApiCall.rconWrites : ApiCall → List (String × Option Pointer)
  | .addRconCommand command callback => [(command, some callback)]
  | .removeRconCommand command => [(command, none)]
  | _ => []

def ApiCall.chatWrites : ApiCall → List (String × Option Pointer)
  | .addChatCommand command callback => [(command, some callback)]
  | .removeChatCommand command => [(command, none)]
  | _ => []

section Calls

variable (calls : List ApiCall) (registries : Registries)

theorem hooks_of_calls :
    (calls.foldl Registries.call registries).hooks =
      overwrite Prod.fst Prod.snd registries.hooks
        (calls.flatMap ApiCall.hookWrites) := by
  apply foldl_overwrite Registries.hooks
  intro s call
  cases call <;> rfl

theorem onTickCallbacks_of_calls :
    (calls.foldl Registries.call registries).onTickCallbacks =
      overwrite Prod.fst Prod.snd registries.onTickCallbacks
        (calls.flatMap ApiCall.onTickWrites) := by
  apply foldl_overwrite Registries.onTickCallbacks
  intro s call
  cases call <;> rfl

theorem rconCommands_of_calls :
    (calls.foldl Registries.call registries).rconCommands =
      overwrite Prod.fst Prod.snd registries.rconCommands
        (calls.flatMap ApiCall.rconWrites) := by
  apply foldl_overwrite Registries.rconCommands
  intro s call
  cases call <;> rfl

theorem chatCommands_of_calls :
    (calls.foldl Registries.call registries).chatCommands =
      overwrite Prod.fst Prod.snd registries.chatCommands
        (calls.flatMap ApiCall.chatWrites) := by
  apply foldl_overwrite Registries.chatCommands
  intro s call
  cases call <;> rfl

theorem foreignDelayed_of_calls :
    (calls.foldl Registries.call registries).foreignDelayed =
      registries.foreignDelayed := by
  induction calls generalizing registries with
  | nil => rfl
  | cons call calls ih =>
      rw [List.foldl_cons, ih]
      cases call <;> rfl

theorem registries_of_calls (now : UInt64) (s : State) :
    (calls.foldl (State.call now) s).registries =
      calls.foldl Registries.call s.registries := by
  induction calls generalizing s with
  | nil => rfl
  | cons call calls ih => exact ih _

end Calls

/-! ## What is removed -/

/-- None of the plugin's keys is in use. -/
structure Unregistered (registries : Registries) : Prop where
  hooks : ∀ function detour, detour.isOwn = true →
    registries.hooks (function, detour) = none
  onTick : registries.onTickCallbacks "SA::OnTick" = none
  rcon : registries.rconCommands "SendNotification" = none
  chat : registries.chatCommands "/dumptarget" = none

theorem hookWrites_unload :
    unloadCalls.flatMap ApiCall.hookWrites =
      (loadCalls.flatMap ApiCall.hookWrites).map fun w => (w.1, none) := rfl

theorem hookWrites_isOwn :
    ∀ w ∈ loadCalls.flatMap ApiCall.hookWrites, w.1.2.isOwn = true := by
  decide

theorem onTickWrites_load :
    loadCalls.flatMap ApiCall.onTickWrites =
      [("SA::OnTick", some .onTick)] := rfl

theorem onTickWrites_unload :
    unloadCalls.flatMap ApiCall.onTickWrites =
      (loadCalls.flatMap ApiCall.onTickWrites).map fun w => (w.1, none) := rfl

theorem rconWrites_load :
    loadCalls.flatMap ApiCall.rconWrites =
      [("SendNotification", some .sendNotification)] := rfl

theorem rconWrites_unload :
    unloadCalls.flatMap ApiCall.rconWrites =
      (loadCalls.flatMap ApiCall.rconWrites).map fun w => (w.1, none) := rfl

theorem chatWrites_load :
    loadCalls.flatMap ApiCall.chatWrites =
      [("/dumptarget", some .onDumpTarget)] := rfl

/-- The only keys that `Load` and `Unload` do not agree on. -/
theorem chatWrites_unload :
    unloadCalls.flatMap ApiCall.chatWrites = [("dumptarget", none)] := rfl

/-- The registries which `Unload` restores. -/
structure Restored (before after : Registries) : Prop where
  hooks : after.hooks = before.hooks
  onTick : after.onTickCallbacks = before.onTickCallbacks
  rcon : after.rconCommands = before.rconCommands
  chat : ∀ name, name ≠ "/dumptarget" → name ≠ "dumptarget" →
    after.chatCommands name = before.chatCommands name
  foreignDelayed : after.foreignDelayed = before.foreignDelayed

theorem restored_of_unregistered {registries : Registries}
    (h : Unregistered registries) :
    Restored registries (unloadCalls.foldl Registries.call
      (loadCalls.foldl Registries.call registries)) where
  hooks := by
    rw [hooks_of_calls, hooks_of_calls, hookWrites_unload]
    apply overwrite_undo
    intro w hw
    exact h.hooks w.1.1 w.1.2 (hookWrites_isOwn w hw)
  onTick := by
    rw [onTickCallbacks_of_calls, onTickCallbacks_of_calls,
      onTickWrites_unload]
    apply overwrite_undo
    rw [onTickWrites_load]
    intro w hw
    rw [List.mem_singleton.mp hw]
    exact h.onTick
  rcon := by
    rw [rconCommands_of_calls, rconCommands_of_calls, rconWrites_unload]
    apply overwrite_undo
    rw [rconWrites_load]
    intro w hw
    rw [List.mem_singleton.mp hw]
    exact h.rcon
  chat := by
    intro name hadded hremoved
    rw [chatCommands_of_calls, chatCommands_of_calls, chatWrites_load,
      chatWrites_unload, overwrite_of_forall_ne, overwrite_of_forall_ne]
    · intro w hw
      rw [List.mem_singleton.mp hw]
      exact hadded.symm
    · intro w hw
      rw [List.mem_singleton.mp hw]
      exact hremoved.symm
  foreignDelayed := by rw [foreignDelayed_of_calls, foreignDelayed_of_calls]

/-! ## What stays outstanding -/

abbrev Record := Step State Event (List Effect)

abbrev History := List Record

def Effect.scheduled? : Effect → Option (Delayed Callback)
  | .worldSave (.delayExecute d) => some (d.map .worldSave)
  | .spyglass (.delayExecute d) => some (d.map .use)
  | _ => none

/-- The callbacks the plugin leaves to the timer in a step. -/
def scheduled (r : Record) : List (Delayed Callback) :=
  r.out.filterMap Effect.scheduled?

/-- The callback into the plugin that fires in a step. -/
def fired (r : Record) : List (Delayed Callback) :=
  match r.event with
  | .worldSave ⟨_, .fire d⟩ => [d.map .worldSave]
  | .use d => [d.map .use]
  | .removeItems d => [d.map fun _ => .removeItems]
  | _ => []

variable {contains : String → String → Bool}

/-- The calls into the plugin leave the registries alone. -/
theorem step_registries (s : State) (e : Event) (o : List Effect) (t : State)
    (h : step contains s e = some (o, t)) : t.registries = s.registries := by
  cases e with
  | worldSave e =>
      simp only [step] at h
      split at h
      next =>
        cases h
        rfl
      next => cases h
  | startNewShooterPlayer now playerPawn =>
      cases h
      rfl
  | use d | removeItems d =>
      simp only [step, Option.ite_none_right_eq_some] at h
      obtain ⟨_, heq⟩ := h
      cases heq
      rfl
  | other function =>
      cases h
      rfl

theorem coe_outstanding (s : State) :
    (s.outstanding : Multiset (Delayed Callback)) =
      (s.loot.outstanding : Multiset (Delayed Unit)).map
          (Delayed.map fun _ => .removeItems) +
        (s.spyglass.outstanding : Multiset (Delayed Spyglass.Item)).map
          (Delayed.map .use) +
        (s.worldSave.timer.outstanding :
          Multiset (Delayed WorldSave.Callback)).map
          (Delayed.map .worldSave) := by
  simp only [State.outstanding, Multiset.map_coe, Multiset.coe_add]

theorem scheduled_worldSave (o : List WorldSave.Effect) :
    (o.map Effect.worldSave).filterMap Effect.scheduled? =
      (o.filterMap WorldSave.Effect.scheduled?).map
        (Delayed.map Callback.worldSave) := by
  rw [List.filterMap_map, List.map_filterMap]
  congr 1
  funext x
  cases x <;> rfl

theorem fired_worldSave (s t : State) (e : WorldSave.Event) (o : List Effect)
    (x y : WorldSave.State) (o' : List WorldSave.Effect) :
    fired ⟨s, .worldSave e, o, t⟩ =
      (WorldSave.fired ⟨x, e, o', y⟩).map (Delayed.map Callback.worldSave) := by
  obtain ⟨now, hook⟩ := e
  cases hook with
  | fire d => rfl
  | takeDamage | preLogin | startNewShooterPlayer | broadcast | serverChat
  | saveWorld => rfl

/-- The hook leaves its timer one more callback, or none. -/
theorem hookStartNewShooterPlayer_outstanding (now : UInt64)
    (playerPawn : Option (List Spyglass.Item)) (timer : Timer Spyglass.Item) :
    let called := Spyglass.hookStartNewShooterPlayer now playerPawn timer
    (called.2.outstanding : Multiset (Delayed Spyglass.Item)).map
        (Delayed.map Callback.use) =
      (timer.outstanding : Multiset (Delayed Spyglass.Item)).map
          (Delayed.map Callback.use) +
        ((called.1.map Effect.spyglass).filterMap Effect.scheduled? :
          List (Delayed Callback)) := by
  unfold Spyglass.hookStartNewShooterPlayer
  split
  next => exact (add_zero _).symm
  next =>
    split
    next => exact (add_zero _).symm
    next item _ =>
      simp only [Timer.coe_delayExecute, Multiset.map_add]
      rfl

/-- The callbacks outstanding at the server are those which the plugin has left
there and which have not fired. -/
theorem step_outstanding (s : State) (e : Event) (o : List Effect) (t : State)
    (h : step contains s e = some (o, t)) :
    (t.outstanding : Multiset (Delayed Callback)) +
        (fired ⟨s, e, o, t⟩ : List (Delayed Callback)) =
      s.outstanding + (scheduled ⟨s, e, o, t⟩ : List (Delayed Callback)) := by
  rw [coe_outstanding, coe_outstanding, scheduled]
  cases e with
  | worldSave e =>
      simp only [step] at h
      split at h
      next o' worldSave hstep =>
        cases h
        have hbalance := congrArg (Multiset.map (Delayed.map Callback.worldSave))
          (WorldSave.step_outstanding hstep)
        rw [Multiset.map_add, Multiset.map_add] at hbalance
        rw [fired_worldSave _ _ _ _ s.worldSave worldSave o',
          scheduled_worldSave, ← Multiset.map_coe, ← Multiset.map_coe]
        exact (add_assoc _ _ _).trans
          ((congrArg _ hbalance).trans (add_assoc _ _ _).symm)
      next => cases h
  | startNewShooterPlayer now playerPawn =>
      cases h
      dsimp only
      rw [hookStartNewShooterPlayer_outstanding]
      simp only [fired, Multiset.coe_nil, add_zero]
      abel
  | use d =>
      simp only [step, Option.ite_none_right_eq_some] at h
      obtain ⟨hmem, heq⟩ := h
      cases heq
      have hnone : [Effect.spyglass (.use d.callback)].filterMap
          Effect.scheduled? = [] := rfl
      rw [← Timer.coe_remove hmem, hnone, Multiset.map_add]
      simp only [fired, Multiset.coe_singleton, Multiset.map_singleton,
        Multiset.coe_nil, add_zero]
      abel
  | removeItems d =>
      simp only [step, Option.ite_none_right_eq_some] at h
      obtain ⟨hmem, heq⟩ := h
      cases heq
      have hnone : [Effect.removeItems].filterMap Effect.scheduled? = [] := rfl
      rw [← Timer.coe_remove hmem, hnone, Multiset.map_add]
      simp only [fired, Multiset.coe_singleton, Multiset.map_singleton,
        Multiset.coe_nil, add_zero]
      abel
  | other function =>
      cases h
      rfl

/-! ## The result -/

theorem registries_of_run {registries : Registries} {now : UInt64}
    {history : History} {s : State}
    (h : Run (step contains) (load now registries) history s) :
    s.registries = loadCalls.foldl Registries.call registries := by
  have hload : (load now registries).registries =
      loadCalls.foldl Registries.call registries :=
    registries_of_calls loadCalls now (init registries)
  exact h.invariant
    (fun s e o t hs hstep => (step_registries s e o t hstep).trans hs) hload

/-- `Unload` cancels no callback. -/
theorem outstanding_of_unload (later : UInt64) (s : State) :
    (unload later s).outstanding = s.outstanding := rfl

/-- The chat command that `Load` adds is still there after `Unload`. -/
theorem dumptarget_of_unload {registries : Registries} {now : UInt64}
    (later : UInt64) {history : History} {s : State}
    (h : Run (step contains) (load now registries) history s) :
    (unload later s).registries.chatCommands "/dumptarget" =
      some .onDumpTarget := by
  rw [unload, registries_of_calls, chatCommands_of_calls, chatWrites_unload,
    overwrite_of_forall_ne (by decide), registries_of_run h,
    chatCommands_of_calls, chatWrites_load]
  rfl

/-- After `Load`, any calls into the plugin, and `Unload`, the hooks, the tick
callbacks and the RCON commands are those from before, and so are the chat
commands under other names than the plugin's.  The callbacks into the plugin
which are still outstanding are those it has left to the timer and which have
not fired. -/
theorem unload_restores {registries : Registries}
    (hnone : Unregistered registries) {now later : UInt64} {history : History}
    {s : State} (h : Run (step contains) (load now registries) history s) :
    Restored registries (unload later s).registries ∧
      ((unload later s).outstanding : Multiset (Delayed Callback)) +
          (history.flatMap fired : List (Delayed Callback)) =
        {⟨0, .removeItems, now.toNat⟩} +
          (history.flatMap scheduled : List (Delayed Callback)) := by
  constructor
  · rw [unload, registries_of_calls, registries_of_run h]
    exact restored_of_unregistered hnone
  · rw [outstanding_of_unload, h.balance_items step_outstanding]
    have hload : (load now registries).outstanding =
        [⟨0, .removeItems, now.toNat + 0⟩] := rfl
    rw [hload, add_zero, Multiset.coe_singleton]

/-- A server on which nothing is registered. -/
def bareServer : Registries where
  hooks _ := none
  onTickCallbacks _ := none
  rconCommands _ := none
  chatCommands _ := none
  foreignDelayed := []

theorem unregistered_bareServer : Unregistered bareServer where
  hooks _ _ _ := rfl
  onTick := rfl
  rcon := rfl
  chat := rfl

/-- The loot pass runs, and a player with a spyglass spawns. -/
def spawnRun : Option (History × State) :=
  execute (step fun _ _ => false) (load 1700000000 bareServer)
    [.removeItems ⟨0, (), 1700000000⟩,
      .startNewShooterPlayer 1700000100 (some [⟨7, true, false, false⟩])]

theorem unload_restores_spawn :
    let history := (spawnRun.get (by decide)).1
    let s := (spawnRun.get (by decide)).2
    Restored bareServer (unload 1700000101 s).registries ∧
      ((unload 1700000101 s).outstanding : Multiset (Delayed Callback)) +
          (history.flatMap fired : List (Delayed Callback)) =
        {⟨0, .removeItems, (1700000000 : UInt64).toNat⟩} +
          (history.flatMap scheduled : List (Delayed Callback)) :=
  unload_restores unregistered_bareServer (run_of_execute_get (by decide))

/-- The chat command stays registered and the spyglass's callback outstanding. -/
theorem unload_restores_not_everything :
    (¬ ∀ (contains : String → String → Bool) (registries : Registries)
        (now later : UInt64) (history : History) (s : State),
        Unregistered registries →
          Run (step contains) (load now registries) history s →
            (unload later s).registries = registries) ∧
      ¬ ∀ (contains : String → String → Bool) (registries : Registries)
        (now later : UInt64) (history : History) (s : State),
        Unregistered registries →
          Run (step contains) (load now registries) history s →
            (unload later s).outstanding = [] := by
  have hrun : Run (step fun _ _ => false) (load 1700000000 bareServer)
      (spawnRun.get (by decide)).1 (spawnRun.get (by decide)).2 :=
    run_of_execute_get (by decide)
  constructor
  · intro hall
    have hsame := hall _ _ _ 1700000101 _ _ unregistered_bareServer hrun
    have hchat := dumptarget_of_unload 1700000101 hrun
    rw [hsame] at hchat
    cases hchat
  · intro hall
    have hnone := hall _ _ _ 1700000101 _ _ unregistered_bareServer hrun
    exact absurd hnone (by decide)

end SAOmega.Lifecycle
