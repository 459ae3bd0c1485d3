import SAOmega.Spyglass.World

/-!
# Which pointers of the spyglass hooks are good

The delayed callback captures a bare pointer, and the notification asks for
`!item && !owner` where it needs either to be enough.  So the plugin follows
good pointers exactly as long as the engine destroys no captured item and sends
no notification which passes that guard with a null pointer behind it.
-/

namespace SAOmega.Spyglass

open SAOmega.Support

/-! ## Safety -/

/-- What the action follows exists, and `Use` gets a spyglass. -/
def Action.Safe (w : World) : Action → Prop
  | .followItem item => ∃ x ∈ item, x ∈ w.items
  | .followOwner owner => ∃ x ∈ owner, x ∈ w.owners
  | .effect (.use item) =>
      item ∈ w.items ∧ item.isSpyGlass = true ∧ item.bIsEngram = false ∧
        item.bIsBlueprint = false
  | .effect (.deactivateBuffs item) => item ∈ w.items
  | _ => True

/-- Every step followed good pointers, at the time of its accesses. -/
def Sound (history : History) : Prop :=
  ∀ r ∈ history, ∀ a ∈ r.out, a.Safe r.post.world

/-- An outstanding callback would follow a good pointer. -/
def State.CanFire (s : State) : Prop :=
  ∀ d o t, step s (.fire d) = some (o, t) → ∀ a ∈ o, a.Safe t.world

/-- An outstanding callback has captured the item. -/
def State.Captured (s : State) (item : Item) : Prop :=
  ∃ d ∈ s.timer.outstanding, d.callback = item

/-- The guard of the notification leaves only pointers which are good once the
original has destroyed its items: a null owner comes with a null item, and a
character with an item that still exists. -/
def GuardSuffices (item : Option Item) (destroyed : List Item) :
    Option Owner → Prop
  | none => item = none
  | some owner =>
      owner.isShooterCharacter = true → ∃ x ∈ item, x ∉ destroyed

/-- What the engine would have to respect. -/
def Event.Harmless (s : State) : Event → Prop
  | .destroyItem item => ¬ s.Captured item
  | .notifyItemAdded item owner destroyed =>
      GuardSuffices item destroyed owner ∧ ∀ x ∈ destroyed, ¬ s.Captured x
  | _ => True

instance (w : World) : DecidablePred (Action.Safe w)
  | .followItem _ | .followOwner _ =>
      inferInstanceAs (Decidable (∃ _ ∈ _, _))
  | .effect (.use _) => inferInstanceAs (Decidable (_ ∧ _ ∧ _ ∧ _))
  | .effect (.deactivateBuffs _) => inferInstanceAs (Decidable (_ ∈ _))
  | .effect .startNewShooterPlayerOriginal | .effect (.delayExecute _)
  | .notifyItemAddedOriginal _ => .isTrue trivial

instance (history : History) : Decidable (Sound history) :=
  inferInstanceAs (Decidable (∀ r ∈ history, ∀ a ∈ r.out, a.Safe r.post.world))

instance (item : Option Item) (destroyed : List Item) :
    DecidablePred (GuardSuffices item destroyed)
  | none => inferInstanceAs (Decidable (item = none))
  | some _ => inferInstanceAs (Decidable (_ → ∃ _ ∈ _, _))

instance (s : State) (item : Item) : Decidable (s.Captured item) :=
  inferInstanceAs (Decidable (∃ d ∈ s.timer.outstanding, d.callback = item))

instance (s : State) : DecidablePred (Event.Harmless s)
  | .destroyItem _ => inferInstanceAs (Decidable (¬ _))
  | .notifyItemAdded _ _ _ => inferInstanceAs (Decidable (_ ∧ ∀ _ ∈ _, ¬ _))
  | .createItem .. | .giveItem .. | .createOwner _ | .destroyOwner _
  | .startNewShooterPlayer .. | .fire _ => .isTrue trivial

/-! ## What one step does -/

theorem isUsable_iff {item : Item} :
    item.isUsable = true ↔
      item.isSpyGlass = true ∧ item.bIsEngram = false ∧
        item.bIsBlueprint = false := by
  simp [Item.isUsable, and_assoc]

theorem safe_use_iff {w : World} {item : Item} :
    (Action.effect (.use item)).Safe w ↔
      item ∈ w.items ∧ item.isUsable = true := by
  rw [isUsable_iff]
  rfl

/-- The captured items exist. -/
def Live (s : State) : Prop :=
  ∀ d ∈ s.timer.outstanding, d.callback ∈ s.world.items

/-- Callbacks capture spyglasses which have existed. -/
structure Captures (s : State) : Prop where
  usable : ∀ d ∈ s.timer.outstanding, d.callback.isUsable = true
  id_lt : ∀ d ∈ s.timer.outstanding, d.callback.id < s.world.created

theorem captures_init (w : World) : Captures (init w) where
  usable := by simp [init, Timer.empty]
  id_lt := by simp [init, Timer.empty]

theorem live_init (w : World) : Live (init w) := by
  simp [Live, init, Timer.empty]

/-- The hook follows good pointers, and what it may add to the timer is a usable
item that exists. -/
structure Spawned (w : World) (timer : Timer Item)
    (hook : List Action × Timer Item) : Prop where
  safe : ∀ a ∈ hook.1, a.Safe w
  timer_eq : hook.2 = timer ∨ ∃ item ∈ w.items, ∃ due,
    item.isUsable = true ∧ hook.2 = timer.delayExecute item due

theorem searchInventory_spec {w : World} (now : UInt64) {playerPawn : Owner}
    (timer : Timer Item) {inventoryItems : List Item}
    (howner : playerPawn ∈ w.owners)
    (hitems : ∀ item ∈ inventoryItems, item ∈ w.items) :
    Spawned w timer
      (searchInventory now playerPawn timer inventoryItems) := by
  induction inventoryItems with
  | nil => exact ⟨by simp [searchInventory], .inl rfl⟩
  | cons item inventoryItems ih =>
      have hitem : item ∈ w.items := hitems item List.mem_cons_self
      have hrest := ih fun x hx => hitems x (List.mem_cons_of_mem _ hx)
      rw [searchInventory, Item.skip_eq]
      cases husable : item.isUsable with
      | false =>
          refine ⟨?_, hrest.timer_eq⟩
          intro a ha
          rcases List.mem_cons.mp ha with rfl | ha
          · exact ⟨item, rfl, hitem⟩
          · exact hrest.safe a ha
      | true =>
          refine ⟨?_, .inr ⟨item, hitem, _, husable, rfl⟩⟩
          simp [Action.Safe, hitem, howner]

theorem startNewShooterPlayer_spec {w : World} (now : UInt64)
    {playerPawn : Option (Owner × List Item)} (timer : Timer Item)
    (hpawn : ∀ pawn ∈ playerPawn,
      pawn.1 ∈ w.owners ∧ w.IsInventory pawn.1 pawn.2) :
    Spawned w timer (startNewShooterPlayer now playerPawn timer) := by
  rcases playerPawn with _ | ⟨playerPawn, inventoryItems⟩
  · refine ⟨?_, .inl rfl⟩
    intro a ha
    rw [List.mem_singleton.mp ha]
    trivial
  · obtain ⟨howner, hinventory⟩ := hpawn _ rfl
    have hsearch := searchInventory_spec now timer howner
      fun item hitem => (hinventory item hitem).1
    refine ⟨?_, hsearch.timer_eq⟩
    intro a ha
    rcases List.mem_cons.mp ha with rfl | ha
    · trivial
    · rcases List.mem_cons.mp ha with rfl | ha
      · exact ⟨playerPawn, rfl, howner⟩
      · exact hsearch.safe a ha

/-- Past the guard the hook follows the owner, and with a character the item. -/
theorem notifyItemAdded_safe_iff {w : World} {item : Option Item}
    {owner : Option Owner} {destroyed : List Item}
    (hitem : ∀ x ∈ item, x ∈ w.items) (howner : ∀ x ∈ owner, x ∈ w.owners) :
    (∀ a ∈ notifyItemAdded item owner, a.Safe (w.destroyItems destroyed)) ↔
      GuardSuffices item destroyed owner := by
  rcases owner with _ | owner
  · cases item <;> simp [notifyItemAdded, GuardSuffices, Action.Safe]
  · have hexists : owner ∈ (w.destroyItems destroyed).owners :=
      howner owner rfl
    by_cases hcharacter : owner.isShooterCharacter = true
    · rcases item with _ | item
      · simp [notifyItemAdded, GuardSuffices, Action.Safe, hcharacter]
      · have hlive : item ∈ w.items := hitem item rfl
        cases husable : item.isUsable with
        | false =>
            simp [notifyItemAdded, Item.skip_eq, GuardSuffices, Action.Safe,
              hcharacter, hexists, hlive, husable]
        | true =>
            simp [notifyItemAdded, GuardSuffices, Action.Safe, hcharacter,
              hexists, hlive, isUsable_iff.mp husable]
    · simp [notifyItemAdded, GuardSuffices, Action.Safe, hcharacter, hexists]

/-! ## Steps and runs -/

theorem live_destroyItems {s : State} {destroyed : List Item} :
    Live { s with world := s.world.destroyItems destroyed } ↔
      Live s ∧ ∀ x ∈ destroyed, ¬ s.Captured x := by
  constructor
  · intro hlive
    refine ⟨fun d hd => (World.mem_destroyItems.mp (hlive d hd)).1, ?_⟩
    rintro x hx ⟨d, hd, rfl⟩
    exact (World.mem_destroyItems.mp (hlive d hd)).2 hx
  · rintro ⟨hlive, hkept⟩ d hd
    exact World.mem_destroyItems.mpr
      ⟨hlive d hd, fun hx => hkept _ hx ⟨d, hd, rfl⟩⟩

/-- A new item is none of those which a callback has captured before. -/
theorem live_createItem {s : State} (hs : Captures s)
    {isSpyGlass bIsEngram bIsBlueprint : Bool} {owner : Option Owner} :
    Live { s with
        world := s.world.createItem isSpyGlass bIsEngram bIsBlueprint owner } ↔
      Live s := by
  constructor
  · intro hlive d hd
    rcases World.mem_createItem.mp (hlive d hd) with hold | hnew
    · exact hold
    · have hlt : d.callback.id < s.world.created := hs.id_lt d hd
      rw [hnew] at hlt
      exact (Nat.lt_irrefl _ hlt).elim
  · intro hlive d hd
    exact World.mem_createItem.mpr (.inl (hlive d hd))

theorem live_delayExecute {s : State} {item : Item} {due : ℤ}
    (hitem : item ∈ s.world.items) :
    Live { s with timer := s.timer.delayExecute item due } ↔ Live s := by
  constructor
  · intro hlive d hd
    exact hlive d (Timer.mem_delayExecute.mpr (.inl hd))
  · intro hlive d hd
    rcases Timer.mem_delayExecute.mp hd with hold | rfl
    · exact hlive d hold
    · exact hitem

theorem live_remove {s : State} {d : Delayed Item}
    (hd : d ∈ s.timer.outstanding) :
    Live s ↔ Live { s with timer := s.timer.remove d } ∧
      d.callback ∈ s.world.items := by
  constructor
  · intro hlive
    exact ⟨fun x hx => hlive x (Timer.mem_remove.mp hx).2, hlive d hd⟩
  · rintro ⟨hlive, hitem⟩ x hx
    by_cases hxd : x = d
    · rw [hxd]
      exact hitem
    · exact hlive x (Timer.mem_remove.mpr ⟨hxd, hx⟩)

/-- Items only get new numbers, and the timer new callbacks only for usable items
that exist. -/
structure Grows (s t : State) : Prop where
  created_le : s.world.created ≤ t.world.created
  outstanding : ∀ d ∈ t.timer.outstanding,
    d ∈ s.timer.outstanding ∨
      (d.callback.isUsable = true ∧ d.callback ∈ s.world.items)

theorem grows_of_step {s t : State} {e : Event} {o : List Action}
    (h : step s e = some (o, t)) : Grows s t := by
  cases e with
  | createItem =>
      cases h
      exact ⟨Nat.le_succ _, fun _ hd => .inl hd⟩
  | createOwner | destroyOwner =>
      cases h
      exact ⟨le_rfl, fun _ hd => .inl hd⟩
  | giveItem | destroyItem | notifyItemAdded =>
      simp only [step, Option.ite_none_right_eq_some] at h
      obtain ⟨_, h⟩ := h
      cases h
      exact ⟨le_rfl, fun _ hd => .inl hd⟩
  | startNewShooterPlayer now playerPawn =>
      simp only [step, Option.ite_none_right_eq_some] at h
      obtain ⟨hpawn, h⟩ := h
      cases h
      refine ⟨le_rfl, ?_⟩
      obtain ⟨_, hsame | ⟨item, hitem, _, husable, hnew⟩⟩ :=
        startNewShooterPlayer_spec now s.timer hpawn
      · rw [hsame]
        exact fun _ hd => .inl hd
      · rw [hnew]
        intro d hd
        rcases Timer.mem_delayExecute.mp hd with hold | rfl
        · exact .inl hold
        · exact .inr ⟨husable, hitem⟩
  | fire d' =>
      simp only [step, Option.ite_none_right_eq_some] at h
      obtain ⟨_, h⟩ := h
      cases h
      exact ⟨le_rfl, fun _ hd => .inl (Timer.mem_remove.mp hd).2⟩

theorem step_captures {s t : State} {e : Event} {o : List Action}
    (hs : Captures s) (h : step s e = some (o, t)) : Captures t where
  usable := by
    intro d hd
    rcases (grows_of_step h).outstanding d hd with hold | ⟨husable, _⟩
    · exact hs.usable d hold
    · exact husable
  id_lt := by
    intro d hd
    have hlt : d.callback.id < s.world.created := by
      rcases (grows_of_step h).outstanding d hd with hold | ⟨_, hitem⟩
      · exact hs.id_lt d hold
      · exact s.world.id_lt _ hitem
    exact Nat.lt_of_lt_of_le hlt (grows_of_step h).created_le

/-- Over one step, the captured items stay and the accesses are good exactly
when the event is harmless. -/
theorem step_safe_iff {s : State} {e : Event} {o : List Action} {t : State}
    (hs : Captures s) (h : step s e = some (o, t)) :
    Live s ∧ e.Harmless s ↔ Live t ∧ ∀ a ∈ o, a.Safe t.world := by
  cases e with
  | createItem isSpyGlass bIsEngram bIsBlueprint owner =>
      cases h
      simpa [Event.Harmless] using (live_createItem hs).symm
  | giveItem item owner =>
      simp only [step, Option.ite_none_right_eq_some] at h
      obtain ⟨_, h⟩ := h
      cases h
      simp [Event.Harmless, Live, World.giveItem]
  | destroyItem item =>
      simp only [step, Option.ite_none_right_eq_some] at h
      obtain ⟨_, h⟩ := h
      cases h
      simp [Event.Harmless, live_destroyItems]
  | createOwner owner =>
      cases h
      simp [Event.Harmless, Live, World.createOwner]
  | destroyOwner owner =>
      cases h
      simp [Event.Harmless, Live, World.destroyOwner]
  | startNewShooterPlayer now playerPawn =>
      simp only [step, Option.ite_none_right_eq_some] at h
      obtain ⟨hpawn, h⟩ := h
      cases h
      obtain ⟨hsafe, htimer⟩ :=
        startNewShooterPlayer_spec now s.timer hpawn
      have hlive :
          Live { s with
              timer := (startNewShooterPlayer now playerPawn s.timer).2 } ↔
            Live s := by
        rcases htimer with hsame | ⟨item, hitem, _, _, hnew⟩
        · rw [hsame]
        · rw [hnew]
          exact live_delayExecute hitem
      simp only [Event.Harmless, and_true, hlive]
      exact (and_iff_left hsafe).symm
  | notifyItemAdded item owner destroyed =>
      simp only [step, Option.ite_none_right_eq_some] at h
      obtain ⟨⟨hitem, howner⟩, h⟩ := h
      cases h
      rw [live_destroyItems, notifyItemAdded_safe_iff hitem howner,
        Event.Harmless]
      tauto
  | fire d =>
      simp only [step, Option.ite_none_right_eq_some] at h
      obtain ⟨hd, h⟩ := h
      cases h
      have husable := hs.usable d hd
      simp [Event.Harmless, safe_use_iff, live_remove hd, husable]

theorem run_captures {w : World} {history : History} {s : State}
    (h : Run step (init w) history s) : Captures s :=
  h.invariant (fun _ _ _ _ hs hstep => step_captures hs hstep)
    (captures_init w)

theorem canFire_iff {s : State} (hs : Captures s) : s.CanFire ↔ Live s := by
  constructor
  · intro hfire d hd
    have hstep : step s (.fire d) = some ([.effect (.use d.callback)],
        { s with timer := s.timer.remove d }) := by
      rw [step, if_pos hd]
    exact (hfire d _ _ hstep _ List.mem_cons_self).1
  · intro hlive d o t hstep
    exact ((step_safe_iff hs hstep).mp ⟨hlive, trivial⟩).2

/-- The accesses of a run were good, and the captured items are still there,
exactly when all its events are harmless. -/
theorem harmless_iff {w : World} {history : History} {s : State}
    (h : Run step (init w) history s) :
    (∀ r ∈ history, r.event.Harmless r.pre) ↔ Sound history ∧ Live s := by
  induction h with
  | nil => simp [Sound, live_init]
  | @snoc history t u e o hrun hstep ih =>
      have hlast := step_safe_iff (run_captures hrun) hstep
      simp only [Sound, List.forall_mem_append, List.forall_mem_singleton]
        at ih ⊢
      rw [ih, and_assoc, hlast]
      tauto

/-- The hooks and callbacks of a run follow good pointers, and the callbacks it
leaves would, exactly when all its events are harmless. -/
theorem pointers_good_iff {w : World} {history : History} {s : State}
    (h : Run step (init w) history s) :
    (∀ r ∈ history, r.event.Harmless r.pre) ↔ Sound history ∧ s.CanFire := by
  rw [canFire_iff (run_captures h)]
  exact harmless_iff h

/-- A run which leaves no callback behind has followed good pointers exactly when
all its events are harmless. -/
theorem sound_iff_of_settled {w : World} {history : History} {s : State}
    (h : Run step (init w) history s) (hsettled : s.timer.outstanding = []) :
    (∀ r ∈ history, r.event.Harmless r.pre) ↔ Sound history := by
  have hlive : Live s := by
    intro d hd
    rw [hsettled] at hd
    cases hd
  rw [harmless_iff h]
  exact and_iff_left hlive

/-! ## A camp -/

def player : Owner := ⟨0, true⟩

def spyGlass : Item := ⟨0, true, false, false⟩

/-- A spyglass and the engram of one in the inventory of a character. -/
def camp : World where
  created := 2
  items := [⟨1, true, true, false⟩, spyGlass]
  owners := [player]
  ownerOf := fun _ => some player
  id_lt := by decide
  nodup := by decide

/-- A player spawns and is given a second spyglass, and both get used. -/
def visit : List Event :=
  [.startNewShooterPlayer 7 (some (player, camp.items)),
    .createItem true false false (some player),
    .notifyItemAdded (some ⟨2, true, false, false⟩) (some player) [],
    .notifyItemAdded none none [],
    .fire ⟨0, spyGlass, 12⟩,
    .destroyItem spyGlass]

theorem pointers_good_visit :
    let run := (execute step (init camp) visit).get (by decide)
    Sound run.1 ∧ run.2.CanFire :=
  (pointers_good_iff (run_of_execute_get (by decide))).mp (by decide)

/-- The spyglass of a spawned player is gone before its five seconds are. -/
def lost : List Event :=
  [.startNewShooterPlayer 7 (some (player, camp.items)),
    .destroyItem spyGlass,
    .fire ⟨0, spyGlass, 12⟩]

/-- A spyglass is added to an inventory without an owner. -/
def ownerless : List Event := [.notifyItemAdded (some spyGlass) none []]

theorem not_sound_of_execute {w : World} {events : List Event}
    (hbad : ∃ run ∈ execute step (init w) events,
      run.1.map Step.event = events ∧ ¬ Sound run.1) :
    ¬ ∀ history s, Run step (init w) history s →
      history.map Step.event = events → Sound history := by
  intro hsound
  obtain ⟨run, hexecute, hevents, hnot⟩ := hbad
  exact hnot (hsound _ _ (run_of_execute hexecute) hevents)

theorem pointers_not_always_good :
    (¬ ∀ history s, Run step (init camp) history s →
      history.map Step.event = lost → Sound history) ∧
    ¬ ∀ history s, Run step (init camp) history s →
      history.map Step.event = ownerless → Sound history :=
  ⟨not_sound_of_execute (by decide), not_sound_of_execute (by decide)⟩

end SAOmega.Spyglass
