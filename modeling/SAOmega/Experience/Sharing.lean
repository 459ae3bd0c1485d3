import SAOmega.Experience.Awards

/-!
# Sharing an award

The original of an award makes awards of its own, and these find its amount in
`addExpAmount`.  The global is a stack of which only the top is kept: a call
overwrites it for the calls inside of it and restores it for the calls after it.
-/

namespace SAOmega.Experience

/-! ## The calls of a tree -/

/-- The calls inside of a call, itself among them. -/
inductive Invocation.Within (call : Invocation) : Invocation → Prop
  | self : Within call call
  | nested {inner around : Invocation} (hinner : inner ∈ around.nested)
      (h : Within call inner) : Within call around

/-- A call made by a call of the tree is in the tree. -/
theorem Invocation.Within.trans_nested {call inner outer : Invocation}
    (h : call.Within outer) (hinner : inner ∈ call.nested) :
    inner.Within outer := by
  induction h with
  | self => exact .nested hinner .self
  | nested hmem _ ih => exact .nested hmem ih

mutual

/-- The call as it was asked for. -/
def Invocation.award : Invocation → Award
  | ⟨component, howMuch, bShareWithTribe, type, _, _, _, nested, _⟩ =>
      ⟨component, howMuch, bShareWithTribe, type, awards nested⟩

def awards : List Invocation → List Award
  | [] => []
  | call :: calls => call.award :: awards calls

end

variable (str : ℚ → String)

mutual

theorem hookAddExperience_award (award : Award) (addExpAmount : ℚ) :
    (hookAddExperience str award addExpAmount).1.award = award := by
  obtain ⟨component, howMuch, bShareWithTribe, type, nested⟩ := award
  simp only [hookAddExperience, Invocation.award]
  rw [addExperienceOriginal_awards nested howMuch]

theorem addExperienceOriginal_awards (nested : List Award) (addExpAmount : ℚ) :
    awards (addExperienceOriginal str nested addExpAmount).1 = nested := by
  match nested with
  | [] => simp only [addExperienceOriginal, awards]
  | award :: rest =>
      simp only [addExperienceOriginal, awards]
      rw [hookAddExperience_award award, addExperienceOriginal_awards rest]

end

/-! ## The stack -/

/-- A call which leaves `addExpAmount` as it was and shows its own amount to
the calls it makes. -/
structure Invocation.Stacked (call : Invocation) : Prop where
  returned : call.returned = call.entered
  shown : ∀ inner ∈ call.nested, inner.entered = call.howMuch
  passed : call.passed =
    call.component.passed call.entered call.howMuch call.type

/-- The hook restores what it found. -/
theorem hookAddExperience_restores (award : Award) (addExpAmount : ℚ) :
    (hookAddExperience str award addExpAmount).2 = addExpAmount ∧
      (hookAddExperience str award addExpAmount).1.entered = addExpAmount := by
  obtain ⟨component, howMuch, bShareWithTribe, type, nested⟩ := award
  simp only [hookAddExperience, and_self]

/-- So all the calls of one original find the same amount. -/
theorem addExperienceOriginal_entered (nested : List Award)
    (addExpAmount : ℚ) :
    ∀ call ∈ (addExperienceOriginal str nested addExpAmount).1,
      call.entered = addExpAmount := by
  induction nested with
  | nil => simp [addExperienceOriginal]
  | cons award rest ih =>
      obtain ⟨hout, hentered⟩ := hookAddExperience_restores str award addExpAmount
      simp only [addExperienceOriginal, hout]
      intro call hcall
      rcases List.mem_cons.mp hcall with rfl | hcall
      · exact hentered
      · exact ih call hcall

mutual

theorem hookAddExperience_stacked (award : Award) (addExpAmount : ℚ) :
    ∀ call : Invocation,
      call.Within (hookAddExperience str award addExpAmount).1 →
        call.Stacked := by
  match award with
  | ⟨component, howMuch, bShareWithTribe, type, nested⟩ =>
      simp only [hookAddExperience]
      rintro call (_ | ⟨hinner, hwithin⟩)
      · exact ⟨rfl, addExperienceOriginal_entered str nested howMuch, rfl⟩
      · exact addExperienceOriginal_stacked nested howMuch _ hinner call hwithin

theorem addExperienceOriginal_stacked (nested : List Award)
    (addExpAmount : ℚ) :
    ∀ inner ∈ (addExperienceOriginal str nested addExpAmount).1,
      ∀ call : Invocation, call.Within inner → call.Stacked := by
  match nested with
  | [] => simp [addExperienceOriginal]
  | award :: rest =>
      simp only [addExperienceOriginal]
      intro inner hinner
      rcases List.mem_cons.mp hinner with rfl | hinner
      · exact hookAddExperience_stacked award addExpAmount
      · exact addExperienceOriginal_stacked rest _ inner hinner

end

/-! ## The result -/

/-- A riding player of a tribe. -/
structure RidingPlayer (component : StatusComponent) : Prop where
  player : component.isPlayer = true
  rider : component.isRider = true
  team : 50000 ≤ component.targetingTeam

/-- A rider is passed half of the award around his own, up to his cap. -/
theorem rider_share {component : StatusComponent} {addExpAmount : ℚ}
    (h : RidingPlayer component) (hpos : 0 < addExpAmount) (howMuch : ℚ)
    (type : EXPType) :
    min (addExpAmount / 2) (component.cap type) ≤
      component.passed addExpAmount howMuch type := by
  have htribe : component.isTribe = true := by
    simp [StatusComponent.isTribe, h.player, h.team]
  rw [StatusComponent.passed_eq_min htribe]
  apply min_le_min_right
  simp [StatusComponent.uncapped, StatusComponent.shared, h.player, h.rider,
    hpos]

/-- Every call of a tree restores `addExpAmount` and shows its own raw amount
to each call that it makes, whatever the calls before it did; a rider gets at
least half of it, up to his cap. -/
theorem sharing_stack (award : Award) (addExpAmount : ℚ) :
    let outer := hookAddExperience str award addExpAmount
    outer.1.award = award ∧ outer.1.entered = addExpAmount ∧
      outer.2 = addExpAmount ∧
      ∀ call : Invocation, call.Within outer.1 →
        call.returned = call.entered ∧
          ∀ inner ∈ call.nested, inner.entered = call.howMuch ∧
            (RidingPlayer inner.component → 0 < call.howMuch →
              min (call.howMuch / 2) (inner.component.cap inner.type) ≤
                inner.passed) := by
  obtain ⟨hout, hentered⟩ := hookAddExperience_restores str award addExpAmount
  refine ⟨hookAddExperience_award str award addExpAmount, hentered, hout, ?_⟩
  intro call hcall
  have hstacked := hookAddExperience_stacked str award addExpAmount
  refine ⟨(hstacked call hcall).returned, ?_⟩
  intro inner hinner
  have hshown := (hstacked call hcall).shown inner hinner
  refine ⟨hshown, ?_⟩
  intro hrider hpos
  have hwithin : inner.Within (hookAddExperience str award addExpAmount).1 :=
    hcall.trans_nested hinner
  rw [(hstacked inner hwithin).passed, hshown]
  exact rider_share hrider hpos inner.howMuch inner.type

/-- A tribe's player on a mount. -/
def rider : StatusComponent :=
  { tamedRex with isPlayer := true, isDino := false, isRider := true }

/-- A kill by a mount, of which its rider gets two small awards; the first one
goes on to another player. -/
def mountedKill : Award :=
  ⟨tamedRex, 1000, true, .other 1,
    [⟨rider, 10, false, .other 1, [⟨rider, 1, false, .other 1, []⟩]⟩,
      ⟨rider, 20, false, .other 1, []⟩]⟩

theorem sharing_stack_mounted :
    ∀ inner ∈ (hookAddExperience (fun _ => "") mountedKill 7).1.nested,
      inner.entered = 1000 ∧
        (RidingPlayer inner.component →
          min (1000 / 2) (inner.component.cap inner.type) ≤ inner.passed) := by
  intro inner hinner
  have hcalls := (sharing_stack (fun _ => "") mountedKill 7).2.2.2
  obtain ⟨hentered, hshare⟩ := (hcalls _ .self).2 inner hinner
  have hamount : (hookAddExperience (fun _ => "") mountedKill 7).1.howMuch =
      1000 := by
    simp only [mountedKill, hookAddExperience]
  rw [hamount] at hentered hshare
  exact ⟨hentered, fun hrider => hshare hrider (by norm_num)⟩

end SAOmega.Experience
