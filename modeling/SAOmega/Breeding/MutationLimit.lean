import SAOmega.Breeding.Model

/-!
# The mutation limit

The four counters of a pair of dinos are added in 32 bits.  Up to `2 ^ 31` the
sum is the exact one; from there on the limit holds only when the reduced sum
happens to reach it as well.
-/

namespace SAOmega.Breeding

variable {δ : Type*} [DecidableEq δ]

/-! ## The sum of the counters -/

/-- The sum of the four counters as an integer. -/
def mutations (female male : Dino) : ℤ :=
  female.randomMutationsMale.toInt + female.randomMutationsFemale.toInt +
    male.randomMutationsMale.toInt + male.randomMutationsFemale.toInt

structure CountersNonneg (dino : Dino) : Prop where
  male : 0 ≤ dino.randomMutationsMale.toInt
  female : 0 ≤ dino.randomMutationsFemale.toInt

theorem toInt_totalNextMutations (female male : Dino) :
    (totalNextMutations female male).toInt =
      (mutations female male).bmod (2 ^ 32) := by
  unfold totalNextMutations mutations
  simp only [Int32.toInt_add, Int.bmod_add_bmod, Int.add_bmod_bmod]
  congr 1
  omega

theorem mutations_bounds {female male : Dino} (hfemale : CountersNonneg female)
    (hmale : CountersNonneg male) :
    0 ≤ mutations female male ∧ mutations female male < 2 ^ 33 := by
  have h₁ := female.randomMutationsMale.toInt_lt
  have h₂ := female.randomMutationsFemale.toInt_lt
  have h₃ := male.randomMutationsMale.toInt_lt
  have h₄ := male.randomMutationsFemale.toInt_lt
  obtain ⟨h₅, h₆⟩ := hfemale
  obtain ⟨h₇, h₈⟩ := hmale
  unfold mutations
  omega

/-- The sum is small enough to be exact, or what is left of it in 32 bits
reaches the limit. -/
def SumReaches (max sum : ℤ) : Prop :=
  sum < 2 ^ 31 ∨ (sum < 3 * 2 ^ 31 ∧ max ≤ sum - 2 ^ 32) ∨ max ≤ sum - 2 ^ 33

theorem bmod_eq_self {sum : ℤ} (hnonneg : 0 ≤ sum) (hsmall : sum < 2 ^ 31) :
    sum.bmod (2 ^ 32) = sum := by
  apply Int.bmod_eq_of_le
  · omega
  · omega

/-- Beyond `2 ^ 31`, where every limit is reached by the exact sum. -/
theorem le_bmod_iff {max sum : ℤ} (hlarge : 2 ^ 31 ≤ sum)
    (hbound : sum < 2 ^ 33) :
    max ≤ sum.bmod (2 ^ 32) ↔ SumReaches max sum := by
  have hmod : sum.bmod (2 ^ 32) =
      if sum < 3 * 2 ^ 31 then sum - 2 ^ 32 else sum - 2 ^ 33 := by
    rw [Int.bmod_def]
    split
    · omega
    · omega
  rw [hmod]
  unfold SumReaches
  split
  · omega
  · omega

/-! ## The hook -/

@[simp] theorem rolls_setRolls (dinos : δ → Dino) (dino : δ) (rolls : Int32) :
    (setRolls dinos dino rolls dino).randomMutationRolls = rolls := by
  simp [setRolls]

/-- Two dinos whose rolls are set one after the other. -/
theorem rolls_setRolls_pair {dinos : δ → Dino} {femaleDino maleDino : δ}
    (rolls : δ → Int32) :
    let both := setRolls (setRolls dinos femaleDino (rolls femaleDino))
      maleDino (rolls maleDino)
    (both femaleDino).randomMutationRolls = rolls femaleDino ∧
      (both maleDino).randomMutationRolls = rolls maleDino := by
  by_cases heq : femaleDino = maleDino
  · subst heq
    simp
  · simp [setRolls, Function.update_of_ne heq]

/-- Neither of the parents tries for mutations. -/
def NoTry (female male : Dino) : Prop :=
  female.randomMutationRolls = 3 ∧ male.randomMutationRolls = 3

instance (female male : Dino) : Decidable (NoTry female male) :=
  inferInstanceAs (Decidable (_ ∧ _))

/-- The condition under which the hook takes the rolls away. -/
def TakesRolls (female male : Dino) : Prop :=
  NoTry female male ∨
    female.maxAllowedRandomMutations ≤ totalNextMutations female male

theorem limitRolls_cases (femaleDino maleDino : δ) (dinos : δ → Dino) :
    (TakesRolls (dinos femaleDino) (dinos maleDino) ∧
        (limitRolls femaleDino maleDino dinos).2 =
          setRolls (setRolls dinos femaleDino 0) maleDino 0) ∨
      (¬ TakesRolls (dinos femaleDino) (dinos maleDino) ∧
        (limitRolls femaleDino maleDino dinos).2 = dinos) := by
  unfold limitRolls TakesRolls NoTry
  simp only [Bool.and_eq_true, beq_iff_eq]
  split
  next htry => exact .inl ⟨.inl htry, rfl⟩
  next htry =>
    split
    next hmax => exact .inl ⟨.inr hmax, rfl⟩
    next hmax => exact .inr ⟨not_or.mpr ⟨htry, hmax⟩, rfl⟩

theorem limitRolls_log (femaleDino maleDino : δ) (dinos : δ → Dino) :
    ∀ x ∈ (limitRolls femaleDino maleDino dinos).1, ∃ text, x = .logInfo text := by
  intro x hx
  simp only [limitRolls] at hx
  split at hx
  · cases hx
  · split at hx
    · exact ⟨_, List.mem_singleton.mp hx⟩
    · cases hx

/-- The original is called last, with what `limitRolls` leaves. -/
theorem found_eq {original : δ → δ → (δ → Dino) → δ → Dino}
    {femaleDino maleDino : δ} {dinos found : δ → Dino} {log : List (Effect δ)}
    (h : (hookDoMate original femaleDino maleDino dinos).1 =
      log ++ [.doMateOriginal femaleDino maleDino found]) :
    (limitRolls femaleDino maleDino dinos).2 = found := by
  have hlast := (List.append_inj' h rfl).2
  simpa using hlast

/-- Where the sum in 32 bits and the exact one agree about the limit. -/
theorem takesRolls_iff {female male : Dino} (hfemale : CountersNonneg female)
    (hmale : CountersNonneg male) :
    TakesRolls female male ↔ NoTry female male ∨
      (female.maxAllowedRandomMutations.toInt ≤ mutations female male ∧
        SumReaches female.maxAllowedRandomMutations.toInt
          (mutations female male)) := by
  obtain ⟨hnonneg, hbound⟩ := mutations_bounds hfemale hmale
  have hmax := female.maxAllowedRandomMutations.toInt_lt
  unfold TakesRolls
  apply or_congr_right
  rw [Int32.le_iff_toInt_le, toInt_totalNextMutations]
  by_cases hsmall : mutations female male < 2 ^ 31
  · rw [bmod_eq_self hnonneg hsmall]
    exact (and_iff_left (.inl hsmall)).symm
  · rw [le_bmod_iff (by omega) hbound]
    refine (and_iff_right ?_).symm
    omega

/-! ## The result -/

/-- What the limit is for: `DoMate` finds no rolls when the mutations of both
parents reach the limit or neither of them tries, and the rolls as they were
otherwise; afterwards both have their own rolls again. -/
structure LimitKept (original : δ → δ → (δ → Dino) → δ → Dino)
    (femaleDino maleDino : δ) (dinos : δ → Dino) : Prop where
  found : ∃ log found,
    (hookDoMate original femaleDino maleDino dinos).1 =
        log ++ [.doMateOriginal femaleDino maleDino found] ∧
      (∀ x ∈ log, ∃ text, x = .logInfo text) ∧
      if (dinos femaleDino).maxAllowedRandomMutations.toInt ≤
            mutations (dinos femaleDino) (dinos maleDino) ∨
          NoTry (dinos femaleDino) (dinos maleDino) then
        (found femaleDino).randomMutationRolls = 0 ∧
          (found maleDino).randomMutationRolls = 0
      else
        (found femaleDino).randomMutationRolls =
            (dinos femaleDino).randomMutationRolls ∧
          (found maleDino).randomMutationRolls =
            (dinos maleDino).randomMutationRolls
  restored :
    ((hookDoMate original femaleDino maleDino dinos).2
          femaleDino).randomMutationRolls =
        (dinos femaleDino).randomMutationRolls ∧
      ((hookDoMate original femaleDino maleDino dinos).2
          maleDino).randomMutationRolls =
        (dinos maleDino).randomMutationRolls

/-- The limit is kept unless the sum overflows, falls short of the limit in 32
bits, and there are rolls left to take away. -/
theorem limit_kept_iff (original : δ → δ → (δ → Dino) → δ → Dino)
    {femaleDino maleDino : δ} {dinos : δ → Dino}
    (hfemale : CountersNonneg (dinos femaleDino))
    (hmale : CountersNonneg (dinos maleDino)) :
    LimitKept original femaleDino maleDino dinos ↔
      SumReaches (dinos femaleDino).maxAllowedRandomMutations.toInt
          (mutations (dinos femaleDino) (dinos maleDino)) ∨
        NoTry (dinos femaleDino) (dinos maleDino) ∨
        ((dinos femaleDino).randomMutationRolls = 0 ∧
          (dinos maleDino).randomMutationRolls = 0) := by
  have htakes := takesRolls_iff hfemale hmale
  constructor
  · rintro ⟨⟨log, found, hout, _, hrolls⟩, _⟩
    have hfound := found_eq hout
    rcases limitRolls_cases femaleDino maleDino dinos with
      ⟨hcond, _⟩ | ⟨hcond, hsame⟩
    · rcases htakes.mp hcond with htry | ⟨_, hsum⟩
      · exact .inr (.inl htry)
      · exact .inl hsum
    · rw [← hfound, hsame] at hrolls
      split at hrolls
      next => exact .inr (.inr hrolls)
      next hreaches =>
        left
        left
        have hmax := (dinos femaleDino).maxAllowedRandomMutations.toInt_lt
        have hless := (not_or.mp hreaches).1
        omega
  · intro hwhen
    refine ⟨⟨_, _, rfl, limitRolls_log femaleDino maleDino dinos, ?_⟩,
      rolls_setRolls_pair fun dino => (dinos dino).randomMutationRolls⟩
    rcases limitRolls_cases femaleDino maleDino dinos with
      ⟨hcond, hzero⟩ | ⟨hcond, hsame⟩
    · rw [hzero, if_pos]
      · exact rolls_setRolls_pair fun _ => 0
      · rcases htakes.mp hcond with htry | ⟨hmax, _⟩
        · exact .inr htry
        · exact .inl hmax
    · rw [hsame]
      split
      next hreaches =>
        obtain ⟨htry, hsum⟩ := not_or.mp (mt htakes.mpr hcond)
        rcases hwhen with hsum' | htry' | hzero
        · have hmax := hreaches.resolve_right htry
          exact (hsum ⟨hmax, hsum'⟩).elim
        · exact (htry htry').elim
        · exact hzero
      next => exact ⟨rfl, rfl⟩

/-- A dino with the given limit, counters and rolls. -/
def dinoOf (max maleSide femaleSide rolls : Int32) : Dino :=
  ⟨max, maleSide, femaleSide, rolls, "Rex", "Lvl 300"⟩

theorem limit_kept_iff_young :
    LimitKept (fun _ _ dinos => dinos) false true
        (fun male => dinoOf 40 (if male then 12 else 20) 15 1) ↔
      SumReaches 40 62 ∨ NoTry (dinoOf 40 20 15 1) (dinoOf 40 12 15 1) ∨
        ((1 : Int32) = 0 ∧ (1 : Int32) = 0) :=
  limit_kept_iff _ ⟨by decide, by decide⟩ ⟨by decide, by decide⟩

/-- Four counters of `2 ^ 30` add up to nothing in 32 bits. -/
theorem limit_kept_not_overflow :
    ¬ ∀ (original : Bool → Bool → (Bool → Dino) → Bool → Dino)
      (femaleDino maleDino : Bool) (dinos : Bool → Dino),
      femaleDino ≠ maleDino → CountersNonneg (dinos femaleDino) →
        CountersNonneg (dinos maleDino) →
          LimitKept original femaleDino maleDino dinos := by
  intro hall
  have hkept := hall (fun _ _ dinos => dinos) false true
    (fun _ => dinoOf 20 1073741824 1073741824 1) (by decide)
    ⟨by decide, by decide⟩ ⟨by decide, by decide⟩
  obtain ⟨log, found, hout, _, hrolls⟩ := hkept.found
  rw [← found_eq hout, if_pos (by decide)] at hrolls
  exact absurd hrolls (by decide)

end SAOmega.Breeding
