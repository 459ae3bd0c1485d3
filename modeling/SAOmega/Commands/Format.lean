import SAOmega.Commands.Notification

/-!
# The documented format

A body written as the reply of the command asks for,
`r,g,b,a|size|duration|Message` behind the name of the command, comes out with
every field in its place except for `a`, which stays at its default.
-/

namespace SAOmega.Commands

open SAOmega.Support

variable {F : Type*}

/-- What a number printer owes one number. -/
structure Prints (stof : FString → Except FString F) (print : F → FString)
    (x : F) : Prop where
  ne_nil : print x ≠ []
  comma_notMem : ',' ∉ print x
  bar_notMem : '|' ∉ print x
  reads : stof (print x) = .ok x

def formatColor (print : F → FString) (r g b a : F) : FString :=
  [','].intercalate [print r, print g, print b, print a]

/-- `SendNotification r,g,b,a|size|duration|Message`. -/
def formatNotification (print : F → FString) (r g b a size duration : F)
    (message : FString) : FString :=
  ['|'].intercalate ["SendNotification ".toList ++ formatColor print r g b a,
    print size, print duration, message]

/-! ## Reading the format back -/

section Decoding

variable {removeFromStart : FString → FString → FString}
  {stof : FString → Except FString F} {print : F → FString}
  {r g b a size duration : F} {message : FString}

theorem bar_notMem_formatColor
    (hprint : ∀ x ∈ [r, g, b, a], Prints stof print x) :
    '|' ∉ "SendNotification ".toList ++ formatColor print r g b a := by
  have hr := (hprint r (by simp)).bar_notMem
  have hg := (hprint g (by simp)).bar_notMem
  have hb := (hprint b (by simp)).bar_notMem
  have ha := (hprint a (by simp)).bar_notMem
  simp [formatColor, hr, hg, hb, ha]

variable [OfNat F 255]

theorem readColor_formatColor
    (hprint : ∀ x ∈ [r, g, b, a], Prints stof print x) :
    readColor stof (parseIntoArray (formatColor print r g b a) ',' true) =
      .ok (r, g, b, 255) := by
  have hpieces : parseIntoArray (formatColor print r g b a) ',' true =
      [print r, print g, print b, print a] := by
    apply pieces_intercalate
    intro l hl
    obtain ⟨x, hx, rfl⟩ : ∃ x ∈ [r, g, b, a], print x = l := by
      simpa [eq_comm] using hl
    exact ⟨(hprint x hx).ne_nil, (hprint x hx).comma_notMem⟩
  rw [hpieces, readColor]
  simp only [bind_eq_ok_iff, readParam_eq_ok_iff]
  exact ⟨r, (hprint r (by simp)).reads, g, (hprint g (by simp)).reads, b,
    (hprint b (by simp)).reads, rfl⟩

/-- Every field comes out in its place, with the default for `a`. -/
theorem sendNotification_format
    (hremove : ∀ text, removeFromStart ("SendNotification ".toList ++ text)
      "SendNotification ".toList = text)
    (hprint : ∀ x ∈ [r, g, b, a, size, duration], Prints stof print x)
    (hmessage : message ≠ []) (hbar : '|' ∉ message) (id : ℤ) :
    sendNotification removeFromStart stof
        ⟨id, formatNotification print r g b a size duration message⟩ =
      [.sendNotificationToAll (r, g, b, 255) size duration message] := by
  have hcolor : ∀ x ∈ [r, g, b, a], Prints stof print x :=
    fun x hx => hprint x (by simp at hx ⊢; tauto)
  have hsize := hprint size (by simp)
  have hduration := hprint duration (by simp)
  have hpieces :
      pieces '|' (formatNotification print r g b a size duration message) =
        ["SendNotification ".toList ++ formatColor print r g b a, print size,
          print duration, message] := by
    apply pieces_intercalate
    simp only [List.forall_mem_cons]
    exact ⟨⟨by simp, bar_notMem_formatColor hcolor⟩,
      ⟨hsize.ne_nil, hsize.bar_notMem⟩,
      ⟨hduration.ne_nil, hduration.bar_notMem⟩, ⟨hmessage, hbar⟩, by simp⟩
  have hread : readNotification removeFromStart stof
      (formatNotification print r g b a size duration message) =
        .ok ((r, g, b, 255), size, duration, message) := by
    rw [readNotification_eq_ok_iff]
    refine ⟨_, _, _, _, [], hpieces, ?_, hsize.reads, hduration.reads, by simp⟩
    rw [hremove, readColor_formatColor hcolor]
  rw [sendNotification, hread]

/-- The values come back exactly when the one nobody reads is the default. -/
theorem format_decoded_iff
    (hremove : ∀ text, removeFromStart ("SendNotification ".toList ++ text)
      "SendNotification ".toList = text)
    (hprint : ∀ x ∈ [r, g, b, a, size, duration], Prints stof print x)
    (hmessage : message ≠ []) (hbar : '|' ∉ message) (id : ℤ) :
    sendNotification removeFromStart stof
          ⟨id, formatNotification print r g b a size duration message⟩ =
        [.sendNotificationToAll (r, g, b, a) size duration message] ↔
      a = 255 := by
  rw [sendNotification_format hremove hprint hmessage hbar]
  simp [eq_comm]

end Decoding

/-! ## The format in decimal numbers -/

theorem prints_toDigits (n : ℕ) : Prints stofDigits (Nat.toDigits 10) n := by
  have hdigit : ∀ c ∈ Nat.toDigits 10 n, c.isDigit = true :=
    fun c hc => Nat.isDigit_of_mem_toDigits (by omega) (by omega) hc
  constructor
  · exact Nat.toDigits_ne_nil
  · exact fun h => absurd (hdigit ',' h) (by decide)
  · exact fun h => absurd (hdigit '|' h) (by decide)
  · rw [stofDigits, if_pos ⟨Nat.toDigits_ne_nil, by simpa using hdigit⟩,
      Nat.ofDigitChars_ten_toDigits]

theorem removePrefix_append (text start : FString) :
    removePrefix (start ++ text) start = text := by
  unfold removePrefix
  simp

theorem format_decoded_iff_white :
    sendNotification removePrefix stofDigits
        ⟨7, formatNotification (Nat.toDigits 10) 1 2 3 255 4 5 "Hi".toList⟩ =
      [.sendNotificationToAll (1, 2, 3, 255) 4 5 "Hi".toList] :=
  (format_decoded_iff (fun text => removePrefix_append text _)
    (fun x _ => prints_toDigits x) (by decide) (by decide) 7).mpr rfl

/-- A transparent colour is shown opaque. -/
theorem format_decoded_not_transparent :
    (∀ x ∈ [255, 0, 0, 0, 1, 10], Prints stofDigits (Nat.toDigits 10) x) ∧
      formatNotification (Nat.toDigits 10) 255 0 0 0 1 10 "Hi".toList =
        "SendNotification 255,0,0,0|1|10|Hi".toList ∧
      sendNotification removePrefix stofDigits
          (packetOf "SendNotification 255,0,0,0|1|10|Hi") ≠
        [.sendNotificationToAll (255, 0, 0, 0) 1 10 "Hi".toList] :=
  ⟨fun x _ => prints_toDigits x, by decide, by decide⟩

end SAOmega.Commands
