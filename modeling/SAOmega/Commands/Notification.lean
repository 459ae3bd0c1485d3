import SAOmega.Commands.Model

/-!
# What becomes of a notification

The body is cut into its non-empty pieces, and the pieces are counted from the
first one.  A field of the documented format is found in its place as long as it
and the fields before it are not empty; the value of `a` is read by nobody.
-/

namespace SAOmega.Commands

open SAOmega.Support

/-! ## The message -/

theorem appendPieces_of_le {i : ℕ} (hi : 4 ≤ i) (sendmsg : FString)
    (parsed : List FString) :
    appendPieces i sendmsg parsed = sendmsg ++ parsed.flatMap (' ' :: ·) := by
  induction parsed generalizing i sendmsg with
  | nil => simp [appendPieces]
  | cons piece parsed ih =>
      rw [appendPieces, if_pos hi, ih (Nat.le_succ_of_le hi)]
      simp

/-- The loop joins its pieces with a space. -/
theorem appendPieces_three (message : FString) (others : List FString) :
    appendPieces 3 [] (message :: others) =
      [' '].intercalate (message :: others) := by
  rw [appendPieces, if_neg (by omega), appendPieces_of_le le_rfl,
    intercalate_cons, List.nil_append]

/-! ## A body that is read -/

section Reading

universe u

variable {F α β : Type u}

theorem bind_eq_ok_iff {x : Except FString α} {f : α → Except FString β} {b : β} :
    (x >>= f) = .ok b ↔ ∃ a, x = .ok a ∧ f a = .ok b := by
  cases x with
  | error what =>
      constructor
      · intro h
        cases h
      · rintro ⟨a, h, _⟩
        cases h
  | ok a =>
      constructor
      · exact fun h => ⟨a, rfl, h⟩
      · rintro ⟨a', h, h'⟩
        cases h
        exact h'

theorem readParam_eq_ok_iff {stof : FString → Except FString F}
    {before after : String} {param : FString} {x : F} :
    readParam stof before after param = .ok x ↔ stof param = .ok x := by
  unfold readParam
  split
  next y h => simp [h]
  next what h => simp [h]

end Reading

variable {F : Type*} [OfNat F 255]
  {removeFromStart : FString → FString → FString}
  {stof : FString → Except FString F}

/-- What a body is made of when a notification comes of it. -/
structure ReadAs (removeFromStart : FString → FString → FString)
    (stof : FString → Except FString F) (body : FString)
    (color : F × F × F × F) (scale time : F) (text : FString)
    (first size duration message : FString) (others : List FString) :
    Prop where
  pieces : pieces '|' body = first :: size :: duration :: message :: others
  color : readColor stof (parseIntoArray
    (removeFromStart first "SendNotification ".toList) ',' true) = .ok color
  scale : stof size = .ok scale
  time : stof duration = .ok time
  text : text = [' '].intercalate (message :: others)

theorem readNotification_eq_ok_iff {body text : FString}
    {color : F × F × F × F} {scale time : F} :
    readNotification removeFromStart stof body =
        .ok (color, scale, time, text) ↔
      ∃ first size duration message others,
        ReadAs removeFromStart stof body color scale time text first size
          duration message others := by
  have hparse : parseIntoArray body '|' true = pieces '|' body := rfl
  unfold readNotification
  rw [hparse]
  constructor
  · intro h
    split at h
    next first size duration message others hpieces =>
      simp only [bind_eq_ok_iff, readParam_eq_ok_iff] at h
      obtain ⟨color', hcolor, scale', hscale, time', htime, hall⟩ := h
      cases hall
      exact ⟨first, size, duration, message, others, hpieces, hcolor, hscale,
        htime, appendPieces_three message others⟩
    next => cases h
  · rintro ⟨first, size, duration, message, others, hpieces, hcolor, hscale,
      htime, rfl⟩
    rw [hpieces]
    simp only [bind_eq_ok_iff, readParam_eq_ok_iff]
    refine ⟨color, hcolor, scale, hscale, time, htime, ?_⟩
    rw [appendPieces_three]
    rfl

theorem notification_mem_iff {packet : RCONPacket} {text : FString}
    {color : F × F × F × F} {scale time : F} :
    .sendNotificationToAll color scale time text ∈
        sendNotification removeFromStart stof packet ↔
      readNotification removeFromStart stof packet.body =
        .ok (color, scale, time, text) := by
  unfold sendNotification
  split
  next color' scale' time' text' h =>
    rw [h]
    simp only [List.mem_singleton, Effect.sendNotificationToAll.injEq,
      Except.ok.injEq, Prod.mk.injEq]
    tauto
  next reply h => simp [h]

theorem sendNotification_cases (removeFromStart : FString → FString → FString)
    (stof : FString → Except FString F) (packet : RCONPacket) :
    (∃ reply, sendNotification removeFromStart stof packet =
        [.sendMessage packet.id 0 reply]) ∨
      ∃ color scale time text, sendNotification removeFromStart stof packet =
        [.sendNotificationToAll color scale time text] := by
  unfold sendNotification
  split
  next color scale time text _ => exact .inr ⟨color, scale, time, text, rfl⟩
  next reply _ => exact .inl ⟨reply, rfl⟩

/-! ## A reader of decimal numbers -/

/-- The number of a non-empty string of digits. -/
def stofDigits (s : FString) : Except FString ℕ :=
  if s ≠ [] ∧ s.all Char.isDigit then .ok (Nat.ofDigitChars 10 s 0)
  else .error "invalid stof argument".toList

/-- `RemoveFromStart` on texts in one case. -/
def removePrefix (text start : FString) : FString :=
  if start.isPrefixOf text then text.drop start.length else text

def packetOf (body : String) : RCONPacket := ⟨7, body.toList⟩

/-! ## One answer -/

/-- The command replies or notifies, once; a notification needs four pieces and
shows the body after the third one, with its bars rewritten. -/
theorem answers_once (removeFromStart : FString → FString → FString)
    (stof : FString → Except FString F) (packet : RCONPacket) :
    ((∃ reply, sendNotification removeFromStart stof packet =
          [.sendMessage packet.id 0 reply]) ∨
        ∃ color scale time text, sendNotification removeFromStart stof packet =
          [.sendNotificationToAll color scale time text]) ∧
      ∀ color scale time text,
        .sendNotificationToAll color scale time text ∈
            sendNotification removeFromStart stof packet →
          4 ≤ (pieces '|' packet.body).length ∧
            text = squeeze '|' ' '
              (trim '|' ((afterPiece '|')^[3] packet.body)) := by
  refine ⟨sendNotification_cases removeFromStart stof packet, ?_⟩
  intro color scale time text hmem
  obtain ⟨first, size, duration, message, others, hread⟩ :=
    readNotification_eq_ok_iff.mp (notification_mem_iff.mp hmem)
  constructor
  · rw [hread.pieces]
    simp
  · calc
      text = [' '].intercalate (message :: others) := hread.text
      _ = [' '].intercalate ((pieces '|' packet.body).drop 3) := by
        rw [hread.pieces]
        rfl
      _ = [' '].intercalate
          (pieces '|' ((afterPiece '|')^[3] packet.body)) := by
        rw [pieces_afterPieces]
      _ = squeeze '|' ' ' (trim '|' ((afterPiece '|')^[3] packet.body)) :=
        intercalate_pieces '|' ' ' _

theorem answers_once_bars :
    Effect.sendNotificationToAll (1, 2, 3, 255) 4 5 "Hi all".toList ∈
        sendNotification removePrefix stofDigits
          (packetOf "|SendNotification 1,2,3|4||5|Hi||all|") ∧
      "Hi all".toList = squeeze '|' ' ' (trim '|' ((afterPiece '|')^[3]
        "|SendNotification 1,2,3|4||5|Hi||all|".toList)) := by
  have hmem : Effect.sendNotificationToAll (1, 2, 3, 255) 4 5 "Hi all".toList ∈
      sendNotification removePrefix stofDigits
        (packetOf "|SendNotification 1,2,3|4||5|Hi||all|") := by decide
  exact ⟨hmem, ((answers_once removePrefix stofDigits _).2 _ _ _ _ hmem).2⟩

/-! ## Fields in their places -/

/-- The fields are the second and the third non-empty piece.  They are the second
and the third of all the pieces when no piece up to there is empty, and a short
body with an empty piece is refused. -/
theorem fields_read (removeFromStart : FString → FString → FString)
    (stof : FString → Except FString F) (packet : RCONPacket) :
    (∀ color scale time text,
        .sendNotificationToAll color scale time text ∈
            sendNotification removeFromStart stof packet →
          ∃ first size duration message others,
            pieces '|' packet.body =
                first :: size :: duration :: message :: others ∧
              stof size = .ok scale ∧ stof duration = .ok time ∧
              ∀ a b c rest, packet.body.splitOn '|' = a :: b :: c :: rest →
                a ≠ [] → b ≠ [] → c ≠ [] → b = size ∧ c = duration) ∧
      ((packet.body.splitOn '|').length ≤ 4 →
        [] ∈ packet.body.splitOn '|' →
          ∃ reply, sendNotification removeFromStart stof packet =
            [.sendMessage packet.id 0 reply]) := by
  constructor
  · intro color scale time text hmem
    obtain ⟨first, size, duration, message, others, hread⟩ :=
      readNotification_eq_ok_iff.mp (notification_mem_iff.mp hmem)
    refine ⟨first, size, duration, message, others, hread.pieces, hread.scale,
      hread.time, ?_⟩
    intro a b c rest hsplit ha hb hc
    have hkept := hread.pieces
    rw [pieces, hsplit] at hkept
    simp only [List.filter_cons, List.isEmpty_eq_false_iff.mpr ha,
      List.isEmpty_eq_false_iff.mpr hb, List.isEmpty_eq_false_iff.mpr hc,
      Bool.not_false, if_true, List.cons.injEq] at hkept
    exact ⟨hkept.2.1, hkept.2.2.1⟩
  · intro hlen hempty
    apply (sendNotification_cases removeFromStart stof packet).resolve_right
    rintro ⟨color, scale, time, text, hsent⟩
    have hmem : .sendNotificationToAll color scale time text ∈
        sendNotification removeFromStart stof packet := by simp [hsent]
    obtain ⟨first, size, duration, message, others, hread⟩ :=
      readNotification_eq_ok_iff.mp (notification_mem_iff.mp hmem)
    have hfour : 4 ≤ (pieces '|' packet.body).length := by
      rw [hread.pieces]
      simp
    have hfewer := length_pieces_lt hempty
    omega

theorem fields_read_tailed :
    (∃ first size duration message others,
        pieces '|' "1,2,3|4|5|Hi||all".toList =
            first :: size :: duration :: message :: others ∧
          stofDigits size = .ok 4 ∧ stofDigits duration = .ok 5 ∧
          "4".toList = size ∧ "5".toList = duration) ∧
      ∃ reply, sendNotification removePrefix stofDigits
          (packetOf "1,2,3|4||Hi") = [.sendMessage 7 0 reply] := by
  constructor
  · have hmem : Effect.sendNotificationToAll (1, 2, 3, 255) 4 5 "Hi all".toList ∈
        sendNotification removePrefix stofDigits
          (packetOf "1,2,3|4|5|Hi||all") := by decide
    obtain ⟨first, size, duration, message, others, hpieces, hscale, htime,
      hplace⟩ := (fields_read removePrefix stofDigits _).1 _ _ _ _ hmem
    obtain ⟨hsize, hduration⟩ := hplace "1,2,3".toList "4".toList "5".toList
      ["Hi".toList, [], "all".toList] (by decide) (by decide) (by decide)
      (by decide)
    exact ⟨first, size, duration, message, others, hpieces, hscale, htime, hsize,
      hduration⟩
  · exact (fields_read removePrefix stofDigits (packetOf "1,2,3|4||Hi")).2
      (by decide) (by decide)

/-- An empty size moves the later fields up. -/
theorem fields_read_shifted :
    Effect.sendNotificationToAll (1, 2, 3, 255) 5 10 "Hi".toList ∈
        sendNotification removePrefix stofDigits
          (packetOf "SendNotification 1,2,3||5|10|Hi") ∧
      "SendNotification 1,2,3||5|10|Hi".toList.splitOn '|' =
        ["SendNotification 1,2,3".toList, [], "5".toList, "10".toList,
          "Hi".toList] ∧
      stofDigits [] ≠ .ok 5 ∧ stofDigits "5".toList ≠ .ok 10 := by
  decide

end SAOmega.Commands
