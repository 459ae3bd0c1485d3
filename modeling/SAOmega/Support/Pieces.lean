import Mathlib.Data.List.DropRight
import Mathlib.Logic.Function.Iterate

/-!
# The pieces of a list between separators

Splitting a list at a separator and dropping the empty pieces loses how many
separators there were, and nothing else.  Joining the pieces again is the same
as rewriting the list itself: the separators at both ends go, and each run
between two pieces becomes a single new one.
-/

namespace SAOmega.Support

/-! ## Joining and dropping -/

section Lists

variable {α : Type*}

theorem intercalate_cons (new : α) (first : List α) (rest : List (List α)) :
    [new].intercalate (first :: rest) = first ++ rest.flatMap (new :: ·) := by
  induction rest generalizing first with
  | nil => simp
  | cons second rest ih =>
      rw [List.intercalate_cons_cons, ih, List.flatMap_cons]
      simp

theorem rdropWhile_cons (p : α → Bool) (x : α) (l : List α) :
    (x :: l).rdropWhile p =
      if p x = true ∧ l.rdropWhile p = [] then [] else x :: l.rdropWhile p := by
  induction l using List.reverseRecOn with
  | nil =>
      rw [List.rdropWhile_singleton, List.rdropWhile_nil]
      simp
  | append_singleton l y ih =>
      rw [← List.cons_append, List.rdropWhile_concat, List.rdropWhile_concat]
      split
      · exact ih
      · simp

theorem rdropWhile_cons_of_neg {p : α → Bool} {x : α} (hx : ¬ p x = true)
    (l : List α) : (x :: l).rdropWhile p = x :: l.rdropWhile p := by
  rw [rdropWhile_cons, if_neg fun h => hx h.1]

theorem dropWhile_rdropWhile (p : α → Bool) (l : List α) :
    (l.rdropWhile p).dropWhile p = (l.dropWhile p).rdropWhile p := by
  induction l with
  | nil => rfl
  | cons x l ih =>
      by_cases hx : p x = true
      · rw [rdropWhile_cons, List.dropWhile_cons_of_pos hx, ← ih]
        split
        next hnil => rw [hnil.2]
        next => rw [List.dropWhile_cons_of_pos hx]
      · rw [rdropWhile_cons_of_neg hx, List.dropWhile_cons_of_neg hx,
          List.dropWhile_cons_of_neg hx, rdropWhile_cons_of_neg hx]

end Lists

variable {α : Type*} [BEq α] {sep : α}

/-- The non-empty pieces. -/
def pieces (sep : α) (l : List α) : List (List α) :=
  (l.splitOn sep).filter (!·.isEmpty)

/-- The list without the separators at its ends. -/
def trim (sep : α) (l : List α) : List α :=
  (l.dropWhile (· == sep)).rdropWhile (· == sep)

/-- Each run of separators becomes one `new`, in the place of its last one. -/
def squeeze (sep new : α) : List α → List α
  | [] => []
  | x :: l =>
      if x == sep then
        if l.head?.any (· == sep) then squeeze sep new l
        else new :: squeeze sep new l
      else
        x :: squeeze sep new l

/-- What follows the first piece. -/
def afterPiece (sep : α) (l : List α) : List α :=
  (l.dropWhile (· == sep)).dropWhile (· != sep)

theorem exists_splitOn (sep : α) (l : List α) :
    ∃ first rest, l.splitOn sep = first :: rest :=
  List.exists_cons_of_ne_nil (List.splitOn_ne_nil sep l)

@[simp] theorem pieces_nil : pieces sep [] = [] := by
  simp [pieces]

/-- An empty piece is lost. -/
theorem length_pieces_lt {l : List α} (h : [] ∈ l.splitOn sep) :
    (pieces sep l).length < (l.splitOn sep).length :=
  List.length_filter_lt_length_iff_exists.mpr ⟨[], h, by simp⟩

variable [LawfulBEq α]

/-! ## The pieces of a longer list -/

theorem pieces_append_sep (l m : List α) :
    pieces sep (l ++ sep :: m) = pieces sep l ++ pieces sep m := by
  unfold pieces
  rw [List.splitOn_append_cons_self, List.filter_append]

@[simp] theorem pieces_sep_cons (l : List α) :
    pieces sep (sep :: l) = pieces sep l := by
  simpa using pieces_append_sep [] l

theorem pieces_intercalate {ls : List (List α)}
    (h : ∀ l ∈ ls, l ≠ [] ∧ sep ∉ l) : pieces sep ([sep].intercalate ls) = ls := by
  by_cases hls : ls = []
  · simp [hls]
  · unfold pieces
    rw [List.splitOn_intercalate sep (fun l hl => (h l hl).2) hls,
      List.filter_eq_self]
    intro l hl
    simpa using (h l hl).1

theorem splitOn_sep_cons (l : List α) :
    (sep :: l).splitOn sep = [] :: l.splitOn sep := by
  rw [List.splitOn_cons_eq_if_modifyHead, if_pos (beq_self_eq_true sep)]

theorem splitOn_cons_of_ne {x : α} {l first : List α} {rest : List (List α)}
    (hx : x ≠ sep) (h : l.splitOn sep = first :: rest) :
    (x :: l).splitOn sep = (x :: first) :: rest := by
  rw [List.splitOn_cons_eq_if_modifyHead, if_neg (by simpa using hx), h]
  rfl

theorem pieces_cons_of_ne {x : α} {l first : List α} {rest : List (List α)}
    (hx : x ≠ sep) (h : l.splitOn sep = first :: rest) :
    pieces sep (x :: l) = (x :: first) :: rest.filter (!·.isEmpty) := by
  unfold pieces
  rw [splitOn_cons_of_ne hx h]
  rfl

theorem pieces_eq_nil_iff {l : List α} :
    pieces sep l = [] ↔ ∀ x ∈ l, x = sep := by
  induction l with
  | nil => simp
  | cons x l ih =>
      by_cases hx : x = sep
      · subst hx
        simp [ih]
      · obtain ⟨first, rest, hsplit⟩ := exists_splitOn sep l
        simp [pieces_cons_of_ne hx hsplit, hx]

/-! ## Dropping pieces -/

theorem pieces_dropWhile (l : List α) :
    pieces sep (l.dropWhile (· == sep)) = pieces sep l := by
  induction l with
  | nil => rfl
  | cons x l ih =>
      by_cases hx : x = sep
      · subst hx
        rw [List.dropWhile_cons_of_pos (by simp), ih, pieces_sep_cons]
      · rw [List.dropWhile_cons_of_neg (by simpa using hx)]

theorem pieces_dropWhile_ne {l first : List α} {rest : List (List α)}
    (h : l.splitOn sep = first :: rest) :
    pieces sep (l.dropWhile (· != sep)) = rest.filter (!·.isEmpty) := by
  induction l generalizing first with
  | nil =>
      rw [List.splitOn_nil] at h
      cases h
      simp
  | cons x l ih =>
      by_cases hx : x = sep
      · subst hx
        rw [splitOn_sep_cons] at h
        cases h
        rw [List.dropWhile_cons_of_neg (by simp), pieces_sep_cons, pieces]
      · obtain ⟨first', rest', hsplit⟩ := exists_splitOn sep l
        rw [splitOn_cons_of_ne hx hsplit] at h
        cases h
        rw [List.dropWhile_cons_of_pos (by simpa using hx)]
        exact ih hsplit

theorem pieces_afterPiece (l : List α) :
    pieces sep (afterPiece sep l) = (pieces sep l).drop 1 := by
  rw [← pieces_dropWhile l]
  unfold afterPiece
  generalize hm : l.dropWhile (· == sep) = m
  match m with
  | [] => simp
  | x :: m =>
      have hx : x ≠ sep := by
        rintro rfl
        have hhead := List.head_dropWhile_not (· == x) (l := l) (by simp [hm])
        simp [hm] at hhead
      obtain ⟨first, rest, hsplit⟩ := exists_splitOn sep m
      rw [pieces_dropWhile_ne (splitOn_cons_of_ne hx hsplit),
        pieces_cons_of_ne hx hsplit, List.drop_one, List.tail_cons]

theorem pieces_afterPieces (k : ℕ) (l : List α) :
    pieces sep ((afterPiece sep)^[k] l) = (pieces sep l).drop k := by
  induction k generalizing l with
  | zero => rfl
  | succ k ih =>
      rw [Function.iterate_succ_apply, ih, pieces_afterPiece, List.drop_drop,
        Nat.add_comm]

/-! ## Rewriting the list itself -/

theorem trim_sep_cons (l : List α) : trim sep (sep :: l) = trim sep l := by
  unfold trim
  rw [List.dropWhile_cons_of_pos (by simp)]

theorem squeeze_cons_of_ne {x : α} (new : α) (hx : x ≠ sep) (l : List α) :
    squeeze sep new (x :: l) = x :: squeeze sep new l := by
  rw [squeeze, if_neg (by simpa using hx)]

theorem squeeze_sep_cons (new : α) (l : List α) :
    squeeze sep new (sep :: l) =
      new :: squeeze sep new (l.dropWhile (· == sep)) := by
  induction l with
  | nil => simp [squeeze]
  | cons x l ih =>
      rw [squeeze, if_pos (beq_self_eq_true sep)]
      by_cases hx : x = sep
      · subst hx
        rw [if_pos (by simp), ih, List.dropWhile_cons_of_pos (by simp)]
      · rw [if_neg (by simpa using hx),
          List.dropWhile_cons_of_neg (by simpa using hx)]

/-- A separator in front of pieces which come after others. -/
theorem squeeze_rdropWhile_sep_cons (new : α) {l : List α}
    (h : [new].intercalate (pieces sep l) = squeeze sep new (trim sep l)) :
    squeeze sep new ((sep :: l).rdropWhile (· == sep)) =
      (pieces sep l).flatMap (new :: ·) := by
  rw [rdropWhile_cons]
  by_cases hall : ∀ x ∈ l, x = sep
  · have hdrop : l.rdropWhile (· == sep) = [] := by
      rw [List.rdropWhile_eq_nil_iff]
      simpa using hall
    rw [if_pos ⟨beq_self_eq_true sep, hdrop⟩, pieces_eq_nil_iff.mpr hall]
    rfl
  · have hdrop : l.rdropWhile (· == sep) ≠ [] := by
      rw [ne_eq, List.rdropWhile_eq_nil_iff]
      simpa using hall
    obtain ⟨first, rest, hpieces⟩ :=
      List.exists_cons_of_ne_nil (mt pieces_eq_nil_iff.mp hall)
    rw [if_neg fun hand => hdrop hand.2, squeeze_sep_cons, dropWhile_rdropWhile]
    change new :: squeeze sep new (trim sep l) = _
    rw [← h, hpieces, intercalate_cons]
    simp

/-- Both forms of the joined text at once: that of a list, and that of the rest
of a list whose first piece has begun. -/
theorem intercalate_pieces_aux (new : α) (l : List α) :
    [new].intercalate (pieces sep l) = squeeze sep new (trim sep l) ∧
      ∀ first rest, l.splitOn sep = first :: rest →
        first ++ (rest.filter (!·.isEmpty)).flatMap (new :: ·) =
          squeeze sep new (l.rdropWhile (· == sep)) := by
  induction l with
  | nil =>
      refine ⟨by simp [trim, squeeze], ?_⟩
      intro first rest hsplit
      rw [List.splitOn_nil] at hsplit
      cases hsplit
      simp [squeeze]
  | cons x l ih =>
      obtain ⟨hjoin, hbegun⟩ := ih
      by_cases hx : x = sep
      · subst hx
        constructor
        · rw [pieces_sep_cons, trim_sep_cons, hjoin]
        · intro first rest hsplit
          rw [splitOn_sep_cons] at hsplit
          cases hsplit
          rw [squeeze_rdropWhile_sep_cons new hjoin]
          rfl
      · obtain ⟨first', rest', hsplit'⟩ := exists_splitOn sep l
        have hlast := hbegun first' rest' hsplit'
        have htail : squeeze sep new ((x :: l).rdropWhile (· == sep)) =
            x :: (first' ++ (rest'.filter (!·.isEmpty)).flatMap (new :: ·)) := by
          rw [rdropWhile_cons_of_neg (by simpa using hx),
            squeeze_cons_of_ne new hx, hlast]
        constructor
        · rw [pieces_cons_of_ne hx hsplit', intercalate_cons, trim,
            List.dropWhile_cons_of_neg (by simpa using hx), htail]
          rfl
        · intro first rest hsplit
          rw [splitOn_cons_of_ne hx hsplit'] at hsplit
          cases hsplit
          exact htail.symm

/-- Joining the pieces is rewriting the list. -/
theorem intercalate_pieces (sep new : α) (l : List α) :
    [new].intercalate (pieces sep l) = squeeze sep new (trim sep l) :=
  (intercalate_pieces_aux new l).1

end SAOmega.Support
