import Mathlib.Data.List.Infix
import RichText.Proofs.Markdown.Escapes

/-!
# Pieces of a source

A source falls into pieces from its left: a backslash and the punctuation behind it are one, every
other character is one of its own.  So whether a backslash starts an escape depends on all the
backslashes before it, and a reader that jumps to some place reads on rightly just if the place is a
*boundary*, where a piece ends.  A place is one just if its character is not the second of an escape
(`isEscaped_iff`), and from a boundary the pieces are those of what is left (`isBoundary_drop`).
-/

namespace RichText.Markdown

/-- The pieces of a text, cut greedily from its left: escapes and single characters. -/
def pieces : Text → List Text
  | [] => []
  | '\\' :: c :: rest =>
    if isPunctuation c then ['\\', c] :: pieces rest else ['\\'] :: pieces (c :: rest)
  | c :: rest => [c] :: pieces rest

/-- A place in a text where a piece ends, or the first one starts. -/
def IsBoundary (text : Text) (place : Nat) : Prop :=
  ∃ front ∈ (pieces text).inits, front.flatten.length = place

instance (text : Text) (place : Nat) : Decidable (IsBoundary text place) :=
  inferInstanceAs (Decidable (∃ front ∈ (pieces text).inits, front.flatten.length = place))

/-- A place whose character is the second of an escape. -/
def IsEscaped (text : Text) (place : Nat) : Prop :=
  ∃ front c, front ++ [['\\', c]] ∈ (pieces text).inits ∧ front.flatten.length + 1 = place

variable {text rest : Text} {c : Char} {place more : Nat}

/-- What is left of a text behind the first of what was left. -/
lemma drop_add_length {text rest : Text} {place : Nat} (piece : Text)
    (left : text.drop place = piece ++ rest) : text.drop (place + piece.length) = rest := by
  rw [← List.drop_drop, left, List.drop_left]

/-! ## The first piece -/

lemma pieces_escape (h : isPunctuation c = true) (rest : Text) :
    pieces ('\\' :: c :: rest) = ['\\', c] :: pieces rest := by
  rw [pieces, if_pos h]

lemma pieces_cons (h : escaped? (c :: rest) = none) : pieces (c :: rest) = [c] :: pieces rest := by
  by_cases backslash : c = '\\'
  · subst backslash
    cases rest with
    | nil => rfl
    | cons d rest =>
      have plain : ¬ isPunctuation d = true := fun punctuation => by
        simp [escaped?, punctuation] at h
      rw [pieces, if_neg plain]
  · rw [pieces.eq_3 c rest fun _ _ same => absurd same backslash]

/-- A text is empty, or starts with an escape, or with a character that starts none. -/
@[elab_as_elim]
lemma pieceInduction {motive : Text → Prop} (nil : motive [])
    (escape : ∀ c rest, isPunctuation c = true → motive rest → motive ('\\' :: c :: rest))
    (plain : ∀ c rest, escaped? (c :: rest) = none → motive rest → motive (c :: rest))
    (text : Text) : motive text := by
  fun_induction pieces text with
  | case1 => exact nil
  | case2 c rest punctuation ih => exact escape c rest punctuation ih
  | case3 c rest other ih => exact plain '\\' (c :: rest) (by simp [escaped?, other]) ih
  | case4 c rest other ih =>
    refine plain c rest ?_ ih
    unfold escaped?
    split
    · rename_i d rest' same
      cases same
      exact absurd rfl (other d rest' rfl)
    · rfl

/-- The pieces are cut out of the text, and nothing of it is left. -/
@[simp] lemma flatten_pieces (text : Text) : (pieces text).flatten = text := by
  induction text using pieceInduction with
  | nil => rfl
  | escape c rest h ih => simp [pieces_escape h, ih]
  | plain c rest h ih => simp [pieces_cons h, ih]

/-! ## Boundaries -/

@[simp] lemma isBoundary_zero (text : Text) : IsBoundary text 0 := ⟨[], by simp, rfl⟩

lemma isBoundary_of_pieces {piece : Text} (first : pieces text = piece :: pieces rest) :
    IsBoundary text place ↔
      place = 0 ∨ ∃ later, place = later + piece.length ∧ IsBoundary rest later := by
  simp only [IsBoundary, first, List.inits_cons, List.mem_cons, List.mem_map]
  constructor
  · rintro ⟨front, rfl | ⟨behind, member, rfl⟩, rfl⟩
    · exact .inl rfl
    · exact .inr ⟨_, by simp [Nat.add_comm], behind, member, rfl⟩
  · rintro (rfl | ⟨_, rfl, behind, member, rfl⟩)
    · exact ⟨[], .inl rfl, rfl⟩
    · exact ⟨piece :: behind, .inr ⟨behind, member, rfl⟩, by simp [Nat.add_comm]⟩

lemma isBoundary_first {piece : Text} (first : pieces text = piece :: pieces rest) :
    IsBoundary text piece.length :=
  (isBoundary_of_pieces first).2 (.inr ⟨0, (Nat.zero_add _).symm, isBoundary_zero rest⟩)

/-- The boundaries behind the first piece are those of the rest. -/
lemma isBoundary_add {piece : Text} (first : pieces text = piece :: pieces rest) :
    IsBoundary text (place + piece.length) ↔ IsBoundary rest place := by
  rw [isBoundary_of_pieces first]
  constructor
  · rintro (none | ⟨later, same, behind⟩)
    · rw [show place = 0 by omega]
      exact isBoundary_zero rest
    · rwa [show place = later by omega]
  · exact fun behind => .inr ⟨place, rfl, behind⟩

lemma isBoundary_escape (h : isPunctuation c = true) :
    IsBoundary ('\\' :: c :: rest) place ↔
      place = 0 ∨ ∃ later, place = later + 2 ∧ IsBoundary rest later :=
  isBoundary_of_pieces (pieces_escape h rest)

lemma isBoundary_cons (h : escaped? (c :: rest) = none) :
    IsBoundary (c :: rest) place ↔
      place = 0 ∨ ∃ later, place = later + 1 ∧ IsBoundary rest later :=
  isBoundary_of_pieces (pieces_cons h)

lemma isBoundary_nil : IsBoundary [] place ↔ place = 0 := by
  simp [IsBoundary, pieces, eq_comm]

/-- **From a boundary, the pieces are those of what is left.** -/
lemma isBoundary_drop (h : IsBoundary text place) :
    IsBoundary (text.drop place) more ↔ IsBoundary text (place + more) := by
  induction text using pieceInduction generalizing place with
  | nil =>
    obtain rfl := isBoundary_nil.1 h
    simp
  | escape c rest punctuation ih =>
    obtain rfl | ⟨later, rfl, behind⟩ := (isBoundary_escape punctuation).1 h
    · simp
    · rw [List.drop_succ_cons, List.drop_succ_cons, ih behind, Nat.add_right_comm]
      exact (isBoundary_add (pieces_escape punctuation rest)).symm
  | plain c rest none ih =>
    obtain rfl | ⟨later, rfl, behind⟩ := (isBoundary_cons none).1 h
    · simp
    · rw [List.drop_succ_cons, ih behind, Nat.add_right_comm]
      exact (isBoundary_add (pieces_cons none)).symm

lemma IsBoundary.escape (h : IsBoundary text place) (left : text.drop place = '\\' :: c :: rest)
    (punctuation : isPunctuation c = true) : IsBoundary text (place + 2) := by
  rw [← isBoundary_drop h, left]
  exact isBoundary_first (pieces_escape punctuation rest)

lemma IsBoundary.plain (h : IsBoundary text place) (left : text.drop place = c :: rest)
    (none : escaped? (c :: rest) = none) : IsBoundary text (place + 1) := by
  rw [← isBoundary_drop h, left]
  exact isBoundary_first (pieces_cons none)

/-- Behind characters that are no backslashes there is a boundary if one is before them. -/
lemma IsBoundary.skip {piece : Text} (h : IsBoundary text place)
    (left : text.drop place = piece ++ rest) (free : '\\' ∉ piece) :
    IsBoundary text (place + piece.length) := by
  induction piece generalizing place with
  | nil => exact h
  | cons c piece ih =>
    simp only [List.mem_cons, not_or] at free
    have next := h.plain left (escaped?_cons_of_ne (Ne.symm free.1) _)
    rw [List.length_cons, Nat.add_comm piece.length, ← Nat.add_assoc]
    exact ih next (drop_add_length [c] left) free.2

/-! ## Escaped characters -/

lemma isEscaped_of_pieces {piece : Text} (first : pieces text = piece :: pieces rest) :
    IsEscaped text place ↔ ((∃ c, piece = ['\\', c]) ∧ place = 1) ∨
      ∃ later, place = later + piece.length ∧ IsEscaped rest later := by
  simp only [IsEscaped, first, List.inits_cons, List.mem_cons, List.mem_map]
  constructor
  · rintro ⟨front, c, h | ⟨behind, member, same⟩, rfl⟩
    · simp at h
    · cases front with
      | nil => exact .inl (by simp_all)
      | cons head front =>
        simp only [List.cons_append, List.cons.injEq] at same
        obtain ⟨rfl, rfl⟩ := same
        exact .inr ⟨front.flatten.length + 1, by simp; omega, front, c, member, rfl⟩
  · rintro (⟨⟨c, rfl⟩, rfl⟩ | ⟨_, rfl, front, c, member, rfl⟩)
    · exact ⟨[], c, .inr ⟨[], by simp, rfl⟩, rfl⟩
    · exact ⟨piece :: front, c, .inr ⟨_, member, rfl⟩, by simp; omega⟩

lemma isEscaped_escape (h : isPunctuation c = true) :
    IsEscaped ('\\' :: c :: rest) place ↔
      place = 1 ∨ ∃ later, place = later + 2 ∧ IsEscaped rest later := by
  simp [isEscaped_of_pieces (pieces_escape h rest)]

lemma isEscaped_cons (h : escaped? (c :: rest) = none) :
    IsEscaped (c :: rest) place ↔ ∃ later, place = later + 1 ∧ IsEscaped rest later := by
  simp [isEscaped_of_pieces (pieces_cons h)]

lemma not_isEscaped_nil : ¬ IsEscaped [] place := by
  simp [IsEscaped, pieces]

lemma IsBoundary.le (h : IsBoundary text place) : place ≤ text.length := by
  obtain ⟨front, member, rfl⟩ := h
  have kept := ((List.mem_inits _ _).1 member).flatten
  rw [flatten_pieces] at kept
  exact kept.length_le

/-- **A place cuts an escape in two just if it is no boundary.** -/
lemma isEscaped_iff : IsEscaped text place ↔ place ≤ text.length ∧ ¬ IsBoundary text place := by
  induction text using pieceInduction generalizing place with
  | nil => simp [not_isEscaped_nil, isBoundary_nil]
  | escape c rest punctuation ih =>
    rw [isEscaped_escape punctuation, isBoundary_escape punctuation]
    match place with
    | 0 => simp
    | 1 => simp
    | later + 2 => simp [ih]
  | plain c rest none ih =>
    rw [isEscaped_cons none, isBoundary_cons none]
    cases place with
    | zero => simp
    | succ later => simp [ih]

instance (text : Text) (place : Nat) : Decidable (IsEscaped text place) :=
  decidable_of_iff' _ isEscaped_iff

-- three backslashes escape the bracket behind them, two do not
example : IsEscaped "\\\\\\]".toList 3 ∧ ¬ IsEscaped "\\\\]".toList 2 := by decide

lemma IsBoundary.not_isEscaped (h : IsBoundary text place) : ¬ IsEscaped text place :=
  fun escaped => (isEscaped_iff.1 escaped).2 h

lemma IsBoundary.isEscaped (h : IsBoundary text place) (left : text.drop place = '\\' :: c :: rest)
    (punctuation : isPunctuation c = true) : IsEscaped text (place + 1) := by
  refine isEscaped_iff.2 ⟨?_, ?_⟩
  · have := congrArg List.length left
    simp only [List.length_drop, List.length_cons] at this
    omega
  · rw [← isBoundary_drop h, left, isBoundary_escape punctuation]
    simp

end RichText.Markdown
