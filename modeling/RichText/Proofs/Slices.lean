import Mathlib.Tactic.Lemma
import RichText.Text.Utf16

/-!
# Slices are stretches of characters

A position in a message counts code units, while the text is a list of characters.  This module
says which characters a slice holds: those whose first code unit lies in it (`slice_encode`), so
that neighbouring slices make up the slice over both (`slice_append`) and the slice over
everything is the text (`slice_all`).

The one notion behind it is `upTo position text`, the characters that start before a position.
The boundary of a position is the number of code units of these characters, and the rest follows
from lossless decoding (`decode_encode`): code units that encode a text decode to it.

Where a character is looked at on its own, `located` gives it with its position, and a slice holds
the characters that are located in it (`slice_eq_located`), those and no replacement characters of
its own (`slice_selects`).
-/

namespace RichText.Utf16

/-! ## Decoding an encoding -/

lemma toNat_range (c : Char) : c.toNat < 0xD800 ∨ 0xDFFF < c.toNat ∧ c.toNat < 0x110000 := by
  have valid := c.valid
  simp only [UInt32.isValidChar, Nat.isValidChar] at valid
  exact valid

lemma not_surrogate_of_narrow {c : Char} (narrow : c.toNat < 0x10000) :
    isHigh (.ofNat c.toNat) = false ∧ isLow (.ofNat c.toNat) = false := by
  have range := toNat_range c
  have same : (UInt16.ofNat c.toNat).toNat = c.toNat := by
    simp only [UInt16.toNat_ofNat']
    omega
  simp only [isHigh, isLow, same, Bool.and_eq_false_iff, decide_eq_false_iff_not]
  omega

lemma alone_of_narrow {c : Char} (narrow : c.toNat < 0x10000) :
    alone (.ofNat c.toNat) = .inr c := by
  have same : (UInt16.ofNat c.toNat).toNat = c.toNat := by
    simp only [UInt16.toNat_ofNat']
    omega
  obtain ⟨high, low⟩ := not_surrogate_of_narrow narrow
  simp only [alone, high, low, Bool.or_self, Bool.false_eq_true, if_false, same, Char.ofNat_toNat]

lemma surrogates_of_wide {c : Char} (wide : ¬ c.toNat < 0x10000) :
    isHigh (.ofNat (0xD800 + (c.toNat - 0x10000) / 0x400)) = true ∧
      isLow (.ofNat (0xDC00 + (c.toNat - 0x10000) % 0x400)) = true := by
  have range := toNat_range c
  simp only [isHigh, isLow, UInt16.toNat_ofNat', Bool.and_eq_true, decide_eq_true_eq]
  omega

lemma not_high_of_low {unit : CodeUnit} (low : isLow unit = true) : isHigh unit = false := by
  simp only [isLow, isHigh, Bool.and_eq_true, decide_eq_true_eq, Bool.and_eq_false_iff,
    decide_eq_false_iff_not] at low ⊢
  omega

lemma not_low_of_high {unit : CodeUnit} (high : isHigh unit = true) : isLow unit = false := by
  cases low : isLow unit with
  | false => rfl
  | true => exact absurd high (by simp [not_high_of_low low])

lemma pairChar_of_wide {c : Char} (wide : ¬ c.toNat < 0x10000) :
    pairChar (.ofNat (0xD800 + (c.toNat - 0x10000) / 0x400))
      (.ofNat (0xDC00 + (c.toNat - 0x10000) % 0x400)) = c := by
  have range := toNat_range c
  have sum : 0x10000 + ((UInt16.ofNat (0xD800 + (c.toNat - 0x10000) / 0x400)).toNat - 0xD800)
      * 0x400 + ((UInt16.ofNat (0xDC00 + (c.toNat - 0x10000) % 0x400)).toNat - 0xDC00)
      = c.toNat := by
    simp only [UInt16.toNat_ofNat']
    omega
  rw [pairChar, sum, Char.ofNat_toNat]

/-- Splitting an encoding finds its characters. -/
lemma split_encode (text : Text) : split (encode text) = text.map Sum.inr := by
  induction text with
  | nil => rfl
  | cons c rest ih =>
    by_cases narrow : c.toNat < 0x10000
    · have one : encode (c :: rest) = .ofNat c.toNat :: encode rest := by
        simp [encodeChar, narrow]
      rw [one, List.map_cons, ← ih, ← alone_of_narrow narrow]
      cases encode rest with
      | nil => rfl
      | cons second more => simp [split, not_surrogate_of_narrow narrow]
    · have two : encode (c :: rest) = .ofNat (0xD800 + (c.toNat - 0x10000) / 0x400) ::
          .ofNat (0xDC00 + (c.toNat - 0x10000) % 0x400) :: encode rest := by
        simp [encodeChar, narrow]
      rw [two, List.map_cons, ← ih]
      simp only [split, surrogates_of_wide narrow, Bool.and_self, if_true, pairChar_of_wide narrow]

/-- **Decoding is lossless.**  What encodes a text decodes to it. -/
@[simp] lemma decode_encode (text : Text) : decode (encode text) = text := by
  simp [decode, split_encode, Function.comp_def]

/-- A length is the number of code units, or the greatest position if there are more. -/
lemma length_eq_min (text : Text) : length text = min (unitCount text : Int) Position.greatest := by
  simp only [length, Position.clamp, Position.least, Position.greatest]
  omega

lemma length_nonneg (text : Text) : 0 ≤ length text := by
  rw [length_eq_min, Position.greatest]
  omega

lemma length_le_greatest (text : Text) : length text ≤ Position.greatest := by
  rw [length_eq_min]
  omega

/-! ## The characters before a position -/

/-- The characters of a text whose first code unit lies before a position. -/
def upTo : Nat → Text → Text
  | _, [] => []
  | position, c :: rest => if position = 0 then [] else c :: upTo (position - unitWidth c) rest

@[simp] lemma upTo_zero (text : Text) : upTo 0 text = [] := by
  cases text <;> simp [upTo]

/-- Before a position that is not the start of a text stands its first character. -/
lemma upTo_cons {position : Nat} (h : position ≠ 0) (c : Char) (rest : Text) :
    upTo position (c :: rest) = c :: upTo (position - unitWidth c) rest := by
  rw [upTo, if_neg h]

lemma unitWidth_pos (c : Char) : 0 < unitWidth c := by
  unfold unitWidth; split <;> decide

lemma upTo_prefix (position : Nat) (text : Text) : upTo position text <+: text := by
  induction text generalizing position with
  | nil => simp [upTo]
  | cons c rest ih =>
    rw [upTo]
    split
    · exact List.nil_prefix
    · exact (List.prefix_cons_inj c).2 (ih _)

lemma upTo_prefix_upTo {start stop : Nat} (h : start ≤ stop) (text : Text) :
    upTo start text <+: upTo stop text := by
  induction text generalizing start stop with
  | nil => simp [upTo]
  | cons c rest ih =>
    rw [upTo, upTo]
    by_cases hs : start = 0
    · simp [hs]
    · have ht : stop ≠ 0 := by omega
      simp only [hs, ht, if_false]
      exact (List.prefix_cons_inj c).2 (ih (by omega))

@[simp] lemma upTo_of_le {position : Nat} {text : Text} (h : unitCount text ≤ position) :
    upTo position text = text := by
  induction text generalizing position with
  | nil => rfl
  | cons c rest ih =>
    have := unitWidth_pos c
    simp only [unitCount_cons] at h
    rw [upTo, if_neg (by omega), ih (by omega)]

@[simp] lemma upTo_append (front back : Text) : upTo (unitCount front) (front ++ back) = front := by
  induction front with
  | nil => simp
  | cons c rest ih =>
    have := unitWidth_pos c
    rw [List.cons_append, upTo, if_neg (by simp only [unitCount_cons]; omega)]
    simp [ih]

lemma upTo_append_of_le {position : Nat} {front : Text} (h : position ≤ unitCount front)
    (back : Text) : upTo position (front ++ back) = upTo position front := by
  induction front generalizing position with
  | nil =>
    obtain rfl : position = 0 := by simpa using h
    simp
  | cons c rest ih =>
    simp only [unitCount_cons] at h
    simp only [List.cons_append, upTo]
    split
    · rfl
    · rw [ih (by omega)]

lemma upTo_unitCount_add (front back : Text) (position : Nat) :
    upTo (unitCount front + position) (front ++ back) = front ++ upTo position back := by
  induction front with
  | nil => simp
  | cons c rest ih =>
    have := unitWidth_pos c
    rw [List.cons_append, upTo, if_neg (by simp only [unitCount_cons]; omega), unitCount_cons,
      show unitWidth c + unitCount rest + position - unitWidth c = unitCount rest + position by
        omega, ih, List.cons_append]

/-! ## Boundaries -/

lemma withinPair_of_length_le {units : List CodeUnit} {position : Nat}
    (h : units.length ≤ position) : withinPair units position = false := by
  cases position with
  | zero => rfl
  | succ before =>
    have few : (units.drop before).length ≤ 1 := by
      rw [List.length_drop]
      omega
    simp only [withinPair]
    split
    · rename_i high low rest found
      rw [found] at few
      simp at few
    · rfl

/-- Nothing before the first code unit is half of a pair that ends behind it, when that code unit
is no high half. -/
lemma withinPair_cons_of_not_high {unit : CodeUnit} (h : isHigh unit = false)
    (units : List CodeUnit) (position : Nat) :
    withinPair (unit :: units) (position + 1) = withinPair units position := by
  cases position with
  | zero => cases units <;> simp [withinPair, h]
  | succ before => simp [withinPair]

/-- Behind a pair, positions count from behind it. -/
lemma withinPair_pair {low : CodeUnit} (h : isLow low = true) (high : CodeUnit)
    (units : List CodeUnit) (position : Nat) :
    withinPair (high :: low :: units) (position + 2) = withinPair units position := by
  rw [← withinPair_cons_of_not_high (not_high_of_low h) units position]
  cases position <;> simp [withinPair]

/-- The position between the halves of a pair moves behind it. -/
lemma boundary_pair {high low : CodeUnit} (hhigh : isHigh high = true) (hlow : isLow low = true)
    (units : List CodeUnit) : boundary (high :: low :: units) 1 = 2 := by
  simp [boundary, withinPair, hhigh, hlow]

/-- The boundary of a position is the number of code units of the characters before it. -/
lemma boundary_encode (text : Text) (position : Nat) :
    boundary (encode text) position = unitCount (upTo position text) := by
  induction text generalizing position with
  | nil => simp [boundary, upTo, withinPair]
  | cons c rest ih =>
    cases position with
    | zero => simp [boundary, withinPair]
    | succ before =>
      rw [upTo, if_neg (Nat.succ_ne_zero before)]
      by_cases narrow : c.toNat < 0x10000
      · have width : unitWidth c = 1 := by simp [unitWidth, narrow]
        have one : encode (c :: rest) = .ofNat c.toNat :: encode rest := by
          simp [encodeChar, narrow]
        have further := ih before
        rw [unitCount_cons, width, Nat.add_sub_cancel, ← further, one]
        simp only [boundary, List.length_cons, Nat.add_min_add_right,
          withinPair_cons_of_not_high (not_surrogate_of_narrow narrow).1]
        split <;> omega
      · have width : unitWidth c = 2 := by simp [unitWidth, narrow]
        have two : encode (c :: rest) = .ofNat (0xD800 + (c.toNat - 0x10000) / 0x400) ::
            .ofNat (0xDC00 + (c.toNat - 0x10000) % 0x400) :: encode rest := by
          simp [encodeChar, narrow]
        obtain ⟨high, low⟩ := surrogates_of_wide narrow
        rw [unitCount_cons, width, two]
        cases before with
        | zero => simpa using boundary_pair high low (encode rest)
        | succ behind =>
          have further := ih behind
          rw [show behind + 1 + 1 - 2 = behind by omega, ← further]
          simp only [boundary, List.length_cons, Nat.add_min_add_right, withinPair_pair low]
          split <;> omega

/-! ## Slices -/

/-- The code units before the boundary of a position encode the characters before it. -/
lemma take_encode (text : Text) (position : Nat) :
    (encode text).take (unitCount (upTo position text)) = encode (upTo position text) := by
  obtain ⟨back, whole⟩ := upTo_prefix position text
  have size := length_encode (upTo position text)
  calc (encode text).take (unitCount (upTo position text))
      = (encode (upTo position text ++ back)).take (unitCount (upTo position text)) := by
        rw [whole]
    _ = encode (upTo position text) := by rw [encode_append, ← size, List.take_left]

/-- **What a slice holds.**  A slice of a text holds the characters before its end less those
before its start. -/
lemma slice_encode (text : Text) (start stop : Nat) :
    slice (encode text) start stop = (upTo stop text).drop (upTo start text).length := by
  simp only [slice, boundary_encode, take_encode]
  by_cases h : start ≤ stop
  · obtain ⟨middle, whole⟩ := upTo_prefix_upTo h text
    have size := length_encode (upTo start text)
    rw [← whole, encode_append, ← size, List.drop_left, List.drop_left, decode_encode]
  · obtain ⟨middle, whole⟩ := upTo_prefix_upTo (Nat.le_of_not_le h) text
    have size := length_encode (upTo stop text)
    rw [List.drop_eq_nil_of_le, List.drop_eq_nil_of_le]
    · rfl
    · rw [← whole, List.length_append]; omega
    · rw [size, ← whole, unitCount_append]; omega

@[simp] lemma slice_of_le {text : Text} {start stop : Nat} (h : stop ≤ start) :
    slice (encode text) start stop = [] := by
  rw [slice_encode]
  exact List.drop_eq_nil_of_le (upTo_prefix_upTo h text).length_le

/-- **Neighbouring slices make up the slice over both.** -/
lemma slice_append {text : Text} {start middle stop : Nat} (front : start ≤ middle)
    (back : middle ≤ stop) :
    slice (encode text) start middle ++ slice (encode text) middle stop =
      slice (encode text) start stop := by
  obtain ⟨first, hfirst⟩ := upTo_prefix_upTo front text
  obtain ⟨second, hsecond⟩ := upTo_prefix_upTo back text
  simp only [slice_encode]
  rw [← hsecond, ← hfirst, List.drop_left, List.append_assoc, List.drop_left, ← List.append_assoc,
    List.drop_left]

/-- The slice over everything is the text. -/
lemma slice_all (text : Text) : slice (encode text) 0 (encode text).length = text := by
  rw [slice_encode, length_encode]
  simp

/-- The characters before the start of a slice and those in it are the characters before its
end. -/
lemma upTo_append_slice {start stop : Nat} (h : start ≤ stop) (text : Text) :
    upTo start text ++ slice (encode text) start stop = upTo stop text := by
  obtain ⟨middle, whole⟩ := upTo_prefix_upTo h text
  rw [slice_encode, ← whole, List.drop_left]

lemma append_inj_of_unitCount {front other back rest : Text} (h : front ++ back = other ++ rest)
    (size : unitCount front = unitCount other) : front = other ∧ back = rest := by
  have same : front = other := by
    rw [← upTo_append front back, h, size, upTo_append]
  subst same
  exact ⟨rfl, List.append_cancel_left h⟩

/-- A slice of the middle of a text is a slice of the text. -/
lemma slice_middle {middle : Text} (front back : Text) {start stop : Nat} (order : start ≤ stop)
    (within : stop ≤ unitCount middle) :
    slice (encode (front ++ middle ++ back)) (unitCount front + start) (unitCount front + stop) =
      slice (encode middle) start stop := by
  rw [slice_encode, slice_encode, List.append_assoc, upTo_unitCount_add, upTo_unitCount_add,
    upTo_append_of_le within, upTo_append_of_le (Nat.le_trans order within), List.length_append,
    List.drop_length_add_append]

/-! ## Characters and their positions -/

/-- The characters of a text that starts at `base`, each with the position of its first code
unit. -/
def located (base : Nat) : Text → List (Nat × Char)
  | [] => []
  | c :: rest => (base, c) :: located (base + unitWidth c) rest

lemma located_append (base : Nat) (front back : Text) :
    located base (front ++ back) =
      located base front ++ located (base + unitCount front) back := by
  induction front generalizing base with
  | nil => rfl
  | cons c rest ih =>
    rw [List.cons_append, located, located, ih, unitCount_cons, Nat.add_assoc, List.cons_append]

lemma bounds_of_mem_located {base : Nat} {text : Text} {place : Nat × Char}
    (h : place ∈ located base text) : base ≤ place.1 ∧ place.1 < base + unitCount text := by
  induction text generalizing base with
  | nil => cases h
  | cons c rest ih =>
    have width := unitWidth_pos c
    rw [unitCount_cons]
    rcases List.mem_cons.1 h with rfl | later
    · simp only
      omega
    · have bounds := ih later
      omega

lemma located_add (base shift : Nat) (text : Text) :
    located (base + shift) text =
      (located base text).map fun place => (place.1 + shift, place.2) := by
  induction text generalizing base with
  | nil => rfl
  | cons c rest ih =>
    rw [located, located, List.map_cons, ← ih, Nat.add_right_comm]

/-- The characters that start in the middle of a text are those of the middle. -/
lemma located_middle (front middle back : Text) :
    ((located 0 (front ++ middle ++ back)).filter fun place =>
        unitCount front ≤ place.1 ∧ place.1 < unitCount front + unitCount middle) =
      (located 0 middle).map fun place => (place.1 + unitCount front, place.2) := by
  have none (base : Nat) (text : Text)
      (apart : base + unitCount text ≤ unitCount front ∨
        unitCount front + unitCount middle ≤ base) :
      ((located base text).filter fun place =>
        unitCount front ≤ place.1 ∧ place.1 < unitCount front + unitCount middle) = [] := by
    refine List.filter_eq_nil_iff.2 fun place member => ?_
    have bounds := bounds_of_mem_located member
    simp only [decide_eq_true_eq]
    omega
  rw [located_append, located_append, List.filter_append, List.filter_append,
    none 0 front (by omega), none _ back (by rw [unitCount_append]; omega), List.nil_append,
    List.append_nil, ← located_add]
  refine List.filter_eq_self.2 fun place member => ?_
  have bounds := bounds_of_mem_located member
  simp only [decide_eq_true_eq]
  omega

/-- The characters before a position are those that start before it. -/
lemma upTo_eq_located (base position : Nat) (text : Text) :
    upTo position text =
      ((located base text).filter fun place => place.1 < base + position).map Prod.snd := by
  induction text generalizing base position with
  | nil => rfl
  | cons c rest ih =>
    rw [upTo, located]
    split
    · rename_i none
      rw [List.filter_eq_nil_iff.2, List.map_nil]
      intro place member
      have low := (@bounds_of_mem_located base (c :: rest) place member).1
      simp only [decide_eq_true_eq]
      omega
    · rename_i some
      rw [List.filter_cons_of_pos (by simp only [decide_eq_true_eq]; omega), List.map_cons,
        ih (base + unitWidth c)]
      congr 2
      refine List.filter_congr fun place member => ?_
      have low := (bounds_of_mem_located member).1
      simp only [decide_eq_decide]
      omega

/-- The characters before a position less those before another are those that start between. -/
lemma drop_upTo_eq_located (base start stop : Nat) (text : Text) :
    (upTo stop text).drop (upTo start text).length = ((located base text).filter
      fun place => base + start ≤ place.1 ∧ place.1 < base + stop).map Prod.snd := by
  induction text generalizing base start stop with
  | nil => rfl
  | cons c rest ih =>
    by_cases first : start = 0
    · -- nothing is left out, since no character starts before its text
      subst first
      rw [upTo_zero, List.length_nil, List.drop_zero, upTo_eq_located base]
      congr 1
      refine List.filter_congr fun place member => ?_
      have low := (bounds_of_mem_located member).1
      simp only [decide_eq_decide]
      omega
    by_cases none : stop = 0
    · subst none
      rw [upTo_zero, List.drop_nil, List.filter_eq_nil_iff.2, List.map_nil]
      intro place member
      simp only [decide_eq_true_eq]
      omega
    rw [located, List.filter_cons_of_neg (by simp only [decide_eq_true_eq]; omega), upTo_cons first,
      upTo_cons none, List.length_cons, List.drop_succ_cons, ih (base + unitWidth c)]
    congr 1
    refine List.filter_congr fun place member => ?_
    have low := (bounds_of_mem_located member).1
    simp only [decide_eq_decide]
    omega

/-- **A slice holds the characters that start in it.** -/
lemma slice_eq_located (text : Text) (start stop : Nat) :
    slice (encode text) start stop = ((located 0 text).filter
      fun place => start ≤ place.1 ∧ place.1 < stop).map Prod.snd := by
  rw [slice_encode, drop_upTo_eq_located 0]
  simp only [Nat.zero_add]

/-- A located character stands where the characters in front of it end. -/
lemma mem_located_iff {base position : Nat} {text : Text} {c : Char} :
    (position, c) ∈ located base text ↔
      ∃ front back, text = front ++ c :: back ∧ base + (encode front).length = position := by
  constructor
  · intro member
    induction text generalizing base with
    | nil => cases member
    | cons d rest ih =>
      rcases List.mem_cons.1 member with first | later
      · cases first
        exact ⟨[], rest, rfl, rfl⟩
      · obtain ⟨front, back, rfl, rfl⟩ := ih later
        refine ⟨d :: front, back, rfl, ?_⟩
        rw [encode_cons, List.length_append, length_encodeChar, Nat.add_assoc]
  · rintro ⟨front, back, rfl, rfl⟩
    rw [located_append, length_encode]
    exact List.mem_append_right _ List.mem_cons_self

/-- **A slice selects characters.**  It holds, in order, the characters of the text whose first code
unit lies in it, wherever its ends fall.  So neighbouring slices make up the slice over both, and a
replacement character in a slice is one that starts in this stretch of the text. -/
theorem slice_selects (text : Text) (start stop : Nat) :
    slice (encode text) start stop = ((located 0 text).filter
        fun place => start ≤ place.1 ∧ place.1 < stop).map Prod.snd ∧
      (∀ last, start ≤ stop → stop ≤ last →
        slice (encode text) start stop ++ slice (encode text) stop last =
          slice (encode text) start last) ∧
      (replacement ∈ slice (encode text) start stop ↔
        ∃ front back, text = front ++ replacement :: back ∧
          start ≤ (encode front).length ∧ (encode front).length < stop) := by
  refine ⟨slice_eq_located text start stop, fun last => slice_append, ?_⟩
  rw [slice_eq_located, List.mem_map]
  constructor
  · rintro ⟨⟨position, c⟩, selected, rfl⟩
    obtain ⟨member, inside⟩ := List.mem_filter.1 selected
    obtain ⟨front, back, whole, place⟩ := mem_located_iff.1 member
    rw [Nat.zero_add] at place
    subst place
    exact ⟨front, back, whole, of_decide_eq_true inside⟩
  · rintro ⟨front, back, whole, inside⟩
    have member : ((encode front).length, replacement) ∈ located 0 text :=
      mem_located_iff.2 ⟨front, back, whole, Nat.zero_add _⟩
    exact ⟨_, List.mem_filter.2 ⟨member, decide_eq_true inside⟩, rfl⟩

/-- Two slices that meet in the middle of a character, the second of which goes on behind the end
of the text. -/
theorem slice_selects_split_character :
    let text := "a🏆\uFFFDb".toList
    (0 ≤ 2 ∧ 2 ≤ 9) ∧
      slice (encode text) 0 2 = "a🏆".toList ∧ slice (encode text) 2 9 = "\uFFFDb".toList ∧
      slice (encode text) 0 2 = ((located 0 text).filter
        fun place => 0 ≤ place.1 ∧ place.1 < 2).map Prod.snd ∧
      slice (encode text) 0 2 ++ slice (encode text) 2 9 = slice (encode text) 0 9 ∧
      (replacement ∈ slice (encode text) 0 2 ↔
        ∃ front back, text = front ++ replacement :: back ∧
          0 ≤ (encode front).length ∧ (encode front).length < 2) := by
  obtain ⟨selects, neighbours, replaced⟩ := slice_selects "a🏆\uFFFDb".toList 0 2
  exact ⟨by decide, by decide, by decide, selects, neighbours 9 (by decide) (by decide), replaced⟩

/-! ## Positions between characters -/

/-- A position in a text that splits no character. -/
structure Between (text : Text) (position : Nat) : Prop where
  le : position ≤ unitCount text
  whole : withinPair (encode text) position = false

instance (text : Text) (position : Nat) : Decidable (Between text position) :=
  decidable_of_iff (_ ∧ _) ⟨fun h => ⟨h.1, h.2⟩, fun h => ⟨h.le, h.whole⟩⟩

lemma between_zero (text : Text) : Between text 0 := ⟨Nat.zero_le _, rfl⟩

lemma between_unitCount (text : Text) : Between text (unitCount text) :=
  ⟨Nat.le_refl _, withinPair_of_length_le (Nat.le_of_eq (length_encode text))⟩

lemma Between.unitCount_upTo {text : Text} {position : Nat} (h : Between text position) :
    unitCount (upTo position text) = position := by
  have bounded : min position (encode text).length = position :=
    Nat.min_eq_left (by rw [length_encode]; exact h.le)
  rw [← boundary_encode]
  simp only [boundary, bounded, h.whole, Bool.false_eq_true, if_false]

lemma between_append (front back : Text) : Between (front ++ back) (unitCount front) := by
  have size : unitCount front ≤ unitCount (front ++ back) := by
    rw [unitCount_append]
    exact Nat.le_add_right _ _
  refine ⟨size, ?_⟩
  have place := boundary_encode (front ++ back) (unitCount front)
  rw [upTo_append] at place
  simp only [boundary, length_encode, Nat.min_eq_left size] at place
  split at place
  · omega
  · rename_i whole
    exact Bool.eq_false_iff.2 whole

lemma Between.nearer {text : Text} {first second : Nat} (h : Between text first)
    (other : Between text second) : Between text (min first second) := by
  rcases Nat.le_total first second with le | le
  · rwa [Nat.min_eq_left le]
  · rwa [Nat.min_eq_right le]

lemma Between.farther {text : Text} {first second : Nat} (h : Between text first)
    (other : Between text second) : Between text (max first second) := by
  rcases Nat.le_total first second with le | le
  · rwa [Nat.max_eq_right le]
  · rwa [Nat.max_eq_left le]

/-- In the middle of three parts of a text, its positions between characters are those of the
whole. -/
lemma Between.middle {front middle back : Text} {position : Nat}
    (h : Between (front ++ middle ++ back) position) :
    Between middle (min (position - unitCount front) (unitCount middle)) := by
  have before := upTo_prefix position (front ++ middle ++ back)
  have size := h.unitCount_upTo
  rw [List.append_assoc] at before size
  obtain ⟨first, hfirst⟩ : ∃ first, first = upTo position (front ++ (middle ++ back)) := ⟨_, rfl⟩
  rw [← hfirst] at before size
  rcases List.prefix_or_prefix_of_prefix before (List.prefix_append front _) with within | past
  · -- the position lies in the first part
    obtain ⟨rest, rfl⟩ := within
    rw [unitCount_append, show position - (unitCount first + unitCount rest) = 0 by omega]
    exact between_zero middle
  obtain ⟨more, rfl⟩ := past
  rw [List.prefix_append_right_inj] at before
  rw [← size, unitCount_append, Nat.add_sub_cancel_left]
  rcases List.prefix_or_prefix_of_prefix before (List.prefix_append middle back) with within | past
  · obtain ⟨rest, rfl⟩ := within
    rw [unitCount_append, Nat.min_eq_left (Nat.le_add_right _ _)]
    exact between_append more rest
  · obtain ⟨rest, rfl⟩ := past
    rw [unitCount_append, Nat.min_eq_right (Nat.le_add_right _ _)]
    exact between_unitCount middle

lemma unitCount_slice {text : Text} {start stop : Nat} (hstart : Between text start)
    (hstop : Between text stop) (h : start ≤ stop) :
    start + unitCount (slice (encode text) start stop) = stop := by
  have sum := congrArg unitCount (upTo_append_slice h text)
  rwa [unitCount_append, hstart.unitCount_upTo, hstop.unitCount_upTo] at sum

lemma slice_eq_nil_iff {text : Text} {start stop : Nat} (hstart : Between text start)
    (hstop : Between text stop) (h : start ≤ stop) :
    slice (encode text) start stop = [] ↔ start = stop := by
  refine ⟨fun empty => ?_, fun same => slice_of_le (Nat.le_of_eq same.symm)⟩
  have size := unitCount_slice hstart hstop h
  rwa [empty, unitCount_nil, Nat.add_zero] at size

end RichText.Utf16
