import Mathlib.Data.List.Basic
import RichText.Proofs.Slices

/-!
# Surrogates without partner

A list of code units need not encode a text: the halves of surrogate pairs may stand in it in any
order.  Decoding goes through it from left to right (`split`) and takes a high half and the low half
behind it together; a half left over becomes the replacement character.

Yet what is a pair is told by two neighbours.  Splitting starts afresh at every position that is not
within a pair (`split_append`), whatever stands before it, and so decoding may be cut there and
nowhere else (`decode_append_iff`).  A half is left over just if its partner does not stand beside
it (`hasLone_iff`), and these halves are all that decoding loses (`encode_decode_iff`).
-/

namespace RichText.Utf16

variable {units front back rest : List CodeUnit} {unit first second high low : CodeUnit}

/-! ## Splitting loses nothing -/

/-- The code units that a piece was split off as. -/
def pieceUnits : CodeUnit ⊕ Char → List CodeUnit
  | .inl unit => [unit]
  | .inr c => encodeChar c

lemma toNat_charOfNat {n : Nat} (valid : n < 0xD800 ∨ 0xDFFF < n ∧ n < 0x110000) :
    (Char.ofNat n).toNat = n := by
  rw [Char.ofNat, dif_pos valid]
  rfl

lemma pieceUnits_alone (unit : CodeUnit) : pieceUnits (alone unit) = [unit] := by
  unfold alone
  split
  · rfl
  · rename_i character
    have small := unit.toNat_lt
    simp only [isHigh, isLow, Bool.or_eq_true, Bool.and_eq_true, decide_eq_true_eq] at character
    have value : (Char.ofNat unit.toNat).toNat = unit.toNat := toNat_charOfNat (by omega)
    rw [pieceUnits, encodeChar, value, if_pos (by omega), UInt16.ofNat_toNat]

lemma encodeChar_pairChar (isHigh : isHigh high = true) (isLow : isLow low = true) :
    encodeChar (pairChar high low) = [high, low] := by
  simp only [Utf16.isHigh, Utf16.isLow, Bool.and_eq_true, decide_eq_true_eq] at isHigh isLow
  have value : (pairChar high low).toNat =
      0x10000 + (high.toNat - 0xD800) * 0x400 + (low.toNat - 0xDC00) :=
    toNat_charOfNat (by omega)
  have first : 0xD800 + ((pairChar high low).toNat - 0x10000) / 0x400 = high.toNat := by omega
  have second : 0xDC00 + ((pairChar high low).toNat - 0x10000) % 0x400 = low.toNat := by omega
  rw [encodeChar, if_neg (by omega)]
  simp only [first, second, UInt16.ofNat_toNat]

/-- **Splitting loses nothing.**  The pieces together have the code units that were split. -/
lemma flatMap_pieceUnits (units : List CodeUnit) :
    (split units).flatMap pieceUnits = units := by
  fun_induction split units with
  | case1 => rfl
  | case2 unit => simp [pieceUnits_alone]
  | case3 high low rest pair ih =>
    obtain ⟨isHigh, isLow⟩ := Bool.and_eq_true_iff.1 pair
    simp [pieceUnits, encodeChar_pairChar isHigh isLow, ih]
  | case4 first second rest _ ih => simp [pieceUnits_alone, ih]

/-! ## Encodings -/

@[simp] lemma hasLone_encode (text : Text) : hasLone (encode text) = false := by
  simp [hasLone, split_encode]

@[simp] lemma decode?_encode (text : Text) : decode? (encode text) = some text := by
  simp [decode?]

/-- Texts with the same encoding are the same. -/
lemma encode_injective : Function.Injective encode := by
  intro first second same
  rw [← decode_encode first, same, decode_encode]

/-! ## Where code units may be cut -/

lemma withinPair_cons (unit : CodeUnit) (units : List CodeUnit) (position : Nat) :
    withinPair (unit :: units) (position + 2) = withinPair units (position + 1) := rfl

/-- A first code unit that makes no pair with the next can be left out. -/
lemma withinPair_cons_of_apart (apart : (isHigh first && isLow second) = false)
    (position : Nat) :
    withinPair (first :: second :: rest) (position + 1) =
      withinPair (second :: rest) position := by
  cases position with
  | zero => exact apart
  | succ before => exact withinPair_cons first (second :: rest) before

lemma split_cons_of_not_high (h : isHigh unit = false) :
    split (unit :: units) = alone unit :: split units := by
  cases units with
  | nil => rfl
  | cons second rest => simp [split, h]

/-- **Where no pair is cut, two parts are split on their own.** -/
lemma split_append (whole : withinPair (front ++ back) front.length = false) :
    split (front ++ back) = split front ++ split back := by
  fun_induction split front with
  | case1 => rfl
  | case2 unit =>
    cases back with
    | nil => rfl
    | cons second rest =>
      have apart : (isHigh unit && isLow second) = false := whole
      simp [split, apart]
  | case3 high low rest pair ih =>
    obtain ⟨-, isLow⟩ := Bool.and_eq_true_iff.1 pair
    have behind : withinPair (rest ++ back) rest.length = false := by
      rwa [← withinPair_pair isLow high]
    rw [List.cons_append, List.cons_append, split, if_pos pair, ih behind, List.cons_append]
  | case4 first second rest apart ih =>
    have behind : withinPair (second :: rest ++ back) (second :: rest).length = false :=
      (withinPair_cons first _ _).symm.trans whole
    rw [List.cons_append, List.cons_append, split, if_neg apart, ← List.cons_append, ih behind,
      List.cons_append]

/-- The halves of a pair that is cut end the one part and start the other. -/
lemma exists_halves (cut : withinPair (front ++ back) front.length = true) :
    ∃ before high low behind, front = before ++ [high] ∧ back = low :: behind ∧
      isHigh high = true ∧ isLow low = true := by
  cases size : front.length with
  | zero =>
    rw [size] at cut
    cases cut
  | succ count =>
    simp only [size, withinPair] at cut
    split at cut
    · rename_i high low behind found
      obtain ⟨isHigh, isLow⟩ := Bool.and_eq_true_iff.1 cut
      have whole : front ++ back = (front ++ back).take count ++ [high] ++ low :: behind := by
        rw [List.append_assoc, List.singleton_append, ← found, List.take_append_drop]
      have sizes : front.length = ((front ++ back).take count ++ [high]).length := by
        simp only [List.length_append, List.length_take, List.length_cons, List.length_nil, size]
        omega
      obtain ⟨first, second⟩ := List.append_inj whole sizes
      exact ⟨_, high, low, behind, first, second, isHigh, isLow⟩
    · cases cut

lemma split_append_of_not_low (h : isLow unit = false) :
    split (front ++ unit :: back) = split front ++ split (unit :: back) := by
  refine split_append (Bool.eq_false_iff.2 fun cut => ?_)
  obtain ⟨_, _, low, _, -, same, -, isLow⟩ := exists_halves cut
  obtain ⟨rfl, -⟩ := List.cons.inj same
  rw [h] at isLow
  cases isLow

lemma length_decode (units : List CodeUnit) : (decode units).length = (split units).length :=
  List.length_map _

/-- **Decoding in two parts is decoding the whole just where no pair is cut.** -/
lemma decode_append_iff :
    decode front ++ decode back = decode (front ++ back) ↔
      withinPair (front ++ back) front.length = false := by
  constructor
  · intro same
    refine Bool.eq_false_iff.2 fun cut => ?_
    obtain ⟨before, high, low, behind, rfl, rfl, isHigh, isLow⟩ := exists_halves cut
    -- cut, the pair is two characters, and in one piece it is one
    have sizes := congrArg List.length same
    have apart (rest : List CodeUnit) :
        split (before ++ high :: rest) = split before ++ split (high :: rest) :=
      split_append_of_not_low (not_low_of_high isHigh)
    have cutPair : split [high] = [alone high] := rfl
    have pair : split (high :: low :: behind) = .inr (pairChar high low) :: split behind := by
      simp [split, isHigh, isLow]
    rw [List.append_assoc, List.singleton_append, List.length_append, length_decode,
      length_decode, length_decode, apart, apart, pair, cutPair,
      split_cons_of_not_high (not_high_of_low isLow)] at sizes
    simp only [List.length_append, List.length_cons, List.length_nil] at sizes
    omega
  · intro whole
    rw [decode, decode, decode, split_append whole, List.map_append]

/-! ## Surrogates without partner -/

/-- The code unit at a position is half of a pair, and its other half does not stand beside it. -/
def LoneAt (units : List CodeUnit) (position : Nat) : Prop :=
  ∃ unit, units[position]? = some unit ∧
    (isHigh unit = true ∧ withinPair units (position + 1) = false ∨
      isLow unit = true ∧ withinPair units position = false)

lemma isLeft_alone (unit : CodeUnit) :
    (alone unit).isLeft = true ↔ isHigh unit = true ∨ isLow unit = true := by
  unfold alone
  split
  · rename_i half
    simpa using half
  · rename_i character
    simpa using character

/-- A first code unit that makes no pair with the next has no partner, if it is half of a pair. -/
lemma loneAt_zero (apart : withinPair (first :: rest) 1 = false) :
    LoneAt (first :: rest) 0 ↔ (alone first).isLeft = true := by
  have start : withinPair (first :: rest) 0 = false := rfl
  simp [LoneAt, isLeft_alone, apart, start]

lemma loneAt_succ (apart : (isHigh first && isLow second) = false) (position : Nat) :
    LoneAt (first :: second :: rest) (position + 1) ↔ LoneAt (second :: rest) position := by
  simp only [LoneAt, List.getElem?_cons_succ, withinPair_cons_of_apart apart]

/-- The halves of a pair are partners, and the others are looked at without them. -/
lemma loneAt_pair (pair : (isHigh high && isLow low) = true) :
    (∃ position, LoneAt (high :: low :: rest) position) ↔ ∃ position, LoneAt rest position := by
  obtain ⟨isHigh, isLow⟩ := Bool.and_eq_true_iff.1 pair
  have between : withinPair (high :: low :: rest) 1 = true := pair
  have none : ¬ LoneAt (high :: low :: rest) 0 ∧ ¬ LoneAt (high :: low :: rest) 1 := by
    simp [LoneAt, between, not_low_of_high isHigh, not_high_of_low isLow]
  rw [← Nat.or_exists_add_one, ← Nat.or_exists_add_one, or_iff_right none.1, or_iff_right none.2]
  refine exists_congr fun position => ?_
  simp only [LoneAt, List.getElem?_cons_succ, withinPair_pair isLow]

/-- **Left to right and side by side.**  The surrogates that splitting finds no partner for are
those without one beside them. -/
lemma hasLone_iff : hasLone units = true ↔ ∃ position, LoneAt units position := by
  unfold hasLone
  fun_induction split units with
  | case1 => simp [LoneAt]
  | case2 unit =>
    rw [← Nat.or_exists_add_one, loneAt_zero rfl]
    simp [LoneAt]
  | case3 high low rest pair ih =>
    rw [loneAt_pair pair, ← ih]
    rfl
  | case4 first second rest apart ih =>
    rw [Bool.not_eq_true] at apart
    have single : withinPair (first :: second :: rest) 1 = false := apart
    rw [← Nat.or_exists_add_one, loneAt_zero single]
    simp only [loneAt_succ apart, ← ih, List.any_cons, Bool.or_eq_true]

/-- **Decoding is lossless just where every surrogate has its partner.** -/
lemma encode_decode_iff : encode (decode units) = units ↔ hasLone units = false := by
  constructor
  · intro same
    rw [← same, hasLone_encode]
  · intro none
    have pieces : ∀ piece ∈ split units, ∃ c, piece = .inr c := by
      intro piece member
      cases piece with
      | inl unit => exact absurd rfl (List.any_eq_false.1 none _ member)
      | inr c => exact ⟨c, rfl⟩
    calc encode (decode units)
        = (split units).flatMap pieceUnits := by
          rw [decode, encode, List.flatMap_map]
          refine List.flatMap_congr fun piece member => ?_
          obtain ⟨c, rfl⟩ := pieces piece member
          rfl
      _ = units := flatMap_pieceUnits units

/-- **Lossy decoding is local.**  Decoding undoes encoding.  Two parts of any list of code units are
decoded as the whole is just if no pair is cut, which the two code units beside the cut tell.  And
encoding undoes decoding just if every half of a pair has the other beside it. -/
theorem decode_is_local :
    (∀ text, decode (encode text) = text) ∧
      (∀ units position, decode (units.take position) ++ decode (units.drop position) =
        decode units ↔ withinPair units position = false) ∧
      ∀ units, encode (decode units) = units ↔ ∀ position, ¬ LoneAt units position := by
  refine ⟨decode_encode, fun units position => ?_, fun units => ?_⟩
  · rcases Nat.le_total position units.length with inside | beyond
    · have cut := @decode_append_iff (units.take position) (units.drop position)
      rwa [List.take_append_drop, List.length_take, Nat.min_eq_left inside] at cut
    · simp [List.take_of_length_le beyond, List.drop_eq_nil_of_le beyond,
        withinPair_of_length_le beyond, decode, split]
  · rw [encode_decode_iff, ← Bool.not_eq_true, hasLone_iff, not_exists]

end RichText.Utf16
