import RichText.Json.Printer
import RichText.Json.Reader
import RichText.Proofs.Numerals

/-!
# Written numbers are read back

A number of JSON is written as an integer, or as an integer and an exponent, and it is read back as
it was written (`readNumber?_write`) where something else follows it (`Ends`): a digit, a point or
an exponent behind it would belong to it.

An integer is written as its sign and its size (`ofInt_eq`), and the reader takes the two apart
again (`head?_ofInt_append`, `signless_ofInt_append`).
-/

namespace RichText

namespace Numeral

lemma ofInt_eq (n : Int) : ofInt n = (if n < 0 then ['-'] else []) ++ ofNat n.natAbs := by
  cases n with
  | ofNat n => simp [ofInt]
  | negSucc n => rw [if_pos (Int.negSucc_lt_zero n)]; rfl

lemma eq_zero_of_digit : ∀ value < 10, digit value = '0' → value = 0 := by decide

lemma exists_ofNat_eq_cons (n : Nat) :
    ∃ first others, ofNat n = first :: others ∧ isDigit first = true ∧
      (first = '0' → n = 0 ∧ others = []) := by
  unfold ofNat
  fun_induction ofNatBase 10 n with
  | case1 n small =>
    have small : n < 10 := small.resolve_left (by decide)
    exact ⟨_, _, rfl, isDigit_digit n small, fun zero => ⟨eq_zero_of_digit n small zero, rfl⟩⟩
  | case2 n large ih =>
    obtain ⟨first, others, shape, isDigit, zero⟩ := ih
    refine ⟨first, _, by rw [shape]; rfl, isDigit, fun isZero => ?_⟩
    have := (zero isZero).1
    omega

end Numeral

namespace Json

open Numeral (ofInt ofNat)

/-! ## Signs and digits -/

lemma head?_ofNat_append_ne (n : Nat) {c : Char} (nonDigit : isDigit c = false) (rest : Text) :
    (ofNat n ++ rest).head? ≠ some c := by
  obtain ⟨first, others, shape, isDigit, -⟩ := Numeral.exists_ofNat_eq_cons n
  rw [shape]
  rintro ⟨⟩
  rw [nonDigit] at isDigit
  cases isDigit

lemma head?_ofInt_append (n : Int) (rest : Text) :
    ((ofInt n ++ rest).head? == some '-') = decide (n < 0) := by
  rw [Numeral.ofInt_eq]
  by_cases negative : n < 0
  · simp [negative]
  · simpa [negative] using head?_ofNat_append_ne n.natAbs (c := '-') rfl rest

lemma signless_ofInt_append (n : Int) (rest : Text) :
    (if n < 0 then (ofInt n ++ rest).tail else ofInt n ++ rest) = ofNat n.natAbs ++ rest := by
  rw [Numeral.ofInt_eq]
  by_cases negative : n < 0 <;> simp [negative]

lemma signed_natAbs (n : Int) :
    (if n < 0 then -(n.natAbs : Int) else (n.natAbs : Int)) = n := by
  split <;> omega

lemma takeDigits?_ofNat (n : Nat) {rest : Text} (stops : ∀ c ∈ rest.head?, isDigit c = false) :
    takeDigits? (ofNat n ++ rest) = some (ofNat n, rest) := by
  have digits := Numeral.ofNat_digits n
  rw [takeDigits?, Text.takeWhile_row digits stops, Text.dropWhile_row digits stops]
  simp [Numeral.ofNat_ne_nil n]

/-! ## Numbers -/

/-- What follows a number does not belong to it: a gap, a comma, a closing bracket or nothing. -/
def Ends (rest : Text) : Prop :=
  ∀ c ∈ rest.head?, isDigit c = false ∧ c ≠ '.' ∧ c ≠ 'e' ∧ c ≠ 'E'

@[simp] lemma ends_nil : Ends [] := nofun

lemma ends_cons {c : Char} (other : isDigit c = false ∧ c ≠ '.' ∧ c ≠ 'e' ∧ c ≠ 'E')
    (rest : Text) : Ends (c :: rest) := by
  rintro first member
  obtain rfl : c = first := by simpa using member
  exact other

lemma takeFraction?_of_head? {rest : Text} (pointless : rest.head? ≠ some '.') :
    takeFraction? rest = some (none, rest) := by
  unfold takeFraction?
  split
  · exact absurd rfl pointless
  · rfl

lemma takeExponent?_of_ends {rest : Text} (ends : Ends rest) :
    takeExponent? rest = some (none, rest) := by
  cases rest with
  | nil => rfl
  | cons c others =>
    obtain ⟨-, -, small, capital⟩ := ends c rfl
    rw [takeExponent?, if_neg (by simp [small, capital])]

lemma takeExponent?_ofInt (exponent : Int) {rest : Text} (ends : Ends rest) :
    takeExponent? ('e' :: (ofInt exponent ++ rest)) = some (some exponent, rest) := by
  have plus : ((ofInt exponent ++ rest).head? == some '+') = false := by
    rw [Numeral.ofInt_eq]
    by_cases negative : exponent < 0
    · simp [negative]
    · simpa [negative] using head?_ofNat_append_ne exponent.natAbs (c := '+') rfl rest
  simp only [takeExponent?, true_or, if_true, head?_ofInt_append, plus, Bool.or_false,
    signless_ofInt_append, takeDigits?_ofNat _ fun c member => (ends c member).1,
    Numeral.digits?_ofNat, Option.bind_eq_bind, Option.bind_some, decide_eq_true_eq, signed_natAbs]

lemma not_leading_zero (n : Nat) : ¬((ofNat n).head? = some '0' ∧ 1 < (ofNat n).length) := by
  rintro ⟨zero, long⟩
  obtain ⟨first, others, shape, -, alone⟩ := Numeral.exists_ofNat_eq_cons n
  rw [shape] at zero long
  rw [(alone (Option.some.inj zero)).2] at long
  exact Nat.lt_irrefl 1 long

/-- **A written number is read back.** -/
lemma readNumber?_write (number : Number) {rest : Text} (ends : Ends rest) :
    readNumber? (number.write ++ rest) = some (number, rest) := by
  cases number with
  | integer value =>
    have digits := takeDigits?_ofNat value.natAbs fun c member => (ends c member).1
    have point : rest.head? ≠ some '.' := fun head => (ends _ head).2.1 rfl
    have positive : ¬(value < 0 ∧ value.natAbs = 0) := by omega
    simp only [readNumber?, Number.write, head?_ofInt_append, signless_ofInt_append, digits,
      not_leading_zero, takeFraction?_of_head? point, takeExponent?_of_ends ends, signed_natAbs,
      Option.bind_eq_bind, Option.bind_some, Option.getD_none, List.append_nil,
      Numeral.digits?_ofNat, decide_eq_true_eq, positive]
    simp
  | decimal significand exponent =>
    have digits : takeDigits? (ofNat significand.natAbs ++ ('e' :: (ofInt exponent ++ rest))) =
        some (ofNat significand.natAbs, 'e' :: (ofInt exponent ++ rest)) :=
      takeDigits?_ofNat significand.natAbs (by rintro c ⟨⟩; rfl)
    have point : takeFraction? ('e' :: (ofInt exponent ++ rest)) =
        some (none, 'e' :: (ofInt exponent ++ rest)) := takeFraction?_of_head? (by simp)
    have whole : (Number.decimal significand exponent).write ++ rest =
        ofInt significand ++ ('e' :: (ofInt exponent ++ rest)) := by simp [Number.write]
    rw [whole]
    simp only [readNumber?, head?_ofInt_append, signless_ofInt_append, digits, not_leading_zero,
      point, takeExponent?_ofInt exponent ends, signed_natAbs, Option.bind_eq_bind,
      Option.bind_some, Option.getD_none, List.append_nil, Numeral.digits?_ofNat,
      decide_eq_true_eq]
    simp

lemma exists_write_eq_cons (number : Number) :
    ∃ first others, number.write = first :: others ∧ (first = '-' ∨ isDigit first = true) := by
  have integer (n : Int) :
      ∃ first others, ofInt n = first :: others ∧ (first = '-' ∨ isDigit first = true) := by
    obtain ⟨first, others, shape⟩ := List.exists_cons_of_ne_nil (Numeral.ofInt_ne_nil n)
    have member := Numeral.ofInt_characters n first (by rw [shape]; exact List.mem_cons_self)
    exact ⟨first, others, shape, member.symm⟩
  cases number with
  | integer value => exact integer value
  | decimal significand exponent =>
    obtain ⟨first, others, shape, start⟩ := integer significand
    exact ⟨first, _, by rw [Number.write, shape]; rfl, start⟩

end Json

end RichText
