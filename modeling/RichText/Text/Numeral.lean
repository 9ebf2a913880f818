import RichText.Text.Ascii

/-!
# Numerals

Whole numbers as text.  A numeral is read in one piece: an optional sign, then digits and nothing
else; leading zeros are harmless, and a value outside the asked range is no numeral at all.
-/

namespace RichText

/-- The value of a digit in a base of at most sixteen, letters of either case standing for ten
to fifteen. -/
def digitValue? (base : Nat) (c : Char) : Option Nat :=
  let value? :=
    if isDigit c then some (c.toNat - '0'.toNat)
    else if 'a' ≤ c ∧ c ≤ 'f' then some (c.toNat - 'a'.toNat + 10)
    else if 'A' ≤ c ∧ c ≤ 'F' then some (c.toNat - 'A'.toNat + 10)
    else none
  value?.filter (· < base)

/-- The digit that stands for a value below sixteen. -/
def digit (value : Nat) : Char :=
  if value < 10 then Char.ofNat ('0'.toNat + value) else Char.ofNat ('a'.toNat + (value - 10))

namespace Numeral

/-- Reads digits onto a value already read; every character has to be a digit. -/
def digitsOnto? (base : Nat) : Nat → Text → Option Nat
  | value, [] => some value
  | value, c :: rest => do digitsOnto? base (value * base + (← digitValue? base c)) rest

/-- Reads a nonempty row of digits. -/
def digits? (base : Nat) (text : Text) : Option Nat :=
  if text.isEmpty then none else digitsOnto? base 0 text

/-- Reads a number that may carry a plus sign and stays below `bound`. -/
def unsigned? (base bound : Nat) (text : Text) : Option Nat :=
  (digits? base (Text.dropHead ['+'] text)).filter (· < bound)

/-- Reads a decimal number that may carry one sign and lies between `least` and `greatest`. -/
def signed? (least greatest : Int) (text : Text) : Option Int :=
  let value? : Option Int :=
    match text with
    | '-' :: rest => (digits? 10 rest).map fun (n : Nat) => -(n : Int)
    | _ => (digits? 10 (Text.dropHead ['+'] text)).map fun (n : Nat) => (n : Int)
  value?.filter fun n => least ≤ n ∧ n ≤ greatest

/-- The digits of a number in a base of at most sixteen, without leading zeros. -/
def ofNatBase (base : Nat) (n : Nat) : Text :=
  if _ : base < 2 ∨ n < base then [digit n]
  else ofNatBase base (n / base) ++ [digit (n % base)]
termination_by n
decreasing_by exact Nat.div_lt_self (by omega) (by omega)

/-- The decimal digits of a natural number. -/
def ofNat (n : Nat) : Text := ofNatBase 10 n

/-- The decimal digits of an integer, after a minus sign if it is negative. -/
def ofInt : Int → Text
  | .ofNat n => ofNat n
  | .negSucc n => '-' :: ofNat (n + 1)

@[simp] theorem digits?_nil (base : Nat) : digits? base [] = none := rfl

theorem digitsOnto?_append (base value : Nat) (front back : Text) :
    digitsOnto? base value (front ++ back) =
      (digitsOnto? base value front).bind fun v => digitsOnto? base v back := by
  induction front generalizing value with
  | nil => rfl
  | cons c rest ih =>
    cases h : digitValue? base c <;> simp [digitsOnto?, h, ih]

end Numeral

end RichText
