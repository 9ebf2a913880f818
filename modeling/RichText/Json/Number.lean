/-!
# JSON numbers

A number keeps whether it was written as a whole number, since only such a number can be a position
or an identifier.  Any other number means nothing here, but it has to be within double precision.

Double precision is not the number's own size: it is reached by way of the leading digits.  Those
that stay below 2^64 are rounded, the power of ten that makes up for the others is rounded, and
their product decides.  So a number just below the bound may be refused for the rounding upwards,
and one just above it taken.
-/

namespace RichText.Json

/-- A number as it is written. -/
inductive Number where
  /-- A whole number, written with digits only. -/
  | integer (value : Int)
  /-- A number with a fraction or an exponent, `significand` times ten to the `exponent`.  A
  negative zero is of this form too, since no integer is negative zero. -/
  | decimal (significand : Int) (exponent : Int)
  deriving DecidableEq, Repr, Inhabited

/-! ## Double precision -/

namespace Double

/-- The number of binary digits kept. -/
def precision : Nat := 53

/-- The nearest number with as many binary digits as are kept, zeros behind them; of two that are
equally near, the one whose last kept digit is even. -/
def round (n : Nat) : Nat :=
  let unit := Nat.pow 2 (n.log2 + 1 - precision)
  let kept := n / unit
  let rest := n % unit
  if 2 * rest < unit ∨ 2 * rest = unit ∧ kept % 2 = 0 then kept * unit else (kept + 1) * unit

/-- The least magnitude too great: halfway from the greatest double-precision number to the next
power of two. -/
def bound : Nat := Nat.pow 2 1024 - Nat.pow 2 970

/-- The greatest power of ten within double precision. -/
def greatestPower : Int := 308

/-- A number of few enough binary digits is its own nearest. -/
theorem round_of_lt {n : Nat} (h : n < Nat.pow 2 precision) : round n = n := by
  have small : n.log2 + 1 - precision = 0 := by
    by_cases zero : n = 0
    · subst zero; decide
    · have := (Nat.log2_lt zero).2 h
      omega
  simp only [round, small]
  simp [Nat.mod_one]

end Double

namespace Number

/-- One more than the greatest significand that is taken whole. -/
def significandBound : Nat := Nat.pow 2 64

/-- The leading digits of a significand that stay below the bound, and the power of ten with the
digits left out made up for. -/
def leading (significand : Nat) (exponent : Int) : Nat × Int :=
  if significand < significandBound then (significand, exponent)
  else leading (significand / 10) (exponent + 1)
termination_by significand
decreasing_by
  have : 0 < significandBound := by decide
  omega

/-- Whether a significand times a power of ten is within double precision. -/
def fits (significand : Nat) (exponent : Int) : Bool :=
  decide (significand = 0) || decide (exponent < 0) ||
    (decide (exponent ≤ Double.greatestPower) &&
      decide (Double.round significand * Double.round (Nat.pow 10 exponent.toNat) < Double.bound))

/-- Whether a number is within double precision. -/
def isFinite (number : Number) : Bool :=
  let (significand, exponent) :=
    match number with
    | integer value => leading value.natAbs 0
    | decimal significand exponent => leading significand.natAbs exponent
  fits significand exponent

/-- Digits are left out only of a significand that has too many. -/
theorem leading_of_lt {significand : Nat} (h : significand < significandBound) (exponent : Int) :
    leading significand exponent = (significand, exponent) := by
  rw [leading, if_pos h]

end Number

end RichText.Json
