/-!
# Bounded whole numbers

Positions in a message are signed 32-bit numbers and identifiers of users and documents signed
64-bit numbers.  Both are kept as integers; this module states their ranges and the one piece of
bounded arithmetic the library needs, which holds a position at the end of its range.
-/

namespace RichText

namespace Position

/-- The least position. -/
def least : Int := -2147483648

/-- The greatest position. -/
def greatest : Int := 2147483647

/-- A number that is a position. -/
def InRange (n : Int) : Prop := least ≤ n ∧ n ≤ greatest

instance (n : Int) : Decidable (InRange n) := inferInstanceAs (Decidable (_ ∧ _))

/-- The position nearest to a number. -/
def clamp (n : Int) : Int := max least (min n greatest)

@[simp] theorem clamp_of_inRange {n : Int} (h : InRange n) : clamp n = n := by
  simp only [InRange, least, greatest] at h
  simp only [clamp, least, greatest]
  omega

theorem inRange_clamp (n : Int) : InRange (clamp n) := by
  simp only [InRange, clamp, least, greatest]
  omega

end Position

namespace Identifier

/-- The least identifier. -/
def least : Int := -9223372036854775808

/-- The greatest identifier. -/
def greatest : Int := 9223372036854775807

/-- A number that is an identifier. -/
def InRange (n : Int) : Prop := least ≤ n ∧ n ≤ greatest

instance (n : Int) : Decidable (InRange n) := inferInstanceAs (Decidable (_ ∧ _))

end Identifier

end RichText
