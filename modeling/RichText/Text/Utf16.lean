import RichText.Bounds
import RichText.Text.Basic

/-!
# UTF-16 positions

Positions in a message count UTF-16 code units.  A character of the Basic Multilingual Plane is
one unit; any other is a *surrogate pair*, a high half in U+D800–DBFF and a low half in
U+DC00–DFFF.  A position between the halves of a pair belongs to no character, and slicing moves
it behind the pair, so that neighbouring slices share nothing and lose nothing.

Decoding is lossy where a surrogate has no partner; `split` says where that is, and the other
decodings are read off it.
-/

namespace RichText

/-- A UTF-16 code unit. -/
abbrev CodeUnit := UInt16

/-- The number of code units of a character. -/
def unitWidth (c : Char) : Nat := if c.toNat < 0x10000 then 1 else 2

namespace Utf16

/-- The first half of a surrogate pair. -/
def isHigh (unit : CodeUnit) : Bool := decide (0xD800 ≤ unit.toNat) && decide (unit.toNat ≤ 0xDBFF)

/-- The second half of a surrogate pair. -/
def isLow (unit : CodeUnit) : Bool := decide (0xDC00 ≤ unit.toNat) && decide (unit.toNat ≤ 0xDFFF)

/-! ## Encoding and decoding -/

/-- The code units of a character. -/
def encodeChar (c : Char) : List CodeUnit :=
  if c.toNat < 0x10000 then [.ofNat c.toNat]
  else
    let beyond := c.toNat - 0x10000
    [.ofNat (0xD800 + beyond / 0x400), .ofNat (0xDC00 + beyond % 0x400)]

/-- The code units of a text. -/
def encode (text : Text) : List CodeUnit := text.flatMap encodeChar

/-- The character a surrogate pair stands for. -/
def pairChar (high low : CodeUnit) : Char :=
  Char.ofNat (0x10000 + (high.toNat - 0xD800) * 0x400 + (low.toNat - 0xDC00))

/-- The replacement character, which a lossy decoding writes for a surrogate without partner. -/
def replacement : Char := '\uFFFD'

/-- What a code unit is on its own: a surrogate without partner, or a character. -/
def alone (unit : CodeUnit) : CodeUnit ⊕ Char :=
  if isHigh unit || isLow unit then .inl unit else .inr (Char.ofNat unit.toNat)

/-- Splits code units into characters and surrogates without partner. -/
def split : List CodeUnit → List (CodeUnit ⊕ Char)
  | [] => []
  | [unit] => [alone unit]
  | first :: second :: rest =>
    if isHigh first && isLow second then .inr (pairChar first second) :: split rest
    else alone first :: split (second :: rest)

/-- The text of a list of code units, a surrogate without partner becoming the replacement
character. -/
def decode (units : List CodeUnit) : Text :=
  (split units).map fun
    | .inl _ => replacement
    | .inr c => c

/-- Whether some surrogate has no partner. -/
def hasLone (units : List CodeUnit) : Bool := (split units).any Sum.isLeft

/-- The text of a list of code units, if every surrogate has its partner. -/
def decode? (units : List CodeUnit) : Option Text :=
  if hasLone units then none else some (decode units)

/-! ## Lengths -/

/-- The number of code units of a text. -/
def unitCount : Text → Nat
  | [] => 0
  | c :: rest => unitWidth c + unitCount rest

/-- The length of a text in code units, held within the range of positions. -/
def length (text : Text) : Int := Position.clamp (unitCount text)

@[simp] theorem encode_nil : encode [] = [] := rfl

@[simp] theorem encode_cons (c : Char) (text : Text) :
    encode (c :: text) = encodeChar c ++ encode text := rfl

theorem encode_append (front back : Text) : encode (front ++ back) = encode front ++ encode back :=
  List.flatMap_append

theorem length_encodeChar (c : Char) : (encodeChar c).length = unitWidth c := by
  unfold encodeChar unitWidth; split <;> rfl

@[simp] theorem unitCount_nil : unitCount [] = 0 := rfl

@[simp] theorem unitCount_cons (c : Char) (text : Text) :
    unitCount (c :: text) = unitWidth c + unitCount text := rfl

@[simp] theorem unitCount_append (front back : Text) :
    unitCount (front ++ back) = unitCount front + unitCount back := by
  induction front with
  | nil => simp
  | cons c rest ih => simp [ih, Nat.add_assoc]

theorem length_encode (text : Text) : (encode text).length = unitCount text := by
  induction text with
  | nil => rfl
  | cons c rest ih => simp [length_encodeChar, ih]

/-! ## Positions and slices -/

/-- Whether a position lies between the halves of a surrogate pair. -/
def withinPair (units : List CodeUnit) (position : Nat) : Bool :=
  match position with
  | 0 => false
  | before + 1 =>
    match units.drop before with
    | high :: low :: _ => isHigh high && isLow low
    | _ => false

/-- The nearest position at or after the given one that splits no pair, at most the end. -/
def boundary (units : List CodeUnit) (position : Nat) : Nat :=
  let position := min position units.length
  if withinPair units position then position + 1 else position

/-- The text between two positions, each moved to its boundary. -/
def slice (units : List CodeUnit) (start stop : Nat) : Text :=
  let start := boundary units start
  let stop := boundary units stop
  decode ((units.take stop).drop start)

end Utf16

end RichText
