import RichText.Json.Quoted
import RichText.Json.Value

/-!
# Reading JSON

JSON text is read strictly: one value with nothing but blanks around it, the four blank characters
of JSON between its parts, no leading zeros, no comma before a closing bracket.  Values may be
nested to any depth and numbers be of any size.
-/

namespace RichText.Json

/-- The blank characters of JSON. -/
def isGap (c : Char) : Bool := c == ' ' || c == '\t' || c == '\n' || c == '\r'

/-- The text from its first character that is not blank. -/
def skipGap (text : Text) : Text := text.dropWhile isGap

/-! ## Numbers -/

/-- The digits at the start of a text, of which there has to be one, and what follows them. -/
def takeDigits? (text : Text) : Option (Text × Text) :=
  let digits := text.takeWhile isDigit
  if digits.isEmpty then none else some (digits, text.dropWhile isDigit)

/-- The digits of the fraction at the start of a text, and what follows it.  A text that starts
with no point has no fraction. -/
def takeFraction? : Text → Option (Option Text × Text)
  | '.' :: rest => (takeDigits? rest).map fun (digits, after) => (some digits, after)
  | text => some (none, text)

/-- The exponent at the start of a text, and what follows it. -/
def takeExponent? (text : Text) : Option (Option Int × Text) :=
  match text with
  | [] => some (none, [])
  | c :: rest =>
    if c = 'e' ∨ c = 'E' then do
      let negative := rest.head? == some '-'
      let signed := negative || rest.head? == some '+'
      let (digits, after) ← takeDigits? (if signed then rest.tail else rest)
      let size ← Numeral.digits? 10 digits
      some (some (if negative then -(size : Int) else size), after)
    else some (none, text)

/-- Reads a number. -/
def readNumber? (text : Text) : Option (Number × Text) := do
  let negative := text.head? == some '-'
  let (whole, afterWhole) ← takeDigits? (if negative then text.tail else text)
  if whole.head? = some '0' ∧ 1 < whole.length then none
  let (fraction?, afterFraction) ← takeFraction? afterWhole
  let (exponent?, after) ← takeExponent? afterFraction
  let fraction := fraction?.getD []
  let size ← Numeral.digits? 10 (whole ++ fraction)
  let significand : Int := if negative then -(size : Int) else size
  if fraction?.isNone ∧ exponent?.isNone ∧ ¬(negative ∧ size = 0) then
    some (.integer significand, after)
  else some (.decimal significand (exponent?.getD 0 - fraction.length), after)

/-! ## Values -/

/-- The words that are values. -/
def words : List (Text × Value) :=
  [("null".toList, .null), ("true".toList, .bool true), ("false".toList, .bool false)]

/-- Reads a word. -/
def readWord? (text : Text) : Option (Value × Text) :=
  words.findSome? fun (word, value) => (Text.after? word text).map fun after => (value, after)

mutual

/-- Reads a value with at most `fuel` nested steps. -/
def readValue? : Nat → Text → Option (Value × Text)
  | 0, _ => none
  | fuel + 1, text =>
    match skipGap text with
    | [] => none
    | c :: rest =>
      if c = '\x22' then (readString? rest).map fun (units, after) => (.string units, after)
      else if c = '[' then
        match skipGap rest with
        | ']' :: after => some (.array [], after)
        | inside => (readItems? fuel inside).map fun (items, after) => (.array items, after)
      else if c = '\x7B' then
        match skipGap rest with
        | '\x7D' :: after => some (.object [], after)
        | inside =>
          (readMembers? fuel inside).map fun (members, after) => (.object members, after)
      else if c = '-' ∨ isDigit c then
        (readNumber? (c :: rest)).map fun (number, after) => (.number number, after)
      else readWord? (c :: rest)

/-- Reads the items of an array, of which there is at least one, and its closing bracket. -/
def readItems? : Nat → Text → Option (List Value × Text)
  | 0, _ => none
  | fuel + 1, text => do
    let (item, behind) ← readValue? fuel text
    match skipGap behind with
    | ',' :: rest => (readItems? fuel rest).map fun (items, after) => (item :: items, after)
    | ']' :: after => some ([item], after)
    | _ => none

/-- Reads the members of an object, of which there is at least one, and its closing brace. -/
def readMembers? : Nat → Text → Option (List (List CodeUnit × Value) × Text)
  | 0, _ => none
  | fuel + 1, text =>
    match skipGap text with
    | '\x22' :: rest => do
      let (key, behindKey) ← readString? rest
      match skipGap behindKey with
      | ':' :: rest => do
        let (value, behind) ← readValue? fuel rest
        match skipGap behind with
        | ',' :: rest =>
          (readMembers? fuel rest).map fun (members, after) => ((key, value) :: members, after)
        | '\x7D' :: after => some ([(key, value)], after)
        | _ => none
      | _ => none
    | _ => none

end

/-- The value that a text describes.  Every two steps of the reading take a character, so the fuel
suffices for every text. -/
def Value.read? (text : Text) : Option Value := do
  let (value, after) ← readValue? (2 * text.length + 2) text
  if (skipGap after).isEmpty then some value else none

end RichText.Json
