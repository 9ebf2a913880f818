import RichText.Json.Quoted
import RichText.Json.Value

/-!
# Writing JSON

A value is written in one of two layouts: indented, with every item and member on a line of its
own, or compact, with no blanks at all.  Empty arrays and objects are a pair of brackets in both.
-/

namespace RichText.Json

/-- Where blanks are written. -/
structure Layout where
  /-- What is written before an item or a closing bracket at a depth. -/
  lineBreak : Nat → Text
  /-- What is written between a key and its value. -/
  colon : Text

namespace Layout

/-- Every item on its own line, two blanks deeper than what holds it. -/
def indented : Layout := ⟨fun depth => '\n' :: List.replicate (2 * depth) ' ', [':', ' ']⟩

/-- No blanks. -/
def compact : Layout := ⟨fun _ => [], [':']⟩

end Layout

/-- Writes a number. -/
def Number.write : Number → Text
  | .integer value => Numeral.ofInt value
  | .decimal significand exponent =>
    Numeral.ofInt significand ++ ['e'] ++ Numeral.ofInt exponent

namespace Value

mutual

/-- Writes a value that stands at a depth. -/
def writeAt (layout : Layout) (depth : Nat) : Value → Text
  | null => "null".toList
  | bool true => "true".toList
  | bool false => "false".toList
  | number n => n.write
  | string units => writeString units
  | array [] => ['[', ']']
  | array (item :: items) =>
    ['['] ++ layout.lineBreak (depth + 1) ++ writeAt layout (depth + 1) item ++
      writeItems layout (depth + 1) items ++ layout.lineBreak depth ++ [']']
  | object [] => ['\x7B', '\x7D']
  | object ((key, value) :: members) =>
    ['\x7B'] ++ layout.lineBreak (depth + 1) ++ writeString key ++ layout.colon ++
      writeAt layout (depth + 1) value ++ writeMembers layout (depth + 1) members ++
      layout.lineBreak depth ++ ['\x7D']

/-- Writes the items behind the first. -/
def writeItems (layout : Layout) (depth : Nat) : List Value → Text
  | [] => []
  | item :: items =>
    [','] ++ layout.lineBreak depth ++ writeAt layout depth item ++ writeItems layout depth items

/-- Writes the members behind the first. -/
def writeMembers (layout : Layout) (depth : Nat) : List (List CodeUnit × Value) → Text
  | [] => []
  | (key, value) :: members =>
    [','] ++ layout.lineBreak depth ++ writeString key ++ layout.colon ++
      writeAt layout depth value ++ writeMembers layout depth members

end

/-- Writes a value. -/
def write (layout : Layout) (value : Value) : Text := writeAt layout 0 value

end Value

end RichText.Json
