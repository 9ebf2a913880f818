import RichText.Json.Number
import RichText.Text.Utf16

/-!
# JSON values

The values that JSON text describes, before anything is made of them.  Strings are lists of
UTF-16 code units, because an escape in JSON stands for one code unit and may give half of a
surrogate pair; objects keep the order and the repetitions of their members.
-/

namespace RichText.Json

/-- A JSON value. -/
inductive Value where
  | null
  | bool (value : Bool)
  | number (number : Number)
  | string (units : List CodeUnit)
  | array (items : List Value)
  | object (members : List (List CodeUnit × Value))
  deriving Repr, Inhabited

namespace Value

/-- The string of a text. -/
def ofText (text : Text) : Value := .string (Utf16.encode text)

/-- The number of an integer. -/
def ofInt (n : Int) : Value := .number (.integer n)

/-- The object with the given members, whose keys are texts. -/
def ofMembers (members : List (Text × Value)) : Value :=
  .object (members.map fun (key, value) => (Utf16.encode key, value))

/-- The text of a string that holds no half of a surrogate pair. -/
def toText? : Value → Option Text
  | string units => Utf16.decode? units
  | _ => none

/-- The value of a number written as a whole number. -/
def toInt? : Value → Option Int
  | number (.integer value) => some value
  | _ => none

/-- The value of `true` or `false`. -/
def toBool? : Value → Option Bool
  | bool value => some value
  | _ => none

/-- The items of an array. -/
def toItems? : Value → Option (List Value)
  | array items => some items
  | _ => none

/-- The values that the members with a given key have, in order. -/
def occurrences (key : Text) (members : List (List CodeUnit × Value)) : List Value :=
  (members.filter (·.1 = Utf16.encode key)).map (·.2)

mutual

/-- How deeply arrays and objects are nested. -/
def depth : Value → Nat
  | array items => depthOfItems items + 1
  | object members => depthOfMembers members + 1
  | _ => 0

/-- How deeply the items of an array are nested. -/
def depthOfItems : List Value → Nat
  | [] => 0
  | item :: items => max (depth item) (depthOfItems items)

/-- How deeply the members of an object are nested. -/
def depthOfMembers : List (List CodeUnit × Value) → Nat
  | [] => 0
  | (_, value) :: members => max (depth value) (depthOfMembers members)

end

mutual

/-- Whether every string in a value is a text and every number within double precision. -/
def isSound : Value → Bool
  | number n => n.isFinite
  | string units => !Utf16.hasLone units
  | array items => areSound items
  | object members => areSoundMembers members
  | _ => true

/-- Whether all items of an array are sound. -/
def areSound : List Value → Bool
  | [] => true
  | item :: items => isSound item && areSound items

/-- Whether all members of an object are sound, keys and values. -/
def areSoundMembers : List (List CodeUnit × Value) → Bool
  | [] => true
  | (key, value) :: members => !Utf16.hasLone key && isSound value && areSoundMembers members

end

end Value

end RichText.Json
