import RichText.Html.Reference
import RichText.Text.Blank

/-!
# Attributes of tags

What follows the name in a start tag is a list of attributes: a key, and perhaps an equals sign
and a value, which is quoted or runs to the next blank.  Blanks and slashes between attributes
mean nothing.  Any text can be read as such a list, and each step of the reading takes at least
one character (`Attribute.length_next_le`), which is why `Attribute.readAll` ends.
-/

namespace RichText.Html

/-- A key, in small letters, and its value if it has one. -/
structure Attribute where
  key : Text
  value : Option Text
  deriving DecidableEq, Repr, Inhabited

namespace Attribute

/-- What may stand between attributes. -/
def isSeparator (c : Char) : Bool := isBlank c || c == '/'

/-- What ends a key. -/
def endsKey (c : Char) : Bool := isBlank c || c == '=' || c == '/'

/-- Splits a text into the value at its start, as written, and what follows.  A quoted value that
is not closed takes the whole text. -/
def splitValue (text : Text) : Text × Text :=
  match text with
  | [] => ([], [])
  | c :: body =>
    if c = '\x22' ∨ c = '\x27' then
      let value := body.takeWhile (· ≠ c)
      (value, body.drop (value.length + 1))
    else (text.takeWhile (!isBlank ·), text.dropWhile (!isBlank ·))

/-- Reads the attribute that starts with the character `first`, which is no separator, and gives
what follows it.  The key is empty if the attribute starts with the equals sign. -/
def next (first : Char) (rest : Text) : Attribute × Text :=
  let key := if first = '=' then [] else first :: rest.takeWhile (!endsKey ·)
  let behind := if first = '=' then first :: rest else Text.trimStart (rest.dropWhile (!endsKey ·))
  match behind with
  | '=' :: value =>
    let (written, after) := splitValue (Text.trimStart value)
    (⟨Text.lower key, some (unescape written)⟩, after)
  | _ => (⟨Text.lower key, none⟩, behind)

theorem length_splitValue_le (text : Text) : (splitValue text).2.length ≤ text.length := by
  unfold splitValue
  split
  · simp
  · split
    · simp only [List.length_drop, List.length_cons]; omega
    · exact (List.dropWhile_sublist _).length_le

/-- **Reading an attribute takes at least its first character.** -/
theorem length_next_le (first : Char) (rest : Text) :
    (next first rest).2.length ≤ rest.length := by
  have dropped : (rest.dropWhile (!endsKey ·)).length ≤ rest.length :=
    (List.dropWhile_sublist _).length_le
  have trimmed := Text.trimStart_length_le (rest.dropWhile (!endsKey ·))
  have value_le (value : Text) : (splitValue (Text.trimStart value)).2.length ≤ value.length :=
    Nat.le_trans (length_splitValue_le _) (Text.trimStart_length_le _)
  unfold next
  by_cases h : first = '='
  · subst h
    exact value_le rest
  · simp only [h, if_false]
    split
    · rename_i value heq
      have := value_le value
      rw [heq] at trimmed
      simp only [List.length_cons] at trimmed
      simp only
      omega
    · simp only
      omega

/-- The attributes of a text, in order, less those with an empty key. -/
def readAll (text : Text) : List Attribute :=
  match _h : text.dropWhile isSeparator with
  | [] => []
  | first :: rest =>
    let step := next first rest
    if step.1.key.isEmpty then readAll step.2 else step.1 :: readAll step.2
termination_by text.length
decreasing_by
  all_goals
    have dropped := (List.dropWhile_sublist (l := text) isSeparator).length_le
    have := length_next_le first rest
    simp only [_h, List.length_cons] at dropped
    omega

/-- The value of the first attribute with a key. -/
def valueOf? (key : Text) (attributes : List Attribute) : Option Text :=
  (attributes.find? (·.key = key)).bind (·.value)

end Attribute

end RichText.Html
