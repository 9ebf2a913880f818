import RichText.Text.Numeral

/-!
# Character references

In HTML a character can be written as itself or as a reference between an ampersand and a
semicolon: by name, for the few names known here, or by its code point in decimal or hexadecimal.
What looks like a reference and is none stands for itself.
-/

namespace RichText.Html

/-- The characters that have a name. -/
def namedCharacters : List (Text × Char) :=
  [("amp".toList, '&'), ("lt".toList, '<'), ("gt".toList, '>'), ("quot".toList, '\x22'),
   ("apos".toList, '\x27'), ("nbsp".toList, '\u00A0')]

/-- The character with a given code point. -/
def scalar? (code : Nat) : Option Char :=
  if code.isValidChar then some (Char.ofNat code) else none

/-- One more than the greatest code that a numeric reference may give. -/
def codeBound : Nat := 4294967296

/-- The character that the body of a reference stands for. -/
def referent? : Text → Option Char
  | '#' :: 'x' :: hex => (Numeral.unsigned? 16 codeBound hex).bind scalar?
  | '#' :: 'X' :: hex => (Numeral.unsigned? 16 codeBound hex).bind scalar?
  | '#' :: decimal => (Numeral.unsigned? 10 codeBound decimal).bind scalar?
  | name => namedCharacters.lookup name

/-- The most bytes of UTF-8 that the body of a reference may take. -/
def longestBody : Nat := 32

/-- The number of bytes of a text in UTF-8. -/
def byteCount : Text → Nat
  | [] => 0
  | c :: rest => c.utf8Size + byteCount rest

/-- Reads a reference from what follows its ampersand: the character and how many characters the
reference takes, the semicolon included. -/
def reference? (text : Text) : Option (Char × Nat) :=
  let body := (text.take (longestBody + 1)).takeWhile (· ≠ ';')
  if text[body.length]? = some ';' ∧ byteCount body ≤ longestBody then
    (referent? body).map fun c => (c, body.length + 1)
  else none

/-- The text that HTML text stands for. -/
def unescape : Text → Text
  | [] => []
  | c :: rest =>
    match if c = '&' then reference? rest else none with
    | some (character, used) => character :: unescape (rest.drop used)
    | none => c :: unescape rest
termination_by text => text.length
decreasing_by
  · simp only [List.length_drop, List.length_cons]; omega
  · simp

/-- How a character is written in HTML text, or, with `quotes`, in a quoted attribute value. -/
def escapeChar (quotes : Bool) (c : Char) : Text :=
  if c = '&' then "&amp;".toList
  else if c = '<' then "&lt;".toList
  else if c = '>' then "&gt;".toList
  else if c = '\x22' ∧ quotes then "&quot;".toList
  else [c]

/-- Writes a text as HTML text or as the value of an attribute. -/
def escape (quotes : Bool) (text : Text) : Text := text.flatMap (escapeChar quotes)

@[simp] theorem unescape_nil : unescape [] = [] := by rw [unescape]

theorem unescape_cons_of_ne {c : Char} (h : c ≠ '&') (rest : Text) :
    unescape (c :: rest) = c :: unescape rest := by
  rw [unescape]; simp [h]

@[simp] theorem escape_nil (quotes : Bool) : escape quotes [] = [] := rfl

@[simp] theorem escape_cons (quotes : Bool) (c : Char) (rest : Text) :
    escape quotes (c :: rest) = escapeChar quotes c ++ escape quotes rest := rfl

theorem escape_append (quotes : Bool) (front back : Text) :
    escape quotes (front ++ back) = escape quotes front ++ escape quotes back :=
  List.flatMap_append

end RichText.Html
