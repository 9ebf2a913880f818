import RichText.Text.Numeral
import RichText.Text.Utf16

/-!
# Strings in JSON

A string is written between quotation marks.  Within them a backslash starts an escape, and
characters below U+0020 are written as escapes only; all else stands for itself.  An escape of
four hexadecimal digits stands for one code unit, which need not be a character.
-/

namespace RichText.Json

/-- The escapes of one letter, with what they stand for. -/
def letterEscapes : List (Char × Char) :=
  [('\x22', '\x22'), ('\\', '\\'), ('/', '/'), ('b', '\x08'), ('f', '\x0C'), ('n', '\n'),
   ('r', '\r'), ('t', '\t')]

/-- The code unit that four hexadecimal digits at the start of a text give, and what follows
them. -/
def fourDigits? : Text → Option (CodeUnit × Text)
  | a :: b :: c :: d :: rest =>
    (Numeral.digits? 16 [a, b, c, d]).map fun n => (UInt16.ofNat n, rest)
  | _ => none

/-- Reads an escape from what follows its backslash. -/
def readEscape? : Text → Option (CodeUnit × Text)
  | [] => none
  | c :: rest =>
    if c = 'u' then fourDigits? rest
    else (letterEscapes.lookup c).map fun e => (UInt16.ofNat e.toNat, rest)

theorem length_fourDigits?_lt {text rest : Text} {unit : CodeUnit}
    (h : fourDigits? text = some (unit, rest)) : rest.length < text.length := by
  unfold fourDigits? at h
  split at h
  · simp only [Option.map_eq_some_iff, Prod.mk.injEq] at h
    obtain ⟨_, _, _, rfl⟩ := h
    simp only [List.length_cons]
    omega
  · cases h

theorem length_readEscape?_lt {text rest : Text} {unit : CodeUnit}
    (h : readEscape? text = some (unit, rest)) : rest.length < text.length := by
  unfold readEscape? at h
  split at h
  · cases h
  · split at h
    · have := length_fourDigits?_lt h
      simp only [List.length_cons]
      omega
    · simp only [Option.map_eq_some_iff, Prod.mk.injEq] at h
      obtain ⟨_, _, _, rfl⟩ := h
      simp

/-- Reads a string from what follows its first quotation mark: its code units, and what follows
the second. -/
def readString? (text : Text) : Option (List CodeUnit × Text) :=
  match text with
  | [] => none
  | c :: rest =>
    if c = '\x22' then some ([], rest)
    else if c = '\\' then
      match _h : readEscape? rest with
      | none => none
      | some (unit, after) => (readString? after).map fun (units, end_) => (unit :: units, end_)
    else if c < ' ' then none
    else (readString? rest).map fun (units, end_) => (Utf16.encodeChar c ++ units, end_)
termination_by text.length
decreasing_by
  · have := length_readEscape?_lt _h
    simp only [List.length_cons]
    omega
  · simp

/-- The escape of a code unit by its number. -/
def unitEscape (unit : CodeUnit) : Text :=
  let n := unit.toNat
  ['\\', 'u', digit (n / 0x1000 % 16), digit (n / 0x100 % 16), digit (n / 0x10 % 16),
   digit (n % 16)]

/-- The escapes that are written although the character could stand for itself or be escaped by
number: all of one letter but that of the slash. -/
def writtenEscapes : List (Char × Text) :=
  [('\x22', ['\\', '\x22']), ('\\', ['\\', '\\']), ('\x08', ['\\', 'b']), ('\x0C', ['\\', 'f']),
   ('\n', ['\\', 'n']), ('\r', ['\\', 'r']), ('\t', ['\\', 't'])]

/-- How a character is written in a string. -/
def writeChar (c : Char) : Text :=
  match writtenEscapes.lookup c with
  | some escape => escape
  | none => if c < ' ' then unitEscape (UInt16.ofNat c.toNat) else [c]

/-- Writes a string.  A surrogate without partner is escaped by its number. -/
def writeString (units : List CodeUnit) : Text :=
  let inside := (Utf16.split units).flatMap fun
    | .inl unit => unitEscape unit
    | .inr c => writeChar c
  ['\x22'] ++ inside ++ ['\x22']

end RichText.Json
