import RichText.Html.Attribute

/-!
# Lexemes of HTML

Any text splits into lexemes: start tags, end tags, runs of character data between them, and
comments and declarations, which mean nothing.  A lexeme keeps the stretch of source it was read
from, and the stretches of all lexemes make up the source (`Lexeme.source_readAll`).

A `<` that starts no well-formed tag is character data.  A tag ends at its `>`, a start tag
ignoring what is quoted in it, and a `<` on the way there makes it no tag; an unterminated comment
takes the rest of the source.
-/

namespace RichText.Html

/-- What a stretch of source means. -/
inductive Token where
  | startTag (name : Text) (attributes : List Attribute) (selfClosing : Bool)
  | endTag (name : Text)
  /-- Character data, its references replaced. -/
  | text (text : Text)
  deriving DecidableEq, Repr, Inhabited

/-- A stretch of source and the token read from it; comments and declarations have none. -/
structure Lexeme where
  source : Text
  token? : Option Token
  deriving DecidableEq, Repr, Inhabited

namespace Lexeme

/-! ## Where constructs end -/

/-- The length of a comment after its opening, the end mark `-->` included if there is one. -/
def commentLength : Text → Nat
  | '-' :: '-' :: '>' :: _ => 3
  | _ :: rest => commentLength rest + 1
  | [] => 0

/-- The index of the first `>`, unless a `<` comes before it. -/
def closeIndex? : Text → Option Nat
  | [] => none
  | c :: rest =>
    if c = '>' then some 0 else if c = '<' then none else (closeIndex? rest).map (· + 1)

/-- The index of the `>` that ends a start tag, unless a `<` comes before it.  Inside the quotation
mark `quote?` nothing else counts. -/
def tagEndIndex? (quote? : Option Char) : Text → Option Nat
  | [] => none
  | c :: rest =>
    match quote? with
    | some quote => (tagEndIndex? (if c = quote then none else quote?) rest).map (· + 1)
    | none =>
      if c = '\x22' ∨ c = '\x27' then (tagEndIndex? (some c) rest).map (· + 1)
      else if c = '>' then some 0
      else if c = '<' then none
      else (tagEndIndex? none rest).map (· + 1)

/-! ## Constructs -/

/-- What ends the name of a tag. -/
def endsName (c : Char) : Bool := isBlank c || c == '/' || c == '>'

/-- The name at the start of a tag's inside, in small letters. -/
def tagName (inside : Text) : Text := Text.lower (inside.takeWhile (!endsName ·))

/-- The start tag with a given inside.  A slash at its end closes the tag at once. -/
def startTag (inside : Text) : Token :=
  let selfClosing := inside.getLast? == some '/'
  let inside := if selfClosing then inside.dropLast else inside
  let name := tagName inside
  .startTag name (Attribute.readAll (inside.drop name.length)) selfClosing

/-- Reads a tag, comment or declaration from what follows its `<`: its token, if it has one, and
how many characters it takes after the `<`. -/
def construct? (text : Text) : Option (Option Token × Nat) :=
  match text with
  | [] => none
  | c :: rest =>
    if c = '!' ∧ ['-', '-'].isPrefixOf rest then some (none, commentLength (rest.drop 2) + 3)
    else if c = '!' ∨ c = '?' then (closeIndex? text).map fun stop => (none, stop + 1)
    else if c = '/' then
      if rest.head?.any isLetter then
        (closeIndex? rest).map fun stop => (some (.endTag (tagName (rest.take stop))), stop + 2)
      else none
    else if isLetter c then
      (tagEndIndex? none text).map fun stop => (some (startTag (text.take stop)), stop + 1)
    else none

/-- The construct that starts a text, if one does. -/
def constructAt? : Text → Option (Option Token × Nat)
  | [] => none
  | c :: rest => if c = '<' then construct? rest else none

/-- The number of characters before the next construct. -/
def textLength : Text → Nat
  | [] => 0
  | c :: rest => if (constructAt? (c :: rest)).isSome then 0 else textLength rest + 1

/-! ## All lexemes -/

/-- The lexemes of a source. -/
def readAll : Text → List Lexeme
  | [] => []
  | c :: rest =>
    match constructAt? (c :: rest) with
    | some (token?, size) => ⟨c :: rest.take size, token?⟩ :: readAll (rest.drop size)
    | none =>
      let size := textLength rest
      let source := c :: rest.take size
      ⟨source, some (.text (unescape source))⟩ :: readAll (rest.drop size)
termination_by source => source.length
decreasing_by
  all_goals
    simp only [List.length_drop, List.length_cons]
    omega

@[simp] theorem readAll_nil : readAll [] = [] := by rw [readAll]

/-- **The lexemes tile the source.**  Their stretches, in order, make it up. -/
theorem source_readAll (source : Text) : (readAll source).flatMap Lexeme.source = source := by
  fun_induction readAll source with
  | case1 => rfl
  | case2 c rest token? size _ ih => simp [ih]
  | case3 c rest _ size stretch ih => simp [stretch, ih]

theorem source_ne_nil {source : Text} {lexeme : Lexeme} (h : lexeme ∈ readAll source) :
    lexeme.source ≠ [] := by
  fun_induction readAll source <;> grind

end Lexeme

end RichText.Html
