import RichText.Gathering
import RichText.Markdown.Link
import RichText.Markdown.LinkMarks
import RichText.Markdown.Verbatim
import RichText.Text.Blank

/-!
# One step of reading Markdown

A source is read from left to right.  Doubled delimiters switch formatting on and off, backticks
enclose code, a bracket with a target opens a link, and `>` at the start of a line opens a block
quote, which runs over the lines that start with `>` until `<<`, another line or the end.  What
fits no rule is text.

Links nest.  The text of a link is read like any other text, so a link that has opened waits until
its closing bracket is reached.
-/

namespace RichText.Markdown

/-- What started an entity.  Links are told apart by their depth, the outermost being zero. -/
inductive Delimiter where
  | bold
  | italic
  | underline
  | strike
  | spoiler
  | code
  | pre
  | blockquote
  | link (depth : Nat)
  deriving DecidableEq, Repr, Inhabited

/-- The formatting that a character switches when it is doubled. -/
def doubled? (c : Char) : Option (Delimiter × Kind) :=
  if c = '*' then some (.bold, .bold)
  else if c = '_' then some (.italic, .italic)
  else if c = '+' then some (.underline, .underline)
  else if c = '~' then some (.strike, .strike)
  else if c = '|' then some (.spoiler, .spoiler)
  else none

/-- How far a source has been read. -/
structure Reading where
  /-- The number of characters read. -/
  position : Nat
  /-- The characters not yet read. -/
  rest : Text
  /-- Whether a line starts here. -/
  lineStart : Bool
  gathered : Gathering Delimiter
  /-- The links whose text is being read, innermost first. -/
  links : List LinkText

namespace Reading

/-- Nothing read. -/
def start (source : Text) : Reading := ⟨0, source, true, .empty, []⟩

/-- Whether a block quote is open. -/
def quoting (reading : Reading) : Bool := reading.gathered.isOpen .blockquote

/-- Moves over `count` characters. -/
def advance (count : Nat) (reading : Reading) : Reading :=
  { reading with
    position := reading.position + count
    rest := reading.rest.drop count
    lineStart :=
      if count = 0 then reading.lineStart else reading.rest[count - 1]? == some '\n' }

/-- Moves over `count` characters that change what is gathered. -/
def gather (count : Nat) (change : Gathering Delimiter → Gathering Delimiter)
    (reading : Reading) : Reading :=
  { reading.advance count with gathered := change reading.gathered }

/-! ## The single rules -/

/-- Reads a code block, at a fence, if it is closed. -/
def codeBlock? (reading : Reading) : Option Reading :=
  (readCode? fence.length reading.quoting (reading.rest.drop fence.length)).map
    fun (inside, used) =>
      let (language, code) := splitBlock inside
      reading.gather (fence.length + used) fun gathered =>
        ((gathered.start .pre (.pre language.trim)).append code).finish .pre

/-- Reads code within a line, at a backtick, if it is closed. -/
def codeSpan? (reading : Reading) : Option Reading :=
  (readCode? 1 reading.quoting (reading.rest.drop 1)).map fun (code, used) =>
    reading.gather (1 + used) fun gathered =>
      ((gathered.start .code .code).append code).finish .code

/-- The link that the bracket at this place opens: its closing bracket is followed by a target in
parentheses, which ends before the text of the link around it does. -/
def linkHere? (marks : LinkMarks) (reading : Reading) : Option LinkText := do
  let textEnd ← marks.partner? reading.position
  match reading.rest.drop (textEnd + 1 - reading.position) with
  | '(' :: behind =>
    let targetEnd ← marks.targetEndFrom? (textEnd + 2)
    if reading.links.head?.any (·.textEnd ≤ targetEnd) then none
    else some ⟨textEnd, targetEnd + 1, (readTarget (targetEnd - (textEnd + 2)) behind).1⟩
  | _ => none

/-- Opens a link. -/
def enterLink (link : LinkText) (reading : Reading) : Reading :=
  let opened := reading.gather 1 (·.start (.link reading.links.length) (.textUrl []))
  { opened with links := link :: reading.links }

/-- Finishes the innermost link, `outer` being the links around it, and moves behind its
target. -/
def leaveLink (settings : Settings) (link : LinkText) (outer : List LinkText)
    (reading : Reading) : Reading :=
  let key := Delimiter.link outer.length
  let text := (reading.gathered.covered? key).getD []
  let finished := reading.gather (link.stop - reading.position) fun gathered =>
    match linkKind? settings link.target text with
    | some kind => (gathered.revise key (·.setKind kind)).finish key
    | none => gathered.abandon key
  { finished with links := outer }

/-- Switches formatting on or off. -/
def switch (delimiter : Delimiter) (kind : Kind) (gathered : Gathering Delimiter) :
    Gathering Delimiter :=
  if gathered.isOpen delimiter then gathered.finish delimiter else gathered.start delimiter kind

/-- Reads on from the character `c`, which is followed by `next`. -/
def readFrom (marks : LinkMarks) (c : Char) (next : Text) (reading : Reading) : Reading :=
  let literal := reading.gather 1 (·.appendChar c)
  if c = '>' ∧ reading.lineStart ∧ !reading.quoting then
    reading.gather (quoteMarkLength (c :: next)) (·.start .blockquote .blockquote)
  else if c = '\\' then
    match escaped? (c :: next) with
    | some e => reading.gather 2 (·.appendChar e)
    | none => literal
  else if c = '\n' ∧ reading.quoting then
    if next.head? = some '>' then reading.gather (1 + quoteMarkLength next) (·.appendChar c)
    else reading.gather 1 fun gathered => (gathered.finish .blockquote).appendChar c
  else if c = '\x60' then
    if fence.isPrefixOf (c :: next) then
      reading.codeBlock?.getD (reading.gather fence.length (·.append fence))
    else reading.codeSpan?.getD literal
  else if c = '<' ∧ next.head? = some '<' ∧ reading.quoting then
    reading.gather quoteEnd.length (·.finish .blockquote)
  else if c = '[' then
    match reading.linkHere? marks with
    | some link => reading.enterLink link
    | none => literal
  else
    match doubled? c with
    | some (delimiter, kind) =>
      if next.head? = some c then reading.gather 2 (switch delimiter kind) else literal
    | none => literal

/-- Reads on from the next character, if there is one. -/
def readOn (marks : LinkMarks) (reading : Reading) : Reading :=
  match reading.rest with
  | [] => reading
  | c :: next => reading.readFrom marks c next

/-! ## The step -/

/-- One step: finishes the innermost link if its text has ended, else reads on. -/
def step (settings : Settings) (marks : LinkMarks) (reading : Reading) : Reading :=
  match reading.links with
  | [] => reading.readOn marks
  | link :: outer =>
    if link.textEnd ≤ reading.position then reading.leaveLink settings link outer
    else reading.readOn marks

end Reading

end RichText.Markdown
