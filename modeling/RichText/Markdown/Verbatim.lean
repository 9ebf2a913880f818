import RichText.Markdown.Escape
import RichText.Markdown.Marks

/-!
# Verbatim text in Markdown

Code and link targets are taken as they stand: no delimiter in them counts, only escapes and, in
a block quote, the marks of quoted lines.
-/

namespace RichText.Markdown

/-- Reads code up to the first run of `size` backticks: the code, and how many characters it and
the run take.  Within a block quote the mark of each quoted line is left out. -/
def readCode? (size : Nat) (quoting : Bool) : Text → Option (Text × Nat)
  | [] => none
  | c :: rest =>
    match escaped? (c :: rest) with
    | some e => (readCode? size quoting (rest.drop 1)).map fun (code, used) => (e :: code, used + 2)
    | none =>
      if c = '\x60' ∧ (List.replicate size '\x60').isPrefixOf (c :: rest) then some ([], size)
      else if c = '\n' ∧ quoting ∧ rest.head? = some '>' then
        let mark := quoteMarkLength rest
        (readCode? size quoting (rest.drop mark)).map fun (code, used) =>
          (c :: code, used + 1 + mark)
      else (readCode? size quoting rest).map fun (code, used) => (c :: code, used + 1)
termination_by text => text.length
decreasing_by
  all_goals
    simp only [List.length_drop, List.length_cons]
    omega

/-- Reads the target of a link, of which `size` characters are to be taken: the target, its
escapes resolved, and what follows the characters taken. -/
def readTarget (size : Nat) (text : Text) : Text × Text :=
  match text with
  | [] => ([], [])
  | c :: rest =>
    if size = 0 then ([], text)
    else
      match escaped? text with
      | some e =>
        let (target, after) := readTarget (size - 2) (rest.drop 1)
        (e :: target, after)
      | none =>
        let (target, after) := readTarget (size - 1) rest
        (c :: target, after)
termination_by text.length
decreasing_by
  all_goals
    simp only [List.length_drop, List.length_cons]
    omega

/-- Splits the inside of a code block into its language, which stands on its first line, and its
code.  An inside of one line is all code. -/
def splitBlock (inside : Text) : Text × Text := (Text.splitLine? inside).getD ([], inside)

end RichText.Markdown
