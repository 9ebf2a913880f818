import RichText.Markdown.Escape

/-!
# Marks of links

Whether a bracket opens a link depends on characters far behind it: on its closing bracket and on
the first closing parenthesis after that.  One pass over the source finds them all, so that no
bracket sends its reader through the rest of the source.  Escaped characters are no marks.
-/

namespace RichText.Markdown

/-- The places of the marks that make links. -/
structure LinkMarks where
  /-- For the index of a `[`, the index of its `]`. -/
  partners : Array (Option Nat)
  /-- The indices of every `)`, ascending. -/
  targetEnds : Array Nat
  deriving Repr, Inhabited

namespace LinkMarks

/-- Adds the marks of a text that starts at `index`, where `opened` holds the brackets before it
that wait for their partner, the nearest first. -/
def collect (index : Nat) (opened : List Nat) (marks : LinkMarks) : Text → LinkMarks
  | [] => marks
  | c :: rest =>
    if (escaped? (c :: rest)).isSome then collect (index + 2) opened marks (rest.drop 1)
    else if c = '[' then collect (index + 1) (index :: opened) marks rest
    else if c = ']' then
      match opened with
      | [] => collect (index + 1) [] marks rest
      | opener :: outer =>
        collect (index + 1) outer
          { marks with partners := marks.partners.setIfInBounds opener (some index) } rest
    else if c = ')' then
      collect (index + 1) opened { marks with targetEnds := marks.targetEnds.push index } rest
    else collect (index + 1) opened marks rest
termination_by text => text.length
decreasing_by
  all_goals
    simp only [List.length_drop, List.length_cons]
    omega

/-- The marks of a source. -/
def ofSource (source : Text) : LinkMarks :=
  collect 0 [] ⟨Array.replicate source.length none, #[]⟩ source

/-- The closing bracket of the bracket at an index. -/
def partner? (marks : LinkMarks) (index : Nat) : Option Nat := (marks.partners[index]?).join

/-- Halves the stretch from `low` to `high` until it is empty, keeping before it only numbers
below `bound` and behind it none. -/
def bisect (bound : Nat) (numbers : Array Nat) (low high : Nat) : Nat :=
  if low < high then
    let middle := (low + high) / 2
    if numbers.getD middle 0 < bound then bisect bound numbers (middle + 1) high
    else bisect bound numbers low middle
  else low
termination_by high - low

/-- The first closing parenthesis at or behind an index. -/
def targetEndFrom? (marks : LinkMarks) (index : Nat) : Option Nat :=
  marks.targetEnds[bisect index marks.targetEnds 0 marks.targetEnds.size]?

end LinkMarks

end RichText.Markdown
