import RichText.Markdown.Rules
import RichText.Message

/-!
# Reading Markdown

A source is read by steps until none of it is left.  Reading ends because each step takes a
character or finishes a link that waits: a step may open a link, but takes a character for it, so
that twice the characters left and the links waiting become fewer together (`remaining_step_lt`).

The links still waiting at the end are finished, and so is a block quote; other formatting that
never ends is none.
-/

namespace RichText.Markdown

namespace Reading

/-- What each step makes less: twice the characters to read, and the links to finish. -/
def remaining (reading : Reading) : Nat := 2 * reading.rest.length + reading.links.length

@[simp] theorem rest_gather (count : Nat) (change : Gathering Delimiter → Gathering Delimiter)
    (reading : Reading) : (reading.gather count change).rest = reading.rest.drop count := rfl

@[simp] theorem links_gather (count : Nat)
    (change : Gathering Delimiter → Gathering Delimiter) (reading : Reading) :
    (reading.gather count change).links = reading.links := rfl

theorem remaining_gather_lt {count : Nat} {reading : Reading} (h : reading.rest ≠ [])
    (positive : 0 < count) (change : Gathering Delimiter → Gathering Delimiter) :
    (reading.gather count change).remaining < reading.remaining := by
  have := List.length_pos_iff.2 h
  simp only [remaining, rest_gather, links_gather, List.length_drop]
  omega

theorem remaining_enterLink_lt {reading : Reading} (h : reading.rest ≠ []) (link : LinkText) :
    (reading.enterLink link).remaining < reading.remaining := by
  have := List.length_pos_iff.2 h
  simp only [enterLink, remaining, rest_gather, List.length_drop, List.length_cons]
  omega

theorem remaining_leaveLink_lt {settings : Settings} {link : LinkText}
    {outer : List LinkText} {reading : Reading} (h : reading.links = link :: outer) :
    (reading.leaveLink settings link outer).remaining < reading.remaining := by
  simp only [leaveLink, remaining, rest_gather, List.length_drop, h, List.length_cons]
  omega

theorem Rule.remaining_lt {marks : LinkMarks} {c : Char} {next : Text} {reading read : Reading}
    (rule : Rule marks reading c next read) (rest : reading.rest = c :: next) :
    read.remaining < reading.remaining := by
  have nonempty : reading.rest ≠ [] := by simp [rest]
  cases rule with
  | quoteStart => exact remaining_gather_lt nonempty (quoteMarkLength_pos _) _
  | quoteLine | codeSpan => exact remaining_gather_lt nonempty (by omega) _
  | codeBlock =>
    have positive : 0 < fence.length := by decide
    exact remaining_gather_lt nonempty (by omega) _
  | link => exact remaining_enterLink_lt nonempty _
  | escape | quoteBreak | loneFence | quoteStop | switch | text =>
    exact remaining_gather_lt nonempty (by decide) _

/-- **Every step makes progress.**  While characters remain, a step leaves less to do. -/
theorem remaining_step_lt {settings : Settings} {marks : LinkMarks} {reading : Reading}
    (h : reading.rest ≠ []) : (reading.step settings marks).remaining < reading.remaining := by
  have stepped := stepped_step settings marks reading
  generalize reading.step settings marks = later at stepped ⊢
  cases stepped with
  | leave waiting _ => exact remaining_leaveLink_lt waiting
  | stay done _ => contradiction
  | on rest _ rule => exact rule.remaining_lt rest

/-- Reads until no character remains. -/
def run (settings : Settings) (marks : LinkMarks) (reading : Reading) : Reading :=
  if _h : reading.rest = [] then reading else run settings marks (reading.step settings marks)
termination_by reading.remaining
decreasing_by exact remaining_step_lt _h

/-- Finishes the links still open, which are `links`. -/
def leaveLinks (settings : Settings) : List LinkText → Reading → Reading
  | [], reading => reading
  | link :: outer, reading => leaveLinks settings outer (reading.leaveLink settings link outer)

/-- Reads a whole source. -/
def ofSource (settings : Settings) (source : Text) : Reading :=
  let read := run settings (.ofSource source) (start source)
  let finished := leaveLinks settings read.links read
  { finished with gathered := finished.gathered.finish .blockquote }

end Reading

/-- The message that Markdown stands for.  Entities are listed in the order they close; what
never closes is none. -/
def read (settings : Settings) (source : Text) : Message :=
  let gathered := (Reading.ofSource settings source).gathered
  Message.trim ⟨gathered.text, gathered.entities⟩

end RichText.Markdown
