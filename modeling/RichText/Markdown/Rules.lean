import RichText.Markdown.Step

/-!
# The rules of Markdown

Reading on from a character follows one of a few rules.  `Rule` lists them, each with what calls for
it and the reading that it leads to; a step follows one of them unless it finishes a link or nothing
is left (`Stepped`).  Whatever is said of every step is proved rule by rule.
-/

namespace RichText.Markdown.Reading

/-- The rules for reading on from the character `c`, which is followed by `next`. -/
inductive Rule (marks : LinkMarks) (reading : Reading) (c : Char) (next : Text) : Reading → Prop
  /-- A mark at the start of a line starts a block quote. -/
  | quoteStart (mark : c = '>') (starts : reading.lineStart = true)
      (closed : reading.quoting = false) :
      Rule marks reading c next
        (reading.gather (quoteMarkLength (c :: next)) (·.start .blockquote .blockquote))
  /-- A backslash lets a character stand for itself. -/
  | escape {e : Char} (escape : escaped? (c :: next) = some e) :
      Rule marks reading c next (reading.gather 2 (·.appendChar e))
  /-- A block quote goes on in a line with a mark. -/
  | quoteLine (line : c = '\n') (isOpen : reading.quoting = true)
      (marked : next.head? = some '>') :
      Rule marks reading c next (reading.gather (1 + quoteMarkLength next) (·.appendChar c))
  /-- A block quote ends before a line without one. -/
  | quoteBreak (line : c = '\n') (isOpen : reading.quoting = true)
      (unmarked : next.head? ≠ some '>') :
      Rule marks reading c next
        (reading.gather 1 fun gathered => (gathered.finish .blockquote).appendChar c)
  /-- Fences enclose a code block, -/
  | codeBlock {inside : Text} {used : Nat} (fenced : fence <+: c :: next)
      (read : readCode? fence.length reading.quoting (reading.rest.drop fence.length) =
        some (inside, used)) :
      Rule marks reading c next (reading.gather (fence.length + used) fun gathered =>
        ((gathered.start .pre (.pre (splitBlock inside).1.trim)).append
          (splitBlock inside).2).finish .pre)
  /-- and one that encloses nothing is text. -/
  | loneFence (fenced : fence <+: c :: next) :
      Rule marks reading c next (reading.gather fence.length (·.append fence))
  /-- Backticks enclose code within a line. -/
  | codeSpan {inside : Text} {used : Nat} (tick : c = '\x60')
      (read : readCode? 1 reading.quoting (reading.rest.drop 1) = some (inside, used)) :
      Rule marks reading c next (reading.gather (1 + used) fun gathered =>
        ((gathered.start .code .code).append inside).finish .code)
  /-- Its own mark ends a block quote. -/
  | quoteStop (first : c = '<') (second : next.head? = some '<')
      (isOpen : reading.quoting = true) :
      Rule marks reading c next (reading.gather quoteEnd.length (·.finish .blockquote))
  /-- A bracket opens a link. -/
  | link {link : LinkText} (bracket : c = '[') (found : reading.linkHere? marks = some link) :
      Rule marks reading c next (reading.enterLink link)
  /-- A doubled delimiter switches formatting. -/
  | switch {delimiter : Delimiter} {kind : Kind} (doubled : doubled? c = some (delimiter, kind))
      (second : next.head? = some c) :
      Rule marks reading c next (reading.gather 2 (switch delimiter kind))
  /-- What fits no other rule is text. -/
  | text (plain : escaped? (c :: next) = none) :
      Rule marks reading c next (reading.gather 1 (·.appendChar c))

/-- **Reading on follows a rule.** -/
theorem rule_readFrom (marks : LinkMarks) (reading : Reading) (c : Char) (next : Text) :
    Rule marks reading c next (reading.readFrom marks c next) := by
  -- one case for each rule, in the order in which the reader tries them
  unfold readFrom
  simp only
  split
  · rename_i quote
    exact .quoteStart quote.1 quote.2.1 (by simpa using quote.2.2)
  split
  · split
    · rename_i escape
      exact .escape escape
    · rename_i plain
      exact .text plain
  rename_i noBackslash
  have literal : Rule marks reading c next (reading.gather 1 (·.appendChar c)) :=
    .text (escaped?_cons_of_ne noBackslash next)
  split
  · rename_i line
    split
    · rename_i marked
      exact .quoteLine line.1 line.2 marked
    · rename_i unmarked
      exact .quoteBreak line.1 line.2 unmarked
  split
  · rename_i tick
    split
    · rename_i fenced
      rw [List.isPrefixOf_iff_prefix] at fenced
      cases read : readCode? fence.length reading.quoting (reading.rest.drop fence.length) with
      | none =>
        rw [codeBlock?, read]
        exact .loneFence fenced
      | some found =>
        rw [codeBlock?, read]
        exact .codeBlock fenced read
    · cases read : readCode? 1 reading.quoting (reading.rest.drop 1) with
      | none =>
        rw [codeSpan?, read]
        exact literal
      | some found =>
        rw [codeSpan?, read]
        exact .codeSpan tick read
  split
  · rename_i stop
    exact .quoteStop stop.1 stop.2.1 stop.2.2
  split
  · rename_i bracket
    split
    · rename_i found
      exact .link bracket found
    · exact literal
  split
  · rename_i doubled
    split
    · rename_i second
      exact .switch doubled second
    · exact literal
  · exact literal

/-- What one step leads to. -/
inductive Stepped (settings : Settings) (marks : LinkMarks) (reading : Reading) : Reading → Prop
  /-- The innermost link, whose text has ended, is finished. -/
  | leave {link : LinkText} {outer : List LinkText} (waiting : reading.links = link :: outer)
      (ended : link.textEnd ≤ reading.position) :
      Stepped settings marks reading (reading.leaveLink settings link outer)
  /-- Nothing is left, and nothing happens. -/
  | stay (done : reading.rest = [])
      (before : ∀ link ∈ reading.links.head?, reading.position < link.textEnd) :
      Stepped settings marks reading reading
  /-- A rule is followed. -/
  | on {c : Char} {next : Text} {read : Reading} (rest : reading.rest = c :: next)
      (before : ∀ link ∈ reading.links.head?, reading.position < link.textEnd)
      (rule : Rule marks reading c next read) : Stepped settings marks reading read

/-- **A step finishes a link or follows a rule**, unless nothing is left. -/
theorem stepped_step (settings : Settings) (marks : LinkMarks) (reading : Reading) :
    Stepped settings marks reading (reading.step settings marks) := by
  have on (before : ∀ link ∈ reading.links.head?, reading.position < link.textEnd) :
      Stepped settings marks reading (reading.readOn marks) := by
    unfold readOn
    split
    · rename_i done
      exact .stay done before
    · rename_i rest
      exact .on rest before (rule_readFrom marks reading _ _)
  unfold step
  split
  · rename_i none
    exact on (by simp [none])
  · rename_i link outer waiting
    split
    · rename_i ended
      exact .leave waiting ended
    · rename_i inside
      refine on fun other member => ?_
      simp only [waiting, List.head?_cons, Option.mem_def, Option.some.injEq] at member
      exact member ▸ Nat.lt_of_not_le inside

end RichText.Markdown.Reading
