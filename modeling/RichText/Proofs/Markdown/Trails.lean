import Mathlib.Tactic.Lemma
import RichText.Markdown.Reader
import RichText.Proofs.Gatherings
import RichText.Proofs.Markdown.LinkMarks

/-!
# Reading what is written, piece by piece

Reading a piece of Markdown moves behind it and changes the gathering in a way that depends on
nothing but the piece, on what was gathered and on whether a line starts: on its `Trail`.
`Reads settings depth quoted behind value change` says that the piece `value` changes the trail by
`change`, whatever stands around it, within `depth` links.  The flags say whether a block quote may
be open before and behind the piece; pieces follow one another where they agree (`Reads.append`).

Text is such a piece, in whichever way it is escaped (`reads_escaped`).  What is gathered from a
source that is one piece is what the piece changes (`Reads.gathered_ofSource`).
-/

namespace RichText.Markdown

/-- What was gathered, and whether a line starts behind what was read last. -/
structure Trail where
  gathered : Gathering Delimiter
  lineStart : Bool

namespace Trail

/-- Whether a block quote is open. -/
def quoting (trail : Trail) : Bool := trail.gathered.isOpen .blockquote

/-- A change by a piece that ends no line. -/
def mark (change : Gathering Delimiter → Gathering Delimiter) (trail : Trail) : Trail :=
  ⟨change trail.gathered, false⟩

/-- Reads a character of text.  A line break in what is written for a block quote has the mark of a
quoted line behind it, which opens a block quote where none is open. -/
def type (quoted : Bool) (trail : Trail) (c : Char) : Trail :=
  if c = '\n' ∧ quoted = true then
    trail.mark fun gathered => (gathered.appendChar c).start .blockquote .blockquote
  else ⟨trail.gathered.appendChar c, c == '\n'⟩

/-- Reads text. -/
def typeAll (quoted : Bool) (text : Text) (trail : Trail) : Trail :=
  text.foldl (type quoted) trail

@[simp] lemma quoting_mark (change : Gathering Delimiter → Gathering Delimiter) (trail : Trail) :
    (trail.mark change).quoting = (change trail.gathered).isOpen .blockquote := rfl

end Trail

namespace Reading

/-- The trail of a reading. -/
def trail (reading : Reading) : Trail := ⟨reading.gathered, reading.lineStart⟩

/-- Moves over `count` characters, leaving a trail. -/
def pass (count : Nat) (trail : Trail) (reading : Reading) : Reading :=
  ⟨reading.position + count, reading.rest.drop count, trail.lineStart, trail.gathered,
    reading.links⟩

@[simp] lemma trail_pass (count : Nat) (trail : Trail) (reading : Reading) :
    (reading.pass count trail).trail = trail := rfl

@[simp] lemma pass_pass (first second : Nat) (middle last : Trail) (reading : Reading) :
    (reading.pass first middle).pass second last = reading.pass (first + second) last := by
  simp only [pass, List.drop_drop, Nat.add_assoc]

/-- Gathering while moving over a piece leaves a trail behind it. -/
lemma gather_eq_pass {reading : Reading} {value tail : Text} (rest : reading.rest = value ++ tail)
    (filled : value ≠ []) (change : Gathering Delimiter → Gathering Delimiter) :
    reading.gather value.length change =
      reading.pass value.length ⟨change reading.gathered, value.getLast? == some '\n'⟩ := by
  have positive := List.length_pos_iff.2 filled
  have last : reading.rest[value.length - 1]? = value.getLast? := by
    rw [rest, List.getElem?_append_left (by omega), List.getLast?_eq_getElem?]
  simp only [gather, advance, pass, Nat.pos_iff_ne_zero.1 positive, if_false, last]

/-! ## Steps -/

variable {settings : Settings} {marks : LinkMarks}

lemma run_step {reading : Reading} (more : reading.rest ≠ []) :
    run settings marks reading = run settings marks (reading.step settings marks) := by
  rw [run, dif_neg more]

/-- **What every step keeps, a run keeps.** -/
lemma run_keeps (keeps : Reading → Prop)
    (step : ∀ reading, keeps reading → keeps (reading.step settings marks)) {reading : Reading}
    (h : keeps reading) : keeps (run settings marks reading) := by
  induction hsize : reading.remaining using Nat.strongRecOn generalizing reading with
  | _ size ih =>
    subst hsize
    by_cases done : reading.rest = []
    · rw [run, dif_pos done]
      exact h
    · rw [run_step done]
      exact ih _ (remaining_step_lt done) (step reading h) rfl

/-- What finishing a link keeps, finishing all links keeps. -/
lemma leaveLinks_keeps (settings : Settings) (keeps : Reading → Prop)
    (leave : ∀ link outer reading, reading.links = link :: outer → keeps reading →
      keeps (reading.leaveLink settings link outer)) {links : List LinkText} {reading : Reading}
    (same : reading.links = links) (h : keeps reading) :
    keeps (reading.leaveLinks settings links) := by
  induction links generalizing reading with
  | nil => exact h
  | cons link outer ih => exact ih rfl (leave link outer reading same h)

lemma links_leaveLinks (settings : Settings) {links : List LinkText} {reading : Reading}
    (same : reading.links = links) : (reading.leaveLinks settings links).links = [] := by
  induction links generalizing reading with
  | nil => exact same
  | cons link outer ih => exact ih rfl

end Reading

/-! ## Readings at a piece -/

/-- The reading has come to `value`, which `tail` follows, within `depth` links whose text reaches
behind `value`. -/
structure At (depth : Nat) (quoted : Bool) (front value tail : Text) (reading : Reading) :
    Prop where
  whole : Whole front
  position : reading.position = front.length
  rest : reading.rest = value ++ tail
  depth : reading.links.length = depth
  room : ∀ link ∈ reading.links.head?, reading.position + value.length ≤ link.textEnd
  calm : reading.trail.quoting = true → quoted = true

variable {depth : Nat} {quoted middle behind : Bool} {front value more tail : Text}
  {reading : Reading}

lemma At.left (h : At depth quoted front (value ++ more) tail reading) :
    At depth quoted front value (more ++ tail) reading := by
  refine ⟨h.whole, h.position, by rw [h.rest, List.append_assoc], h.depth, ?_, h.calm⟩
  intro link member
  have := h.room link member
  rw [List.length_append] at this
  omega

lemma At.right (h : At depth quoted front (value ++ more) tail reading) (whole : Whole value)
    {trail : Trail} (calm : trail.quoting = true → middle = true) :
    At depth middle (front ++ value) more tail (reading.pass value.length trail) := by
  refine ⟨h.whole.append whole, ?_, ?_, h.depth, ?_, calm⟩
  · rw [List.length_append, ← h.position]
    rfl
  · show reading.rest.drop value.length = _
    rw [h.rest, List.append_assoc, List.drop_left]
  · intro link member
    have := h.room link member
    rw [List.length_append] at this
    show reading.position + value.length + more.length ≤ link.textEnd
    omega

/-- **A piece is read for what it is.**  Reading `value` changes the trail by `change`, whatever
stands around it. -/
structure Reads (settings : Settings) (depth : Nat) (quoted behind : Bool) (value : Text)
    (change : Trail → Trail) : Prop where
  whole : Whole value
  calm : ∀ trail : Trail, (trail.quoting = true → quoted = true) →
    (change trail).quoting = true → behind = true
  run : ∀ front tail reading, At depth quoted front value tail reading →
    reading.run settings (.ofSource (front ++ (value ++ tail))) =
      (reading.pass value.length (change reading.trail)).run settings
        (.ofSource (front ++ (value ++ tail)))

variable {settings : Settings} {change next : Trail → Trail}

/-- **Pieces are read one after another.** -/
lemma Reads.append (first : Reads settings depth quoted middle value change)
    (second : Reads settings depth middle behind more next) :
    Reads settings depth quoted behind (value ++ more) fun trail => next (change trail) := by
  refine ⟨first.whole.append second.whole,
    fun trail calm => second.calm _ (first.calm trail calm), ?_⟩
  intro front tail reading h
  have run := first.run front (more ++ tail) reading h.left
  have runOn := second.run (front ++ value) tail _
    (h.right first.whole (first.calm reading.trail h.calm))
  rw [List.append_assoc] at runOn ⊢
  rw [run, runOn, Reading.pass_pass, Reading.trail_pass, List.length_append]

/-- While the text of no link ends, a step reads on. -/
lemma At.run_eq {c : Char} {marks : LinkMarks}
    (h : At depth quoted front (c :: value) tail reading) :
    reading.run settings marks = (reading.readFrom marks c (value ++ tail)).run settings marks := by
  have rest : reading.rest = c :: (value ++ tail) := h.rest
  have room := h.room
  rw [Reading.run_step (by simp [rest])]
  have on : reading.readOn marks = reading.readFrom marks c (value ++ tail) := by
    rw [Reading.readOn, rest]
  unfold Reading.step
  split
  · rw [on]
  · rename_i link outer links
    have := room link (by simp [links])
    rw [if_neg (by simp only [List.length_cons] at this; omega), on]

/-- A piece that one step reads. -/
lemma Reads.of_step {c : Char} (whole : Whole (c :: value))
    (calm : ∀ trail : Trail, (trail.quoting = true → quoted = true) →
      (change trail).quoting = true → behind = true)
    (step : ∀ front tail reading, At depth quoted front (c :: value) tail reading →
      reading.readFrom (.ofSource (front ++ (c :: value ++ tail))) c (value ++ tail) =
        reading.pass (value.length + 1) (change reading.trail)) :
    Reads settings depth quoted behind (c :: value) change := by
  refine ⟨whole, calm, fun front tail reading h => ?_⟩
  rw [h.run_eq, step front tail reading h, List.length_cons]

/-- A piece that one step gathers. -/
lemma Reads.of_gather {c : Char} {change : Gathering Delimiter → Gathering Delimiter}
    (whole : Whole (c :: value)) (last : (c :: value).getLast? ≠ some '\n')
    (calm : ∀ trail : Trail, (trail.quoting = true → quoted = true) →
      (change trail.gathered).isOpen .blockquote = true → behind = true)
    (step : ∀ front tail reading, At depth quoted front (c :: value) tail reading →
      reading.readFrom (.ofSource (front ++ (c :: value ++ tail))) c (value ++ tail) =
        reading.gather (c :: value).length change) :
    Reads settings depth quoted behind (c :: value) (Trail.mark change) := by
  refine .of_step whole calm fun front tail reading h => ?_
  have ended : ((c :: value).getLast? == some '\n') = false := by simpa using last
  rw [step front tail reading h, Reading.gather_eq_pass h.rest (List.cons_ne_nil _ _), ended]
  rfl

/-! ## Text -/

/-- A character that is not escaped is text, if it starts no block quote and no line. -/
lemma Reading.readFrom_eq_literal {marks : LinkMarks} {c : Char} {next : Text} {reading : Reading}
    (plain : alwaysEscaped.contains c = false) (start : c = '>' → reading.lineStart = false)
    (line : c = '\n' → reading.quoting = false) :
    reading.readFrom marks c next = reading.gather 1 (·.appendChar c) := by
  simp only [alwaysEscaped, List.contains_eq_mem, decide_eq_false_iff_not, List.mem_cons,
    List.not_mem_nil, or_false, not_or] at plain
  have noStart : ¬ (c = '>' ∧ reading.lineStart = true ∧ (!reading.quoting) = true) := by
    rintro ⟨rfl, starts, -⟩
    simp [start rfl] at starts
  have noLine : ¬ (c = '\n' ∧ reading.quoting = true) := by
    rintro ⟨rfl, isOpen⟩
    simp [line rfl] at isOpen
  have noMark : doubled? c = none := by
    simp only [doubled?, plain, if_false]
  simp only [readFrom, plain, noStart, noLine, false_and, if_false, noMark]

/-- A line break written for a block quote is read with the mark behind it, which opens a block
quote where none is open. -/
lemma At.run_line {marks : LinkMarks} (h : At depth true front ['\n', '>', ' '] tail reading) :
    reading.run settings marks =
      (reading.pass 3 (reading.trail.type true '\n')).run settings marks := by
  have typed : reading.trail.type true '\n' = ⟨(reading.gathered.appendChar '\n').start
      .blockquote .blockquote, false⟩ := if_pos ⟨rfl, rfl⟩
  rw [h.run_eq, typed]
  by_cases isOpen : reading.quoting = true
  · have step : reading.readFrom marks '\n' (['>', ' '] ++ tail) =
        reading.gather ['\n', '>', ' '].length (·.appendChar '\n') := by
      simp [Reading.readFrom, isOpen, quoteMarkLength]
    rw [step, Reading.gather_eq_pass h.rest (List.cons_ne_nil _ _), Gathering.start_of_isOpen]
    · rfl
    · rw [Gathering.isOpen_appendChar]
      exact isOpen
  · have closed : reading.quoting = false := by simpa using isOpen
    have step : reading.readFrom marks '\n' (['>', ' '] ++ tail) =
        reading.pass 1 ⟨reading.gathered.appendChar '\n', true⟩ := by
      rw [Reading.readFrom_eq_literal (by decide) (by simp) fun _ => closed]
      have rest : reading.rest = ['\n'] ++ (['>', ' '] ++ tail) := h.rest
      exact Reading.gather_eq_pass rest (List.cons_ne_nil _ _) (·.appendChar '\n')
    have started : At depth true (front ++ ['\n']) ['>', ' '] tail
        (reading.pass 1 ⟨reading.gathered.appendChar '\n', true⟩) :=
      At.right h (.plain (by decide) .nil) fun _ => rfl
    have stepOn : (reading.pass 1 ⟨reading.gathered.appendChar '\n', true⟩).readFrom marks '>'
          ([' '] ++ tail) =
        (reading.pass 1 ⟨reading.gathered.appendChar '\n', true⟩).gather ['>', ' '].length
          (·.start .blockquote .blockquote) := by
      have quoting : (reading.pass 1 ⟨reading.gathered.appendChar '\n', true⟩).quoting =
          reading.quoting := Gathering.isOpen_appendChar '\n' Delimiter.blockquote
      have starts : (reading.pass 1 ⟨reading.gathered.appendChar '\n', true⟩).lineStart = true :=
        rfl
      simp [Reading.readFrom, quoting, closed, starts, quoteMarkLength]
    rw [step, started.run_eq, stepOn, Reading.gather_eq_pass started.rest (List.cons_ne_nil _ _),
      Reading.pass_pass]
    rfl

/-- A character is read as itself, in whichever way it is escaped. -/
lemma At.run_char {marks : LinkMarks} {c : Char} {lineStart : Bool} {piece : Text}
    (escaping : Escaping lineStart c piece)
    (h : At depth quoted front (inQuote quoted piece) tail reading)
    (start : reading.lineStart = true → lineStart = true) :
    reading.run settings marks =
      (reading.pass (inQuote quoted piece).length (reading.trail.type quoted c)).run settings
        marks := by
  cases escaping with
  | escaped punctuation =>
    have line := ne_line_of_punctuation punctuation
    rw [inQuote_escape punctuation, inQuote_nil] at h ⊢
    have step : reading.readFrom marks '\\' ([c] ++ tail) =
        reading.gather ['\\', c].length (·.appendChar c) := by
      simp [Reading.readFrom, escaped?, punctuation]
    have typed : reading.trail.type quoted c = ⟨reading.gathered.appendChar c, false⟩ := by
      simp [Trail.type, line, Reading.trail]
    have last : (['\\', c].getLast? == some '\n') = false := by simpa using line
    rw [h.run_eq, step, Reading.gather_eq_pass h.rest (List.cons_ne_nil _ _), typed, last]
  | literal plain noStart =>
    by_cases marked : c = '\n' ∧ quoted = true
    · obtain ⟨rfl, rfl⟩ := marked
      exact h.run_line
    · have unmarked : inQuote quoted [c] = [c] := by
        by_cases line : c = '\n'
        · have bare : quoted = false := by simpa [line] using marked
          rw [bare, inQuote_false]
        · rw [inQuote_cons_of_ne line, inQuote_nil]
      have typed : reading.trail.type quoted c =
          ⟨reading.gathered.appendChar c, c == '\n'⟩ := if_neg marked
      rw [unmarked] at h ⊢
      have step : reading.readFrom marks c ([] ++ tail) =
          reading.gather [c].length (·.appendChar c) := by
        refine Reading.readFrom_eq_literal (by simpa using plain) (fun same => ?_)
          fun same => ?_
        · exact Bool.eq_false_iff.2 fun starts =>
            Bool.eq_false_iff.1 (noStart same) (start starts)
        · have calm := h.calm
          exact Bool.eq_false_iff.2 fun isOpen => marked ⟨same, calm isOpen⟩
      rw [h.run_eq, step, Reading.gather_eq_pass h.rest (List.cons_ne_nil _ _), typed]
      rfl

lemma Trail.type_lineStart {quoted : Bool} {trail : Trail} {c : Char}
    (h : (trail.type quoted c).lineStart = true) : (c == '\n') = true := by
  unfold Trail.type at h
  split at h
  · simp [Trail.mark] at h
  · exact h

lemma Trail.calm_type {quoted : Bool} {trail : Trail}
    (calm : trail.quoting = true → quoted = true) (c : Char) :
    (trail.type quoted c).quoting = true → quoted = true := by
  unfold Trail.type
  split
  · rename_i marked
    exact fun _ => marked.2
  · intro isOpen
    apply calm
    rw [Trail.quoting, Gathering.isOpen_appendChar] at isOpen
    exact isOpen

lemma Escaping.whole_inQuote {lineStart : Bool} {c : Char} {piece : Text}
    (escaping : Escaping lineStart c piece) (quoted : Bool) : Whole (inQuote quoted piece) :=
  free_inQuote (by simp) (escaping.free (by simp)) quoted

lemma At.run_escaped {marks : LinkMarks} {text written : Text} {lineStart : Bool}
    (isEscaped : Escaped lineStart text written)
    (h : At depth quoted front (inQuote quoted written) tail reading)
    (start : reading.lineStart = true → lineStart = true) :
    reading.run settings marks =
      (reading.pass (inQuote quoted written).length (reading.trail.typeAll quoted text)).run
        settings marks := by
  induction isEscaped generalizing front reading with
  | nil =>
    rw [inQuote_nil]
    rfl
  | @cons _ c rest piece written escaping _ ih =>
    rw [inQuote_append] at h
    have further := ih (h.right (escaping.whole_inQuote quoted) (Trail.calm_type h.calm c))
      Trail.type_lineStart
    rw [h.left.run_char escaping start, further, Reading.pass_pass, Reading.trail_pass,
      inQuote_append, List.length_append]
    rfl

/-- **Text is read as text**, in whichever way it is escaped. -/
lemma reads_escaped (settings : Settings) (depth : Nat) (quoted : Bool) {text written : Text}
    (isEscaped : Escaped true text written) :
    Reads settings depth quoted quoted (inQuote quoted written) (Trail.typeAll quoted text) := by
  refine ⟨free_inQuote (by simp) (isEscaped.free (by simp)) quoted, ?_, ?_⟩
  · clear isEscaped
    induction text with
    | nil => exact fun trail calm => calm
    | cons c rest ih => exact fun trail calm => ih _ (Trail.calm_type calm c)
  · intro front tail reading h
    exact h.run_escaped isEscaped fun _ => rfl

lemma reads_quote (settings : Settings) (depth : Nat) (quoted : Bool) (text : Text) :
    Reads settings depth quoted quoted (inQuote quoted (quote text))
      (Trail.typeAll quoted text) :=
  reads_escaped settings depth quoted (escaped_quoteFrom true text)

/-! ## Whole sources -/

/-- **A source that is one piece gathers what the piece changes.** -/
lemma Reads.gathered_ofSource {source : Text} (reads : Reads settings 0 false false source change) :
    (Reading.ofSource settings source).gathered = (change ⟨.empty, true⟩).gathered := by
  have closed : (change ⟨.empty, true⟩).quoting = false := by
    refine Bool.eq_false_iff.2 fun isOpen => Bool.false_ne_true ?_
    exact reads.calm _ (by simp [Trail.quoting, Gathering.isOpen]) isOpen
  have starts : At 0 false [] source [] (Reading.start source) :=
    ⟨.nil, rfl, by simp [Reading.start], rfl, by simp [Reading.start],
      by simp [Reading.trail, Reading.start, Trail.quoting, Gathering.isOpen]⟩
  have run := reads.run [] [] _ starts
  have trail : (Reading.start source).trail = ⟨.empty, true⟩ := rfl
  rw [trail, List.nil_append, List.append_nil] at run
  have ended : ((Reading.start source).pass source.length (change ⟨.empty, true⟩)).run settings
      (.ofSource source) = (Reading.start source).pass source.length (change ⟨.empty, true⟩) := by
    rw [Reading.run, dif_pos]
    exact List.drop_length
  rw [ended] at run
  rw [Reading.ofSource]
  simp only [run]
  exact Gathering.finish_of_free (Option.not_isSome_iff_eq_none.1 (Bool.eq_false_iff.1 closed))

end RichText.Markdown
