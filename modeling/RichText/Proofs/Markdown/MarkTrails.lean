import Mathlib.Tactic.Lemma
import RichText.Proofs.Markdown.Trails

/-!
# Reading marks

The marks of formatting, of code and of a block quote are pieces that change the trail of a reading,
each by its own rule: a doubled delimiter switches its formatting (`reads_toggle`), code is taken
verbatim between its backticks (`reads_code`, `reads_block`), and the marks of a block quote start
and end one where they may and are text elsewhere (`reads_quoteStart`, `reads_quoteStop`).
-/

namespace RichText.Markdown

variable {depth : Nat} {quoted : Bool} {front value tail : Text} {reading : Reading}
  {settings : Settings} {change : Trail → Trail}

/-! ## Doubled delimiters -/

namespace Reading

lemma doubled?_eq_some {c : Char} {delimiter : Delimiter} {kind : Kind}
    (h : doubled? c = some (delimiter, kind)) :
    c ∉ ['>', '\\', '\n', '\x60', '<', '[', ']'] ∧ delimiter ≠ .blockquote := by
  unfold doubled? at h
  repeat' split at h
  all_goals
    simp only [Option.some.injEq, Prod.mk.injEq, reduceCtorEq] at h
    try (obtain ⟨rfl, -⟩ := h; simp [*])

lemma readFrom_eq_doubled {marks : LinkMarks} {c : Char} {next : Text} {reading : Reading}
    {delimiter : Delimiter} {kind : Kind} (h : doubled? c = some (delimiter, kind)) :
    reading.readFrom marks c next =
      if next.head? = some c then reading.gather 2 (switch delimiter kind)
      else reading.gather 1 (·.appendChar c) := by
  have plain := (doubled?_eq_some h).1
  simp only [List.mem_cons, List.not_mem_nil, or_false, not_or] at plain
  simp only [readFrom, plain, h, false_and, if_false]

lemma isOpen_switch {delimiter other : Delimiter} (h : other ≠ delimiter) (kind : Kind)
    (gathered : Gathering Delimiter) :
    (switch delimiter kind gathered).isOpen other = gathered.isOpen other := by
  unfold switch
  split
  · exact Gathering.isOpen_finish h
  · exact Gathering.isOpen_start kind h

end Reading

/-- A doubled delimiter switches its formatting. -/
lemma reads_toggle {c : Char} {delimiter : Delimiter} {kind : Kind}
    (h : doubled? c = some (delimiter, kind)) (settings : Settings) (depth : Nat)
    (quoted : Bool) :
    Reads settings depth quoted quoted [c, c] (Trail.mark (Reading.switch delimiter kind)) := by
  obtain ⟨plain, other⟩ := Reading.doubled?_eq_some h
  simp only [List.mem_cons, List.not_mem_nil, or_false, not_or] at plain
  have whole : Whole [c, c] := .plain (by simp [plain]) (.plain (by simp [plain]) .nil)
  refine .of_gather whole (by simp [plain]) ?_ ?_
  · intro trail calm isOpen
    rw [Reading.isOpen_switch (Ne.symm other)] at isOpen
    exact calm isOpen
  · intro front tail reading at'
    rw [Reading.readFrom_eq_doubled h]
    exact if_pos rfl

/-! ## Code -/

namespace Trail

/-- What is written for a value is taken verbatim as its text, with the marks of quoted lines where
no block quote is open. -/
def verbatim (quoted : Bool) (value : Text) (trail : Trail) : Text :=
  inQuote (quoted && !trail.quoting) (unescape value)

/-- Reads an entity and the text it covers. -/
def enclose (key : Delimiter) (kind : Kind) (piece : Text) (trail : Trail) : Trail :=
  trail.mark fun gathered => ((gathered.start key kind).append piece).finish key

/-- Reads code within a line. -/
def code (quoted : Bool) (value : Text) (trail : Trail) : Trail :=
  trail.enclose .code .code (trail.verbatim quoted value)

/-- Reads the inside of a code block. -/
def block (quoted : Bool) (value : Text) (trail : Trail) : Trail :=
  trail.enclose .pre (.pre (splitBlock (trail.verbatim quoted value)).1.trim)
    (splitBlock (trail.verbatim quoted value)).2

lemma quoting_enclose {key : Delimiter} (h : Delimiter.blockquote ≠ key) (kind : Kind)
    (piece : Text) (trail : Trail) : (trail.enclose key kind piece).quoting = trail.quoting := by
  rw [enclose, quoting_mark, Gathering.isOpen_finish h, Gathering.isOpen_append,
    Gathering.isOpen_start kind h]
  rfl

end Trail

lemma Reading.gather_code {key : Delimiter} {kind : Kind} {piece : Text}
    (rest : reading.rest = value ++ tail) (last : value.getLast? = some '\x60') :
    reading.gather value.length
        (fun gathered => ((gathered.start key kind).append piece).finish key) =
      reading.pass value.length (reading.trail.enclose key kind piece) := by
  have filled : value ≠ [] := by
    rintro rfl
    simp at last
  have ended : (value.getLast? == some '\n') = false := by
    rw [last]
    decide
  rw [Reading.gather_eq_pass rest filled, ended]
  rfl

/-- Code without backticks of its own does not start with one. -/
lemma head?_inQuote_ne (free : Free ['\x60'] value) (filled : value ≠ []) (quoted : Bool) :
    ∃ c rest, c ≠ '\x60' ∧ inQuote quoted value = c :: rest := by
  cases free with
  | nil => exact absurd rfl filled
  | @plain c rest h _ =>
    have tick : c ≠ '\x60' := fun same => by simp [same] at h
    by_cases line : c = '\n' ∧ quoted = true
    · obtain ⟨rfl, rfl⟩ := line
      exact ⟨'\n', '>' :: ' ' :: inQuote true rest, tick, rfl⟩
    · refine ⟨c, inQuote quoted rest, tick, ?_⟩
      cases quoted with
      | false => rfl
      | true => exact inQuote_cons_of_ne (by simpa using line) true rest
  | escape h _ => exact ⟨'\\', _, by decide, inQuote_escape h quoted _⟩

lemma Reading.readFrom_tick (marks : LinkMarks) (next : Text) (reading : Reading) :
    reading.readFrom marks '\x60' next =
      if fence.isPrefixOf ('\x60' :: next) then
        reading.codeBlock?.getD (reading.gather fence.length (·.append fence))
      else reading.codeSpan?.getD (reading.gather 1 (·.appendChar '\x60')) := rfl

/-- **Code is read as code.** -/
lemma reads_code (settings : Settings) (depth : Nat) (quoted : Bool)
    (free : Free ['\x60'] value) (filled : value ≠ []) :
    Reads settings depth quoted quoted (inQuote quoted (between ['\x60'] value))
      (Trail.code quoted value) := by
  have written : inQuote quoted (between ['\x60'] value) =
      '\x60' :: (inQuote quoted value ++ ['\x60']) := by
    rw [between, inQuote_append, inQuote_append, inQuote_of_notMem (by simp)]
    rfl
  have whole : Whole (inQuote quoted value) := free_inQuote (by simp) free.whole quoted
  rw [written]
  refine .of_step (.plain (by decide) (whole.append (.plain (by decide) .nil))) ?_ ?_
  · intro trail calm isOpen
    rw [Trail.code, Trail.quoting_enclose (by decide)] at isOpen
    exact calm isOpen
  · intro front tail reading h
    obtain ⟨c, rest, tick, starts⟩ := head?_inQuote_ne free filled quoted
    have noFence : fence.isPrefixOf ('\x60' :: (inQuote quoted value ++ ['\x60'] ++ tail)) =
        false := by
      simp [starts, fence, List.isPrefixOf, Ne.symm tick]
    have inside : readCode? 1 reading.quoting (reading.rest.drop 1) =
        some (reading.trail.verbatim quoted value, (inQuote quoted value).length + 1) := by
      rw [h.rest, List.cons_append, List.drop_one, List.tail_cons, List.append_assoc]
      exact readCode?_append free h.calm (by decide) tail
    have size : 1 + ((inQuote quoted value).length + 1) =
        ('\x60' :: (inQuote quoted value ++ ['\x60'])).length := by
      simp
      omega
    rw [Reading.readFrom_tick, noFence, if_neg (by decide), Reading.codeSpan?, inside,
      Option.map_some, Option.getD_some]
    dsimp only
    rw [size, Reading.gather_code h.rest (by rw [← List.cons_append, List.getLast?_concat])]
    rfl

/-- **A code block is read as one.** -/
lemma reads_block (settings : Settings) (depth : Nat) (quoted : Bool)
    (free : Free ['\x60'] value) :
    Reads settings depth quoted quoted (inQuote quoted (fence ++ value ++ fence))
      (Trail.block quoted value) := by
  have written : inQuote quoted (fence ++ value ++ fence) =
      '\x60' :: (['\x60', '\x60'] ++ inQuote quoted value ++ fence) := by
    rw [inQuote_append, inQuote_append, inQuote_of_notMem (by decide)]
    rfl
  have whole : Whole (inQuote quoted value) := free_inQuote (by simp) free.whole quoted
  have ticks : Whole ['\x60', '\x60'] := .plain (by decide) (.plain (by decide) .nil)
  rw [written]
  refine .of_step (.plain (by decide) ((ticks.append whole).append (.plain (by decide) ticks)))
    ?_ ?_
  · intro trail calm isOpen
    rw [Trail.block, Trail.quoting_enclose (by decide)] at isOpen
    exact calm isOpen
  · intro front tail reading h
    have isFence : fence.isPrefixOf
        ('\x60' :: (['\x60', '\x60'] ++ inQuote quoted value ++ fence ++ tail)) = true := by
      simp [fence, List.isPrefixOf]
    have inside : readCode? fence.length reading.quoting (reading.rest.drop fence.length) =
        some (reading.trail.verbatim quoted value,
          (inQuote quoted value).length + fence.length) := by
      have rest : reading.rest = fence ++ (inQuote quoted value ++ (fence ++ tail)) := by
        rw [h.rest]
        simp [fence]
      rw [rest, List.drop_left]
      exact readCode?_append free h.calm (by decide) tail
    have size : fence.length + ((inQuote quoted value).length + fence.length) =
        ('\x60' :: (['\x60', '\x60'] ++ inQuote quoted value ++ fence)).length := by
      simp [fence]
      omega
    rw [Reading.readFrom_tick, isFence, if_pos rfl, Reading.codeBlock?, inside, Option.map_some,
      Option.getD_some]
    dsimp only
    rw [size, Reading.gather_code h.rest (by simp [fence, List.getLast?_cons])]
    rfl

/-! ## Block quotes -/

namespace Trail

/-- Reads the mark that starts a block quote, which is text where no line starts. -/
def quoteStart (trail : Trail) : Trail :=
  if trail.lineStart then trail.mark (·.start .blockquote .blockquote)
  else trail.mark fun gathered => (gathered.appendChar '>').appendChar ' '

/-- Reads the mark that ends a block quote, which is text where none is open. -/
def quoteStop (trail : Trail) : Trail :=
  if trail.quoting then trail.mark (·.finish .blockquote)
  else trail.mark fun gathered => (gathered.appendChar '<').appendChar '<'

end Trail

/-- Two characters that are text where they stand. -/
lemma At.run_literals {marks : LinkMarks} {c d : Char}
    (h : At depth quoted front [c, d] tail reading) (plain : c ≠ '\\' ∧ c ≠ '\n' ∧ d ≠ '\n')
    (first : reading.readFrom marks c (d :: tail) = reading.gather 1 (·.appendChar c))
    (second : ∀ after : Reading, after.lineStart = false → after.quoting = reading.quoting →
      after.readFrom marks d tail = after.gather 1 (·.appendChar d)) :
    reading.run settings marks =
      (reading.pass 2 (reading.trail.mark fun gathered =>
        (gathered.appendChar c).appendChar d)).run settings marks := by
  obtain ⟨noEscape, noLine, noLineBehind⟩ := plain
  have noStart : (c == '\n') = false := by simpa using noLine
  have rest : reading.rest = [c] ++ (d :: tail) := h.rest
  have step : reading.gather 1 (·.appendChar c) =
      reading.pass 1 ⟨reading.gathered.appendChar c, false⟩ := by
    rw [← noStart]
    exact Reading.gather_eq_pass rest (List.cons_ne_nil c []) _
  have further : At depth quoted (front ++ [c]) [d] tail
      (reading.pass 1 ⟨reading.gathered.appendChar c, false⟩) :=
    At.right h (.plain (by simpa using noEscape) .nil) fun isOpen =>
      h.calm (by rwa [Trail.quoting, Gathering.isOpen_appendChar] at isOpen)
  have same : (reading.pass 1 ⟨reading.gathered.appendChar c, false⟩).quoting = reading.quoting :=
    Gathering.isOpen_appendChar c Delimiter.blockquote
  have stepOn := Reading.gather_eq_pass further.rest (List.cons_ne_nil _ _) (·.appendChar d)
  have ended : ([d].getLast? == some '\n') = false := by simpa using noLineBehind
  rw [h.run_eq, List.singleton_append, first, step, further.run_eq, List.nil_append,
    second _ rfl same]
  rw [List.length_singleton, ended] at stepOn
  rw [stepOn, Reading.pass_pass]
  rfl

/-- The mark of a block quote starts one at the start of a line. -/
lemma reads_quoteStart (settings : Settings) (depth : Nat) :
    Reads settings depth false true ['>', ' '] Trail.quoteStart := by
  refine ⟨.plain (by decide) (.plain (by decide) .nil), fun _ _ _ => rfl, ?_⟩
  intro front tail reading h
  have closed : reading.quoting = false := Bool.eq_false_iff.2 fun isOpen =>
    Bool.false_ne_true (h.calm isOpen)
  cases starts : reading.lineStart with
  | true =>
    have step (marks : LinkMarks) : reading.readFrom marks '>' ([' '] ++ tail) =
        reading.gather ['>', ' '].length (·.start .blockquote .blockquote) := by
      simp [Reading.readFrom, starts, closed, quoteMarkLength]
    have change : reading.trail.quoteStart =
        reading.trail.mark (·.start .blockquote .blockquote) := if_pos starts
    rw [h.run_eq, step, Reading.gather_eq_pass h.rest (List.cons_ne_nil _ _), change]
    rfl
  | false =>
    have change : reading.trail.quoteStart = reading.trail.mark fun gathered =>
        (gathered.appendChar '>').appendChar ' ' := if_neg (by simp [Reading.trail, starts])
    rw [change]
    refine h.run_literals (by decide) ?_ ?_
    · exact Reading.readFrom_eq_literal (by decide) (fun _ => starts) fun _ => closed
    · intro after _ _
      exact Reading.readFrom_eq_literal (by decide) (by simp) (by simp)

/-- The mark behind a block quote ends one that is open. -/
lemma reads_quoteStop (settings : Settings) (depth : Nat) :
    Reads settings depth true false quoteEnd Trail.quoteStop := by
  refine ⟨.plain (by decide) (.plain (by decide) .nil), ?_, ?_⟩
  · intro trail _ isOpen
    unfold Trail.quoteStop at isOpen
    split at isOpen
    · rw [Trail.quoting_mark, Gathering.isOpen, Gathering.draft?_finish, if_pos rfl] at isOpen
      exact isOpen
    · rename_i closed
      rw [Trail.quoting_mark, Gathering.isOpen_appendChar, Gathering.isOpen_appendChar] at isOpen
      exact absurd isOpen closed
  · intro front tail reading h
    cases isOpen : reading.quoting with
    | true =>
      have step (marks : LinkMarks) : reading.readFrom marks '<' (['<'] ++ tail) =
          reading.gather quoteEnd.length (·.finish .blockquote) := by
        simp [Reading.readFrom, isOpen]
      have change : reading.trail.quoteStop =
          reading.trail.mark (·.finish .blockquote) := if_pos isOpen
      have run := @At.run_eq depth true front ['<'] tail reading settings '<'
        (.ofSource (front ++ (quoteEnd ++ tail))) h
      rw [run, step, Reading.gather_eq_pass h.rest (List.cons_ne_nil _ _), change]
      rfl
    | false =>
      have literal (marks : LinkMarks) (next : Text) (after : Reading)
          (closed : after.quoting = false) :
          after.readFrom marks '<' next = after.gather 1 (·.appendChar '<') := by
        simp [Reading.readFrom, closed, doubled?]
      have change : reading.trail.quoteStop = reading.trail.mark fun gathered =>
          (gathered.appendChar '<').appendChar '<' := if_neg (Bool.eq_false_iff.1 isOpen)
      rw [change]
      refine h.run_literals (by decide) (literal _ _ _ isOpen) fun after _ same => ?_
      exact literal _ _ _ (same.trans isOpen)

end RichText.Markdown
