import Mathlib.Tactic.Lemma
import RichText.Proofs.Markdown.Replay

/-!
# Text that is read back

Markdown has no marks for every nesting: what stands in code is not read, the mark of a block quote
is one only where a line starts, with nothing but text before it, and the language of a code block
ends with its line.  Where a nesting keeps to this it is `Sayable`, and reading what is written for
it gathers the text it was written for, with no more and no less (`follows_replay`), whatever becomes
of the entities.  Nothing is asked of formatting that is left out, as it is around a custom emoji: it
leaves no marks to be read.

A text without entities is read back from whichever way it is escaped (`read_escaped`).
-/

namespace RichText.Markdown

/-- A line of the text starts at a position. -/
def StartsLine (text : Text) (position : Nat) : Prop :=
  (Utf16.upTo position text).getLast?.getD '\n' = '\n'

instance (text : Text) (position : Nat) : Decidable (StartsLine text position) :=
  inferInstanceAs (Decidable (_ = _))

/-- The marks of every span that has some are read for what they are: code encloses nothing, and
block quotes start where lines do, right behind text or, where the stretch is `fresh`, at its
start.  Languages have one line. -/
def Sayable (settings : Settings) (text : Text) (fresh : Bool) (position : Nat) : Forest → Prop
  | .nil => True
  | .cons span inner after =>
    (∀ language, span.entity.kind = .pre language → '\n' ∉ language) ∧
      (bare settings span.entity.kind (written settings text span.start span.stop inner) = false →
        (span.entity.kind.isCode = true → inner = .nil) ∧
          (span.entity.kind = .blockquote →
            (fresh = true ∨ Utf16.slice (Utf16.encode text) position span.start ≠ []) ∧
              StartsLine text span.start)) ∧
      Sayable settings text false span.start inner ∧ Sayable settings text false span.stop after

/-- What is asked of the language of a code block. -/
instance decidableLanguage (p : Text → Prop) [DecidablePred p] :
    (kind : Kind) → Decidable (∀ language, kind = .pre language → p language)
  | .pre language => decidable_of_iff (p language) ⟨by rintro h _ ⟨⟩; exact h, fun h => h _ rfl⟩
  | .bold | .italic | .underline | .strike | .spoiler | .code | .blockquote | .textUrl _ | .url
  | .email | .mentionName _ | .customEmoji _ => isTrue (by rintro _ ⟨⟩)

instance decidableSayable (settings : Settings) (text : Text) :
    (fresh : Bool) → (position : Nat) → (forest : Forest) →
      Decidable (Sayable settings text fresh position forest)
  | _, _, .nil => isTrue trivial
  | _, _, .cons span inner after =>
    have := decidableSayable settings text false span.start inner
    have := decidableSayable settings text false span.stop after
    inferInstanceAs (Decidable (_ ∧ (_ → (_ → _) ∧ (_ → _)) ∧ _ ∧ _))

variable {settings : Settings} {text : Text} {quoted fresh : Bool} {depth position limit : Nat}
  {trail : Trail}

/-! ## Typing -/

/-- Where a block quote is open just if the text is written for one, typing adds the text
character by character. -/
lemma gathered_typeAll (h : trail.quoting = quoted) (piece : Text) :
    (trail.typeAll quoted piece).gathered =
      piece.foldl (fun gathered c => gathered.appendChar c) trail.gathered := by
  induction piece generalizing trail with
  | nil => rfl
  | cons c rest ih =>
    have typed : (trail.type quoted c).gathered = trail.gathered.appendChar c := by
      unfold Trail.type
      split
      · rename_i marked
        refine Gathering.start_of_isOpen ?_ _
        rw [Gathering.isOpen_appendChar]
        exact h.trans marked.2
      · rfl
    have same : (trail.type quoted c).quoting = quoted := by
      rw [Trail.quoting, typed, Gathering.isOpen_appendChar]
      exact h
    have rest := ih same
    rw [typed] at rest
    exact rest

lemma text_typeAll (quoted : Bool) (piece : Text) (trail : Trail) :
    (trail.typeAll quoted piece).gathered.text = trail.gathered.text ++ piece := by
  induction piece generalizing trail with
  | nil => exact (List.append_nil _).symm
  | cons c rest ih =>
    have typed : (trail.type quoted c).gathered.text = trail.gathered.text ++ [c] := by
      unfold Trail.type
      split
      · exact (Gathering.text_start _ _ _).trans (Gathering.text_appendChar _ _)
      · exact Gathering.text_appendChar _ _
    rw [Trail.typeAll, List.foldl_cons, ← Trail.typeAll, ih, typed, List.append_assoc]
    rfl

lemma text_foldl_appendChar (piece : Text) (gathered : Gathering Delimiter) :
    (piece.foldl (fun gathered c => gathered.appendChar c) gathered).text =
      gathered.text ++ piece := by
  induction piece generalizing gathered with
  | nil => exact (List.append_nil _).symm
  | cons c rest ih => rw [List.foldl_cons, ih, Gathering.text_appendChar, List.append_assoc]; rfl

lemma isOpen_foldl_appendChar (piece : Text) (gathered : Gathering Delimiter) (key : Delimiter) :
    (piece.foldl (fun gathered c => gathered.appendChar c) gathered).isOpen key =
      gathered.isOpen key := by
  induction piece generalizing gathered with
  | nil => rfl
  | cons c rest ih => rw [List.foldl_cons, ih, Gathering.isOpen_appendChar]

lemma entities_foldl_appendChar (piece : Text) (gathered : Gathering Delimiter) :
    (piece.foldl (fun gathered c => gathered.appendChar c) gathered).entities =
      gathered.entities := by
  induction piece generalizing gathered with
  | nil => rfl
  | cons c rest ih =>
    rw [List.foldl_cons, ih]
    exact Gathering.entities_append [c] gathered

/-- Behind text, a line starts if the text ends one. -/
lemma lineStart_typeAll {piece : Text} (filled : piece ≠ []) (trail : Trail) :
    (trail.typeAll false piece).lineStart = (piece.getLast? == some '\n') := by
  obtain ⟨front, c, rfl⟩ := (List.eq_nil_or_concat piece).resolve_left filled
  rw [Trail.typeAll, List.concat_eq_append, List.foldl_append, List.foldl_cons, List.foldl_nil,
    List.getLast?_concat]
  have typed : ∀ trail : Trail, (trail.type false c).lineStart = (c == '\n') := by
    intro trail
    rw [Trail.type, if_neg (by simp)]
  rw [typed]
  rfl

/-! ## Following the text -/

/-- The text up to a position has been read, a block quote is open just where `quoted`, and the
reader knows that a line starts where nothing but text has been read (`fresh`). -/
structure Follows (text : Text) (quoted fresh : Bool) (position : Nat) (trail : Trail) : Prop where
  read : trail.gathered.text = Utf16.upTo position text
  quoting : trail.quoting = quoted
  start : fresh = true → quoted = false → StartsLine text position → trail.lineStart = true

lemma follows_start (text : Text) : Follows text false true 0 ⟨.empty, true⟩ :=
  ⟨by simp, rfl, fun _ _ _ => rfl⟩

lemma Follows.typeAll {start : Nat} (h : Follows text quoted fresh position trail)
    (first : position ≤ start) :
    Follows text quoted (fresh || !(Utf16.slice (Utf16.encode text) position start).isEmpty) start
      (trail.typeAll quoted (Utf16.slice (Utf16.encode text) position start)) := by
  have gathered := gathered_typeAll h.quoting (Utf16.slice (Utf16.encode text) position start)
  have parts := Utf16.upTo_append_slice first text
  refine ⟨?_, ?_, ?_⟩
  · rw [gathered, text_foldl_appendChar, h.read, parts]
  · rw [Trail.quoting, gathered, isOpen_foldl_appendChar]
    exact h.quoting
  · intro known bare starts
    subst bare
    by_cases filled : Utf16.slice (Utf16.encode text) position start = []
    · rw [filled, List.append_nil] at parts
      simp only [filled, List.isEmpty_nil, Bool.not_true, Bool.or_false] at known ⊢
      rw [StartsLine, ← parts] at starts
      exact h.start known rfl starts
    · rw [lineStart_typeAll filled]
      rw [StartsLine, ← parts, List.getLast?_append_of_ne_nil _ filled] at starts
      rw [List.getLast?_eq_some_getLast filled] at starts ⊢
      simpa using starts

/-- A change that leaves the text and the block quotes alone. -/
lemma Follows.mark (h : Follows text quoted fresh position trail)
    {change : Gathering Delimiter → Gathering Delimiter}
    (same : (change trail.gathered).text = trail.gathered.text)
    (quoting : (change trail.gathered).isOpen .blockquote = trail.quoting) :
    Follows text quoted false position (trail.mark change) :=
  ⟨same.trans h.read, quoting.trans h.quoting, by simp⟩

lemma text_switch (delimiter : Delimiter) (kind : Kind) (gathered : Gathering Delimiter) :
    (Reading.switch delimiter kind gathered).text = gathered.text := by
  unfold Reading.switch
  split
  · exact Gathering.text_finish _ _
  · exact Gathering.text_start _ _ _

lemma Follows.switch (h : Follows text quoted fresh position trail) {delimiter : Delimiter}
    (other : delimiter ≠ .blockquote) (kind : Kind) :
    Follows text quoted false position (trail.mark (Reading.switch delimiter kind)) :=
  h.mark (text_switch delimiter kind _) (Reading.isOpen_switch (Ne.symm other) kind _)

lemma Follows.linkStart (h : Follows text quoted fresh position trail) (depth : Nat) :
    Follows text quoted false position (trail.linkStart depth) :=
  h.mark (Gathering.text_start _ _ _) (Trail.quoting_linkStart depth trail)

lemma text_linkStop (settings : Settings) (depth : Nat) (target : Text) (trail : Trail) :
    (trail.linkStop settings depth target).gathered.text = trail.gathered.text := by
  rw [Trail.linkStop, Trail.mark]
  split
  · rw [Gathering.text_finish, Gathering.text_revise]
  · rw [Gathering.text_abandon]

lemma Follows.linkStop (h : Follows text quoted fresh position trail) (settings : Settings)
    (depth : Nat) (target : Text) :
    Follows text quoted false position (trail.linkStop settings depth target) :=
  h.mark (text_linkStop settings depth target trail)
    (Trail.quoting_linkStop settings depth target trail)

lemma Follows.enclose {stop : Nat} (h : Follows text quoted fresh position trail)
    (last : position ≤ stop) {key : Delimiter} (other : Delimiter.blockquote ≠ key) (kind : Kind)
    {piece : Text} (covers : piece = Utf16.slice (Utf16.encode text) position stop) :
    Follows text quoted false stop (trail.enclose key kind piece) := by
  refine ⟨?_, ?_, by simp⟩
  · rw [Trail.enclose, Trail.mark, Gathering.text_finish, Gathering.text_append,
      Gathering.text_start, h.read, covers, Utf16.upTo_append_slice last]
  · rw [Trail.quoting_enclose other]
    exact h.quoting

/-! ## Verbatim text -/

lemma verbatim_quote (h : trail.quoting = quoted) (piece : Text) :
    trail.verbatim quoted (quote piece) = piece := by
  rw [Trail.verbatim, quote, unescape_quoteFrom, h, Bool.and_not_self, inQuote_false]

lemma splitLine?_append {line : Text} (h : '\n' ∉ line) (below : Text) :
    Text.splitLine? (line ++ '\n' :: below) = some (line, below) := by
  induction line with
  | nil => rfl
  | cons c rest ih =>
    rw [List.mem_cons, not_or] at h
    rw [List.cons_append, Text.splitLine?, if_neg (Ne.symm h.1), ih h.2]
    rfl

/-- A code block is taken apart into its language and its text. -/
lemma splitBlock_verbatim (h : trail.quoting = quoted) {language : Text} (line : '\n' ∉ language)
    (piece : Text) :
    splitBlock (trail.verbatim quoted (blockInside language (quote piece))) =
      (language, piece) := by
  have whole : Whole (quoteFrom true language) := free_quoteFrom (by simp) true language
  have inside : unescape (blockInside language (quote piece)) = language ++ '\n' :: piece := by
    rw [blockInside, quote, quote, unescape_append whole, unescape_quoteFrom,
      unescape_cons (by decide), unescape_quoteFrom]
  rw [Trail.verbatim, h, Bool.and_not_self, inQuote_false, inside, splitBlock,
    splitLine?_append line]
  rfl

/-! ## The text of a forest -/

/-- A block quote that starts where a line does is open behind its mark. -/
lemma Follows.quoteStart (h : Follows text false fresh position trail)
    (starts : trail.lineStart = true) : Follows text true false position trail.quoteStart := by
  rw [Trail.quoteStart, starts, if_pos rfl]
  refine ⟨(Gathering.text_start _ _ _).trans h.read, ?_, by simp⟩
  rw [Trail.quoting_mark, Gathering.isOpen, Gathering.draft?_start, if_pos rfl]
  rfl

lemma Follows.quoteStop (h : Follows text true fresh position trail) :
    Follows text false false position trail.quoteStop := by
  rw [Trail.quoteStop, h.quoting, if_pos rfl]
  refine ⟨(Gathering.text_finish _ _).trans h.read, ?_, by simp⟩
  rw [Trail.quoting_mark, Gathering.isOpen, Gathering.draft?_finish, if_pos rfl]
  rfl

lemma Follows.stale (h : Follows text quoted fresh position trail) :
    Follows text quoted false position trail := ⟨h.read, h.quoting, by simp⟩

/-- **What can be said is read with its text.** -/
lemma follows_replay {forest : Forest} (within : forest.Within position limit)
    (isSealed : Sealed settings text quoted forest)
    (sayable : Sayable settings text fresh position forest)
    (h : Follows text quoted fresh position trail) :
    Follows text quoted false limit
      (replay settings text quoted depth position limit forest trail) := by
  induction forest generalizing quoted fresh depth position limit trail with
  | nil => exact (h.typeAll within).stale
  | cons span inner after ihInner ihAfter =>
    obtain ⟨first, hinner, hafter⟩ := within
    obtain ⟨apartMarks, sealedInner, sealedAfter⟩ := isSealed
    obtain ⟨line, marked, sayableInner, sayableAfter⟩ := sayable
    have before := h.typeAll first
    apply ihAfter hafter sealedAfter sayableAfter
    split
    · exact ihInner hinner sealedInner.of_or sayableInner before.stale
    · rename_i shown
      obtain ⟨-, quote⟩ := apartMarks (Bool.eq_false_iff.2 shown)
      obtain ⟨code, starts⟩ := marked (Bool.eq_false_iff.2 shown)
      cases hmarks : marksOf (covered text span) span.entity.kind with
      | doubled c delimiter =>
        have apart := (Reading.doubled?_eq_some (marksOf_doubled hmarks)).2
        exact (ihInner hinner sealedInner.of_or sayableInner
          (before.switch apart _)).switch apart _
      | code =>
        obtain rfl := code (by rw [marksOf_eq_code hmarks]; rfl)
        apply before.enclose hinner (by decide) _
        rw [written_nil, verbatim_quote before.quoting]
      | block language =>
        have kind := marksOf_eq_block hmarks
        obtain rfl := code (by rw [kind]; rfl)
        apply before.enclose hinner (by decide) _
        rw [written_nil, splitBlock_verbatim before.quoting (line language kind)]
      | quote =>
        have kind := marksOf_eq_quote hmarks
        obtain rfl := quote kind
        obtain ⟨nothingBefore, lineStarts⟩ := starts kind
        have known : (fresh || !(Utf16.slice (Utf16.encode text) position span.start).isEmpty) =
            true := by
          simpa using nothingBefore
        rw [kind] at sealedInner
        exact (ihInner hinner sealedInner sayableInner
          (before.quoteStart (before.start known rfl lineStarts))).quoteStop
      | link target =>
        exact (ihInner hinner sealedInner.of_or sayableInner
          (before.linkStart depth)).linkStop _ _ _

/-! ## Text without entities -/

/-- **A text is read back from every way of escaping it**, trimmed and without entities.  What is
written for it is one such way, and escaping all its punctuation is another. -/
theorem read_escaped :
    (∀ settings text written, Escaped true text written →
      read settings written = ⟨text.trim, []⟩) ∧
    ∀ text, Escaped true text (quote text) ∧ Escaped true text (escapeAll text) := by
  refine ⟨fun settings text written isEscaped => ?_, fun text =>
    ⟨escaped_quoteFrom true text, escaped_escapeAll true text⟩⟩
  have reads := reads_escaped settings 0 false isEscaped
  rw [inQuote_false] at reads
  have bare : (⟨.empty, true⟩ : Trail).quoting = false := rfl
  rw [read, reads.gathered_ofSource, gathered_typeAll bare, text_foldl_appendChar,
    entities_foldl_appendChar]
  rfl

/-- Marks that are escaped because they must be, a dash that is escaped although it need not be, and
as themselves a `>` inside a line and a dot behind a backslash of the text. -/
theorem read_escaped_freely :
    Escaped true ">\\.a>\n>-*".toList "\\>\\\\.a>\n\\>\\-\\*".toList ∧
      read {} "\\>\\\\.a>\n\\>\\-\\*".toList = ⟨">\\.a>\n>-*".toList, []⟩ := by
  have isEscaped : Escaped true ">\\.a>\n>-*".toList "\\>\\\\.a>\n\\>\\-\\*".toList :=
    .cons (.escaped (by decide)) <|
    .cons (.escaped (by decide)) <|
    .cons (.literal (by decide) (by decide)) <|
    .cons (.literal (by decide) (by decide)) <|
    .cons (.literal (by decide) fun _ => rfl) <|
    .cons (.literal (by decide) (by decide)) <|
    .cons (.escaped (by decide)) <|
    .cons (.escaped (by decide)) <|
    .cons (.escaped (by decide)) .nil
  exact ⟨isEscaped, read_escaped.1 {} _ _ isEscaped⟩

end RichText.Markdown
