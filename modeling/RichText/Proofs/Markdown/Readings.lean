import Mathlib.Tactic.Lemma
import RichText.Proofs.Gatherings
import RichText.Proofs.Markdown.Legibility

/-!
# The entities that are read

What is written for a nesting that can be said is read with entities of its own: `readings` lists them.  Each
span gives one, in its own place and behind those within it, unless it is bare; a link has the kind
that its target gives it where it stands, and a code block the language without blank ends.

`replayGrows_of_matches` says that the replay gathers just these, where no entity is within another
of its own delimiter (`MayEnclose`).
-/

namespace RichText.Markdown

/-! ## Delimiters -/

/-- What tells an open entity of a kind from others, within `depth` links. -/
def keyOf (depth : Nat) : Kind → Delimiter
  | .bold => .bold
  | .italic => .italic
  | .underline => .underline
  | .strike => .strike
  | .spoiler => .spoiler
  | .code => .code
  | .pre _ => .pre
  | .blockquote => .blockquote
  | .textUrl _ | .url | .email | .mentionName _ | .customEmoji _ => .link depth

/-- An entity whose marks may enclose those of another: code encloses nothing, a block quote is
enclosed by nothing, and formatting does not enclose its own kind. -/
def MayEnclose (outer inner : Entity) : Prop :=
  outer.kind.isCode = false ∧ inner.kind ≠ .blockquote ∧
    (outer.kind.isFormatting = true → outer.kind ≠ inner.kind)

instance (outer inner : Entity) : Decidable (MayEnclose outer inner) :=
  inferInstanceAs (Decidable (_ ∧ _ ∧ _))

/-- Formatting shares its key with no other kind. -/
lemma keyOf_ne_of_formatting {outer inner : Kind} (formatting : outer.isFormatting = true)
    (other : outer ≠ inner) (depth deeper : Nat) : keyOf deeper inner ≠ keyOf depth outer := by
  cases outer <;> simp only [Kind.isFormatting, Bool.false_eq_true] at formatting
  all_goals
    cases inner <;> first | exact absurd rfl other | simp [keyOf]

/-- Within a link its key is not used again. -/
lemma keyOf_ne_link {depth deeper : Nat} (h : depth < deeper) (kind : Kind) :
    keyOf deeper kind ≠ .link depth := by
  cases kind <;>
    simp only [keyOf, ne_eq, reduceCtorEq, not_false_iff, Delimiter.link.injEq] <;> omega

/-- What is within an entity does not use its key. -/
lemma MayEnclose.keyOf_ne {outer inner : Entity} (h : MayEnclose outer inner) {depth deeper : Nat}
    (further : keyOf depth outer.kind = .link depth → depth < deeper) :
    keyOf deeper inner.kind ≠ keyOf depth outer.kind := by
  obtain ⟨verbatim, -, other⟩ := h
  by_cases formatting : outer.kind.isFormatting = true
  · exact keyOf_ne_of_formatting formatting (other formatting) depth deeper
  · have isLink : keyOf depth outer.kind = .link depth := by
      cases hkind : outer.kind <;> simp_all [Kind.isFormatting, Kind.isCode, keyOf]
    rw [isLink]
    exact keyOf_ne_link (further isLink) inner.kind

lemma keyOf_doubled {raw : Text} {kind : Kind} {c : Char} {delimiter : Delimiter}
    (h : marksOf raw kind = .doubled c delimiter) (depth : Nat) :
    keyOf depth kind = delimiter ∧ kind.isFormatting = true := by
  cases kind <;> simp only [marksOf, Marks.doubled.injEq, reduceCtorEq] at h
  all_goals exact ⟨h.2, rfl⟩

lemma keyOf_link {raw target : Text} {kind : Kind} (h : marksOf raw kind = .link target)
    (depth : Nat) : keyOf depth kind = .link depth := by
  cases kind <;> first | rfl | simp [marksOf] at h

/-! ## Entities -/

/-- The kind that the marks of an entity are read with. -/
def readKind (settings : Settings) (quoted : Bool) (raw : Text) (kind : Kind) : Kind :=
  match marksOf raw kind with
  | .link target => (linkKind? settings (inQuote quoted target) raw).getD kind
  | .block language => .pre language.trim
  | _ => kind

/-- The entities that what is written for a forest is read with. -/
def readings (settings : Settings) (text : Text) (quoted : Bool) : Forest → List Entity
  | .nil => []
  | .cons span inner after =>
    (if bare settings span.entity.kind (written settings text span.start span.stop inner) then
        readings settings text quoted inner
      else readings settings text (quoted || span.entity.kind == .blockquote) inner ++
        [{ span.entity with
          kind := readKind settings quoted (covered text span) span.entity.kind }]) ++
      readings settings text quoted after

/-- The entities that what is written for a span is read with. -/
def spanReadings (settings : Settings) (text : Text) (quoted : Bool) (span : Span)
    (inner : Forest) : List Entity :=
  if bare settings span.entity.kind (written settings text span.start span.stop inner) then
    readings settings text quoted inner
  else readings settings text (quoted || span.entity.kind == .blockquote) inner ++
    [{ span.entity with kind := readKind settings quoted (covered text span) span.entity.kind }]

lemma readings_cons (settings : Settings) (text : Text) (quoted : Bool) (span : Span)
    (inner after : Forest) :
    readings settings text quoted (.cons span inner after) =
      spanReadings settings text quoted span inner ++ readings settings text quoted after := rfl

variable {settings : Settings} {text piece : Text} {quoted fresh : Bool}
  {depth position limit : Nat} {trail after : Trail} {new : List Entity}

/-- Where custom emoji are read every link has a kind. -/
lemma linkKind?_isSome (enabled : settings.customEmoji = true) (target raw : Text) :
    ∃ kind, linkKind? settings target raw = some kind := by
  simp only [linkKind?, enabled, if_true]
  repeat' split
  all_goals exact ⟨_, rfl⟩

/-! ## What pieces add -/

lemma grows_appendChars {gathered : Gathering Delimiter} (sound : gathered.Sound)
    (short : Gathering.Short (gathered.text ++ piece)) :
    Gathering.Grows gathered (piece.foldl (fun gathered c => gathered.appendChar c) gathered) piece
      [] := by
  induction piece generalizing gathered with
  | nil => exact .refl sound
  | cons c rest ih =>
    rw [← List.singleton_append, ← List.append_assoc] at short
    have typed : Gathering.Grows gathered (gathered.appendChar c) [c] [] :=
      .append sound short.of_append
    refine typed.trans (ih typed.sound ?_)
    rw [Gathering.text_appendChar]
    exact short

lemma grows_typeAll (quoting : trail.quoting = quoted) (sound : trail.gathered.Sound)
    (short : Gathering.Short (trail.gathered.text ++ piece)) :
    Gathering.Grows trail.gathered (trail.typeAll quoted piece).gathered piece [] := by
  rw [gathered_typeAll quoting]
  exact grows_appendChars sound short

lemma grows_enclose {key : Delimiter} {kind : Kind} (sound : trail.gathered.Sound)
    (free : trail.gathered.draft? key = none)
    (short : Gathering.Short (trail.gathered.text ++ piece)) :
    Gathering.Grows trail.gathered (trail.enclose key kind piece).gathered piece
      [⟨Utf16.unitCount trail.gathered.text, Utf16.unitCount piece, kind⟩] := by
  rw [← Gathering.text_start key kind] at short
  exact (Gathering.Grows.append (sound.start key kind) short).finish sound free

lemma gathered_switch {delimiter : Delimiter} (free : trail.gathered.draft? delimiter = none)
    (kind : Kind) : (trail.mark (Reading.switch delimiter kind)).gathered =
      trail.gathered.start delimiter kind := by
  apply if_neg
  rw [Gathering.isOpen, free]
  exact Bool.false_ne_true

lemma grows_switch {delimiter : Delimiter} {kind : Kind} (sound : trail.gathered.Sound)
    (free : trail.gathered.draft? delimiter = none)
    (grows : Gathering.Grows (trail.mark (Reading.switch delimiter kind)).gathered after.gathered
      piece new) :
    Gathering.Grows trail.gathered (after.mark (Reading.switch delimiter kind)).gathered piece
      (new ++ [⟨Utf16.unitCount trail.gathered.text, Utf16.unitCount piece, kind⟩]) := by
  rw [gathered_switch free] at grows
  have ends : (after.mark (Reading.switch delimiter kind)).gathered =
      after.gathered.finish delimiter := by
    apply if_pos
    rw [Gathering.isOpen, grows.draft?_started sound free]
    rfl
  rw [ends]
  exact grows.finish sound free

lemma grows_quote (starts : trail.lineStart = true) (closed : trail.quoting = false)
    (sound : trail.gathered.Sound)
    (grows : Gathering.Grows trail.quoteStart.gathered after.gathered piece new) :
    Gathering.Grows trail.gathered after.quoteStop.gathered piece
      (new ++ [⟨Utf16.unitCount trail.gathered.text, Utf16.unitCount piece, .blockquote⟩]) := by
  have free : trail.gathered.draft? .blockquote = none :=
    Option.not_isSome_iff_eq_none.1 (Bool.eq_false_iff.1 closed)
  rw [Trail.quoteStart, if_pos starts] at grows
  have isOpen : after.quoting = true := by
    rw [Trail.quoting, Gathering.isOpen, grows.draft?_started sound free]
    rfl
  rw [Trail.quoteStop, if_pos isOpen]
  exact grows.finish sound free

/-- A link adds itself behind what is within, with the kind that its target gives it. -/
lemma grows_link (enabled : settings.customEmoji = true) (sound : trail.gathered.Sound)
    (free : trail.gathered.draft? (.link depth) = none) (target : Text) (otherwise : Kind)
    (grows : Gathering.Grows (trail.linkStart depth).gathered after.gathered piece new) :
    Gathering.Grows trail.gathered (after.linkStop settings depth target).gathered piece
      (new ++ [⟨Utf16.unitCount trail.gathered.text, Utf16.unitCount piece,
        (linkKind? settings target piece).getD otherwise⟩]) := by
  obtain ⟨kind, hkind⟩ := linkKind?_isSome enabled target piece
  rw [Trail.linkStop, Trail.mark, grows.covered?_started sound free, Option.getD_some]
  simp only [hkind, Option.getD_some]
  exact grows.finish_revised kind sound free

/-- **Marks add their entity** behind what is within. -/
lemma grows_around (enabled : settings.customEmoji = true) {kind : Kind} {value : Text}
    {inside : Bool → Nat → Trail → Trail} (sound : trail.gathered.Sound)
    (quoting : trail.quoting = quoted) (short : Gathering.Short (trail.gathered.text ++ piece))
    (free : trail.gathered.draft? (keyOf depth kind) = none)
    (code : kind.isCode = true → value = quote piece ∧ new = [])
    (line : ∀ language, kind = .pre language → '\n' ∉ language)
    (starts : kind = .blockquote → quoted = false ∧ trail.lineStart = true)
    (grows : ∀ deeper, depth ≤ deeper → (keyOf depth kind = .link depth → depth < deeper) →
      ∀ first next, next.gathered = trail.gathered.start (keyOf depth kind) first →
        next.quoting = (quoted || kind == .blockquote) →
        Gathering.Grows next.gathered (inside (quoted || kind == .blockquote) deeper next).gathered
          piece new) :
    Gathering.Grows trail.gathered
      ((marksOf piece kind).around settings quoted depth kind value inside trail).gathered piece
      (new ++ [⟨Utf16.unitCount trail.gathered.text, Utf16.unitCount piece,
        readKind settings quoted piece kind⟩]) := by
  have same (other : kind ≠ .blockquote) : (quoted || kind == .blockquote) = quoted := by
    simp [other]
  rw [readKind]
  cases hmarks : marksOf piece kind with
  | doubled c delimiter =>
    obtain ⟨key, formatting⟩ := keyOf_doubled hmarks depth
    have apart := (Reading.doubled?_eq_some (marksOf_doubled hmarks)).2
    have other : kind ≠ .blockquote := by
      rintro rfl
      simp [marksOf] at hmarks
    rw [key] at free
    rw [same other, key] at grows
    refine grows_switch sound free
      (grows depth (Nat.le_refl _) ?_ kind _ (gathered_switch free kind) ?_)
    · rintro rfl
      cases kind <;> simp [Kind.isFormatting, keyOf] at formatting key
    · rw [Trail.quoting, gathered_switch free, Gathering.isOpen_start _ apart.symm]
      exact quoting
  | code =>
    obtain rfl := marksOf_eq_code hmarks
    obtain ⟨rfl, rfl⟩ := code rfl
    rw [Marks.around, Trail.code, verbatim_quote quoting]
    exact grows_enclose sound free short
  | block language =>
    obtain rfl := marksOf_eq_block hmarks
    obtain ⟨rfl, rfl⟩ := code rfl
    rw [Marks.around, Trail.block, splitBlock_verbatim quoting (line language rfl)]
    exact grows_enclose sound free short
  | quote =>
    obtain rfl := marksOf_eq_quote hmarks
    obtain ⟨rfl, lineStart⟩ := starts rfl
    have started : trail.quoteStart.gathered = trail.gathered.start .blockquote .blockquote := by
      rw [Trail.quoteStart, if_pos lineStart]
      rfl
    refine grows_quote lineStart quoting sound
      (grows depth (Nat.le_refl _) ?_ .blockquote _ started ?_)
    · simp [keyOf]
    · rw [Trail.quoting, started, Gathering.isOpen, Gathering.draft?_start, if_pos rfl]
      rfl
  | link target =>
    have key := keyOf_link hmarks depth
    have other : kind ≠ .blockquote := by
      rintro rfl
      simp [marksOf] at hmarks
    rw [key] at free
    rw [same other, key] at grows
    refine grows_link enabled sound free _ kind (grows (depth + 1) (Nat.le_succ _) ?_ _ _ rfl ?_)
    · exact fun _ => Nat.lt_succ_self depth
    · rw [Trail.quoting_linkStart]
      exact quoting

/-! ## What a forest adds -/

/-- What was gathered since follows the text as before. -/
lemma Follows.of_grows {start stop : Nat} (h : Follows text quoted fresh start trail)
    (order : start ≤ stop)
    (grows : Gathering.Grows trail.gathered after.gathered
      (Utf16.slice (Utf16.encode text) start stop) new) :
    Follows text quoted false stop after := by
  refine ⟨?_, ?_, by simp⟩
  · rw [grows.text, h.read, Utf16.upTo_append_slice order]
  · rw [← h.quoting, Trail.quoting, Gathering.isOpen, grows.draft, Option.isSome_map]
    rfl

/-- Wherever the keys of its spans are free, replaying a forest adds the text of its stretch and the
entities it is read with. -/
def ReplayGrows (settings : Settings) (text : Text) (quoted : Bool) (position limit : Nat)
    (forest : Forest) : Prop :=
  ∀ fresh depth trail, Sayable settings text fresh position forest →
    Follows text quoted fresh position trail → trail.gathered.Sound →
    (∀ span ∈ forest.spans, ∀ deeper, depth ≤ deeper →
      trail.gathered.draft? (keyOf deeper span.entity.kind) = none) →
    Gathering.Grows trail.gathered
      (replay settings text quoted depth position limit forest trail).gathered
      (Utf16.slice (Utf16.encode text) position limit) (readings settings text quoted forest)

/-- **The marks of a span add its entity** behind those of the spans inside it. -/
lemma grows_marks (enabled : settings.customEmoji = true) (short : Gathering.Short text)
    {span : Span} {inner : Forest} (offset : span.entity.offset = span.start)
    (length : span.entity.offset + span.entity.length = span.stop) (order : span.start ≤ span.stop)
    (hstart : Utf16.Between text span.start) (hstop : Utf16.Between text span.stop)
    (encloses : ∀ enclosed ∈ inner.spans, MayEnclose span.entity enclosed.entity)
    (code : span.entity.kind.isCode = true → inner = .nil)
    (line : ∀ language, span.entity.kind = .pre language → '\n' ∉ language)
    (starts : span.entity.kind = .blockquote → quoted = false ∧ trail.lineStart = true)
    (sayable : Sayable settings text false span.start inner)
    (inside : ReplayGrows settings text (quoted || span.entity.kind == .blockquote) span.start
      span.stop inner)
    (follows : Follows text quoted false span.start trail) (sound : trail.gathered.Sound)
    (free : trail.gathered.draft? (keyOf depth span.entity.kind) = none)
    (freeInner : ∀ enclosed ∈ inner.spans, ∀ deeper, depth ≤ deeper →
      trail.gathered.draft? (keyOf deeper enclosed.entity.kind) = none) :
    Gathering.Grows trail.gathered
      ((marksOf (covered text span) span.entity.kind).around settings quoted depth
        span.entity.kind (written settings text span.start span.stop inner)
        (fun quoted depth => replay settings text quoted depth span.start span.stop inner)
        trail).gathered (covered text span)
      (readings settings text (quoted || span.entity.kind == .blockquote) inner ++
        [{ span.entity with
          kind := readKind settings quoted (covered text span) span.entity.kind }]) := by
  have place : (⟨Utf16.unitCount trail.gathered.text, Utf16.unitCount (covered text span),
      readKind settings quoted (covered text span) span.entity.kind⟩ : Entity) =
        { span.entity with
          kind := readKind settings quoted (covered text span) span.entity.kind } := by
    rw [follows.read]
    exact Forest.entity_of_span offset length hstart hstop order _
  have room : Gathering.Short (trail.gathered.text ++ covered text span) := by
    rw [follows.read]
    exact short.upTo_append_slice order
  rw [← place]
  refine grows_around enabled sound follows.quoting room free ?_ line starts ?_
  · intro verbatim
    obtain rfl := code verbatim
    exact ⟨written_nil, rfl⟩
  · intro deeper further link kind next started quoting
    have within : Follows text (quoted || span.entity.kind == .blockquote) false span.start
        next := by
      refine ⟨?_, quoting, by simp⟩
      rw [started, Gathering.text_start, follows.read]
    refine inside false deeper next sayable within ?_ ?_
    · rw [started]
      exact sound.start _ _
    · intro enclosed member deepest furthest
      have apart : keyOf deepest enclosed.entity.kind ≠ keyOf depth span.entity.kind :=
        (encloses enclosed member).keyOf_ne
          fun isLink => Nat.lt_of_lt_of_le (link isLink) furthest
      rw [started, Gathering.draft?_start, if_neg apart]
      exact freeInner enclosed member deepest (Nat.le_trans further furthest)

/-- **A span adds its entity** behind those of the spans inside it, unless it is bare. -/
lemma grows_span (enabled : settings.customEmoji = true) (short : Gathering.Short text)
    {span : Span} {inner : Forest} (offset : span.entity.offset = span.start)
    (length : span.entity.offset + span.entity.length = span.stop) (order : span.start ≤ span.stop)
    (hstart : Utf16.Between text span.start) (hstop : Utf16.Between text span.stop)
    (encloses : ∀ enclosed ∈ inner.spans, MayEnclose span.entity enclosed.entity)
    (line : ∀ language, span.entity.kind = .pre language → '\n' ∉ language)
    (marked : bare settings span.entity.kind
        (written settings text span.start span.stop inner) = false →
      (span.entity.kind.isCode = true → inner = .nil) ∧
        (span.entity.kind = .blockquote → quoted = false ∧ trail.lineStart = true))
    (sayable : Sayable settings text false span.start inner)
    (isSealed : Sealed settings text (quoted || span.entity.kind == .blockquote) inner)
    (inside : ∀ quoted, Sealed settings text quoted inner →
      ReplayGrows settings text quoted span.start span.stop inner)
    (follows : Follows text quoted false span.start trail) (sound : trail.gathered.Sound)
    (free : trail.gathered.draft? (keyOf depth span.entity.kind) = none)
    (freeInner : ∀ enclosed ∈ inner.spans, ∀ deeper, depth ≤ deeper →
      trail.gathered.draft? (keyOf deeper enclosed.entity.kind) = none) :
    Gathering.Grows trail.gathered (replaySpan settings text quoted depth span inner trail).gathered
      (covered text span) (spanReadings settings text quoted span inner) := by
  unfold replaySpan spanReadings
  dsimp only
  split
  · exact inside quoted isSealed.of_or false depth trail sayable follows sound freeInner
  · rename_i shown
    obtain ⟨code, starts⟩ := marked (Bool.eq_false_iff.2 shown)
    exact grows_marks enabled short offset length order hstart hstop encloses code line starts
      sayable (inside _ isSealed) follows sound free freeInner

/-- **Replaying a forest** adds the text of its stretch and the entities it is read with. -/
lemma replayGrows_of_matches (enabled : settings.customEmoji = true) (short : Gathering.Short text)
    {forest : Forest} (hforest : forest.Matches MayEnclose position limit)
    (hspans : ∀ span ∈ forest.spans,
      Utf16.Between text span.start ∧ Utf16.Between text span.stop)
    (isSealed : Sealed settings text quoted forest) :
    ReplayGrows settings text quoted position limit forest := by
  induction forest generalizing quoted position limit with
  | nil =>
    intro fresh depth trail _ follows sound _
    apply grows_typeAll follows.quoting sound
    rw [follows.read]
    exact short.upTo_append_slice hforest
  | cons span inner after ihInner ihAfter =>
    intro fresh depth trail sayable follows sound free
    obtain ⟨first, filled, offset, length, encloses, hinner, hafter⟩ := hforest
    obtain ⟨apartMarks, sealedInner, sealedAfter⟩ := isSealed
    obtain ⟨line, marked, sayableInner, sayableAfter⟩ := sayable
    obtain ⟨hstart, hstop⟩ := hspans span List.mem_cons_self
    have within (enclosed : Span) (member : enclosed ∈ inner.spans) :=
      hspans enclosed (by simp [member])
    have behind (following : Span) (member : following ∈ after.spans) :=
      hspans following (by simp [member])
    -- the gap before the span
    have before := follows.typeAll first
    have room := short.upTo_append_slice first
    rw [← follows.read] at room
    have gap := grows_typeAll follows.quoting sound room
    have freeInner (enclosed : Span) (member : enclosed ∈ inner.spans) (deeper : Nat)
        (further : depth ≤ deeper) :=
      gap.draft?_eq_none (free enclosed (by simp [member]) deeper further)
    have freeAfter (following : Span) (member : following ∈ after.spans) (deeper : Nat)
        (further : depth ≤ deeper) :=
      gap.draft?_eq_none (free following (by simp [member]) deeper further)
    -- the span, with its marks or without them
    have middle : Gathering.Grows
        (trail.typeAll quoted (Utf16.slice (Utf16.encode text) position span.start)).gathered
        (replaySpan settings text quoted depth span inner
          (trail.typeAll quoted (Utf16.slice (Utf16.encode text) position span.start))).gathered
        (covered text span) (spanReadings settings text quoted span inner) := by
      refine grows_span enabled short offset length filled.le hstart hstop encloses line
        (fun shown => ⟨(marked shown).1, fun isQuote => ?_⟩) sayableInner sealedInner
        (fun quoted => ihInner hinner within) before.stale gap.sound
        (gap.draft?_eq_none (free span List.mem_cons_self depth (Nat.le_refl _))) freeInner
      have quote := (apartMarks shown).2 isQuote
      obtain ⟨nothingBefore, lineStarts⟩ := (marked shown).2 isQuote
      have known : (fresh || !(Utf16.slice (Utf16.encode text) position span.start).isEmpty) =
          true := by
        simpa using nothingBefore
      exact ⟨quote, before.start known quote lineStarts⟩
    -- what is behind the span
    have rest := ihAfter hafter behind sealedAfter false depth _ sayableAfter
      (before.of_grows filled.le middle) middle.sound
      (fun following member deeper further =>
        middle.draft?_eq_none (freeAfter following member deeper further))
    have grows := gap.stretch first (filled.le.trans hafter.within.le)
      (Gathering.Grows.stretch filled.le hafter.within.le middle rest)
    rw [List.nil_append] at grows
    rw [replay_cons, readings_cons]
    exact grows

end RichText.Markdown
