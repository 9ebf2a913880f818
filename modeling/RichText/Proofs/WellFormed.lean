import Mathlib.Tactic.Lemma
import RichText.Dialect
import RichText.Proofs.Markdown.Steps
import RichText.Proofs.Trimming

/-!
# What is read is well formed

Whatever the markup, in either dialect, what it is read as is a `WellFormed` message: its text has
no blank ends, its entities lie in the text, are not empty and split no character, and are listed in
the order in which they end (`read_wellFormed`).

A reader, whatever its dialect, works on its gathering by five operations: it appends text, and
starts, revises, abandons and finishes entities (`Html.built_ofSource`, `Markdown.built_ofSource`).
A gathering that is `Built` in this way is `Listed` while its text is short: each entity that has
ended covers characters of the text, and they are listed in the order in which they end
(`Gathering.Built.listed`).  Trimming keeps what is left of them between characters and in order.
-/

namespace RichText

/-! ## What readers list -/

namespace Gathering

variable {κ : Type} [DecidableEq κ]

/-- A gathering that comes about from nothing by the operations of readers, which revise an entity
only in its kind. -/
inductive Built : Gathering κ → Prop
  | empty : Built .empty
  | append {gathering : Gathering κ} (built : Built gathering) (piece : Text) :
      Built (gathering.append piece)
  | start {gathering : Gathering κ} (built : Built gathering) (key : κ) (kind : Kind) :
      Built (gathering.start key kind)
  | revise {gathering : Gathering κ} (built : Built gathering) (key : κ)
      {change : OpenEntity → OpenEntity} (offset : ∀ draft, (change draft).offset = draft.offset)
      (length : ∀ draft, (change draft).length = draft.length) :
      Built (gathering.revise key change)
  | abandon {gathering : Gathering κ} (built : Built gathering) (key : κ) :
      Built (gathering.abandon key)
  | finish {gathering : Gathering κ} (built : Built gathering) (key : κ) :
      Built (gathering.finish key)

/-- The counts are exact, every entity listed covers characters of the text, and none ends before
one listed earlier. -/
structure Listed (gathering : Gathering κ) : Prop where
  sound : gathering.Sound
  onCharacters : ∀ entity ∈ gathering.entities, entity.OnCharacters gathering.text
  closing : gathering.entities.Pairwise fun first second =>
    first.offset + first.length ≤ second.offset + second.length

variable {gathering : Gathering κ}

lemma listed_empty : (empty : Gathering κ).Listed :=
  ⟨sound_empty, by simp [empty], by simp [empty]⟩

lemma Listed.append (h : gathering.Listed) {piece : Text}
    (short : Short (gathering.text ++ piece)) : (gathering.append piece).Listed := by
  refine ⟨h.sound.append short, fun entity member => ?_, ?_⟩
  · rw [entities_append] at member
    rw [text_append]
    exact (h.onCharacters entity member).append piece
  · rw [entities_append]
    exact h.closing

/-- What ends reaches up to the end of the text, so that nothing listed ends behind it. -/
lemma Listed.finish (h : gathering.Listed) (key : κ) : (gathering.finish key).Listed := by
  cases isOpen : gathering.draft? key with
  | none =>
    rw [finish_of_free isOpen]
    exact h
  | some draft =>
    obtain ⟨front, since, whole, offset, length⟩ := h.sound.draft key draft isOpen
    have ended : draft.close.OnCharacters gathering.text :=
      ⟨front, since, [], by simpa using whole, offset, length⟩
    have last : draft.close.offset + draft.close.length = Utf16.unitCount gathering.text := by
      rw [whole, Utf16.unitCount_append]
      simp only [OpenEntity.close]
      omega
    have listed := entities_finish_of_open isOpen
    refine ⟨h.sound.finish key, fun entity member => ?_, ?_⟩
    · rw [listed] at member
      rw [text_finish]
      rcases List.mem_append.1 member with old | new
      · exact h.onCharacters entity old
      · rw [List.mem_singleton.1 new]
        exact ended
    · rw [listed]
      refine List.pairwise_append.2 ⟨h.closing, List.pairwise_singleton _ _, ?_⟩
      intro first member second new
      rw [List.mem_singleton.1 new, last]
      exact (h.onCharacters first member).bounds.2.2

/-- **What readers list.**  While the text is short, the entities of a gathering that a reader built
cover characters of its text, in the order in which they end. -/
lemma Built.listed (built : gathering.Built) (short : Short gathering.text) :
    gathering.Listed := by
  induction built with
  | empty => exact listed_empty
  | append built piece ih =>
    rw [text_append] at short
    exact (ih short.of_append).append short
  | start built key kind ih =>
    rw [text_start] at short
    have before := ih short
    refine ⟨before.sound.start key kind, ?_, ?_⟩
    · rw [entities_start, text_start]
      exact before.onCharacters
    · rw [entities_start]
      exact before.closing
  | revise built key offset length ih =>
    have before := ih short
    exact ⟨before.sound.revise key offset length, before.onCharacters, before.closing⟩
  | abandon built key ih =>
    have before := ih short
    exact ⟨before.sound.abandon key, before.onCharacters, before.closing⟩
  | finish built key ih =>
    rw [text_finish] at short
    exact (ih short).finish key

end Gathering

/-! ## Reading HTML -/

namespace Html

/-- What each of the operations keeps by which the reader of HTML gathers. -/
structure Keeps (settings : Settings) (p : Gathering Text → Prop) : Prop where
  append : ∀ {gathering}, p gathering → ∀ piece, p (gathering.append piece)
  start : ∀ {gathering}, p gathering → ∀ {name attributes kind substitute?},
    meaning? settings name attributes = some (kind, substitute?) → p (gathering.start name kind)
  language : ∀ {gathering}, p gathering → ∀ language,
    p (gathering.revise preTag (·.setLanguage language))
  url : ∀ {gathering}, p gathering → p (gathering.revise anchorTag (·.setKind .url))
  finish : ∀ {gathering}, p gathering → ∀ name, p (gathering.finish name)

variable {settings : Settings} {p : Gathering Text → Prop} {reading : Reading}

lemma Keeps.startTag (keeps : Keeps settings p) (h : p reading.gathered) (name : Text)
    (attributes : List Attribute) : p (reading.startTag settings name attributes).gathered := by
  rcases reading.gathered_startTag settings name attributes with
    ⟨language, revised⟩ | ⟨kind, substitute?, means, started⟩ | same
  · rw [revised]
    exact keeps.language h language
  · rw [started]
    exact keeps.start h means
  · rwa [same]

lemma Keeps.resolveLink (keeps : Keeps settings p) {gathered : Gathering Text} (h : p gathered) :
    p (Reading.resolveLink gathered) := by
  rcases Reading.resolveLink_cases gathered with revised | same
  · rw [revised]
    exact keeps.url h
  · rwa [same]

lemma Keeps.endTag (keeps : Keeps settings p) (h : p reading.gathered) (name : Text) :
    p (reading.endTag name).gathered := by
  unfold Reading.endTag
  simp only
  split
  · exact keeps.finish (keeps.resolveLink h) name
  · exact keeps.finish h name

/-- **Every token is gathered by these operations.** -/
lemma Keeps.take (keeps : Keeps settings p) (h : p reading.gathered) (token : Token) :
    p (reading.take settings token).gathered := by
  cases token with
  | startTag name attributes selfClosing =>
    have opened := keeps.startTag h name attributes
    unfold Reading.take
    simp only
    split
    · exact keeps.endTag opened name
    · exact opened
  | endTag name => exact keeps.endTag h name
  | text piece => exact keeps.append h _

lemma Keeps.foldl (keeps : Keeps settings p) (h : p reading.gathered) (tokens : List Token) :
    p (tokens.foldl (Reading.take settings) reading).gathered := by
  induction tokens generalizing reading with
  | nil => exact h
  | cons token tokens ih => exact ih (keeps.take h token)

lemma Keeps.ofSource (keeps : Keeps settings p) (empty : p .empty) (source : Text) :
    p (Reading.ofSource settings source).gathered := keeps.foldl empty _

lemma keeps_built (settings : Settings) : Keeps settings Gathering.Built where
  append := fun built piece => built.append piece
  start := fun built _ _ _ _ _ => built.start _ _
  language := fun built _ => built.revise _ (OpenEntity.offset_setLanguage _)
    (OpenEntity.length_setLanguage _)
  url := fun built => built.revise _ (fun _ => rfl) fun _ => rfl
  finish := fun built name => built.finish name

lemma built_ofSource (settings : Settings) (source : Text) :
    (Reading.ofSource settings source).gathered.Built :=
  (keeps_built settings).ofSource .empty source

end Html

/-! ## Reading Markdown -/

namespace Markdown

lemma built_ofSource (settings : Settings) (source : Text) :
    (Reading.ofSource settings source).gathered.Built := by
  have keeps : Keeps settings fun _ gathering => gathering.Built :=
    { append := fun built piece => built.append piece
      start := fun built _ _ _ => built.start _ _
      finish := fun built _ _ _ => built.finish _
      code := fun built _ _ _ piece => ((built.start _ _).append piece).finish _
      enter := fun built => built.start _ _
      leave := fun built _ _ _ => by
        refine (built.revise _ ?_ ?_).finish _ <;> exact fun _ => rfl
      drop := fun built => built.abandon _ }
  exact keeps.ofSource .empty source

lemma built_typeAll {trail : Trail} (built : trail.gathered.Built) (quoted : Bool) (piece : Text) :
    (trail.typeAll quoted piece).gathered.Built := by
  induction piece generalizing trail with
  | nil => exact built
  | cons c rest ih =>
    refine @ih (trail.type quoted c) ?_
    unfold Trail.type
    split
    · exact (built.append [c]).start _ _
    · exact built.append [c]

end Markdown

/-! ## Messages -/

/-- A message as it is read: its text has no blank ends, and its entities, each of which lies in the
text and splits no character, are listed in the order in which they end. -/
structure Message.WellFormed (message : Message) : Prop where
  start : ∀ c ∈ message.text.head?, isBlank c = false
  stop : ∀ c ∈ message.text.getLast?, isBlank c = false
  bounds : ∀ entity ∈ message.entities, 0 ≤ entity.offset ∧ 0 < entity.length ∧
    entity.stop ≤ Utf16.length message.text
  whole : ∀ entity ∈ message.entities,
    Utf16.withinPair (Utf16.encode message.text) entity.offset.toNat = false ∧
      Utf16.withinPair (Utf16.encode message.text) entity.stop.toNat = false
  closing : message.entities.Pairwise fun first second => first.stop ≤ second.stop

namespace Gathering

variable {κ : Type} [DecidableEq κ] {gathering : Gathering κ}

/-- What trimming leaves of what a reader lists lies in the trimmed text, between characters. -/
lemma Listed.liesIn_trim (h : gathering.Listed) (short : Short gathering.text) {entity : Entity}
    (member : entity ∈ (Message.trim ⟨gathering.text, gathering.entities⟩).entities) :
    entity.LiesIn (Utf16.unitCount gathering.text.trim) ∧
      Utf16.Between gathering.text.trim entity.offset.toNat ∧
      Utf16.Between gathering.text.trim (entity.offset + entity.length).toNat := by
  rw [@Message.entities_trim ⟨gathering.text, gathering.entities⟩ short] at member
  obtain ⟨old, hold, clipped⟩ := List.mem_filterMap.1 member
  obtain ⟨back, whole⟩ := gathering.text.exists_trim
  have stands := h.onCharacters old hold
  rw [whole] at stands short
  exact stands.left short clipped

/-- Trimming keeps the kinds of two entities, and one that ended before the other started, or before
it ended, still does. -/
lemma Listed.pairwise_trim (h : gathering.Listed) (short : Short gathering.text)
    {before after : Entity → Entity → Prop} (pairs : gathering.entities.Pairwise before)
    (keeps : ∀ first second left further : Entity, before first second →
      left.kind = first.kind → further.kind = second.kind →
      (first.offset + first.length ≤ second.offset → left.offset + left.length ≤ further.offset) →
      (first.offset + first.length ≤ second.offset + second.length →
        left.offset + left.length ≤ further.offset + further.length) → after left further) :
    (Message.trim ⟨gathering.text, gathering.entities⟩).entities.Pairwise after := by
  rw [@Message.entities_trim ⟨gathering.text, gathering.entities⟩ short, List.pairwise_filterMap]
  obtain ⟨back, whole⟩ := gathering.text.exists_trim
  have stands (old : Entity) (member : old ∈ gathering.entities) :
      old.OnCharacters (gathering.text.indent ++ gathering.text.trim ++ back) := by
    rw [← whole]
    exact h.onCharacters old member
  rw [whole] at short
  refine (List.Pairwise.and_mem.1 pairs).imp ?_
  rintro first second ⟨hfirst, hsecond, related⟩ left clipped further clippedFurther
  obtain ⟨kind, -, -, stop⟩ := (stands first hfirst).clip short clipped
  obtain ⟨kindFurther, -, start, stopFurther⟩ :=
    (stands second hsecond).clip short clippedFurther
  exact keeps first second left further related kind kindFurther (by omega) (by omega)

/-- **Trimming what a reader lists makes a well-formed message.** -/
lemma Listed.wellFormed (h : gathering.Listed) (short : Short gathering.text) :
    (Message.trim ⟨gathering.text, gathering.entities⟩).WellFormed := by
  obtain ⟨first, last⟩ := gathering.text.not_blank_of_trim
  have kept : Short gathering.text.trim := by
    obtain ⟨back, whole⟩ := gathering.text.exists_trim
    rw [whole] at short
    exact short.parts.2
  -- an entity that lies in a short text ends where its offset and length say
  have ends (entity : Entity)
      (member : entity ∈ (Message.trim ⟨gathering.text, gathering.entities⟩).entities) :
      entity.stop = entity.offset + entity.length := by
    obtain ⟨low, positive, high⟩ := (h.liesIn_trim short member).1
    refine Position.clamp_of_inRange ⟨?_, Int.le_of_lt (Int.lt_of_le_of_lt high kept)⟩
    simp only [Position.least]
    omega
  refine ⟨first, last, fun entity member => ?_, fun entity member => ?_, ?_⟩
  · rw [ends entity member, Message.text_trim, kept.length_eq]
    exact (h.liesIn_trim short member).1
  · obtain ⟨-, betweenStart, betweenStop⟩ := h.liesIn_trim short member
    rw [ends entity member]
    exact ⟨betweenStart.whole, betweenStop.whole⟩
  · have closing := h.pairwise_trim short h.closing
      fun _ _ _ _ order _ _ _ stops => stops order
    refine (List.Pairwise.and_mem.1 closing).imp ?_
    rintro entity later ⟨hentity, hlater, order⟩
    rwa [ends entity hentity, ends later hlater]

end Gathering

namespace Dialect

/-- The text that markup is read with before its blank ends are trimmed off. -/
def untrimmed (dialect : Dialect) (settings : Settings) (markup : Text) : Text :=
  match dialect with
  | html => (Html.Reading.ofSource settings markup).gathered.text
  | markdown => (Markdown.Reading.ofSource settings markup).gathered.text

/-- **What is read is well formed**, whatever the markup, as long as positions reach to the end of
its text. -/
theorem read_wellFormed (dialect : Dialect) (settings : Settings) {markup : Text}
    (short : Gathering.Short (dialect.untrimmed settings markup)) :
    (dialect.read settings markup).WellFormed := by
  cases dialect with
  | html => exact ((Html.built_ofSource settings markup).listed short).wellFormed short
  | markdown => exact ((Markdown.built_ofSource settings markup).listed short).wellFormed short

/-- Bold type around blank ends and a character of two code units. -/
theorem read_wellFormed_blank_bold :
    (Gathering.Short (html.untrimmed {} "<b> a😀 </b>".toList) ∧
      Gathering.Short (markdown.untrimmed {} "** a😀 **".toList)) ∧
    (html.read {} "<b> a😀 </b>".toList).WellFormed ∧
      (markdown.read {} "** a😀 **".toList).WellFormed := by
  have inHtml : html.untrimmed {} "<b> a😀 </b>".toList = " a😀 ".toList := by decide +kernel
  have inMarkdown : markdown.untrimmed {} "** a😀 **".toList = " a😀 ".toList := by decide +kernel
  have shortHtml : Gathering.Short (html.untrimmed {} "<b> a😀 </b>".toList) := by
    rw [inHtml]
    decide
  have shortMarkdown : Gathering.Short (markdown.untrimmed {} "** a😀 **".toList) := by
    rw [inMarkdown]
    decide
  exact ⟨⟨shortHtml, shortMarkdown⟩, html.read_wellFormed {} shortHtml,
    markdown.read_wellFormed {} shortMarkdown⟩

end Dialect

end RichText
