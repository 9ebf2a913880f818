import RichText.Proofs.Markdown.Expressible
import RichText.Proofs.Markdown.Structure

/-!
# Block quotes start under one key

A reader that is in a block quote starts no other.  In HTML block quotes have one tag, and a tag
within another of the same name starts nothing; in Markdown they have one mark.  A gathering is
`Quoting` under a key if block quotes start under no other, so that each ends before the next
starts.  Every operation of either reader keeps it so, and trimming leaves a message whose nesting
is filled (`Quoting.filled`), in whatever order its entities are listed.
-/

namespace RichText

open Markdown (QuotesApart Filled filled_ofEntities)

/-! ## Block quotes under one key -/

/-- What ends before one entity starts ends before every other that starts there. -/
lemma Entity.Before.of_offset {entity : Entity} {first second : OpenEntity}
    (h : entity.Before first.close) (same : second.offset = first.offset) :
    entity.Before second.close := by
  simp only [Entity.Before, OpenEntity.close] at h ⊢
  rwa [same]

namespace Gathering

variable {κ : Type} [DecidableEq κ]

/-- Block quotes start under one key, and while the text is short each has ended before the next
starts. -/
structure Quoting (quote : κ) (gathering : Gathering κ) : Prop where
  built : gathering.Built
  own : ∀ key draft, gathering.draft? key = some draft → draft.kind = .blockquote → key = quote
  apart : Short gathering.text → gathering.entities.Pairwise QuotesApart
  started : Short gathering.text → ∀ entity ∈ gathering.entities,
    ∀ key draft, gathering.draft? key = some draft → QuotesApart entity draft.close

variable {gathering : Gathering κ} {quote key : κ} {kind : Kind}

lemma quoting_empty : (empty : Gathering κ).Quoting quote :=
  ⟨.empty, by simp, by simp [empty], by simp [empty]⟩

lemma Quoting.append (h : gathering.Quoting quote) (piece : Text) :
    (gathering.append piece).Quoting quote := by
  refine ⟨h.built.append piece, fun other draft found isQuote => ?_, fun short => ?_,
    fun short entity member other draft found first second => ?_⟩
  · obtain ⟨old, hold, -, kind⟩ := draft?_append_eq_some found
    exact h.own other old hold (kind.symm.trans isQuote)
  · rw [text_append] at short
    rw [entities_append]
    exact h.apart short.of_append
  · rw [text_append] at short
    rw [entities_append] at member
    obtain ⟨old, hold, offset, kind⟩ := draft?_append_eq_some found
    have before := h.started short.of_append entity member other old hold first
      (kind.symm.trans second)
    exact before.of_offset offset

/-- What starts lies behind all that has ended. -/
lemma Quoting.start (h : gathering.Quoting quote) (own : kind = .blockquote → key = quote) :
    (gathering.start key kind).Quoting quote := by
  refine ⟨h.built.start key kind, fun other draft found isQuote => ?_, fun short => ?_,
    fun short entity member other draft found => ?_⟩
  · rcases draft?_start_eq_some found with ⟨rfl, rfl⟩ | old
    · exact own isQuote
    · exact h.own other draft old isQuote
  · rw [text_start] at short
    rw [entities_start]
    exact h.apart short
  · rw [text_start] at short
    rw [entities_start] at member
    rcases draft?_start_eq_some found with ⟨rfl, rfl⟩ | old
    · intro _ _
      have listed := h.built.listed short
      have ended := (listed.onCharacters entity member).bounds.2.2
      rwa [← listed.sound.units] at ended
    · exact h.started short entity member other draft old

/-- A change that moves nothing and makes no block quote. -/
lemma Quoting.revise (h : gathering.Quoting quote) (key : κ) {change : OpenEntity → OpenEntity}
    (offset : ∀ draft, (change draft).offset = draft.offset)
    (length : ∀ draft, (change draft).length = draft.length)
    (kind : ∀ draft, (change draft).kind = .blockquote → draft.kind = .blockquote) :
    (gathering.revise key change).Quoting quote := by
  have draft (other : κ) (draft : OpenEntity)
      (found : (gathering.revise key change).draft? other = some draft) :
      ∃ old, gathering.draft? other = some old ∧ draft.offset = old.offset ∧
        (draft.kind = .blockquote → old.kind = .blockquote) := by
    obtain ⟨old, hold, ⟨-, rfl⟩ | rfl⟩ := draft?_revise_eq_some found
    · exact ⟨old, hold, offset old, kind old⟩
    · exact ⟨draft, hold, rfl, id⟩
  refine ⟨h.built.revise key offset length, fun other revised found isQuote => ?_, h.apart,
    fun short entity member other revised found first second => ?_⟩
  · obtain ⟨old, hold, -, quote⟩ := draft other revised found
    exact h.own other old hold (quote isQuote)
  · obtain ⟨old, hold, offset, quote⟩ := draft other revised found
    exact (h.started short entity member other old hold first (quote second)).of_offset offset

lemma Quoting.abandon (h : gathering.Quoting quote) (key : κ) :
    (gathering.abandon key).Quoting quote :=
  ⟨h.built.abandon key,
    fun other draft found => h.own other draft (draft?_abandon_eq_some found).2, h.apart,
    fun short entity member other draft found =>
      h.started short entity member other draft (draft?_abandon_eq_some found).2⟩

/-- What ends is listed, and no other block quote is open. -/
lemma Quoting.finish (h : gathering.Quoting quote) (key : κ) :
    (gathering.finish key).Quoting quote := by
  cases isOpen : gathering.draft? key with
  | none =>
    rw [finish_of_free isOpen]
    exact h
  | some ended =>
    have listed := entities_finish_of_open isOpen
    refine ⟨h.built.finish key, fun other draft found => ?_, fun short => ?_,
      fun short entity member other draft found => ?_⟩
    · exact h.own other draft (draft?_finish_eq_some found).2
    · rw [text_finish] at short
      rw [listed]
      refine List.pairwise_append.2 ⟨h.apart short, List.pairwise_singleton _ _, ?_⟩
      intro first member second new
      rw [List.mem_singleton.1 new]
      exact h.started short first member key ended isOpen
    · rw [text_finish] at short
      obtain ⟨differ, old⟩ := draft?_finish_eq_some found
      rw [listed] at member
      rcases List.mem_append.1 member with before | new
      · exact h.started short entity before other draft old
      · rw [List.mem_singleton.1 new]
        intro first second
        refine absurd ?_ differ
        rw [h.own other draft old second, h.own key ended isOpen first]

end Gathering

/-! ## Trimming -/

/-- **What is read is filled**, in whatever order it is listed, if its block quotes start under one
key. -/
lemma Gathering.Quoting.filled {κ : Type} [DecidableEq κ] {gathering : Gathering κ} {quote : κ}
    (h : gathering.Quoting quote) (short : Gathering.Short gathering.text) {entities : List Entity}
    (same : entities.Perm (Message.trim ⟨gathering.text, gathering.entities⟩).entities) :
    Filled gathering.text.trim false
      (Forest.ofEntities (Utf16.unitCount gathering.text.trim) entities) := by
  have listed := h.built.listed short
  have apart : (Message.trim ⟨gathering.text, gathering.entities⟩).entities.Pairwise
      QuotesApart := by
    refine listed.pairwise_trim short (h.apart short) ?_
    intro first second left further apart kind kindFurther starts _ quote other
    exact starts (apart (kind.symm.trans quote) (kindFurther.symm.trans other))
  exact filled_ofEntities (fun entity member => listed.liesIn_trim short (same.mem_iff.1 member))
    ((same.pairwise_iff Or.symm).2 (apart.imp Or.inl))

/-! ## Block quotes in HTML -/

namespace Html

/-- The name of block quote tags. -/
def quoteTag : Text := "blockquote".toList

/-- Only block quote tags mean block quotes. -/
lemma name_of_meaning?_quote {settings : Settings} {name : Text} {attributes : List Attribute}
    {substitute? : Option Text}
    (h : meaning? settings name attributes = some (.blockquote, substitute?)) :
    name = quoteTag := by
  rcases meaning?_eq_some h with ⟨-, target, -, meant⟩ | ⟨-, _, documentId, emoji, -⟩ | listed
  · have same : (linkMeaning target).1 = .blockquote := by rw [meant]
    rcases kind_linkMeaning target with mail | ⟨userId, user⟩ | url
    · simp [mail] at same
    · simp [user] at same
    · simp [url] at same
  · simp at emoji
  · have table : ∀ entry ∈ formattingTags, entry.2 = .blockquote → entry.1 = quoteTag := by decide
    exact table (name, .blockquote) listed rfl

/-- **The reader starts block quotes under one key.** -/
lemma quoting_ofSource (settings : Settings) (source : Text) :
    (Reading.ofSource settings source).gathered.Quoting quoteTag := by
  have keeps : Keeps settings (Gathering.Quoting quoteTag) :=
    { append := fun h piece => h.append piece
      start := fun h _ _ _ _ meant => h.start fun quote => by
        rw [quote] at meant
        exact name_of_meaning?_quote meant
      language := fun h _ => h.revise _ (OpenEntity.offset_setLanguage _)
        (OpenEntity.length_setLanguage _) fun draft quote => by
          unfold OpenEntity.setLanguage at quote
          split at quote
          · simp at quote
          · exact quote
      url := fun h => h.revise _ (fun _ => rfl) (fun _ => rfl) fun _ quote => by
        simp [OpenEntity.setKind] at quote
      finish := fun h name => h.finish name }
  exact keeps.ofSource Gathering.quoting_empty source

end Html

/-! ## Block quotes in Markdown -/

namespace Markdown

/-- **So does the reader of Markdown**, which has one key for block quotes. -/
lemma quoting_ofSource (settings : Settings) (source : Text) :
    (Reading.ofSource settings source).gathered.Quoting .blockquote := by
  have keeps : Keeps settings fun _ gathering => gathering.Quoting .blockquote :=
    { append := fun h piece => h.append piece
      start := fun h _ _ _ => h.start fun quote => by rw [quote, keyOf]
      finish := fun h _ _ _ => h.finish _
      code := fun {links _} h kind code _ piece => by
        have verbatim : kind ≠ .blockquote := by
          rintro rfl
          cases code
        have started := @Gathering.Quoting.start _ _ _ _ (keyOf links kind) _ h
          fun quote => absurd quote verbatim
        exact (started.append piece).finish _
      enter := fun h => h.start fun quote => by cases quote
      leave := fun {links gathering} h _ kind found => by
        have revised : (gathering.revise (.link links) (·.setKind kind)).Quoting .blockquote := by
          refine h.revise _ (fun _ => rfl) (fun _ => rfl) fun _ quote => ?_
          have link := isLink_of_linkKind? found
          rw [show kind = .blockquote from quote] at link
          cases link
        exact revised.finish _
      drop := fun h => h.abandon _ }
  exact keeps.ofSource Gathering.quoting_empty source

end Markdown

end RichText
