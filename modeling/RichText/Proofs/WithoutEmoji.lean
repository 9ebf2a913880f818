import Mathlib.Tactic.Lemma
import RichText.Dialect
import RichText.Proofs.Clipping
import RichText.Proofs.Markdown.Trails

/-!
# Reading without custom emoji

Where custom emoji are not recognised their markup is read like any other that means nothing, and
what is read is the message read with them, less the custom emoji (`Dialect.read_without_emoji`).

The two readings go side by side.  The gathering of the one `Sheds` the custom emoji of the other:
both have the same text, and the same entities but for custom emoji, started and finished.  In HTML
a custom emoji has a tag of its own, so that one reading starts an entity under a key which the
other leaves free.  In Markdown it starts as a link in both, and one of them abandons it where the
other lists it.  Every token and every step keeps the two together.
-/

namespace RichText

/-- Whether a kind is a custom emoji, whatever its document. -/
def Kind.isCustomEmoji : Kind → Bool
  | customEmoji _ => true
  | _ => false

namespace Gathering

variable {κ : Type} [DecidableEq κ]

/-! ## Gatherings side by side -/

/-- The gathering `bare` is `full` without its custom emoji, which are what has started under the
`hidden` keys and nothing else. -/
structure Sheds (hidden : κ → Bool) (full bare : Gathering κ) : Prop where
  text : bare.text = full.text
  units : bare.units = full.units
  draft : ∀ key, bare.draft? key = if hidden key then none else full.draft? key
  emoji : ∀ key draft, full.draft? key = some draft → draft.kind.isCustomEmoji = hidden key
  entities : bare.entities = full.entities.filter (!·.kind.isCustomEmoji)

variable {hidden : κ → Bool} {full bare : Gathering κ} {key : κ} {kind : Kind}

omit [DecidableEq κ] in
lemma units_append (same : bare.units = full.units) (piece : Text) :
    (bare.append piece).units = (full.append piece).units := by
  unfold append
  split
  · exact same
  · simp only [same]

namespace Sheds

lemma empty : Sheds hidden .empty .empty :=
  ⟨rfl, rfl, by simp, by simp, rfl⟩

/-- Under a key that is not hidden the same has started. -/
lemma draft?_eq (h : Sheds hidden full bare) (shown : hidden key = false) :
    bare.draft? key = full.draft? key := by
  rw [h.draft, shown]
  exact if_neg Bool.false_ne_true

lemma isOpen_eq (h : Sheds hidden full bare) (shown : hidden key = false) :
    bare.isOpen key = full.isOpen key := by
  rw [isOpen, isOpen, h.draft?_eq shown]

/-- What has started under a key that is not hidden covers the same text. -/
lemma covered?_eq (h : Sheds hidden full bare) (shown : hidden key = false) :
    bare.covered? key = full.covered? key := by
  have reversed : bare.reversed = full.reversed := List.reverse_inj.1 h.text
  rw [covered?, covered?, h.draft?_eq shown, reversed]

lemma append (h : Sheds hidden full bare) (piece : Text) :
    Sheds hidden (full.append piece) (bare.append piece) := by
  by_cases filled : piece = []
  · subst filled
    exact h
  refine ⟨by rw [text_append, text_append, h.text], units_append h.units piece, fun key => ?_,
    fun key draft isOpen => ?_, by rw [entities_append, entities_append, h.entities]⟩
  · rw [draft?_append key filled, draft?_append key filled, h.draft]
    split <;> rfl
  · obtain ⟨old, hold, -, kind⟩ := draft?_append_eq_some isOpen
    rw [kind]
    exact h.emoji key old hold

/-- What starts under a key is a custom emoji just if the key is hidden. -/
lemma emoji_start (h : Sheds hidden full bare) (fits : kind.isCustomEmoji = hidden key)
    {other : κ} {draft : OpenEntity} (isOpen : (full.start key kind).draft? other = some draft) :
    draft.kind.isCustomEmoji = hidden other := by
  rcases draft?_start_eq_some isOpen with ⟨rfl, rfl⟩ | old
  · exact fits
  · exact h.emoji other draft old

lemma start (h : Sheds hidden full bare) (shown : hidden key = false)
    (plain : kind.isCustomEmoji = false) :
    Sheds hidden (full.start key kind) (bare.start key kind) := by
  refine ⟨by rw [text_start, text_start, h.text], by rw [units_start, units_start, h.units],
    fun other => ?_, fun other draft => h.emoji_start (plain.trans shown.symm),
    by rw [entities_start, entities_start, h.entities]⟩
  rw [draft?_start, draft?_start, h.draft?_eq shown, h.units, h.draft]
  by_cases same : other = key
  · rw [same, shown]
    rfl
  · simp only [same, if_false]

/-- What starts in one of them alone is a custom emoji. -/
lemma start_hidden (h : Sheds hidden full bare) (hides : hidden key = true)
    (emoji : kind.isCustomEmoji = true) : Sheds hidden (full.start key kind) bare := by
  refine ⟨by rw [text_start, h.text], by rw [units_start, h.units], fun other => ?_,
    fun other draft => h.emoji_start (emoji.trans hides.symm),
    by rw [entities_start, h.entities]⟩
  rw [draft?_start, h.draft]
  by_cases same : other = key
  · rw [same, hides]
    rfl
  · simp only [same, if_false]

/-- A change that makes no custom emoji of another kind. -/
lemma revise (h : Sheds hidden full bare) (shown : hidden key = false)
    {change : OpenEntity → OpenEntity}
    (plain : ∀ draft, draft.kind.isCustomEmoji = false →
      (change draft).kind.isCustomEmoji = false) :
    Sheds hidden (full.revise key change) (bare.revise key change) := by
  refine ⟨h.text, h.units, fun other => ?_, fun other draft isOpen => ?_, h.entities⟩
  · rw [draft?_revise, draft?_revise, h.draft?_eq shown, h.draft]
    by_cases same : other = key
    · rw [same, shown]
      rfl
    · simp only [same, if_false]
  · obtain ⟨old, hold, ⟨rfl, rfl⟩ | rfl⟩ := draft?_revise_eq_some isOpen
    · rw [shown]
      exact plain old ((h.emoji other old hold).trans shown)
    · exact h.emoji other draft hold

lemma abandon (h : Sheds hidden full bare) (key : κ) :
    Sheds hidden (full.abandon key) (bare.abandon key) := by
  refine ⟨h.text, h.units, fun other => ?_, fun other draft isOpen => ?_, h.entities⟩
  · rw [draft?_abandon, draft?_abandon, h.draft]
    by_cases same : other = key <;> simp only [same, if_true, if_false, ite_self]
  · exact h.emoji other draft (draft?_abandon_eq_some isOpen).2

/-- What ends in both is listed in both, unless it is a custom emoji, which one of them has not
started. -/
lemma finish (h : Sheds hidden full bare) (key : κ) :
    Sheds hidden (full.finish key) (bare.finish key) := by
  refine ⟨by rw [text_finish, text_finish, h.text], by rw [units_finish, units_finish, h.units],
    fun other => ?_, fun other draft isOpen => ?_, ?_⟩
  · rw [draft?_finish, draft?_finish, h.draft]
    by_cases same : other = key <;> simp only [same, if_true, if_false, ite_self]
  · exact h.emoji other draft (draft?_finish_eq_some isOpen).2
  · rw [entities_finish, entities_finish, List.filter_append, h.entities, h.draft]
    congr 1
    cases isOpen : full.draft? key with
    | none => split <;> rfl
    | some draft =>
      have kind := h.emoji key draft isOpen
      cases hides : hidden key <;> simp [OpenEntity.close, kind, hides]

/-- What turns out to be a custom emoji as it ends is listed in one of them and abandoned in the
other. -/
lemma finish_emoji (h : Sheds hidden full bare) (key : κ)
    (emoji : kind.isCustomEmoji = true) :
    Sheds hidden ((full.revise key (·.setKind kind)).finish key) (bare.abandon key) := by
  refine ⟨by rw [text_finish]; exact h.text, by rw [units_finish]; exact h.units,
    fun other => ?_, fun other draft isOpen => ?_, ?_⟩
  · rw [draft?_abandon, draft?_finish, draft?_revise, h.draft]
    by_cases same : other = key <;> simp only [same, if_true, if_false, ite_self]
  · obtain ⟨differ, revised⟩ := draft?_finish_eq_some isOpen
    obtain ⟨old, hold, ⟨same, -⟩ | rfl⟩ := draft?_revise_eq_some revised
    · exact absurd same differ
    · exact h.emoji other draft hold
  · rw [entities_finish, draft?_revise, if_pos rfl, List.filter_append, entities_abandon,
      entities_revise, h.entities]
    cases isOpen : full.draft? key with
    | none => simp
    | some draft => simp [OpenEntity.close, OpenEntity.setKind, emoji]

end Sheds

end Gathering

/-! ## Reading HTML -/

namespace Html

open Gathering (Sheds)

/-- The readings of a source with and without custom emoji, which have a tag of their own. -/
structure Alongside (full bare : Reading) : Prop where
  gathered : Sheds (fun key => key == emojiTag) full.gathered bare.gathered
  openTags : bare.openTags = full.openTags

variable {full bare : Reading}

/-- Only the tag of custom emoji depends on whether they are recognised. -/
lemma meaning?_of_ne {name : Text} (other : name ≠ emojiTag) (settings : Settings)
    (attributes : List Attribute) :
    meaning? settings name attributes = meaning? {} name attributes := by
  simp only [meaning?, other, if_false]

/-- The other tags do not mean custom emoji. -/
lemma isCustomEmoji_of_meaning? {settings : Settings} {name : Text} {attributes : List Attribute}
    {kind : Kind} {substitute? : Option Text} (other : name ≠ emojiTag)
    (means : meaning? settings name attributes = some (kind, substitute?)) :
    kind.isCustomEmoji = false := by
  rcases meaning?_eq_some means with ⟨-, target, -, meant⟩ | ⟨emoji, -⟩ | listed
  · have same : (linkMeaning target).1 = kind := by rw [meant]
    rcases kind_linkMeaning target with mail | ⟨userId, user⟩ | url
    · rw [← same, mail]
      rfl
    · rw [← same, user]
      rfl
    · rw [← same, url]
      rfl
  · exact absurd emoji other
  · have table : ∀ entry ∈ formattingTags, entry.2.isCustomEmoji = false := by decide
    exact table (name, kind) listed

lemma meaning?_emojiTag (attributes : List Attribute) :
    meaning? .withoutCustomEmoji emojiTag attributes = none ∧
      ∀ meant, meaning? {} emojiTag attributes = some meant →
        meant.1.isCustomEmoji = true ∧ meant.2 = none := by
  have apart : emojiTag ≠ anchorTag := by decide
  refine ⟨by simp [meaning?, apart, Settings.withoutCustomEmoji], fun meant means => ?_⟩
  simp only [meaning?, apart, if_true, if_false, Option.bind_eq_bind, Option.bind_eq_some_iff,
    Option.some.injEq] at means
  obtain ⟨written, -, documentId, -, rfl⟩ := means
  exact ⟨rfl, rfl⟩

lemma Alongside.startTag (h : Alongside full bare) (name : Text) (attributes : List Attribute) :
    Alongside (full.startTag {} name attributes)
      (bare.startTag .withoutCustomEmoji name attributes) := by
  have shown : (preTag == emojiTag) = false := by decide
  have isOpen := h.gathered.isOpen_eq shown
  unfold Reading.startTag
  rw [isOpen, h.openTags]
  split
  · refine ⟨?_, rfl⟩
    cases namedLanguage? attributes with
    | none => exact h.gathered
    | some language =>
      refine h.gathered.revise shown fun draft plain => ?_
      unfold OpenEntity.setLanguage
      split
      · rfl
      · exact plain
  · by_cases same : name = emojiTag
    · obtain ⟨nothing, means⟩ := meaning?_emojiTag attributes
      rw [same, nothing]
      cases meant : meaning? {} emojiTag attributes with
      | none => exact ⟨h.gathered, rfl⟩
      | some meaning =>
        obtain ⟨kind, substitute?⟩ := meaning
        obtain ⟨emoji, rfl⟩ := means _ meant
        exact ⟨h.gathered.start_hidden (by decide) emoji, rfl⟩
    · rw [meaning?_of_ne same .withoutCustomEmoji]
      cases meant : meaning? {} name attributes with
      | none => exact ⟨h.gathered, rfl⟩
      | some meaning =>
        have plain := isCustomEmoji_of_meaning? same meant
        exact ⟨h.gathered.start (by simpa using same) plain, rfl⟩

lemma sheds_resolveLink {full bare : Gathering Text}
    (h : Sheds (fun key => key == emojiTag) full bare) :
    Sheds (fun key => key == emojiTag) (Reading.resolveLink full) (Reading.resolveLink bare) := by
  have shown : (anchorTag == emojiTag) = false := by decide
  unfold Reading.resolveLink
  rw [h.draft?_eq shown, h.covered?_eq shown]
  split
  · split
    · exact h.revise shown fun _ _ => rfl
    · exact h
  · exact h

lemma Alongside.endTag (h : Alongside full bare) (name : Text) :
    Alongside (full.endTag name) (bare.endTag name) := by
  unfold Reading.endTag
  rw [h.openTags]
  refine ⟨Sheds.finish ?_ name, rfl⟩
  split
  · exact sheds_resolveLink h.gathered
  · exact h.gathered

/-- **Every token keeps the two readings together.** -/
lemma Alongside.take (h : Alongside full bare) (token : Token) :
    Alongside (full.take {} token) (bare.take .withoutCustomEmoji token) := by
  cases token with
  | startTag name attributes selfClosing =>
    have opened := h.startTag name attributes
    unfold Reading.take
    simp only
    split
    · exact opened.endTag name
    · exact opened
  | endTag name => exact h.endTag name
  | text piece =>
    have same : bare.replaced piece = full.replaced piece := by
      rw [Reading.replaced, Reading.replaced, h.openTags]
    refine ⟨?_, h.openTags⟩
    rw [Reading.take, Reading.take, Reading.text, Reading.text, same]
    exact h.gathered.append _

lemma Alongside.foldl (h : Alongside full bare) (tokens : List Token) :
    Alongside (tokens.foldl (Reading.take {}) full)
      (tokens.foldl (Reading.take .withoutCustomEmoji) bare) := by
  induction tokens generalizing full bare with
  | nil => exact h
  | cons token tokens ih => exact ih (h.take token)

/-- The two readings of a whole source. -/
lemma alongside_ofSource (source : Text) :
    Alongside (Reading.ofSource {} source) (Reading.ofSource .withoutCustomEmoji source) :=
  Alongside.foldl ⟨.empty, rfl⟩ _

end Html

/-! ## Reading Markdown -/

namespace Markdown

open Gathering (Sheds)

/-- The readings of a source with and without custom emoji, which are links until they end. -/
structure Alongside (full bare : Reading) : Prop where
  position : bare.position = full.position
  rest : bare.rest = full.rest
  lineStart : bare.lineStart = full.lineStart
  gathered : Sheds (fun _ => false) full.gathered bare.gathered
  links : bare.links = full.links

variable {full bare read : Reading} {marks : LinkMarks}

namespace Alongside

lemma quoting (h : Alongside full bare) : bare.quoting = full.quoting := h.gathered.isOpen_eq rfl

lemma gather (h : Alongside full bare) (count : Nat)
    {change other : Gathering Delimiter → Gathering Delimiter}
    (gathered : Sheds (fun _ => false) (change full.gathered) (other bare.gathered)) :
    Alongside (full.gather count change) (bare.gather count other) := by
  refine ⟨?_, ?_, ?_, gathered, h.links⟩
  · show bare.position + count = full.position + count
    rw [h.position]
  · rw [Reading.rest_gather, Reading.rest_gather, h.rest]
  · simp only [Reading.gather, Reading.advance, h.lineStart, h.rest]

lemma appendChar (h : Alongside full bare) (count : Nat) (c : Char) :
    Alongside (full.gather count (·.appendChar c)) (bare.gather count (·.appendChar c)) :=
  h.gather count (h.gathered.append [c])

lemma code (h : Alongside full bare) (count : Nat) {key : Delimiter} {kind : Kind}
    (plain : kind.isCustomEmoji = false) (piece : Text) :
    Alongside
      (full.gather count fun gathered => ((gathered.start key kind).append piece).finish key)
      (bare.gather count fun gathered => ((gathered.start key kind).append piece).finish key) :=
  h.gather count (((h.gathered.start rfl plain).append piece).finish key)

/-- Backticks are read alike. -/
lemma ticks (h : Alongside full bare) (c : Char) (next : Text) :
    Alongside
      (if fence.isPrefixOf (c :: next) then
        full.codeBlock?.getD (full.gather fence.length (·.append fence))
      else full.codeSpan?.getD (full.gather 1 (·.appendChar c)))
      (if fence.isPrefixOf (c :: next) then
        bare.codeBlock?.getD (bare.gather fence.length (·.append fence))
      else bare.codeSpan?.getD (bare.gather 1 (·.appendChar c))) := by
  split
  · rw [Reading.codeBlock?, Reading.codeBlock?, h.rest, h.quoting]
    cases readCode? fence.length full.quoting (full.rest.drop fence.length) with
    | none => exact h.gather _ (h.gathered.append fence)
    | some found => exact h.code _ rfl _
  · rw [Reading.codeSpan?, Reading.codeSpan?, h.rest, h.quoting]
    cases readCode? 1 full.quoting (full.rest.drop 1) with
    | none => exact h.appendChar 1 c
    | some found => exact h.code _ rfl _

lemma linkHere?_eq (h : Alongside full bare) : bare.linkHere? marks = full.linkHere? marks := by
  rw [Reading.linkHere?, Reading.linkHere?, h.position, h.rest, h.links]

lemma enterLink (h : Alongside full bare) (link : LinkText) :
    Alongside (full.enterLink link) (bare.enterLink link) := by
  let key := Delimiter.link full.links.length
  have started : Sheds (fun _ => false) (full.gathered.start key (.textUrl []))
      (bare.gathered.start key (.textUrl [])) := h.gathered.start rfl rfl
  have opened := h.gather 1 started
  refine ⟨?_, ?_, ?_, ?_, ?_⟩
  all_goals
    unfold Reading.enterLink
    rw [h.links]
  · exact opened.position
  · exact opened.rest
  · exact opened.lineStart
  · exact opened.gathered

lemma switch (h : Alongside full bare) {c : Char} {delimiter : Delimiter} {kind : Kind}
    (doubled : doubled? c = some (delimiter, kind)) :
    Alongside (full.gather 2 (Reading.switch delimiter kind))
      (bare.gather 2 (Reading.switch delimiter kind)) := by
  refine h.gather 2 ?_
  have plain : kind.isCustomEmoji = false := by
    unfold doubled? at doubled
    repeat' split at doubled
    all_goals cases doubled
    all_goals rfl
  rw [Reading.switch, Reading.switch, h.gathered.isOpen_eq rfl]
  split
  · exact h.gathered.finish delimiter
  · exact h.gathered.start rfl plain

/-- **Both read on in the same way.** -/
lemma readFrom (h : Alongside full bare) (c : Char) (next : Text) :
    Alongside (full.readFrom marks c next) (bare.readFrom marks c next) := by
  have literal := h.appendChar 1 c
  -- one case for each rule, in the order in which the reader tries them
  unfold Reading.readFrom
  simp only [h.lineStart, h.quoting, h.linkHere?_eq]
  split
  · exact h.gather _ (h.gathered.start rfl rfl)
  split
  · split
    · exact h.appendChar 2 _
    · exact literal
  split
  · split
    · exact h.appendChar _ c
    · exact h.gather 1 ((h.gathered.finish .blockquote).append [c])
  split
  · exact h.ticks c next
  split
  · exact h.gather _ (h.gathered.finish .blockquote)
  split
  · split
    · exact h.enterLink _
    · exact literal
  split
  · rename_i delimiter kind doubled
    split
    · exact h.switch doubled
    · exact literal
  · exact literal

end Alongside

/-- A link that is a custom emoji is none where these are not recognised. -/
lemma linkKind?_without_emoji (target text : Text) :
    linkKind? .withoutCustomEmoji target text =
      (linkKind? {} target text).filter fun kind => !kind.isCustomEmoji := by
  unfold linkKind?
  simp only [Settings.withoutCustomEmoji, Bool.false_eq_true, if_true, if_false]
  split
  · rfl
  split
  · rfl
  split
  · rfl
  split <;> rfl

namespace Alongside

/-- A link ends in both with the same kind, or as a custom emoji in one of them alone. -/
lemma leaveLink (h : Alongside full bare) (link : LinkText) (outer : List LinkText) :
    Alongside (full.leaveLink {} link outer) (bare.leaveLink .withoutCustomEmoji link outer) := by
  let key := Delimiter.link outer.length
  let count := link.stop - full.position
  have covered : bare.gathered.covered? key = full.gathered.covered? key :=
    h.gathered.covered?_eq rfl
  unfold Reading.leaveLink
  simp only [key, covered, h.position, linkKind?_without_emoji]
  cases linkKind? {} link.target ((full.gathered.covered? key).getD []) with
  | none =>
    have ended := h.gather count (h.gathered.abandon key)
    exact ⟨ended.position, ended.rest, ended.lineStart, ended.gathered, rfl⟩
  | some kind =>
    cases emoji : kind.isCustomEmoji with
    | true =>
      have ended : Alongside
          (full.gather count fun gathered => (gathered.revise key (·.setKind kind)).finish key)
          (bare.gather count (·.abandon key)) :=
        h.gather count (h.gathered.finish_emoji key emoji)
      simp only [Option.filter, emoji, Bool.not_true, Bool.false_eq_true, if_false]
      exact ⟨ended.position, ended.rest, ended.lineStart, ended.gathered, rfl⟩
    | false =>
      have ended : Alongside
          (full.gather count fun gathered => (gathered.revise key (·.setKind kind)).finish key)
          (bare.gather count fun gathered => (gathered.revise key (·.setKind kind)).finish key) :=
        h.gather count ((h.gathered.revise rfl fun _ _ => emoji).finish key)
      simp only [Option.filter, emoji, Bool.not_false, if_true]
      exact ⟨ended.position, ended.rest, ended.lineStart, ended.gathered, rfl⟩

/-- **Every step keeps the two readings together.** -/
lemma step (h : Alongside full bare) :
    Alongside (full.step {} marks) (bare.step .withoutCustomEmoji marks) := by
  have on : Alongside (full.readOn marks) (bare.readOn marks) := by
    unfold Reading.readOn
    rw [h.rest]
    split
    · exact h
    · exact h.readFrom _ _
  unfold Reading.step
  rw [h.links, h.position]
  split
  · exact on
  · split
    · exact h.leaveLink _ _
    · exact on

lemma run (h : Alongside full bare) :
    Alongside (full.run {} marks) (bare.run .withoutCustomEmoji marks) := by
  fun_induction Reading.run {} marks full generalizing bare with
  | case1 full ended =>
    rw [Reading.run, dif_pos (h.rest.trans ended)]
    exact h
  | case2 full more ih =>
    have goesOn : bare.rest ≠ [] := by
      rw [h.rest]
      exact more
    rw [Reading.run_step goesOn]
    exact ih h.step

lemma leaveLinks (h : Alongside full bare) (links : List LinkText) :
    Alongside (Reading.leaveLinks {} links full)
      (Reading.leaveLinks .withoutCustomEmoji links bare) := by
  induction links generalizing full bare with
  | nil => exact h
  | cons link outer ih => exact ih (h.leaveLink link outer)

end Alongside

/-- What is gathered from a whole source with and without custom emoji. -/
lemma sheds_ofSource (source : Text) :
    Sheds (fun _ => false) (Reading.ofSource {} source).gathered
      (Reading.ofSource .withoutCustomEmoji source).gathered := by
  have start : Alongside (.start source) (.start source) := ⟨rfl, rfl, rfl, .empty, rfl⟩
  have run : Alongside ((Reading.start source).run {} (.ofSource source))
    ((Reading.start source).run .withoutCustomEmoji (.ofSource source)) := start.run
  rw [Reading.ofSource, Reading.ofSource, run.links]
  exact (run.leaveLinks _).gathered.finish .blockquote

end Markdown

/-! ## Messages -/

/-- The message without its custom emoji. -/
def Message.withoutCustomEmoji (message : Message) : Message :=
  { message with entities := message.entities.filter (!·.kind.isCustomEmoji) }

/-- Custom emoji may be taken away before trimming or after it. -/
lemma Message.trim_withoutCustomEmoji (message : Message) :
    message.withoutCustomEmoji.trim = message.trim.withoutCustomEmoji := by
  simp only [Message.trim, Message.withoutCustomEmoji, Message.mk.injEq, true_and]
  induction message.entities with
  | nil => rfl
  | cons entity rest ih =>
    cases left : entity.clip? (Utf16.length message.text.indent)
        (Utf16.length message.text.trim) with
    | none =>
      rw [List.filterMap_cons_none left, ← ih, List.filter_cons]
      split
      · exact List.filterMap_cons_none left
      · rfl
    | some clipped =>
      rw [List.filterMap_cons_some left, List.filter_cons, List.filter_cons,
        Entity.kind_of_clip? left, ← ih]
      split
      · exact List.filterMap_cons_some left
      · rfl

lemma Gathering.Sheds.trim {κ : Type} [DecidableEq κ] {hidden : κ → Bool}
    {full bare : Gathering κ} (h : Sheds hidden full bare) :
    Message.trim ⟨bare.text, bare.entities⟩ =
      (Message.trim ⟨full.text, full.entities⟩).withoutCustomEmoji := by
  rw [← Message.trim_withoutCustomEmoji, h.text, h.entities]
  rfl

/-- **Custom emoji that are not recognised are missing, and nothing else is changed**: the text is
the same, and so are the other entities, in the same order. -/
theorem Dialect.read_without_emoji (dialect : Dialect) (markup : Text) :
    dialect.read .withoutCustomEmoji markup =
      (dialect.read {} markup).withoutCustomEmoji := by
  cases dialect with
  | html => exact (Html.alongside_ofSource markup).gathered.trim
  | markdown => exact (Markdown.sheds_ofSource markup).trim

end RichText
