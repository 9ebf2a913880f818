import RichText.Command.Outcome
import RichText.Proofs.Documents
import RichText.Proofs.WellFormed

/-!
# Reading and writing by way of a document

The command reads markup into a document and writes a document as markup.  Nothing is lost between
the two: a document describes the message it was written from, and so the second run of the command
prints what the message that the first one read is written as (`written_as_read`).

This is so for any interface that is `Lawful`: its documents describe the messages they were printed
from, and every job can be asked for.  The interface that the program runs with is
(`Interface.lawful_standard`).

A document holds any message whose numbers are in range, and whatever the markup, those of a message
that was read are: positions are held within their range while text is gathered (`Ranged`), and only
an identifier that is in range is taken as one.
-/

namespace RichText

/-! ## Numbers that are read -/

lemma Numeral.inRange_of_signed? {least greatest n : Int} {text : Text}
    (read : signed? least greatest text = some n) : least ≤ n ∧ n ≤ greatest := by
  unfold signed? at read
  exact of_decide_eq_true (Option.filter_eq_some_iff.1 read).2

lemma inRange_of_mentionedUser? {target : Text} {userId : Int}
    (mentioned : mentionedUser? target = some userId) : Identifier.InRange userId := by
  obtain ⟨written, -, read⟩ := Option.bind_eq_some_iff.1 mentioned
  exact Numeral.inRange_of_signed? read

lemma Html.fits_linkMeaning (target : Text) : (linkMeaning target).1.Fits := by
  unfold linkMeaning
  split
  · trivial
  · split
    · rename_i userId mentioned
      exact inRange_of_mentionedUser? mentioned
    · trivial

lemma Html.fits_of_meaning? {settings : Settings} {name : Text} {attributes : List Attribute}
    {kind : Kind} {substitute? : Option Text}
    (meant : meaning? settings name attributes = some (kind, substitute?)) : kind.Fits := by
  rcases meaning?_eq_some meant with ⟨-, target, -, found⟩ | ⟨-, _, documentId, rfl, number⟩ | listed
  · have fits := fits_linkMeaning target
    rwa [found] at fits
  · exact Numeral.inRange_of_signed? number
  · have table : ∀ entry ∈ formattingTags, entry.2.Fits := by decide
    exact table (name, kind) listed

lemma Markdown.fits_of_linkKind? {settings : Settings} {target raw : Text} {kind : Kind}
    (found : linkKind? settings target raw = some kind) : kind.Fits := by
  unfold linkKind? at found
  split at found
  · cases found
    trivial
  split at found
  · cases found
    trivial
  split at found
  · rename_i userId mentioned
    cases found
    exact inRange_of_mentionedUser? mentioned
  · simp only at found
    split at found
    · rename_i documentId read
      split at found
      · cases found
        obtain ⟨written, -, number⟩ := Option.bind_eq_some_iff.1 read
        exact Numeral.inRange_of_signed? number
      · cases found
    · cases found
      trivial

/-! ## Numbers while text is gathered -/

namespace Gathering

variable {κ : Type} [DecidableEq κ] {gathering : Gathering κ} {key : κ} {kind : Kind}

/-- All numbers gathered are in range. -/
structure Ranged (gathering : Gathering κ) : Prop where
  units : Position.InRange gathering.units
  started : ∀ key draft, gathering.draft? key = some draft → draft.close.Fits
  listed : ∀ entity ∈ gathering.entities, entity.Fits

lemma inRange_zero : Position.InRange 0 := by decide

lemma ranged_empty : (empty : Gathering κ).Ranged :=
  ⟨inRange_zero, by simp, by simp [empty]⟩

lemma Ranged.append (h : gathering.Ranged) (piece : Text) : (gathering.append piece).Ranged := by
  by_cases filled : piece = []
  · subst filled
    exact h
  · have some : piece.isEmpty = false := by simpa using filled
    refine ⟨?_, fun other draft found => ?_, ?_⟩
    · simp only [Gathering.append, some, Bool.false_eq_true, if_false]
      exact Position.inRange_clamp _
    · rw [draft?_append other filled] at found
      obtain ⟨old, hold, rfl⟩ := Option.map_eq_some_iff.1 found
      obtain ⟨offset, -, kindFits⟩ := h.started other old hold
      exact ⟨offset, Position.inRange_clamp _, kindFits⟩
    · rw [entities_append]
      exact h.listed

lemma Ranged.start (h : gathering.Ranged) (fits : kind.Fits) (key : κ) :
    (gathering.start key kind).Ranged := by
  refine ⟨?_, fun other draft found => ?_, ?_⟩
  · rw [units_start]
    exact h.units
  · rcases draft?_start_eq_some found with ⟨-, rfl⟩ | old
    · exact ⟨h.units, inRange_zero, fits⟩
    · exact h.started other draft old
  · rw [entities_start]
    exact h.listed

lemma Ranged.revise (h : gathering.Ranged) {change : OpenEntity → OpenEntity}
    (keeps : ∀ draft : OpenEntity, draft.close.Fits → (change draft).close.Fits) (key : κ) :
    (gathering.revise key change).Ranged := by
  refine ⟨h.units, fun other draft found => ?_, h.listed⟩
  obtain ⟨old, hold, ⟨-, rfl⟩ | rfl⟩ := draft?_revise_eq_some found
  · exact keeps old (h.started other old hold)
  · exact h.started other draft hold

lemma Ranged.setKind (h : gathering.Ranged) (fits : kind.Fits) (key : κ) :
    (gathering.revise key (·.setKind kind)).Ranged := by
  refine h.revise (fun draft old => ?_) key
  exact ⟨old.1, old.2.1, fits⟩

lemma Ranged.setLanguage (h : gathering.Ranged) (language : Text) (key : κ) :
    (gathering.revise key (·.setLanguage language)).Ranged := by
  refine h.revise (fun draft old => ?_) key
  unfold OpenEntity.setLanguage
  split
  · exact ⟨old.1, old.2.1, trivial⟩
  · exact old

lemma Ranged.abandon (h : gathering.Ranged) (key : κ) : (gathering.abandon key).Ranged :=
  ⟨h.units, fun other draft found => h.started other draft (draft?_abandon_eq_some found).2,
    h.listed⟩

lemma Ranged.finish (h : gathering.Ranged) (key : κ) : (gathering.finish key).Ranged := by
  refine ⟨?_, fun other draft found => h.started other draft (draft?_finish_eq_some found).2, ?_⟩
  · rw [units_finish]
    exact h.units
  · intro entity member
    rw [entities_finish] at member
    rcases List.mem_append.1 member with old | new
    · exact h.listed entity old
    · obtain ⟨draft, isOpen, rfl⟩ := Option.map_eq_some_iff.1 (Option.mem_toList.1 new)
      exact h.started key draft isOpen

end Gathering

lemma Html.ranged_ofSource (settings : Settings) (source : Text) :
    (Reading.ofSource settings source).gathered.Ranged := by
  have keeps : Keeps settings Gathering.Ranged :=
    { append := fun h piece => h.append piece
      start := fun h _ _ _ _ meant => h.start (fits_of_meaning? meant) _
      language := fun h language => h.setLanguage language _
      url := fun h => h.setKind (show Kind.url.Fits from trivial) _
      finish := fun h name => h.finish name }
  exact keeps.ofSource Gathering.ranged_empty source

lemma Markdown.ranged_ofSource (settings : Settings) (source : Text) :
    (Reading.ofSource settings source).gathered.Ranged := by
  -- what carries no identifier is in range
  have plain {kind : Kind} (formatting : kind.isFormatting = true) : kind.Fits := by
    cases kind <;> trivial
  have verbatim {kind : Kind} (code : kind.isCode = true) : kind.Fits := by
    cases kind <;> trivial
  have keeps : Keeps settings fun _ gathering => gathering.Ranged :=
    { append := fun h piece => h.append piece
      start := fun h _ formatting _ => h.start (plain formatting) _
      finish := fun h _ _ _ => h.finish _
      code := fun h _ code _ piece => ((h.start (verbatim code) _).append piece).finish _
      enter := fun h => h.start (show (Kind.textUrl []).Fits from trivial) _
      leave := fun h _ _ found => (h.setKind (fits_of_linkKind? found) _).finish _
      drop := fun h => h.abandon _ }
  exact keeps.ofSource Gathering.ranged_empty source

/-! ## Messages that are read -/

/-- What trimming leaves of an entity in range is in range. -/
lemma Entity.fits_of_clip? {skipped kept : Int} {entity clipped : Entity} (fits : entity.Fits)
    (start : 0 ≤ skipped) (stop : kept ≤ Position.greatest)
    (left : entity.clip? skipped kept = some clipped) : clipped.Fits := by
  obtain ⟨offset, length, kind⟩ := fits
  have reach : entity.stop ≤ Position.greatest := (Position.inRange_clamp _).2
  simp only [Position.InRange, Position.least, Position.greatest] at offset length stop reach
  unfold clip? at left
  split at left
  · cases left
  split at left
  · cases left
  simp only at left
  split at left
  all_goals
    split at left
    · cases left
      refine ⟨?_, ?_, kind⟩ <;>
        (simp only [Position.InRange, Position.least, Position.greatest]; omega)
    split at left
    · cases left
    · rename_i inside
      cases left
      simp only [not_le] at inside
      refine ⟨?_, ?_, kind⟩ <;>
        (simp only [Position.InRange, Position.least, Position.greatest]; omega)

lemma Gathering.Ranged.trim {κ : Type} [DecidableEq κ] {gathering : Gathering κ}
    (h : gathering.Ranged) :
    ∀ entity ∈ (Message.trim ⟨gathering.text, gathering.entities⟩).entities, entity.Fits := by
  intro entity member
  obtain ⟨old, listed, clipped⟩ := List.mem_filterMap.1 member
  refine Entity.fits_of_clip? (h.listed old listed) ?_ (Position.inRange_clamp _).2 clipped
  simp only [Utf16.length, Position.clamp, Position.least, Position.greatest]
  omega

/-- **All numbers that are read are in range**, whatever the markup. -/
lemma Dialect.fits_read (dialect : Dialect) (settings : Settings) (markup : Text) :
    ∀ entity ∈ (dialect.read settings markup).entities, entity.Fits := by
  cases dialect with
  | html => exact (Html.ranged_ofSource settings markup).trim
  | markdown => exact (Markdown.ranged_ofSource settings markup).trim

/-! ## Runs of the command -/

namespace Command

/-- Gives a text as the contents of whatever is asked for. -/
def supply (input : Text) (_ : Option Text) : Id (Except InputError ByteArray) :=
  .ok (String.ofList input).toUTF8

lemma textOf_utf8 (input : Text) : textOf (.ok (String.ofList input).toUTF8) = .ok input := by
  have decoded : String.fromUTF8? (String.ofList input).toUTF8 = some (String.ofList input) := by
    rw [String.fromUTF8?, String.toUTF8_eq_toByteArray, dif_pos (String.isValidUTF8 _)]
    rfl
  simp only [textOf, bind, Except.bind, decoded, String.toList_ofList]

namespace Interface

variable {interface : Interface}

/-- What the command relies on.  The document of a message whose numbers are in range describes it,
on its own and with the line break that is printed behind it, and for every job on the standard
input there are words that ask for it. -/
structure Lawful (interface : Interface) : Prop where
  describes : ∀ message : Message, (∀ entity ∈ message.entities, entity.Fits) →
    ∀ behind ∈ [[], ['\n']], interface.message? (interface.document message ++ behind) = some message
  asked : ∀ (action : Action) (dialect : Dialect) (settings : Settings), ∃ words,
    interface.request none words = .ok (.job ⟨action, dialect, settings, none⟩)

lemma run_of_perform {surrounding? : Option Text} {words : List Text} {job : Job}
    {input output : Text} (request : interface.request surrounding? words = .ok (.job job))
    (performed : job.perform interface input = .ok output) :
    interface.run surrounding? words (supply input) = Outcome.printed (output ++ ['\n']) := by
  have outcome : job.outcome interface (.ok (String.ofList input).toUTF8) =
      .printed (output ++ ['\n']) := by
    simp only [Job.outcome, textOf_utf8, performed]
  rw [← outcome]
  simp only [run, request]
  rfl

/-- **What one run reads another writes**, if the interface is lawful. -/
lemma Lawful.printed (lawful : interface.Lawful) {surrounding? later? : Option Text}
    {reading writing : List Text} {reader writer : Job}
    (first : interface.request surrounding? reading = .ok (.job reader))
    (reads : reader.action = .read)
    (second : interface.request later? writing = .ok (.job writer))
    (writes : writer.action = .write) (markup : Text) :
    ∃ document : Text,
      interface.run surrounding? reading (supply markup) = Outcome.printed document ∧
      interface.run later? writing (supply document) =
        Outcome.printed (writer.dialect.write writer.settings
          (reader.dialect.read reader.settings markup) ++ ['\n']) := by
  have described := lawful.describes (reader.dialect.read reader.settings markup)
    (reader.dialect.fits_read reader.settings markup) ['\n'] (by simp)
  have reading : reader.perform interface markup =
      .ok (interface.document (reader.dialect.read reader.settings markup)) := by
    rw [Job.perform, reads]
  have writing : writer.perform interface
      (interface.document (reader.dialect.read reader.settings markup) ++ ['\n']) =
        .ok (writer.dialect.write writer.settings
          (reader.dialect.read reader.settings markup)) := by
    simp only [Job.perform, writes, described]
  exact ⟨_, run_of_perform first reading, run_of_perform second writing⟩

end Interface

/-- Every job on the standard input can be asked for. -/
lemma exists_words (action : Action) (dialect : Dialect) (settings : Settings) :
    ∃ words, Request.ofWords none words = .ok (.job ⟨action, dialect, settings, none⟩) := by
  obtain ⟨customEmoji⟩ := settings
  have plain : ∃ words,
      Request.ofWords none words = .ok (.job ⟨action, dialect, ⟨true⟩, none⟩) :=
    ⟨["--syntax".toList, dialect.name, action.name], by cases action <;> cases dialect <;> rfl⟩
  have without : ∃ words,
      Request.ofWords none words = .ok (.job ⟨action, dialect, ⟨false⟩, none⟩) :=
    ⟨["--syntax".toList, dialect.name, "--no-custom-emoji".toList, action.name], by
      cases action <;> cases dialect <;> rfl⟩
  cases customEmoji with
  | true => exact plain
  | false => exact without

/-- The interface that the program runs with is lawful. -/
lemma Interface.lawful_standard : standard.Lawful where
  describes message fits behind member :=
    Message.ofDocument?_toDocument fits fun c blank => by
      simp only [List.mem_cons, List.not_mem_nil, or_false] at member
      rcases member with rfl | rfl
      · cases blank
      · rw [List.mem_singleton.1 blank]
        decide
  asked := exists_words

/-- **A document loses nothing.**  A message whose numbers are in range is described by its document,
and of two runs of the command, one that reads markup into a document and one that is given what
the first printed, the second prints the markup of the message that the first has read.  There are
such runs for any two dialects and any settings. -/
theorem written_as_read :
    (∀ message : Message, (∀ entity ∈ message.entities, entity.Fits) →
      Message.ofDocument? message.toDocument = some message) ∧
    (∀ (surrounding? later? : Option Text) (reading writing : List Text) (reader writer : Job),
      Request.ofWords surrounding? reading = .ok (.job reader) → reader.action = .read →
      Request.ofWords later? writing = .ok (.job writer) → writer.action = .write →
      ∀ markup : Text, ∃ document : Text,
        run surrounding? reading (supply markup) = Outcome.printed document ∧
        run later? writing (supply document) =
          Outcome.printed (writer.dialect.write writer.settings
            (reader.dialect.read reader.settings markup) ++ ['\n'])) ∧
    ∀ (action : Action) (dialect : Dialect) (settings : Settings), ∃ words,
      Request.ofWords none words = .ok (.job ⟨action, dialect, settings, none⟩) := by
  have lawful := Interface.lawful_standard
  refine ⟨fun message fits => ?_, ?_, lawful.asked⟩
  · have described := lawful.describes message fits [] (by simp)
    rwa [List.append_nil] at described
  · intro surrounding? later? reading writing reader writer first reads second writes markup
    exact lawful.printed first reads second writes markup

/-- A message with numbers at the ends of their ranges and a text that needs escapes, and Markdown
that is written as HTML. -/
theorem written_as_read_at_ends :
    ((∀ entity ∈ ([⟨-2147483648, 2147483647, .pre "\n".toList⟩,
        ⟨3, 0, .mentionName (-9223372036854775808)⟩] : List Entity), entity.Fits) ∧
      Request.ofWords none ["--markdown".toList, "parse".toList] =
        .ok (.job ⟨.read, .markdown, {}, none⟩) ∧
      Request.ofWords none ["--html".toList, "unparse".toList] =
        .ok (.job ⟨.write, .html, {}, none⟩)) ∧
    Message.ofDocument? (Message.toDocument ⟨"\x22\x01😀".toList,
        [⟨-2147483648, 2147483647, .pre "\n".toList⟩,
          ⟨3, 0, .mentionName (-9223372036854775808)⟩]⟩) =
      some ⟨"\x22\x01😀".toList, [⟨-2147483648, 2147483647, .pre "\n".toList⟩,
        ⟨3, 0, .mentionName (-9223372036854775808)⟩]⟩ ∧
    ∃ document : Text,
      run none ["--markdown".toList, "parse".toList] (supply "\\*a<b".toList) =
        Outcome.printed document ∧
      run none ["--html".toList, "unparse".toList] (supply document) =
        Outcome.printed ("*a&lt;b".toList ++ ['\n']) := by
  have fits : ∀ entity ∈ ([⟨-2147483648, 2147483647, .pre "\n".toList⟩,
      ⟨3, 0, .mentionName (-9223372036854775808)⟩] : List Entity), entity.Fits := by
    intro entity member
    simp only [List.mem_cons, List.not_mem_nil, or_false] at member
    rcases member with rfl | rfl <;> exact ⟨by decide, by decide, by decide⟩
  have first : Request.ofWords none ["--markdown".toList, "parse".toList] =
      .ok (.job ⟨.read, .markdown, {}, none⟩) := rfl
  have second : Request.ofWords none ["--html".toList, "unparse".toList] =
      .ok (.job ⟨.write, .html, {}, none⟩) := rfl
  have written : Dialect.write .html {} (Dialect.read .markdown {} "\\*a<b".toList) =
      "*a&lt;b".toList := by
    have message : Dialect.read .markdown {} "\\*a<b".toList = ⟨"*a<b".toList, []⟩ := by decide +kernel
    rw [message]
    decide +kernel
  obtain ⟨document, read, printed⟩ := written_as_read.2.1 none none _ _ _ _ first rfl second rfl
    "\\*a<b".toList
  simp only [written] at printed
  exact ⟨⟨fits, first, second⟩, written_as_read.1 ⟨_, _⟩ fits, document, read, printed⟩

end Command

end RichText
