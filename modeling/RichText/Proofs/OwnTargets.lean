import RichText.Proofs.Coverage
import RichText.Proofs.Html.LinkTargets
import RichText.Proofs.Markdown.Structure

/-!
# Links to their own text

A link whose text is its target is an address, and both readers make it one when it ends: of what
they gather, no link leads to the text that it covers (`Gathering.Resolved`).

The blank ends of the message are trimmed off afterwards, and with them blank characters that a link
starts or ends with.  What they leave of its text may be its target, and then the message has a link
to its own text after all.  It comes about in this way and in no other
(`Dialect.read_own_target_iff`): the link covered its target with blank characters around it, and just
these were trimmed off (`Message.Cuts`).
-/

namespace RichText

/-! ## What entities cover -/

namespace Entity

variable {entity : Entity} {text : Text}

lemma covered_of_parts {front middle back : Text} (offset : entity.offset = Utf16.unitCount front)
    (length : entity.length = Utf16.unitCount middle) :
    entity.covered (Utf16.encode (front ++ middle ++ back)) = middle := by
  have slice := Utf16.slice_middle front back (Nat.zero_le _)
    (Nat.le_refl (Utf16.unitCount middle))
  rw [← Utf16.length_encode middle, Utf16.slice_all, Utf16.length_encode] at slice
  rw [covered, offset, length]
  exact slice

lemma OnCharacters.covered_append (h : entity.OnCharacters text) (more : Text) :
    entity.covered (Utf16.encode (text ++ more)) = entity.covered (Utf16.encode text) := by
  obtain ⟨front, middle, back, rfl, offset, length⟩ := h
  rw [List.append_assoc (front ++ middle), covered_of_parts offset length,
    covered_of_parts offset length]

end Entity

/-! ## Links that end -/

namespace Gathering

variable {κ : Type} [DecidableEq κ] {gathering : Gathering κ} {key : κ}

/-- No link that has ended leads to the text that it covers. -/
def Resolved (gathering : Gathering κ) : Prop :=
  ∀ entity ∈ gathering.entities,
    entity.kind ≠ .textUrl (entity.covered (Utf16.encode gathering.text))

lemma Resolved.append (h : gathering.Resolved) (listed : gathering.Listed) (piece : Text) :
    (gathering.append piece).Resolved := by
  intro entity member
  rw [entities_append] at member
  rw [text_append, (listed.onCharacters entity member).covered_append]
  exact h entity member

lemma Resolved.start (h : gathering.Resolved) (key : κ) (kind : Kind) :
    (gathering.start key kind).Resolved := by
  intro entity member
  rw [entities_start] at member
  rw [text_start]
  exact h entity member

/-- What ends must not lead to what was gathered since it started. -/
lemma Resolved.finish (h : gathering.Resolved) (sound : gathering.Sound)
    (ended : ∀ draft front since, gathering.draft? key = some draft →
      gathering.text = front ++ since → draft.length = Utf16.unitCount since →
      draft.kind ≠ .textUrl since) :
    (gathering.finish key).Resolved := by
  cases isOpen : gathering.draft? key with
  | none =>
    rw [finish_of_free isOpen]
    exact h
  | some draft =>
    obtain ⟨front, since, whole, offset, length⟩ := sound.draft key draft isOpen
    intro entity member
    rw [entities_finish_of_open isOpen] at member
    rw [text_finish]
    rcases List.mem_append.1 member with old | new
    · exact h entity old
    · obtain rfl := List.mem_singleton.1 new
      have covers := @Entity.covered_of_parts draft.close front since [] offset length
      rw [List.append_nil, ← whole] at covers
      rw [covers]
      exact ended draft front since isOpen whole length

end Gathering

/-! ## Reading HTML -/

namespace Html

variable {settings : Settings} {source : Text} {gathered : Gathering Text}

/-- A link that is resolved and ends does not lead to its own text. -/
lemma resolved_finish_resolveLink (h : gathered.Resolved) (sound : gathered.Sound) :
    ((Reading.resolveLink gathered).finish anchorTag).Resolved := by
  cases isOpen : gathered.draft? anchorTag with
  | none =>
    have same : Reading.resolveLink gathered = gathered := by
      rw [Reading.resolveLink, isOpen]
    rw [same, Gathering.finish_of_free isOpen]
    exact h
  | some old =>
    obtain ⟨front, since, whole, -, length⟩ := sound.draft anchorTag old isOpen
    have covers := Gathering.covered?_eq isOpen whole length
    rw [Reading.resolveLink_of_open isOpen covers]
    split
    · have revised : (gathered.revise anchorTag (·.setKind .url)).Sound :=
        sound.revise anchorTag (fun _ => rfl) fun _ => rfl
      refine Gathering.Resolved.finish h revised fun draft _ _ found _ _ => ?_
      rw [Gathering.draft?_revise, if_pos rfl, isOpen, Option.map_some, Option.some.injEq] at found
      rw [← found]
      rintro ⟨⟩
    · rename_i other
      refine h.finish sound fun draft before piece found parts size => ?_
      obtain rfl : old = draft := Option.some.inj (isOpen.symm.trans found)
      obtain rfl : since = piece :=
        Option.some.inj (covers.symm.trans (Gathering.covered?_eq found parts size))
      exact other

/-- After any number of steps no link leads to its own text. -/
lemma resolved_take (short : Gathering.Short (Reading.ofSource settings source).gathered.text)
    (count : Nat) :
    (Reading.ofTokens settings ((steps source).take count)).gathered.Resolved := by
  induction count with
  | zero => exact fun entity member => absurd member List.not_mem_nil
  | succ count ih =>
    cases step : (steps source)[count]? with
    | none =>
      have past : (steps source).length ≤ count := List.getElem?_eq_none_iff.1 step
      rwa [List.take_of_length_le (Nat.le_succ_of_le past), ← List.take_of_length_le past]
    | some token =>
      have listed : (Reading.ofTokens settings
          ((steps source).take count)).gathered.Listed :=
        ((keeps_built settings).foldl .empty _).listed (Reading.short_ofTokens short count)
      rw [Reading.ofTokens_take_succ settings step]
      cases token with
      | startTag name attributes selfClosing =>
        cases selfClosing with
        | true => exact absurd (List.mem_of_getElem? step) not_selfClosing_of_mem_steps
        | false =>
          rw [Reading.take]
          rcases Reading.gathered_startTag settings name attributes
              (Reading.ofTokens settings ((steps source).take count)) with
            ⟨language, revised⟩ | ⟨kind, _, -, started⟩ | same
          · simp only [Bool.false_eq_true, if_false, revised]
            exact ih
          · simp only [Bool.false_eq_true, if_false, started]
            exact ih.start name kind
          · simp only [Bool.false_eq_true, if_false, same]
            exact ih
      | text piece => exact ih.append listed _
      | endTag name =>
        rw [Reading.take, Reading.endTag]
        by_cases anchor : name = anchorTag
        · simp only [anchor, if_true]
          exact resolved_finish_resolveLink ih listed.sound
        · simp only [anchor, if_false]
          exact ih.finish listed.sound fun draft _ since isOpen _ _ =>
            (kind_of_draft isOpen anchor).2 since

lemma resolved_ofSource
    (short : Gathering.Short (Reading.ofSource settings source).gathered.text) :
    (Reading.ofSource settings source).gathered.Resolved := by
  have all := resolved_take short (steps source).length
  rwa [List.take_length, Reading.ofTokens_steps] at all

end Html

/-! ## Reading Markdown -/

namespace Markdown

/-- No link is one to the text that it is found around. -/
lemma linkKind?_ne_self {settings : Settings} {target raw : Text} {kind : Kind}
    (found : linkKind? settings target raw = some kind) : kind ≠ .textUrl raw := by
  rintro rfl
  simp only [linkKind?] at found
  split at found
  · cases found
  split at found
  · cases found
  rename_i other
  repeat' split at found
  all_goals
    simp only [Option.some.injEq, Kind.textUrl.injEq, reduceCtorEq] at found
    try exact other found

/-- The reader of Markdown keeps what it gathers resolved. -/
lemma keeps_resolved (settings : Settings) :
    Keeps settings fun links gathering => (Orderly gathering ∧ Shallow links gathering) ∧
      (Gathering.Short gathering.text → gathering.Resolved) where
  append := fun {links gathering} ⟨h, resolved⟩ piece => by
    refine ⟨(keeps_orderly settings).append h piece, fun short => ?_⟩
    rw [Gathering.text_append] at short
    exact (resolved short.of_append).append (h.1.built.listed short.of_append) piece
  start := fun {links gathering} ⟨h, resolved⟩ kind formatting verbatim => by
    refine ⟨(keeps_orderly settings).start h kind formatting verbatim, fun short => ?_⟩
    rw [Gathering.text_start] at short
    exact (resolved short).start _ kind
  finish := fun {links gathering} ⟨h, resolved⟩ kind formatting verbatim => by
    refine ⟨(keeps_orderly settings).finish h kind formatting verbatim, fun short => ?_⟩
    rw [Gathering.text_finish] at short
    refine (resolved short).finish (h.1.built.listed short).sound fun draft _ _ isOpen _ _ own => ?_
    -- what is open under the key of formatting is no link
    obtain ⟨⟨depth, key⟩, -⟩ := h.1.keyed _ draft isOpen
    rw [own] at key
    exact keyOf_ne_link_of_isFormatting formatting links depth key
  code := fun {links gathering} ⟨h, resolved⟩ kind code line piece => by
    refine ⟨(keeps_orderly settings).code h kind code line piece, fun short => ?_⟩
    rw [Gathering.text_finish, Gathering.text_append, Gathering.text_start] at short
    have started := h.1.built.start (keyOf links kind) kind
    have text : (gathering.start (keyOf links kind) kind).text = gathering.text :=
      Gathering.text_start _ kind gathering
    have before := started.listed (by rw [text]; exact short.of_append)
    have sound := (before.append (by rw [text]; exact short)).sound
    refine (((resolved short.of_append).start _ kind).append before piece).finish sound
      fun draft _ _ isOpen _ _ own => ?_
    -- what is open under the key of code is the code that has just started
    obtain ⟨old, was, -, same⟩ := Gathering.draft?_append_eq_some isOpen
    rcases Gathering.draft?_start_eq_some was with ⟨-, rfl⟩ | earlier
    · obtain rfl : kind = .textUrl _ := same.symm.trans own
      cases code
    · rw [h.1.free code links] at earlier
      cases earlier
  enter := fun {links gathering} ⟨h, resolved⟩ => by
    refine ⟨(keeps_orderly settings).enter h, fun short => ?_⟩
    rw [Gathering.text_start] at short
    exact (resolved short).start _ _
  leave := fun {links gathering} ⟨h, resolved⟩ {_ kind} found => by
    refine ⟨(keeps_orderly settings).leave h found, fun short => ?_⟩
    rw [Gathering.text_finish] at short
    have sound := (h.1.built.listed short).sound
    have revised : (gathering.revise (.link links) (·.setKind kind)).Sound :=
      sound.revise _ (fun _ => rfl) fun _ => rfl
    refine Gathering.Resolved.finish (resolved short) revised fun draft front since isOpen whole
      length => ?_
    rw [Gathering.draft?_revise, if_pos rfl] at isOpen
    obtain ⟨old, was, rfl⟩ := Option.map_eq_some_iff.1 isOpen
    rw [Gathering.covered?_eq was whole length, Option.getD_some] at found
    exact linkKind?_ne_self found
  drop := fun {links gathering} ⟨h, resolved⟩ =>
    ⟨(keeps_orderly settings).drop h, resolved⟩

lemma resolved_ofSource {settings : Settings} {source : Text}
    (short : Gathering.Short (Reading.ofSource settings source).gathered.text) :
    (Reading.ofSource settings source).gathered.Resolved :=
  ((keeps_resolved settings).ofSource
    ⟨⟨orderly_empty, by simp [Shallow]⟩, fun _ _ member => absurd member List.not_mem_nil⟩
    source).2 short

end Markdown

/-! ## Trimming -/

namespace Message

/-- What trimming a message takes from either end of the text that an entity covers, and what it
leaves. -/
structure Cuts (message : Message) (entity : Entity) (front left back : Text) : Prop where
  covered : entity.covered (Utf16.encode message.text) = front ++ left ++ back
  front : (Utf16.unitCount front : Int) =
    max (Utf16.unitCount message.text.indent - entity.offset) 0
  back : (Utf16.unitCount back : Int) = max (entity.offset + entity.length -
    (Utf16.unitCount message.text.indent + Utf16.unitCount message.text.trim)) 0

variable {message : Message} {entity left : Entity} {front middle back : Text}

lemma between_stretch (message : Message) :
    Utf16.Between message.text (Utf16.unitCount message.text.indent) ∧
      Utf16.Between message.text
        (Utf16.unitCount message.text.indent + Utf16.unitCount message.text.trim) := by
  obtain ⟨rest, whole⟩ := message.text.exists_trim
  have start := Utf16.between_append message.text.indent (message.text.trim ++ rest)
  have stop := Utf16.between_append (message.text.indent ++ message.text.trim) rest
  rw [← List.append_assoc, ← whole] at start
  rw [← whole, Utf16.unitCount_append] at stop
  exact ⟨start, stop⟩

/-- What is left of an entity covers the same characters in the text as it was. -/
lemma covered_left (common : entity.common? (Utf16.unitCount message.text.indent)
      (Utf16.unitCount message.text.trim) = some left) {start stop : Nat}
    (hstart : (start : Int) = Utf16.unitCount message.text.indent + left.offset)
    (hstop : (stop : Int) = start + left.length) :
    left.covered (Utf16.encode message.text.trim) =
      Utf16.slice (Utf16.encode message.text) start stop := by
  obtain ⟨rest, whole⟩ := message.text.exists_trim
  obtain ⟨-, filled, -, offset, ends⟩ := Entity.common?_eq_some common
  have slice := Utf16.slice_middle message.text.indent rest
    (Nat.le_add_right left.offset.toNat left.length.toNat)
    (show _ ≤ Utf16.unitCount message.text.trim by omega)
  rw [← whole] at slice
  rw [Entity.covered, ← slice]
  congr 1 <;> omega

/-- What is left of an entity covers what is left of its text. -/
lemma exists_cuts (stands : entity.OnCharacters message.text)
    (common : entity.common? (Utf16.unitCount message.text.indent)
      (Utf16.unitCount message.text.trim) = some left) :
    ∃ front back,
      message.Cuts entity front (left.covered (Utf16.encode message.text.trim)) back := by
  obtain ⟨-, filled, -, offset, stop⟩ := Entity.common?_eq_some common
  have low := stands.bounds.1
  obtain ⟨betweenStart, betweenStop⟩ := stands.between
  obtain ⟨stretchStart, stretchStop⟩ := message.between_stretch
  -- the entity is cut where the kept stretch starts and where it ends
  obtain ⟨first, hfirst⟩ : ∃ first, first = max entity.offset.toNat
      (Utf16.unitCount message.text.indent) := ⟨_, rfl⟩
  obtain ⟨last, hlast⟩ : ∃ last, last = min (entity.offset + entity.length).toNat
      (Utf16.unitCount message.text.indent + Utf16.unitCount message.text.trim) := ⟨_, rfl⟩
  have betweenFirst : Utf16.Between message.text first := by
    rw [hfirst]
    exact betweenStart.farther stretchStart
  have betweenLast : Utf16.Between message.text last := by
    rw [hlast]
    exact betweenStop.nearer stretchStop
  refine ⟨Utf16.slice (Utf16.encode message.text) entity.offset.toNat first,
    Utf16.slice (Utf16.encode message.text) last (entity.offset + entity.length).toNat, ?_, ?_, ?_⟩
  · have total : entity.offset.toNat + entity.length.toNat =
        (entity.offset + entity.length).toNat := by omega
    rw [covered_left common (show (first : Int) = _ by omega) (show (last : Int) = _ by omega),
      Utf16.slice_append (by omega) (by omega), Utf16.slice_append (by omega) (by omega),
      Entity.covered, total]
  · have size := Utf16.unitCount_slice betweenStart betweenFirst (by omega)
    omega
  · have size := Utf16.unitCount_slice betweenLast betweenStop (by omega)
    omega

/-- What is taken and what is left make up the entity. -/
lemma Cuts.size (h : message.Cuts entity front middle back)
    (stands : entity.OnCharacters message.text) :
    (Utf16.unitCount front + Utf16.unitCount middle + Utf16.unitCount back : Int) =
      entity.length := by
  obtain ⟨_, piece, _, whole, offset, length⟩ := stands
  have covers := h.covered
  rw [whole, Entity.covered_of_parts offset length] at covers
  rw [length, covers, Utf16.unitCount_append, Utf16.unitCount_append]
  push_cast
  rfl

/-- Something is left of an entity whose text is not all taken. -/
lemma Cuts.exists_left (h : message.Cuts entity front middle back)
    (stands : entity.OnCharacters message.text) (filled : middle ≠ []) :
    ∃ left, entity.common? (Utf16.unitCount message.text.indent)
        (Utf16.unitCount message.text.trim) = some left ∧
      left.covered (Utf16.encode message.text.trim) = middle := by
  have size := h.size stands
  have positive : 0 < Utf16.unitCount middle := by
    obtain ⟨c, rest, rfl⟩ := List.exists_cons_of_ne_nil filled
    have width := Utf16.unitWidth_pos c
    rw [Utf16.unitCount_cons]
    omega
  obtain ⟨hfront, hback⟩ := And.intro h.front h.back
  obtain ⟨left, common⟩ : ∃ left, entity.common? (Utf16.unitCount message.text.indent)
      (Utf16.unitCount message.text.trim) = some left := by
    refine ⟨_, if_pos ⟨?_, ?_⟩⟩ <;> omega
  refine ⟨left, common, ?_⟩
  -- both ways of cutting take as much from either end
  obtain ⟨first, last, cuts⟩ := exists_cuts stands common
  have same := h.covered.symm.trans cuts.covered
  rw [List.append_assoc, List.append_assoc] at same
  have sizeFirst : Utf16.unitCount front = Utf16.unitCount first := by
    have := cuts.front
    omega
  obtain ⟨-, behind⟩ := Utf16.append_inj_of_unitCount same sizeFirst
  have total := congrArg Utf16.unitCount behind
  rw [Utf16.unitCount_append, Utf16.unitCount_append] at total
  have sizeLast := cuts.back
  exact (Utf16.append_inj_of_unitCount behind (by omega)).1.symm

/-- **Trimming makes links to their own text** of those that have blank characters around it, which
it takes. -/
lemma own_target_iff (short : Gathering.Short message.text)
    (stands : ∀ entity ∈ message.entities, entity.OnCharacters message.text)
    (resolved : ∀ entity ∈ message.entities,
      entity.kind ≠ .textUrl (entity.covered (Utf16.encode message.text))) (target : Text) :
    (∃ left ∈ message.trim.entities, left.kind = .textUrl target ∧
        left.covered (Utf16.encode message.trim.text) = target) ↔
      ∃ link ∈ message.entities, link.kind = .textUrl target ∧ target ≠ [] ∧
        ∃ front back, message.Cuts link front target back ∧ front ++ back ≠ [] := by
  rw [entities_trim_eq_common short, text_trim]
  constructor
  · rintro ⟨left, member, kind, covers⟩
    obtain ⟨link, listed, common⟩ := List.mem_filterMap.1 member
    obtain ⟨-, filled, sameKind, offset, stop⟩ := Entity.common?_eq_some common
    obtain ⟨front, back, cuts⟩ := exists_cuts (stands link listed) common
    rw [covers] at cuts
    have link_kind : link.kind = .textUrl target := sameKind.symm.trans kind
    refine ⟨link, listed, link_kind, ?_, front, back, cuts, fun nothing => ?_⟩
    · rintro rfl
      have size := cuts.size (stands link listed)
      rw [cuts.front, cuts.back, Utf16.unitCount_nil] at size
      omega
    · obtain ⟨rfl, rfl⟩ := List.append_eq_nil_iff.1 nothing
      refine resolved link listed ?_
      rw [cuts.covered, List.nil_append, List.append_nil]
      exact link_kind
  · rintro ⟨link, listed, kind, filled, front, back, cuts, -⟩
    obtain ⟨left, common, covers⟩ := cuts.exists_left (stands link listed) filled
    refine ⟨left, List.mem_filterMap.2 ⟨link, listed, common⟩, ?_, covers⟩
    rw [(Entity.common?_eq_some common).2.2.1, kind]

end Message

/-! ## Reading -/

namespace Dialect

/-- The message that markup is read as before its blank ends are trimmed off. -/
def gathered (dialect : Dialect) (settings : Settings) (markup : Text) : Message :=
  match dialect with
  | html =>
    let gathered := (Html.Reading.ofSource settings markup).gathered
    ⟨gathered.text, gathered.entities⟩
  | markdown =>
    let gathered := (Markdown.Reading.ofSource settings markup).gathered
    ⟨gathered.text, gathered.entities⟩

lemma read_eq_trim (dialect : Dialect) (settings : Settings) (markup : Text) :
    dialect.read settings markup = (dialect.gathered settings markup).trim := by
  cases dialect <;> rfl

/-- **When a link leads to its own text.**  None does when it ends.  Of the message that is read one
does just if it was read with blank characters around its target, in front of the text of the message
or behind it, which were trimmed off. -/
theorem read_own_target_iff (dialect : Dialect) (settings : Settings) {markup : Text}
    (short : Gathering.Short (dialect.untrimmed settings markup)) :
    let whole := dialect.gathered settings markup
    let message := dialect.read settings markup
    (∀ link ∈ whole.entities,
      link.kind ≠ .textUrl (link.covered (Utf16.encode whole.text))) ∧
    ∀ target : Text,
      (∃ left ∈ message.entities, left.kind = .textUrl target ∧
          left.covered (Utf16.encode message.text) = target) ↔
        ∃ link ∈ whole.entities, link.kind = .textUrl target ∧ target ≠ [] ∧
          ∃ front back, whole.Cuts link front target back ∧ front ++ back ≠ [] := by
  intro whole message
  have trimmed : message = whole.trim := dialect.read_eq_trim settings markup
  have shortWhole : Gathering.Short whole.text := by cases dialect <;> exact short
  have stands : ∀ entity ∈ whole.entities, entity.OnCharacters whole.text := by
    cases dialect with
    | html => exact ((Html.built_ofSource settings markup).listed short).onCharacters
    | markdown => exact ((Markdown.built_ofSource settings markup).listed short).onCharacters
  have resolved : ∀ link ∈ whole.entities,
      link.kind ≠ .textUrl (link.covered (Utf16.encode whole.text)) := by
    cases dialect with
    | html => exact Html.resolved_ofSource short
    | markdown => exact Markdown.resolved_ofSource short
  rw [trimmed]
  exact ⟨resolved, whole.own_target_iff shortWhole stands resolved⟩

/-- A link to `a` around ` a`, of whose text the blank is trimmed off. -/
theorem read_own_target_behind_blank :
    let markup := "<a href=\"a\"> a</a>".toList
    Gathering.Short (html.untrimmed {} markup) ∧
      html.gathered {} markup = ⟨" a".toList, [⟨0, 2, .textUrl ['a']⟩]⟩ ∧
      html.read {} markup = ⟨['a'], [⟨0, 1, .textUrl ['a']⟩]⟩ ∧
      ∃ link ∈ (html.gathered {} markup).entities, link.kind = .textUrl ['a'] ∧ ['a'] ≠ [] ∧
        ∃ front back, (html.gathered {} markup).Cuts link front ['a'] back ∧ front ++ back ≠ [] := by
  intro markup
  have gathered : html.gathered {} "<a href=\"a\"> a</a>".toList =
      ⟨" a".toList, [⟨0, 2, .textUrl ['a']⟩]⟩ := by decide +kernel
  have read : html.read {} "<a href=\"a\"> a</a>".toList =
      ⟨['a'], [⟨0, 1, .textUrl ['a']⟩]⟩ := by
    rw [read_eq_trim, gathered]
    decide
  have short : Gathering.Short (html.untrimmed {} markup) := by
    show Gathering.Short (html.gathered {} "<a href=\"a\"> a</a>".toList).text
    rw [gathered]
    decide
  refine ⟨short, gathered, read, ((html.read_own_target_iff {} short).2 ['a']).1 ?_⟩
  exact ⟨⟨0, 1, .textUrl ['a']⟩, by rw [read]; exact List.mem_cons_self, rfl,
    by rw [read]; decide⟩

end Dialect

end RichText
