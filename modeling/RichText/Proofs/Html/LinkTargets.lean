import RichText.Proofs.Html.Elements
import RichText.Proofs.Html.TargetLengths

/-!
# Links that are their own target

A link in HTML is an address when its text is its target.  The reader sees this at the end tag, by
comparing the target that was given at the start tag with the text that the link covers then.  While
positions reach to the end of the text, that is what was written since the start tag, whatever tags
stand within the link, links included, and so the comparison is the right one.  Nothing else is
listed as an address or as a link to a target (`link_is_address_iff`).

A start tag could be taken for an address at once where the tag as it is written is its own target
(`linkMeaningIn`).  No tag is: its target stands in it (`Lexeme.byteCount_value_lt`).
-/

namespace RichText.Html

/-! ## Targets -/

/-- The kind of a link whose start tag is written as `source`, and the text that replaces its
content, where a tag that is its own target stands for an address. -/
def linkMeaningIn (source target : Text) : Kind × Option Text :=
  match Text.after? mailTarget target with
  | some address => (.email, some address)
  | none => if source = target then (.url, some target) else linkMeaning target

lemma linkMeaningIn_of_ne {source target : Text} (h : source ≠ target) :
    linkMeaningIn source target = linkMeaning target := by
  unfold linkMeaningIn
  split
  · rename_i address mail
    rw [linkMeaning, mail]
  · exact if_neg h

/-- Neither mail nor a mention, a link leads to its target until it ends. -/
lemma linkMeaning_of_plain {target : Text} (noMail : Text.after? mailTarget target = none)
    (noMention : mentionedUser? target = none) : linkMeaning target = (.textUrl target, none) := by
  rw [linkMeaning, noMail, noMention]

namespace Reading

variable {settings : Settings} {reading : Reading} {attributes : List Attribute} {kind : Kind}
  {draft : OpenEntity} {piece : Text}

/-- The start tag of a link names the target that its kind comes from. -/
lemma Starts.exists_target (starts : reading.Starts settings anchorTag attributes kind) :
    ∃ target, Attribute.valueOf? "href".toList attributes = some target ∧
      (linkMeaning target).1 = kind := by
  obtain ⟨substitute?, means⟩ := starts.means
  rw [meaning?, if_pos rfl] at means
  obtain ⟨target, href, meaning⟩ := Option.map_eq_some_iff.1 means
  exact ⟨target, href, congrArg Prod.fst meaning⟩

/-! ## End tags -/

/-- Ending a link lists it as an address if its target is what it covers, and as it stands
otherwise. -/
lemma entities_endTag_of_open (isOpen : reading.gathered.draft? anchorTag = some draft)
    (covers : reading.gathered.covered? anchorTag = some piece) :
    (reading.endTag anchorTag).gathered.entities = reading.gathered.entities ++
      [⟨draft.offset, draft.length,
        if draft.kind = .textUrl piece then .url else draft.kind⟩] := by
  unfold endTag
  simp only [if_true]
  rw [resolveLink_of_open isOpen covers]
  split
  · rw [Gathering.entities_finish, Gathering.draft?_revise, if_pos rfl, isOpen]
    rfl
  · rw [Gathering.entities_finish_of_open isOpen]
    rfl

lemma entities_endTag_of_free (free : reading.gathered.draft? anchorTag = none) :
    (reading.endTag anchorTag).gathered.entities = reading.gathered.entities := by
  have same : resolveLink reading.gathered = reading.gathered := by
    rw [resolveLink, free]
  unfold endTag
  simp only [if_true]
  rw [same, Gathering.finish_of_free free]

lemma short_ofTokens {source : Text}
    (short : Gathering.Short (ofSource settings source).gathered.text) (count : Nat) :
    Gathering.Short (ofTokens settings ((steps source).take count)).gathered.text := by
  rw [← ofTokens_steps, ofTokens, ← List.take_append_drop count (steps source), List.foldl_append,
    text_foldl_take] at short
  exact short.of_append

end Reading

/-! ## Steps -/

section Steps

variable {settings : Settings} {source : Text} {count : Nat}

/-- Only links lead somewhere or are addresses. -/
lemma kind_of_draft {tokens : List Token} {name : Text} {draft : OpenEntity}
    (isOpen : (Reading.ofTokens settings tokens).gathered.draft? name = some draft)
    (other : name ≠ anchorTag) :
    draft.kind ≠ .url ∧ ∀ target, draft.kind ≠ .textUrl target := by
  obtain ⟨element, counts⟩ := exists_element isOpen
  rcases counts.kind with same | ⟨-, language, pre⟩
  · rw [same]
    obtain ⟨substitute?, means⟩ := element.starts.means
    rcases meaning?_eq_some means with ⟨anchor, -⟩ | ⟨-, _, _, emoji, -⟩ | listed
    · exact absurd anchor other
    · rw [emoji]
      exact ⟨nofun, nofun⟩
    · have table : ∀ entry ∈ formattingTags,
          entry.2 ≠ .url ∧ ∀ target, entry.2 ≠ .textUrl target := by simp [formattingTags]
      exact table (name, element.kind) listed
  · rw [pre]
    exact ⟨nofun, nofun⟩

/-- The end tag of a link lists the link that is open. -/
lemma entities_of_end_of_link
    (short : Gathering.Short (Reading.ofSource settings source).gathered.text)
    (step : (steps source)[count]? = some (.endTag anchorTag)) {draft : OpenEntity}
    (isOpen : (Reading.ofTokens settings ((steps source).take count)).gathered.draft? anchorTag =
      some draft) :
    ∃ (link : Element settings ((steps source).take count) anchorTag) (target : Text),
      Attribute.valueOf? "href".toList link.attributes = some target ∧
        (linkMeaning target).1 = link.kind ∧
        (Reading.ofTokens settings ((steps source).take (count + 1))).gathered.entities =
          (Reading.ofTokens settings ((steps source).take count)).gathered.entities ++
            [⟨Utf16.unitCount link.before.gathered.text, Utf16.unitCount link.covered,
              if link.kind = .textUrl link.covered then .url else link.kind⟩] := by
  obtain ⟨link, counts⟩ := exists_element isOpen
  have shortLink := Reading.short_ofTokens short count
  rw [link.text_eq] at shortLink
  have offset : draft.offset = Utf16.unitCount link.before.gathered.text :=
    counts.offset.trans shortLink.of_append.length_eq
  have length : draft.length = Utf16.unitCount link.covered := by
    refine counts.length.trans (Gathering.Short.length_eq ?_)
    rw [Gathering.Short, Utf16.unitCount_append] at shortLink
    rw [Gathering.Short]
    omega
  have kind : draft.kind = link.kind :=
    counts.kind.resolve_right fun pre => absurd pre.1 (by decide)
  obtain ⟨target, href, meaning⟩ := link.starts.exists_target
  refine ⟨link, target, href, meaning, ?_⟩
  have covers := Gathering.covered?_eq isOpen link.text_eq length
  rw [Reading.ofTokens_take_succ settings step, Reading.take,
    Reading.entities_endTag_of_open isOpen covers, offset, length, kind]

/-- A step that is no end tag of a link lists no link. -/
lemma entities_of_other_step {token : Token} (step : (steps source)[count]? = some token)
    (other : token ≠ .endTag anchorTag) :
    ∃ listed, (Reading.ofTokens settings ((steps source).take (count + 1))).gathered.entities =
        (Reading.ofTokens settings ((steps source).take count)).gathered.entities ++ listed ∧
      ∀ entity ∈ listed, entity.kind ≠ .url ∧ ∀ target, entity.kind ≠ .textUrl target := by
  rw [Reading.ofTokens_take_succ settings step]
  cases token with
  | startTag name attributes selfClosing =>
    cases selfClosing with
    | true => exact absurd (List.mem_of_getElem? step) not_selfClosing_of_mem_steps
    | false =>
      refine ⟨[], ?_, nofun⟩
      rw [List.append_nil]
      exact Reading.entities_startTag settings name attributes _
  | text piece =>
    refine ⟨[], ?_, nofun⟩
    rw [Reading.take, Reading.text, Gathering.entities_append, List.append_nil]
  | endTag name =>
    have elsewhere : name ≠ anchorTag := fun same => other (congrArg Token.endTag same)
    refine ⟨_, by simpa only [Reading.take, Reading.endTag, elsewhere, if_false] using
      Gathering.entities_finish _ _, fun entity member => ?_⟩
    obtain ⟨draft, isOpen, rfl⟩ := Option.map_eq_some_iff.1 (Option.mem_toList.1 member)
    exact kind_of_draft isOpen elsewhere

end Steps

/-- **A link is an address just if its text is its target.**  In a short text, an end tag of links
lists the link that is open, if one is, over what was written since its start tag.  A link whose
target is neither an e-mail address nor a user who is mentioned is listed as an address if what was
written is the target, and else as a link to it.  No other step lists an address or a link to a
target.  And no start tag is its own target: whatever it holds, its target has fewer bytes. -/
theorem link_is_address_iff (settings : Settings) {source : Text}
    (short : Gathering.Short (Reading.ofSource settings source).gathered.text) :
    (∀ count, (steps source)[count]? = some (.endTag anchorTag) →
      let before := Reading.ofTokens settings ((steps source).take count)
      let after := Reading.ofTokens settings ((steps source).take (count + 1))
      IsEmpty (Element settings ((steps source).take count) anchorTag) ∧
          after.gathered.entities = before.gathered.entities ∨
        ∃ (link : Element settings ((steps source).take count) anchorTag) (target : Text)
            (kind : Kind),
          Attribute.valueOf? "href".toList link.attributes = some target ∧
            before.gathered.text = link.before.gathered.text ++ link.covered ∧
            after.gathered.entities = before.gathered.entities ++
              [⟨Utf16.unitCount link.before.gathered.text, Utf16.unitCount link.covered, kind⟩] ∧
            (Text.after? mailTarget target = none → mentionedUser? target = none →
              kind = if link.covered = target then .url else .textUrl target)) ∧
    (∀ count token, (steps source)[count]? = some token → token ≠ .endTag anchorTag →
      let before := Reading.ofTokens settings ((steps source).take count)
      let after := Reading.ofTokens settings ((steps source).take (count + 1))
      ∃ listed, after.gathered.entities = before.gathered.entities ++ listed ∧
        ∀ entity ∈ listed, entity.kind ≠ .url ∧ ∀ target, entity.kind ≠ .textUrl target) ∧
    ∀ lexeme ∈ Lexeme.readAll source, ∀ name attributes selfClosing target,
      lexeme.token? = some (.startTag name attributes selfClosing) →
      Attribute.valueOf? "href".toList attributes = some target →
      byteCount target < byteCount lexeme.source ∧
        linkMeaningIn lexeme.source target = linkMeaning target := by
  refine ⟨fun count step => ?_, fun count token step other => entities_of_other_step step other,
    fun lexeme member name attributes selfClosing target tag href => ?_⟩
  · cases isOpen : (Reading.ofTokens settings ((steps source).take count)).gathered.draft?
        anchorTag with
    | none =>
      refine .inl ⟨⟨fun link => ?_⟩, ?_⟩
      · simpa [Gathering.isOpen, isOpen] using link.isOpen
      · rw [Reading.ofTokens_take_succ settings step]
        exact Reading.entities_endTag_of_free isOpen
    | some draft =>
      obtain ⟨link, target, href, meaning, listed⟩ := entities_of_end_of_link short step isOpen
      refine .inr ⟨link, target, _, href, link.text_eq, listed, fun noMail noMention => ?_⟩
      rw [linkMeaning_of_plain noMail noMention] at meaning
      rw [← meaning]
      simp only [Kind.textUrl.injEq, eq_comm]
  · have smaller := Lexeme.byteCount_value_lt member tag href
    exact ⟨smaller, linkMeaningIn_of_ne fun same => by rw [same] at smaller; omega⟩

/-- A start tag within a link starts nothing, and the link is its own target, which was written with
a reference. -/
theorem link_is_address_around_tag :
    let source : Text := "<a href='&amp;'><a>&amp;</a>".toList
    let before := Reading.ofTokens {} ((steps source).take 3)
    let after := Reading.ofTokens {} ((steps source).take 4)
    Gathering.Short (Reading.ofSource {} source).gathered.text ∧
      (steps source)[3]? = some (.endTag anchorTag) ∧
      after.gathered.entities = [⟨0, 1, .url⟩] ∧
      ∃ (link : Element {} ((steps source).take 3) anchorTag) (target : Text) (kind : Kind),
        Attribute.valueOf? "href".toList link.attributes = some target ∧
          before.gathered.text = link.before.gathered.text ++ link.covered ∧
          after.gathered.entities = before.gathered.entities ++
            [⟨Utf16.unitCount link.before.gathered.text, Utf16.unitCount link.covered, kind⟩] ∧
          (Text.after? mailTarget target = none → mentionedUser? target = none →
            kind = if link.covered = target then .url else .textUrl target) := by
  intro source before after
  have text : (Reading.ofSource {} "<a href='&amp;'><a>&amp;</a>".toList).gathered.text =
      "&".toList := by decide +kernel
  have short : Gathering.Short (Reading.ofSource {} source).gathered.text := by
    unfold source
    rw [text]
    decide
  have step : (steps "<a href='&amp;'><a>&amp;</a>".toList)[3]? = some (.endTag anchorTag) := by
    decide +kernel
  have fresh : (Reading.ofTokens {} ((steps "<a href='&amp;'><a>&amp;</a>".toList).take
      3)).gathered.entities = [] := by decide +kernel
  have listed : (Reading.ofTokens {} ((steps "<a href='&amp;'><a>&amp;</a>".toList).take
      4)).gathered.entities = [⟨0, 1, .url⟩] := by decide +kernel
  refine ⟨short, step, listed, ?_⟩
  rcases (link_is_address_iff {} short).1 3 step with ⟨-, unchanged⟩ | link
  · exact absurd (listed.symm.trans (unchanged.trans fresh)) (by simp)
  · exact link

end RichText.Html
