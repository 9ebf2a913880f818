import RichText.Proofs.Html.Elements

/-!
# What links to mail cover

A link to an e-mail address carries no address of its own: the text it covers is all that is left of
its target.  The reader of HTML writes the address in place of each run of character data for which
the link is the innermost tag that is open, and keeps all other text as it is.

So whenever such a link ends, it covers what was written for the runs behind its start tag, one
after the other (`MailLink.covered`), and where they all stand directly within it this is nothing or
the address just if there is at most one of them: a comment between two runs doubles the address
(`mail_link_keeps_address_iff`).

Whatever is open as a link to mail is an element that was started by the start tag of a link with
its target (`exists_mailLink`).
-/

namespace RichText.Html

/-! ## Open links to mail -/

namespace Reading

variable {settings : Settings} {key name : Text} {attributes : List Attribute} {draft : OpenEntity}

lemma href_of_email {substitute? : Option Text}
    (means : meaning? settings name attributes = some (.email, substitute?)) :
    name = anchorTag ∧ ∃ address,
      Attribute.valueOf? "href".toList attributes = some (mailTarget ++ address) := by
  rcases meaning?_eq_some means with ⟨anchor, target, href, meaning⟩ | ⟨-, _, _, emoji, -⟩ | listed
  · refine ⟨anchor, ?_⟩
    unfold linkMeaning at meaning
    split at meaning
    · rename_i address mail
      exact ⟨address, by rw [href, Text.eq_append_of_after? mail]⟩
    · split at meaning <;> cases meaning
  · cases emoji
  · have table : ∀ entry ∈ formattingTags, entry.2 ≠ .email := by decide
    exact absurd rfl (table (name, .email) listed)

lemma draft?_resolveLink {gathered : Gathering Text}
    (found : (resolveLink gathered).draft? key = some draft) (mail : draft.kind = .email) :
    gathered.draft? key = some draft := by
  rcases resolveLink_cases gathered with revised | same
  · rw [revised] at found
    obtain ⟨old, hold, ⟨-, rfl⟩ | rfl⟩ := Gathering.draft?_revise_eq_some found
    · cases mail
    · exact hold
  · rwa [same] at found

end Reading

/-! ## Links to mail -/

/-- A link to an e-mail address that some tokens have started and not ended. -/
structure MailLink (settings : Settings) (tokens : List Token) where
  /-- The tokens in front of the start tag. -/
  outside : List Token
  attributes : List Attribute
  address : Text
  /-- The tokens behind the start tag. -/
  inside : List Token
  whole : tokens = outside ++ .startTag anchorTag attributes false :: inside
  target : Attribute.valueOf? "href".toList attributes = some (mailTarget ++ address)
  starts : (Reading.ofTokens settings outside).gathered.isOpen anchorTag = false
  lasts : ∀ token ∈ inside, token.closes anchorTag = false

namespace MailLink

variable {settings : Settings} {tokens : List Token}

/-- What was read before the link. -/
def before (link : MailLink settings tokens) : Reading := .ofTokens settings link.outside

/-- What was read when the link had started. -/
def opened (link : MailLink settings tokens) : Reading :=
  link.before.startTag settings anchorTag link.attributes

/-- What is written for the runs of character data within the link. -/
def runs (link : MailLink settings tokens) : List Text :=
  link.opened.written settings link.inside

/-- The text that the link covers. -/
def covered (link : MailLink settings tokens) : Text := link.runs.flatten

/-- Wherever a run of character data is met within the link, the tags are open that were when it
started, so that the innermost is its own. -/
def Direct (link : MailLink settings tokens) : Prop :=
  ∀ front piece back, link.inside = front ++ .text piece :: back →
    (front.foldl (Reading.take settings) link.opened).openTags = link.opened.openTags

lemma means (link : MailLink settings tokens) :
    meaning? settings anchorTag link.attributes = some (.email, some link.address) := by
  rw [meaning?, if_pos rfl, link.target, Option.map_some, linkMeaning, Text.after?_append]

lemma apart (reading : Reading) :
    ¬ (anchorTag = codeTag ∧ reading.gathered.isOpen preTag = true) :=
  fun both => absurd both.1 (by decide)

/-- The link as an element. -/
def toElement (link : MailLink settings tokens) : Element settings tokens anchorTag where
  outside := link.outside
  attributes := link.attributes
  kind := .email
  inside := link.inside
  whole := link.whole
  starts := ⟨⟨some link.address, link.means⟩, link.starts, apart _⟩
  lasts := link.lasts

lemma text_eq (link : MailLink settings tokens) :
    (Reading.ofTokens settings tokens).gathered.text =
      link.before.gathered.text ++ link.covered := link.toElement.text_eq

end MailLink

/-- **What is open as a link to mail is one**, and as long as the text that it covers. -/
lemma exists_mailLink {settings : Settings} {tokens : List Token} {key : Text} {draft : OpenEntity}
    (isOpen : (Reading.ofTokens settings tokens).gathered.draft? key = some draft)
    (mail : draft.kind = .email) :
    key = anchorTag ∧ ∃ link : MailLink settings tokens,
      draft = ⟨Utf16.length link.before.gathered.text, Utf16.length link.covered, .email⟩ := by
  obtain ⟨element, offset, length, kind⟩ := exists_element isOpen
  have isMail : element.kind = .email := by
    rcases kind with same | ⟨-, language, pre⟩
    · rw [← same, mail]
    · rw [mail] at pre
      cases pre
  obtain ⟨substitute?, means⟩ := element.starts.means
  rw [isMail] at means
  obtain ⟨rfl, address, target⟩ := Reading.href_of_email means
  let link : MailLink settings tokens :=
    ⟨element.outside, element.attributes, address, element.inside, element.whole, target,
      element.starts.free, element.lasts⟩
  refine ⟨rfl, link, ?_⟩
  obtain ⟨place, size, sort⟩ := draft
  obtain rfl : sort = .email := mail
  obtain rfl : place = Utf16.length link.before.gathered.text := offset
  obtain rfl : size = Utf16.length link.covered := length
  rfl

/-! ## What stands directly within a link -/

namespace MailLink

variable {settings : Settings} {tokens : List Token}

/-- The address replaces what stands directly within the tag of its link. -/
lemma head?_openTags (link : MailLink settings tokens) :
    link.opened.openTags.head?.bind OpenTag.substitute? = some link.address := by
  rw [opened, Reading.startTag, if_neg (apart _), link.means]
  rfl

/-- **Directly within a link to mail its address is written** for every run. -/
lemma runs_of_direct (link : MailLink settings tokens) (direct : link.Direct) :
    link.runs = List.replicate link.runs.length link.address := by
  have each : ∀ (tokens : List Token) (reading : Reading),
      (∀ front piece back, tokens = front ++ .text piece :: back →
        (front.foldl (Reading.take settings) reading).openTags = link.opened.openTags) →
      ∀ run ∈ reading.written settings tokens, run = link.address := by
    intro tokens
    induction tokens with
    | nil => simp [Reading.written]
    | cons token rest ih =>
      intro reading direct run member
      have further := ih (Reading.take settings reading token) fun front piece back whole =>
        direct (token :: front) piece back (by rw [whole]; rfl)
      cases token with
      | startTag | endTag => exact further run member
      | text piece =>
        have here : reading.openTags = link.opened.openTags := direct [] piece rest rfl
        rcases List.mem_cons.1 member with rfl | later
        · rw [Reading.replaced, here, link.head?_openTags, Option.getD_some]
        · exact further run later
  exact List.eq_replicate_of_mem (each link.inside link.opened direct)

/-- Repeating a text gives nothing or the text just if it is repeated at most once, or empty. -/
lemma flatten_replicate_iff {address : Text} {count : Nat} :
    ((List.replicate count address).flatten = [] ∨
      (List.replicate count address).flatten = address) ↔ count ≤ 1 ∨ address = [] := by
  match count with
  | 0 => simp
  | 1 => simp
  | count + 2 =>
    rw [List.replicate_succ, List.replicate_succ, List.flatten_cons, List.flatten_cons]
    constructor
    · rintro (none | same)
      · exact .inr (List.append_eq_nil_iff.1 none).1
      · have sizes := congrArg List.length same
        rw [List.length_append, List.length_append] at sizes
        exact .inr (List.length_eq_zero_iff.1 (by omega))
    · rintro (few | rfl)
      · omega
      · exact .inl (by simp)

end MailLink

/-! ## Links that end -/

namespace Reading

lemma entities_resolveLink (gathered : Gathering Text) :
    (resolveLink gathered).entities = gathered.entities := by
  rcases resolveLink_cases gathered with revised | same
  · rw [revised, Gathering.entities_revise]
  · rw [same]

lemma draft?_of_ended {reading : Reading} {name : Text} {entity : Entity}
    (ends : (reading.endTag name).gathered.entities = reading.gathered.entities ++ [entity])
    (mail : entity.kind = .email) :
    ∃ draft, reading.gathered.draft? name = some draft ∧ draft.close = entity := by
  unfold endTag at ends
  simp only [Gathering.entities_finish] at ends
  split at ends
  · rw [entities_resolveLink] at ends
    obtain ⟨draft, isOpen, close⟩ := Option.map_eq_some_iff.1
      (Option.toList_eq_singleton_iff.1 (List.append_cancel_left ends))
    rw [← close] at mail
    exact ⟨draft, draft?_resolveLink isOpen mail, close⟩
  · exact Option.map_eq_some_iff.1
      (Option.toList_eq_singleton_iff.1 (List.append_cancel_left ends))

end Reading

/-- **What a link to mail covers when it ends.**  Whatever the tokens between its tags, a link to an
e-mail address ends over all that was written since its start tag.  Where each run of character data
between them stands directly within the link, it covers nothing or its address just if there is at
most one run, or the address is empty. -/
theorem mail_link_keeps_address_iff (settings : Settings) (source : Text) (count : Nat)
    {entity : Entity}
    (ends : (Reading.ofTokens settings ((steps source).take (count + 1))).gathered.entities =
      (Reading.ofTokens settings ((steps source).take count)).gathered.entities ++ [entity])
    (mail : entity.kind = .email) :
    ∃ link : MailLink settings ((steps source).take count),
      (Reading.ofTokens settings ((steps source).take count)).gathered.text =
          link.before.gathered.text ++ link.covered ∧
        entity =
          ⟨Utf16.length link.before.gathered.text, Utf16.length link.covered, .email⟩ ∧
        (link.Direct → (link.covered = [] ∨ link.covered = link.address ↔
          link.runs.length ≤ 1 ∨ link.address = [])) := by
  cases step : (steps source)[count]? with
  | none =>
    rw [List.take_add_one, step, Option.toList_none, List.append_nil] at ends
    simp at ends
  | some token =>
    rw [List.take_add_one, step, Option.toList_some, Reading.ofTokens_concat] at ends
    -- only an end tag lists something
    cases token with
    | startTag name attributes selfClosing =>
      cases selfClosing with
      | true => exact absurd (List.mem_of_getElem? step) not_selfClosing_of_mem_steps
      | false =>
        have same := Reading.entities_startTag settings name attributes
          (.ofTokens settings ((steps source).take count))
        simp [Reading.take, same] at ends
    | text piece => simp [Reading.take, Reading.text] at ends
    | endTag name =>
      obtain ⟨draft, isOpen, rfl⟩ := Reading.draft?_of_ended ends mail
      obtain ⟨-, link, rfl⟩ := exists_mailLink isOpen mail
      refine ⟨link, link.text_eq, rfl, fun direct => ?_⟩
      rw [MailLink.covered, link.runs_of_direct direct, List.length_replicate]
      exact MailLink.flatten_replicate_iff

/-- A link to mail around one run, which ends with the third step. -/
theorem mail_link_keeps_address_around_run :
    (Reading.ofTokens {} ((steps "<a href='mailto:a@b'>c</a>".toList).take 3)).gathered.entities =
        (Reading.ofTokens {} ((steps "<a href='mailto:a@b'>c</a>".toList).take
          2)).gathered.entities ++ [⟨0, 3, .email⟩] ∧
      ∃ link : MailLink {} ((steps "<a href='mailto:a@b'>c</a>".toList).take 2),
        (Reading.ofTokens {} ((steps "<a href='mailto:a@b'>c</a>".toList).take
            2)).gathered.text = link.before.gathered.text ++ link.covered ∧
          (⟨0, 3, .email⟩ : Entity) =
            ⟨Utf16.length link.before.gathered.text, Utf16.length link.covered, .email⟩ ∧
          (link.Direct → (link.covered = [] ∨ link.covered = link.address ↔
            link.runs.length ≤ 1 ∨ link.address = [])) := by
  have ends : (Reading.ofTokens {} ((steps "<a href='mailto:a@b'>c</a>".toList).take
      3)).gathered.entities =
        (Reading.ofTokens {} ((steps "<a href='mailto:a@b'>c</a>".toList).take
          2)).gathered.entities ++ [⟨0, 3, .email⟩] := by decide +kernel
  exact ⟨ends, mail_link_keeps_address_iff {} _ 2 ends rfl⟩

/-- A comment parts the text of a link into two runs, and the address is written for each. -/
theorem mail_link_with_comment_doubles_address :
    read {} "<a href='mailto:x@y'>a<!---->b</a>".toList = ⟨"x@yx@y".toList, [⟨0, 6, .email⟩]⟩ := by
  decide +kernel

/-- Text within a tag of its own is no run of the link, and the address is lost. -/
theorem mail_link_around_tag_loses_address :
    read {} "<a href='mailto:x@y'><i>me</i></a>".toList =
      ⟨"me".toList, [⟨0, 2, .italic⟩, ⟨0, 2, .email⟩]⟩ := by
  decide +kernel

end RichText.Html
