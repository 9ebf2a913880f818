import RichText.Proofs.Counting
import RichText.Proofs.Html.Addresses

/-!
# Elements

The reader of HTML takes a source in steps, a tag that closes itself in two.  Tags may stand in any
order, unbalanced or within others of their name, and yet what is open under a name behind some
steps was started by one start tag of that name, under which nothing had been open, and no step
since has ended it.  It is an `Element` of the steps (`exists_element`): it starts where the text
ended at its start tag, and covers what has been written since for runs of character data.  And
every element is open (`Element.isOpen`).

So what is listed at the end tag of a link covers what was written behind its start tag, whatever
tags stand between the two.
-/

namespace RichText.Html

/-! ## Steps -/

namespace Token

/-- The tokens a token is taken as: a tag that closes itself starts and ends. -/
def parts : Token → List Token
  | .startTag name attributes true => [.startTag name attributes false, .endTag name]
  | token => [token]

/-- Whether a token ends what is open under a name. -/
def closes (name : Text) : Token → Bool
  | .startTag other _ selfClosing => selfClosing && other == name
  | .endTag other => other == name
  | .text _ => false

end Token

/-- The steps in which a source is read. -/
def steps (source : Text) : List Token :=
  ((Lexeme.readAll source).filterMap Lexeme.token?).flatMap Token.parts

lemma not_selfClosing_of_mem_steps {source name : Text} {attributes : List Attribute} :
    Token.startTag name attributes true ∉ steps source := by
  intro member
  obtain ⟨token, -, part⟩ := List.mem_flatMap.1 member
  unfold Token.parts at part
  split at part
  · simp at part
  · rename_i other
    exact other name attributes (List.mem_singleton.1 part).symm

namespace Reading

variable {settings : Settings} {reading : Reading} {key name : Text}
  {attributes : List Attribute} {draft : OpenEntity}

/-- Takes tokens, with nothing read before. -/
def ofTokens (settings : Settings) (tokens : List Token) : Reading :=
  tokens.foldl (take settings) start

lemma ofTokens_concat (settings : Settings) (tokens : List Token) (token : Token) :
    ofTokens settings (tokens ++ [token]) = take settings (ofTokens settings tokens) token :=
  List.foldl_concat _ _ _ _

/-- What is read behind a step comes from what was read before it. -/
lemma ofTokens_take_succ (settings : Settings) {tokens : List Token} {token : Token} {count : Nat}
    (step : tokens[count]? = some token) :
    ofTokens settings (tokens.take (count + 1)) =
      take settings (ofTokens settings (tokens.take count)) token := by
  rw [List.take_add_one, step, Option.toList_some, ofTokens_concat]

lemma ofTokens_steps (settings : Settings) (source : Text) :
    ofTokens settings (steps source) = ofSource settings source := by
  have together (reading : Reading) (token : Token) :
      token.parts.foldl (take settings) reading = take settings reading token := by
    unfold Token.parts
    split <;> rfl
  rw [ofTokens, steps, List.foldl_flatMap]
  simp only [together]
  rfl

/-- What is written for the runs of character data among some tokens. -/
def written (settings : Settings) : Reading → List Token → List Text
  | _, [] => []
  | reading, .text piece :: rest =>
    reading.replaced piece :: written settings (reading.text piece) rest
  | reading, token :: rest => written settings (take settings reading token) rest

lemma text_startTag (settings : Settings) (name : Text) (attributes : List Attribute)
    (reading : Reading) :
    (reading.startTag settings name attributes).gathered.text = reading.gathered.text := by
  rcases reading.gathered_startTag settings name attributes with
    ⟨_, revised⟩ | ⟨_, _, -, started⟩ | same
  · rw [revised, Gathering.text_revise]
  · rw [started, Gathering.text_start]
  · rw [same]

lemma entities_startTag (settings : Settings) (name : Text) (attributes : List Attribute)
    (reading : Reading) :
    (reading.startTag settings name attributes).gathered.entities =
      reading.gathered.entities := by
  rcases reading.gathered_startTag settings name attributes with
    ⟨_, revised⟩ | ⟨_, _, -, started⟩ | same
  · rw [revised, Gathering.entities_revise]
  · rw [started, Gathering.entities_start]
  · rw [same]

lemma text_endTag (name : Text) (reading : Reading) :
    (reading.endTag name).gathered.text = reading.gathered.text := by
  unfold endTag
  simp only [Gathering.text_finish]
  split
  · exact text_resolveLink _
  · rfl

/-- **Tokens add what is written for their runs.** -/
lemma text_foldl_take (settings : Settings) (tokens : List Token) (reading : Reading) :
    (tokens.foldl (take settings) reading).gathered.text =
      reading.gathered.text ++ (written settings reading tokens).flatten := by
  induction tokens generalizing reading with
  | nil => exact (List.append_nil _).symm
  | cons token rest ih =>
    rw [List.foldl_cons, ih]
    cases token with
    | startTag name attributes selfClosing =>
      have same : (take settings reading (.startTag name attributes selfClosing)).gathered.text =
          reading.gathered.text := by
        unfold take
        simp only
        split
        · rw [text_endTag, text_startTag]
        · exact text_startTag _ _ _ _
      rw [same, written]
      simp
    | endTag name =>
      rw [take, text_endTag, written, take]
      simp
    | text piece =>
      rw [take, text, written, Gathering.text_append, List.flatten_cons, List.append_assoc]
      rfl

/-! ## What is open behind a step -/

/-- The start tag starts an entity of the kind: it means that kind, nothing is open under its name,
and it does not only name the language of a code block. -/
structure Starts (settings : Settings) (reading : Reading) (name : Text)
    (attributes : List Attribute) (kind : Kind) : Prop where
  means : ∃ substitute?, meaning? settings name attributes = some (kind, substitute?)
  free : reading.gathered.isOpen name = false
  apart : ¬ (name = codeTag ∧ reading.gathered.isOpen preTag = true)

/-- Behind a start tag an entity has just started under its name, or was open before and is as it
was, but for the language of a code block. -/
lemma draft?_startTag
    (found : (reading.startTag settings name attributes).gathered.draft? key = some draft) :
    (key = name ∧ ∃ kind, reading.Starts settings name attributes kind ∧
        draft = .start reading.gathered.units kind) ∨
      ∃ old, reading.gathered.draft? key = some old ∧ draft.offset = old.offset ∧
        draft.length = old.length ∧
        (draft.kind = old.kind ∨ key = preTag ∧ ∃ language, draft.kind = .pre language) := by
  have unchanged (same : reading.gathered.draft? key = some draft) :
      ∃ old, reading.gathered.draft? key = some old ∧ draft.offset = old.offset ∧
        draft.length = old.length ∧
        (draft.kind = old.kind ∨ key = preTag ∧ ∃ language, draft.kind = .pre language) :=
    ⟨draft, same, rfl, rfl, .inl rfl⟩
  unfold startTag at found
  split at found
  · simp only at found
    split at found
    · rename_i language _
      obtain ⟨old, hold, ⟨pre, rfl⟩ | rfl⟩ := Gathering.draft?_revise_eq_some found
      · refine .inr ⟨old, hold, OpenEntity.offset_setLanguage language old,
          OpenEntity.length_setLanguage language old, ?_⟩
        unfold OpenEntity.setLanguage
        split
        · exact .inr ⟨pre, language, rfl⟩
        · exact .inl rfl
      · exact .inr (unchanged hold)
    · exact .inr (unchanged found)
  · rename_i apart
    split at found
    · rename_i kind substitute? means
      cases isOpen : reading.gathered.isOpen name with
      | true =>
        simp only [Gathering.start, isOpen, if_true] at found
        exact .inr (unchanged found)
      | false =>
        rcases Gathering.draft?_start_eq_some found with ⟨rfl, rfl⟩ | old
        · exact .inl ⟨rfl, kind, ⟨⟨substitute?, means⟩, isOpen, apart⟩, rfl⟩
        · exact .inr (unchanged old)
    · exact .inr (unchanged found)

lemma draft?_endTag (found : (reading.endTag name).gathered.draft? key = some draft) :
    key ≠ name ∧ reading.gathered.draft? key = some draft := by
  obtain ⟨other, still⟩ := Gathering.draft?_finish_eq_some found
  refine ⟨other, ?_⟩
  split at still
  · rename_i anchor
    rcases resolveLink_cases reading.gathered with revised | same
    · rw [revised] at still
      obtain ⟨old, hold, ⟨key, -⟩ | rfl⟩ := Gathering.draft?_revise_eq_some still
      · exact absurd (key.trans anchor.symm) other
      · exact hold
    · rwa [same] at still
  · exact still

lemma isOpen_startTag {settings : Settings} {tag name : Text} {attributes : List Attribute}
    {reading : Reading} (isOpen : reading.gathered.isOpen name = true) :
    (reading.startTag settings tag attributes).gathered.isOpen name = true := by
  rcases reading.gathered_startTag settings tag attributes with
    ⟨_, revised⟩ | ⟨kind, _, -, started⟩ | same
  · rw [revised, Gathering.isOpen_revise, isOpen]
  · rw [started]
    by_cases own : name = tag
    · rw [own, Gathering.isOpen_start_self]
    · rw [Gathering.isOpen_start kind own, isOpen]
  · rw [same, isOpen]

lemma isOpen_endTag {tag name : Text} {reading : Reading} (other : name ≠ tag) :
    (reading.endTag tag).gathered.isOpen name = reading.gathered.isOpen name := by
  unfold endTag
  simp only [Gathering.isOpen_finish other]
  split
  · rcases resolveLink_cases reading.gathered with revised | same
    · rw [revised, Gathering.isOpen_revise]
    · rw [same]
  · rfl

/-- What is open stays open until a tag ends it. -/
lemma isOpen_take {settings : Settings} {name : Text} {reading : Reading} {token : Token}
    (isOpen : reading.gathered.isOpen name = true) (stays : token.closes name = false) :
    (take settings reading token).gathered.isOpen name = true := by
  cases token with
  | startTag tag attributes selfClosing =>
    cases selfClosing with
    | false => exact isOpen_startTag isOpen
    | true =>
      have other : tag ≠ name := by simpa [Token.closes] using stays
      exact (isOpen_endTag other.symm).trans (isOpen_startTag isOpen)
  | endTag tag =>
    have other : tag ≠ name := by simpa [Token.closes] using stays
    exact (isOpen_endTag other.symm).trans isOpen
  | text piece => exact (Gathering.isOpen_append _ name).trans isOpen

lemma Starts.isOpen {kind : Kind} (starts : reading.Starts settings name attributes kind) :
    (reading.startTag settings name attributes).gathered.isOpen name = true := by
  obtain ⟨substitute?, means⟩ := starts.means
  unfold startTag
  rw [if_neg starts.apart, means]
  exact Gathering.isOpen_start_self name kind reading.gathered

end Reading

/-! ## Elements -/

/-- What some tokens have started under a name and not ended. -/
structure Element (settings : Settings) (tokens : List Token) (name : Text) where
  /-- The tokens in front of the start tag. -/
  outside : List Token
  attributes : List Attribute
  /-- The kind that the start tag means. -/
  kind : Kind
  /-- The tokens behind the start tag. -/
  inside : List Token
  whole : tokens = outside ++ .startTag name attributes false :: inside
  starts : (Reading.ofTokens settings outside).Starts settings name attributes kind
  lasts : ∀ token ∈ inside, token.closes name = false

namespace Element

variable {settings : Settings} {tokens : List Token} {name : Text}

/-- What was read before the element. -/
def before (element : Element settings tokens name) : Reading := .ofTokens settings element.outside

/-- What was read when the element had started. -/
def opened (element : Element settings tokens name) : Reading :=
  element.before.startTag settings name element.attributes

/-- The text that the element covers: what is written for the runs of character data behind its
start tag. -/
def covered (element : Element settings tokens name) : Text :=
  (element.opened.written settings element.inside).flatten

lemma ofTokens_eq (element : Element settings tokens name) :
    Reading.ofTokens settings tokens =
      element.inside.foldl (Reading.take settings) element.opened :=
  (congrArg (Reading.ofTokens settings) element.whole).trans (List.foldl_append ..)

/-- **An element covers the end of the text.** -/
lemma text_eq (element : Element settings tokens name) :
    (Reading.ofTokens settings tokens).gathered.text =
      element.before.gathered.text ++ element.covered := by
  have opened : element.opened.gathered.text = element.before.gathered.text :=
    Reading.text_startTag _ _ _ _
  rw [element.ofTokens_eq, Reading.text_foldl_take, opened]
  rfl

/-- **An element is open.** -/
lemma isOpen (element : Element settings tokens name) :
    (Reading.ofTokens settings tokens).gathered.isOpen name = true := by
  have stays : ∀ (inside : List Token) (reading : Reading),
      reading.gathered.isOpen name = true → (∀ token ∈ inside, token.closes name = false) →
      (inside.foldl (Reading.take settings) reading).gathered.isOpen name = true := by
    intro inside
    induction inside with
    | nil => exact fun reading isOpen _ => isOpen
    | cons token rest ih =>
      intro reading isOpen lasts
      exact ih _ (Reading.isOpen_take isOpen (lasts token List.mem_cons_self))
        fun other later => lasts other (List.mem_cons_of_mem token later)
  rw [element.ofTokens_eq]
  exact stays element.inside element.opened element.starts.isOpen element.lasts

/-- The element that has just started. -/
def ofStart {attributes : List Attribute} {kind : Kind}
    (starts : (Reading.ofTokens settings tokens).Starts settings name attributes kind) :
    Element settings (tokens ++ [.startTag name attributes false]) name :=
  ⟨tokens, attributes, kind, [], rfl, starts, by simp⟩

/-- The element with one more token. -/
def extend (element : Element settings tokens name) {token : Token}
    (stays : token.closes name = false) : Element settings (tokens ++ [token]) name where
  outside := element.outside
  attributes := element.attributes
  kind := element.kind
  inside := element.inside ++ [token]
  whole := by
    conv_lhs => rw [element.whole]
    simp
  starts := element.starts
  lasts := fun other member => by
    rcases List.mem_append.1 member with old | new
    · exact element.lasts other old
    · rw [List.mem_singleton.1 new]
      exact stays

/-- A token adds to what the element covers what it adds to the text. -/
lemma covered_extend (element : Element settings tokens name) {token : Token}
    (stays : token.closes name = false) {piece : Text}
    (adds : (Reading.take settings (.ofTokens settings tokens) token).gathered.text =
      (Reading.ofTokens settings tokens).gathered.text ++ piece) :
    (element.extend stays).covered = element.covered ++ piece := by
  have whole := (element.extend stays).text_eq
  rw [Reading.ofTokens_concat, adds, element.text_eq, List.append_assoc] at whole
  exact (List.append_cancel_left whole).symm

/-- The draft counts what the element covers, and is of its kind.  A code block may have been given
another language. -/
structure Counts (element : Element settings tokens name) (draft : OpenEntity) : Prop where
  offset : draft.offset = Utf16.length element.before.gathered.text
  length : draft.length = Utf16.length element.covered
  kind : draft.kind = element.kind ∨ name = preTag ∧ ∃ language, draft.kind = .pre language

/-- A token that leaves the element open and writes nothing leaves the count as it was. -/
lemma Counts.extend {element : Element settings tokens name} {old draft : OpenEntity}
    (counts : element.Counts old) {token : Token} (stays : token.closes name = false)
    (same : (Reading.take settings (.ofTokens settings tokens) token).gathered.text =
      (Reading.ofTokens settings tokens).gathered.text)
    (offset : draft.offset = old.offset) (length : draft.length = old.length)
    (kind : draft.kind = old.kind ∨ name = preTag ∧ ∃ language, draft.kind = .pre language) :
    (element.extend stays).Counts draft := by
  refine ⟨offset.trans counts.offset, ?_, ?_⟩
  · rw [element.covered_extend stays (same.trans (List.append_nil _).symm), List.append_nil, length]
    exact counts.length
  · rcases kind with unchanged | language
    · rw [unchanged]
      exact counts.kind
    · exact .inr language

/-- A token that adds to the text is counted. -/
lemma Counts.grow {element : Element settings tokens name} {old : OpenEntity}
    (counts : element.Counts old) {token : Token} (stays : token.closes name = false) {piece : Text}
    (adds : (Reading.take settings (.ofTokens settings tokens) token).gathered.text =
      (Reading.ofTokens settings tokens).gathered.text ++ piece) :
    (element.extend stays).Counts (old.grow (Utf16.length piece)) := by
  refine ⟨counts.offset, ?_, counts.kind⟩
  rw [element.covered_extend stays adds, ← Utf16.clamp_length_add, ← counts.length]
  rfl

end Element

/-- **What is open is an element**, and counts what it covers. -/
lemma exists_element {settings : Settings} {tokens : List Token} {name : Text}
    {draft : OpenEntity}
    (isOpen : (Reading.ofTokens settings tokens).gathered.draft? name = some draft) :
    ∃ element : Element settings tokens name, element.Counts draft := by
  induction tokens using List.reverseRecOn generalizing draft with
  | nil => simp [Reading.ofTokens, Reading.start] at isOpen
  | append_singleton tokens token ih =>
    rw [Reading.ofTokens_concat] at isOpen
    cases token with
    | startTag tag attributes selfClosing =>
      cases selfClosing with
      | false =>
        rcases Reading.draft?_startTag isOpen with
          ⟨rfl, kind, starts, rfl⟩ | ⟨old, hold, offset, length, sameKind⟩
        · have built : (Reading.ofTokens settings tokens).gathered.Built :=
            (keeps_built settings).foldl .empty tokens
          exact ⟨.ofStart starts, built.counted.units, rfl, .inl rfl⟩
        · obtain ⟨element, counts⟩ := ih hold
          exact ⟨_, counts.extend rfl (Reading.text_startTag _ _ _ _) offset length sameKind⟩
      | true =>
        obtain ⟨other, still⟩ := Reading.draft?_endTag isOpen
        rcases Reading.draft?_startTag still with
          ⟨same, -⟩ | ⟨old, hold, offset, length, sameKind⟩
        · exact absurd same other
        · obtain ⟨element, counts⟩ := ih hold
          exact ⟨_, counts.extend (by simpa [Token.closes] using Ne.symm other)
            ((Reading.text_endTag _ _).trans (Reading.text_startTag _ _ _ _)) offset length
            sameKind⟩
    | endTag tag =>
      obtain ⟨other, old⟩ := Reading.draft?_endTag isOpen
      obtain ⟨element, counts⟩ := ih old
      exact ⟨_, counts.extend (by simpa [Token.closes] using Ne.symm other)
        (Reading.text_endTag _ _) rfl rfl (.inl rfl)⟩
    | text piece =>
      have adds : (Reading.take settings (.ofTokens settings tokens) (.text piece)).gathered.text =
          (Reading.ofTokens settings tokens).gathered.text ++
            (Reading.ofTokens settings tokens).replaced piece := Gathering.text_append _ _
      by_cases empty : (Reading.ofTokens settings tokens).replaced piece = []
      · rw [Reading.take, Reading.text, empty] at isOpen
        obtain ⟨element, counts⟩ := ih isOpen
        exact ⟨_, counts.extend rfl (by rw [adds, empty, List.append_nil]) rfl rfl (.inl rfl)⟩
      · rw [Reading.take, Reading.text, Gathering.draft?_append name empty] at isOpen
        obtain ⟨old, before, rfl⟩ := Option.map_eq_some_iff.1 isOpen
        obtain ⟨element, counts⟩ := ih before
        exact ⟨_, counts.grow rfl adds⟩

end RichText.Html
