import RichText.Proofs.Html.Elements

/-!
# Character data

The text that is read from HTML is the character data of the source, decoded.  Only links to mail
put something else in its place, so that where no start tag leads to an address of mail each run is
written as it is (`Reading.Literal.flatten_written`).  The runs are what the constructs of the
source leave of it, and with these tile it, whatever the source (`text_read_eq_data`).

A text written without constructs is one run, so that it is read back from every way of writing its
characters (`read_spelled`).
-/

namespace RichText.Html

variable {settings : Settings} {tokens : List Token}

/-! ## Reading without links to mail -/

namespace Reading

variable {reading : Reading}

/-- No open tag has its text replaced. -/
def Literal (reading : Reading) : Prop := ∀ tag ∈ reading.openTags, tag.substitute? = none

lemma literal_start : start.Literal := fun _ member => absurd member List.not_mem_nil

lemma Literal.replaced (literal : reading.Literal) (piece : Text) :
    reading.replaced piece = piece := by
  unfold Reading.replaced
  cases tags : reading.openTags with
  | nil => rfl
  | cons innermost outer =>
    have none := literal innermost (by rw [tags]; exact List.mem_cons_self)
    rw [List.head?_cons, Option.bind_some, none, Option.getD_none]

lemma Literal.startTag (literal : reading.Literal) {tag : Tag} (plain : tag.address? = none) :
    (reading.startTag settings tag.name tag.attributes).Literal := by
  obtain ⟨after, -, step⟩ := take_token settings tag reading
  have started : reading.startTag settings tag.name tag.attributes =
      ⟨after, opened settings tag :: reading.openTags⟩ := step
  rw [started]
  intro other member
  rcases List.mem_cons.1 member with rfl | outer
  · rw [substitute?_opened, plain]
  · exact literal other outer

lemma Literal.endTag (literal : reading.Literal) (name : Text) : (reading.endTag name).Literal :=
  fun tag member => literal tag (List.mem_of_mem_tail member)

/-- No token but the start tag of a link to mail has text replaced. -/
lemma Literal.take (literal : reading.Literal) (settings : Settings) {token : Token}
    (plain : ∀ tag ∈ Token.tags [token], tag.address? = none) :
    (take settings reading token).Literal := by
  cases token with
  | startTag name attributes selfClosing =>
    have started : (reading.startTag settings name attributes).Literal :=
      literal.startTag (plain ⟨name, attributes⟩ (by simp [Token.tags]))
    cases selfClosing with
    | false => exact started
    | true => exact started.endTag name
  | endTag name => exact literal.endTag name
  | text piece => exact literal

/-- **Without links to mail the character data is written as it is.** -/
lemma Literal.flatten_written (literal : reading.Literal)
    (plain : ∀ tag ∈ Token.tags tokens, tag.address? = none) :
    (written settings reading tokens).flatten = Token.data tokens := by
  induction tokens generalizing reading with
  | nil => rfl
  | cons token rest ih =>
    have apart : Token.tags (token :: rest) = Token.tags [token] ++ Token.tags rest :=
      Token.tags_append [token] rest
    rw [apart, List.forall_mem_append] at plain
    have later := ih (literal.take settings plain.1) plain.2
    cases token with
    | startTag name attributes selfClosing => exact later
    | endTag name => exact later
    | text piece =>
      rw [written, List.flatten_cons, literal.replaced]
      exact congrArg (piece ++ ·) later

end Reading

/-! ## Lexemes and the text -/

/-- **The lexemes of a source tile it, and the text is the character data among them.**  None is
empty, so that there are no more of them than characters.  Each is the construct that is read where
it stands, and takes what was read, or a run of character data, in which no bracket starts a
construct and whose token is the run decoded.  Where no link leads to an address of mail, the text
that is read is that of the runs, trimmed. -/
theorem text_read_eq_data (source : Text) :
    let lexemes := Lexeme.readAll source
    let tokens := lexemes.filterMap Lexeme.token?
    lexemes.flatMap Lexeme.source = source ∧ lexemes.length ≤ source.length ∧
      (∀ front lexeme back, lexemes = front ++ lexeme :: back →
        lexeme.source ≠ [] ∧
        (lexeme.IsConstruct (back.flatMap Lexeme.source) ∨
          lexeme.IsRun (back.flatMap Lexeme.source)) ∧
        ∀ piece, lexeme.token? = some (.text piece) →
          lexeme.IsRun (back.flatMap Lexeme.source)) ∧
      ∀ settings, (∀ tag ∈ Token.tags tokens, tag.address? = none) →
        (read settings source).text = (Token.data tokens).trim := by
  intro lexemes tokens
  refine ⟨Lexeme.source_readAll source, Lexeme.length_readAll_le source, ?_, ?_⟩
  · intro front lexeme back split
    have member : lexeme ∈ lexemes := by simp [split]
    have kinds := Lexeme.isConstruct_or_isRun source front lexeme back split
    exact ⟨Lexeme.source_ne_nil member, kinds, fun piece data =>
      kinds.resolve_left fun construct => construct.token?_ne_text piece data⟩
  · intro settings plain
    rw [read, Message.text_trim, Reading.ofSource, Reading.text_foldl_take,
      Reading.literal_start.flatten_written plain]
    rfl

/-- A link and a comment, with a bracket before a blank in front of them and a tag that is never
closed behind. -/
theorem text_read_eq_data_of_brackets :
    Lexeme.readAll "1 < 2<a href=\"x\">b</a><!-- c --> <d".toList =
      [⟨"1 < 2".toList, some (.text "1 < 2".toList)⟩,
        ⟨"<a href=\"x\">".toList, some (.startTag ['a'] [⟨"href".toList, some ['x']⟩] false)⟩,
        ⟨['b'], some (.text ['b'])⟩, ⟨"</a>".toList, some (.endTag ['a'])⟩,
        ⟨"<!-- c -->".toList, none⟩, ⟨" <d".toList, some (.text " <d".toList)⟩] ∧
      Lexeme.IsRun ⟨"1 < 2".toList, some (.text "1 < 2".toList)⟩
        "<a href=\"x\">b</a><!-- c --> <d".toList ∧
      (∀ tag ∈ Token.tags [.startTag ['a'] [⟨"href".toList, some ['x']⟩] false],
        tag.address? = none) ∧
      (read {} "1 < 2<a href=\"x\">b</a><!-- c --> <d".toList).text =
        Text.trim "1 < 2b <d".toList := by
  have lexed : Lexeme.readAll "1 < 2<a href=\"x\">b</a><!-- c --> <d".toList =
      [⟨"1 < 2".toList, some (.text "1 < 2".toList)⟩,
        ⟨"<a href=\"x\">".toList, some (.startTag ['a'] [⟨"href".toList, some ['x']⟩] false)⟩,
        ⟨['b'], some (.text ['b'])⟩, ⟨"</a>".toList, some (.endTag ['a'])⟩,
        ⟨"<!-- c -->".toList, none⟩, ⟨" <d".toList, some (.text " <d".toList)⟩] := by decide +kernel
  have plain : ∀ tag ∈ Token.tags [.startTag ['a'] [⟨"href".toList, some ['x']⟩] false],
      tag.address? = none := by decide
  obtain ⟨-, -, kinds, text⟩ :=
    text_read_eq_data "1 < 2<a href=\"x\">b</a><!-- c --> <d".toList
  have run := (kinds [] ⟨"1 < 2".toList, some (.text "1 < 2".toList)⟩ _ lexed).2.2 _ rfl
  have text := text {}
  simp only [lexed] at text
  exact ⟨lexed, run, plain, text plain⟩

/-! ## Ways of writing a text -/

/-- **A text is read back from every way of writing its characters**, trimmed and without entities.
Escaping is one such way, for text and for values. -/
theorem read_spelled :
    (∀ settings text written, Spelled text written →
      read settings written = ⟨text.trim, []⟩ ∧ unescape written = text) ∧
    ∀ quotes text, Spelled text (escape quotes text) ∧ unescape (escape quotes text) = text := by
  refine ⟨fun settings text written spelled => ⟨?_, unescape_spelled spelled⟩, fun quotes text =>
    ⟨spelled_escape quotes text, unescape_escape quotes text⟩⟩
  have tokenizes : Tokenizes (written ++ []) (Token.join (.text text) []) :=
    Tokenizes.nil.spelled spelled
  rw [List.append_nil] at tokenizes
  have gathered : (Reading.ofSource settings written).gathered = Gathering.empty.append text := by
    rw [Reading.ofSource_eq tokenizes,
      Reading.foldl_join_text (by simp) fun _ => Reading.literal_start.replaced text]
    rfl
  rw [read, gathered, Gathering.text_append, Gathering.entities_append]
  rfl

/-- A character by its name, two by their numbers with zeros in front and digits of either case, and
two as themselves where a reference might go on. -/
theorem read_spelled_numbers :
    Spelled " <é🏆;#".toList " &lt;&#0233;&#X01f3C6;;#".toList ∧
      read {} " &lt;&#0233;&#X01f3C6;;#".toList = ⟨"<é🏆;#".toList, []⟩ := by
  have accented : IsCode 10 'é' "0233".toList := ⟨1, by decide +kernel⟩
  have trophy : IsCode 16 '🏆' "01f3C6".toList := ⟨1, by decide +kernel⟩
  have spelled : Spelled " <é🏆;#".toList " &lt;&#0233;&#X01f3C6;;#".toList :=
    .cons (.literal (by decide) (by decide)) <|
    .cons (.named (show ("lt".toList, '<') ∈ namedCharacters by decide)) <|
    .cons (.decimal accented (by decide)) <|
    .cons (.hexadecimal (.inr rfl) trophy (by decide)) <|
    .cons (.literal (by decide) (by decide)) <|
    .cons (.literal (by decide) (by decide)) .nil
  exact ⟨spelled, (read_spelled.1 {} _ _ spelled).1⟩

end RichText.Html
