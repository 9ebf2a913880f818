import RichText.Html.Lexeme
import RichText.Proofs.Html.References

/-!
# Reading written tags

How tags are read when they were written with care: the attributes of a tag come back whatever
their values hold (`Attribute.readAll_sources`), since what was escaped does (`unescape_escape`),
and a tag ends at its own `>` (`constructAt?_source`, `constructAt?_endSource`).

A `Tag` is a start tag to be written: its name and its attributes.  It is `Plain` if its names are
made of small letters and marks that mean nothing, and a value without quotation marks of digits.
-/

namespace RichText.Html

/-! ## Attributes -/

namespace Attribute

/-- A key that reads as it is written. -/
def PlainKey (key : Text) : Prop := key ≠ [] ∧ ∀ c ∈ key, endsKey c = false ∧ c.toLower = c

instance (key : Text) : Decidable (PlainKey key) :=
  decidable_of_iff (key ≠ [] ∧ key.all (fun c => !endsKey c && c.toLower == c) = true) <| by
    simp [PlainKey]

lemma lower_eq_self {text : Text} (h : ∀ c ∈ text, c.toLower = c) : Text.lower text = text := by
  rw [Text.lower, List.map_congr_left h, List.map_id'']
  intro c
  rfl

lemma readAll_of_dropWhile {text rest : Text} {first : Char}
    (h : text.dropWhile isSeparator = first :: rest) :
    readAll text =
      if (next first rest).1.key.isEmpty then readAll (next first rest).2
      else (next first rest).1 :: readAll (next first rest).2 := by
  rw [readAll]
  split
  · simp_all
  · rename_i heq
    rw [h] at heq
    cases heq
    rfl

lemma readAll_of_separators {text : Text} (h : text.dropWhile isSeparator = []) :
    readAll text = [] := by
  rw [readAll]
  split
  · rfl
  · simp_all

@[simp] lemma readAll_nil : readAll [] = [] := readAll_of_separators rfl

section Key

variable {first : Char} {key rest : Text}

lemma PlainKey.first_apart (plain : PlainKey (first :: key)) :
    isBlank first = false ∧ first ≠ '=' ∧ first ≠ '/' := by
  have inKey := (plain.2 first List.mem_cons_self).1
  simpa [endsKey, and_assoc] using inKey

lemma PlainKey.found (plain : PlainKey (first :: key)) :
    (' ' :: (first :: key) ++ rest).dropWhile isSeparator = first :: (key ++ rest) := by
  obtain ⟨visible, -, slash⟩ := plain.first_apart
  rw [List.cons_append, List.dropWhile_cons_of_pos (by decide), List.cons_append,
    List.dropWhile_cons_of_neg (by simp [isSeparator, visible, slash])]

lemma PlainKey.split (plain : PlainKey (first :: key)) (rest : Text)
    (ends : ∀ c ∈ rest.head?, endsKey c = true) :
    (key ++ rest).takeWhile (!endsKey ·) = key ∧ (key ++ rest).dropWhile (!endsKey ·) = rest := by
  have inside : ∀ c ∈ key, (!endsKey c) = true := fun c member => by
    rw [(plain.2 c (List.mem_cons_of_mem _ member)).1]
    rfl
  have stops : ∀ c ∈ rest.head?, (!endsKey c) = false := fun c member => by
    rw [ends c member]
    rfl
  exact ⟨Text.takeWhile_row inside stops, Text.dropWhile_row inside stops⟩

lemma PlainKey.lower_eq (plain : PlainKey key) : Text.lower key = key :=
  lower_eq_self fun c member => (plain.2 c member).2

end Key

lemma readAll_valued {key : Text} (plain : PlainKey key) (value : Text) :
    readAll (' ' :: key ++ '=' :: value) =
      ⟨key, some (unescape (splitValue (Text.trimStart value)).1)⟩ ::
        readAll (splitValue (Text.trimStart value)).2 := by
  cases key with
  | nil => exact absurd rfl plain.1
  | cons first key =>
    obtain ⟨taken, left⟩ := plain.split ('=' :: value) (by rintro _ ⟨⟩; rfl)
    have trimmed : Text.trimStart ('=' :: value) = '=' :: value := rfl
    rw [readAll_of_dropWhile plain.found]
    simp only [next, plain.first_apart.2.1, if_false, taken, left, trimmed, plain.lower_eq]
    rfl

/-- **A quoted value is read up to its closing quotation mark**, whatever it holds and whatever
follows. -/
lemma readAll_quoted {key value : Text} (plain : PlainKey key) (closed : '\x22' ∉ value)
    (rest : Text) :
    readAll (' ' :: key ++ '=' :: '\x22' :: (value ++ '\x22' :: rest)) =
      ⟨key, some (unescape value)⟩ :: readAll rest := by
  have inside : ∀ c ∈ value, decide (c ≠ '\x22') = true := by
    intro c member
    rw [decide_eq_true_eq]
    rintro rfl
    exact closed member
  have taken : (value ++ '\x22' :: rest).takeWhile (fun c => decide (c ≠ '\x22')) = value :=
    Text.takeWhile_row inside (by rintro _ ⟨⟩; rfl)
  have split : splitValue (Text.trimStart ('\x22' :: (value ++ '\x22' :: rest))) =
      (value, rest) := by
    show splitValue ('\x22' :: (value ++ '\x22' :: rest)) = _
    simp only [splitValue, true_or, if_true, taken]
    simp
  rw [readAll_valued plain, split]

/-- A value without quotation marks is read up to a blank or the end of the tag. -/
lemma readAll_unquoted {key value rest : Text} (plain : PlainKey key) (filled : value ≠ [])
    (characters : ∀ c ∈ value, isBlank c = false ∧ c ≠ '\x22' ∧ c ≠ '\x27')
    (behind : rest.head?.all isBlank) :
    readAll (' ' :: key ++ '=' :: (value ++ rest)) =
      ⟨key, some (unescape value)⟩ :: readAll rest := by
  have inside : ∀ c ∈ value, (!isBlank c) = true := fun c member => by
    rw [(characters c member).1]
    rfl
  have stops : ∀ c ∈ rest.head?, (!isBlank c) = false := fun c member => by
    rw [(Option.all_eq_true _ _).1 behind c member]
    rfl
  have split : splitValue (Text.trimStart (value ++ rest)) = (value, rest) := by
    cases value with
    | nil => exact absurd rfl filled
    | cons first more =>
      obtain ⟨visible, double, single⟩ := characters first List.mem_cons_self
      rw [Text.trimStart, List.cons_append, List.dropWhile_cons_of_neg (by simp [visible]),
        ← List.cons_append]
      simp only [splitValue, List.cons_append, double, single, or_self, if_false]
      rw [← List.cons_append, Text.takeWhile_row inside stops, Text.dropWhile_row inside stops]
  rw [readAll_valued plain, split]

end Attribute

/-! ## Where tags end -/

namespace Lexeme

/-- A text without quotation marks and angle brackets. -/
def Unmarked (text : Text) : Prop := ∀ c ∈ text, c ≠ '\x22' ∧ c ≠ '\x27' ∧ c ≠ '<' ∧ c ≠ '>'

instance (text : Text) : Decidable (Unmarked text) :=
  decidable_of_iff ((text.all fun c => !(['\x22', '\x27', '<', '>'].contains c)) = true) <| by
    simp [Unmarked]

/-- A tag goes on through a text without marks. -/
lemma tagEndIndex?_append {front : Text} (plain : Unmarked front) (rest : Text) :
    tagEndIndex? none (front ++ rest) = (tagEndIndex? none rest).map (· + front.length) := by
  induction front with
  | nil => simp
  | cons c front ih =>
    obtain ⟨double, single, lt, gt⟩ := plain c List.mem_cons_self
    simp only [List.cons_append, tagEndIndex?, double, single, lt, gt, or_self, if_false,
      ih fun d member => plain d (List.mem_cons_of_mem _ member), Option.map_map,
      List.length_cons]
    congr 1

lemma tagEndIndex?_inQuotes {value : Text} (closed : '\x22' ∉ value) (rest : Text) :
    tagEndIndex? (some '\x22') (value ++ '\x22' :: rest) =
      (tagEndIndex? none rest).map (· + (value.length + 1)) := by
  induction value with
  | nil => simp [tagEndIndex?]
  | cons c value ih =>
    rw [List.mem_cons, not_or] at closed
    simp only [List.cons_append, tagEndIndex?, Ne.symm closed.1, if_false, ih closed.2,
      Option.map_map, List.length_cons]
    congr 1

lemma tagEndIndex?_quoted {value : Text} (closed : '\x22' ∉ value) (rest : Text) :
    tagEndIndex? none ('\x22' :: (value ++ '\x22' :: rest)) =
      (tagEndIndex? none rest).map (· + (value.length + 2)) := by
  simp only [tagEndIndex?, true_or, if_true, tagEndIndex?_inQuotes closed, Option.map_map]
  congr 1

lemma closeIndex?_append {front : Text} (plain : Unmarked front) (rest : Text) :
    closeIndex? (front ++ '>' :: rest) = some front.length := by
  induction front with
  | nil => rfl
  | cons c front ih =>
    obtain ⟨-, -, lt, gt⟩ := plain c List.mem_cons_self
    simp only [List.cons_append, closeIndex?, gt, lt, if_false,
      ih fun d member => plain d (List.mem_cons_of_mem _ member), Option.map_some,
      List.length_cons]

end Lexeme

/-! ## Written tags -/

/-- The key of the attribute that names a document. -/
def documentKey : Text := "document_id".toList

namespace Attribute

/-- What stands in a tag for an attribute with a value.  A document stands there as it is, any
other value is escaped and put in quotation marks. -/
def source (attr : Attribute) : Text :=
  let value := attr.value.getD []
  if attr.key = documentKey then ' ' :: attr.key ++ '=' :: value
  else ' ' :: attr.key ++ '=' :: '\x22' :: (escape true value ++ ['\x22'])

/-- An attribute that is read as it is written. -/
structure Plain (attr : Attribute) : Prop where
  key : PlainKey attr.key
  marks : Lexeme.Unmarked attr.key
  valued : attr.value.isSome
  document : attr.key = documentKey →
    attr.value ≠ some [] ∧ ∀ c ∈ attr.value.getD [], isDigit c ∨ c = '-'

variable {attr : Attribute}

lemma source_eq (attr : Attribute) : ∃ rest, attr.source = ' ' :: rest := by
  unfold source
  split
  · exact ⟨_, rfl⟩
  · exact ⟨_, rfl⟩

lemma source_of_document (document : attr.key = documentKey) :
    attr.source = (' ' :: attr.key ++ ['=']) ++ attr.value.getD [] := by
  simp [source, document]

lemma source_of_quoted (quoted : attr.key ≠ documentKey) :
    attr.source =
      (' ' :: attr.key ++ ['=']) ++ '\x22' :: (escape true (attr.value.getD []) ++ ['\x22']) := by
  simp [source, quoted]

lemma head?_sources (attributes : List Attribute) :
    (attributes.flatMap source).head?.all isBlank := by
  cases attributes with
  | nil => rfl
  | cons attr attributes =>
    obtain ⟨rest, starts⟩ := source_eq attr
    rw [List.flatMap_cons, starts]
    rfl

lemma digit_notMem {c : Char} (h : isDigit c ∨ c = '-') :
    c ∉ ['&', '/', '\x22', '\x27', '<', '>'] := by
  have range := toNat_of_digit h
  intro member
  simp only [List.mem_cons, List.not_mem_nil, or_false] at member
  rcases member with rfl | rfl | rfl | rfl | rfl | rfl
  · exact absurd h (by decide)
  · exact absurd h (by decide)
  all_goals exact absurd range (by decide)

/-- **An attribute is read as it was written.** -/
lemma Plain.readAll_source_append (plain : attr.Plain) {rest : Text}
    (behind : rest.head?.all isBlank) : readAll (attr.source ++ rest) = attr :: readAll rest := by
  obtain ⟨value, hvalue⟩ := Option.isSome_iff_exists.1 plain.valued
  have same : (⟨attr.key, some value⟩ : Attribute) = attr := by
    rw [← hvalue]
  by_cases document : attr.key = documentKey
  · obtain ⟨filled, digits⟩ := plain.document document
    rw [hvalue] at filled digits
    have characters : ∀ c ∈ value, isBlank c = false ∧ c ≠ '\x22' ∧ c ≠ '\x27' := by
      intro c member
      have mark := digit_notMem (digits c member)
      simp only [List.mem_cons, not_or] at mark
      exact ⟨isBlank_of_digit (digits c member), mark.2.2.1, mark.2.2.2.1⟩
    have literal : unescape value = value := by
      refine unescape_eq_self fun member => ?_
      exact digit_notMem (digits '&' member) (by decide)
    have read := readAll_unquoted plain.key (fun h => filled (by rw [h])) characters behind
    rw [literal, same] at read
    simpa [source, document, hvalue] using read
  · have read := readAll_quoted plain.key (quote_notMem_escape value) rest
    rw [unescape_escape, same] at read
    simpa [source, document, hvalue] using read

lemma readAll_sources {attributes : List Attribute} (plain : ∀ attr ∈ attributes, attr.Plain) :
    readAll (attributes.flatMap source) = attributes := by
  induction attributes with
  | nil => exact readAll_nil
  | cons attr attributes ih =>
    rw [List.flatMap_cons,
      (plain attr List.mem_cons_self).readAll_source_append (head?_sources attributes),
      ih fun other member => plain other (List.mem_cons_of_mem _ member)]

/-- A tag goes on through an attribute. -/
lemma Plain.tagEndIndex?_source_append (plain : attr.Plain) (rest : Text) :
    Lexeme.tagEndIndex? none (attr.source ++ rest) =
      (Lexeme.tagEndIndex? none rest).map (· + attr.source.length) := by
  have front : Lexeme.Unmarked (' ' :: attr.key ++ ['=']) := by
    intro c member
    simp only [List.cons_append, List.mem_cons, List.mem_append, List.not_mem_nil,
      or_false] at member
    rcases member with rfl | inKey | rfl
    · decide
    · exact plain.marks c inKey
    · decide
  by_cases document : attr.key = documentKey
  · rw [source_of_document document]
    refine Lexeme.tagEndIndex?_append (fun c member => ?_) rest
    rcases List.mem_append.1 member with inFront | digit
    · exact front c inFront
    · have mark := digit_notMem ((plain.document document).2 c digit)
      simp only [List.mem_cons, List.not_mem_nil, or_false, not_or] at mark
      exact mark.2.2
  · have whole : attr.source ++ rest = (' ' :: attr.key ++ ['=']) ++
        '\x22' :: (escape true (attr.value.getD []) ++ '\x22' :: rest) := by
      simp [source_of_quoted document]
    rw [whole, source_of_quoted document, Lexeme.tagEndIndex?_append front,
      Lexeme.tagEndIndex?_quoted (quote_notMem_escape _), Option.map_map]
    congr 1
    funext index
    simp only [Function.comp_apply, List.length_append, List.length_cons, List.length_nil]
    omega

lemma tagEndIndex?_sources {attributes : List Attribute}
    (plain : ∀ attr ∈ attributes, attr.Plain) (rest : Text) :
    Lexeme.tagEndIndex? none (attributes.flatMap source ++ '>' :: rest) =
      some (attributes.flatMap source).length := by
  induction attributes with
  | nil => rfl
  | cons attr attributes ih =>
    rw [List.flatMap_cons, List.append_assoc,
      (plain attr List.mem_cons_self).tagEndIndex?_source_append,
      ih fun other member => plain other (List.mem_cons_of_mem _ member), Option.map_some,
      List.length_append, Nat.add_comm]

/-- An attribute does not end in a slash. -/
lemma Plain.getLast?_source (plain : attr.Plain) :
    ∃ last, attr.source.getLast? = some last ∧ last ≠ '/' := by
  by_cases document : attr.key = documentKey
  · obtain ⟨filled, digits⟩ := plain.document document
    obtain ⟨value, hvalue⟩ := Option.isSome_iff_exists.1 plain.valued
    rw [hvalue] at filled digits
    have nonempty : value ≠ [] := fun h => filled (by rw [h])
    refine ⟨value.getLast nonempty, ?_, ?_⟩
    · rw [source_of_document document, List.getLast?_append, hvalue, Option.getD_some,
        List.getLast?_eq_some_getLast nonempty, Option.some_or]
    · have mark := digit_notMem (digits _ (List.getLast_mem nonempty))
      simp only [List.mem_cons, not_or] at mark
      exact mark.2.1
  · refine ⟨'\x22', ?_, by decide⟩
    rw [source_of_quoted document, ← List.cons_append, List.getLast?_append,
      List.getLast?_append]
    rfl

lemma getLast?_append_sources {front : Text} (hfront : front.getLast? ≠ some '/')
    {attributes : List Attribute} (plain : ∀ attr ∈ attributes, attr.Plain) :
    (front ++ attributes.flatMap source).getLast? ≠ some '/' := by
  induction attributes generalizing front with
  | nil => simpa using hfront
  | cons attr attributes ih =>
    rw [List.flatMap_cons, ← List.append_assoc]
    refine ih ?_ fun other member => plain other (List.mem_cons_of_mem _ member)
    obtain ⟨last, hlast, slash⟩ := (plain attr List.mem_cons_self).getLast?_source
    rw [List.getLast?_append, hlast]
    simpa using slash

end Attribute

/-- A start tag to be written. -/
structure Tag where
  name : Text
  attributes : List Attribute
  deriving DecidableEq, Repr

namespace Tag

/-- What stands between the brackets of a tag. -/
def inside (tag : Tag) : Text := tag.name ++ tag.attributes.flatMap Attribute.source

def source (tag : Tag) : Text := '<' :: (tag.inside ++ ['>'])

/-- The end tag that belongs to a tag. -/
def endSource (tag : Tag) : Text := '<' :: '/' :: (tag.name ++ ['>'])

def token (tag : Tag) : Token := .startTag tag.name tag.attributes false

def endToken (tag : Tag) : Token := .endTag tag.name

/-- A name that reads as it is written. -/
def PlainName (name : Text) : Prop :=
  name.head?.any isLetter ∧ ∀ c ∈ name, Lexeme.endsName c = false ∧ c.toLower = c

instance (name : Text) : Decidable (PlainName name) :=
  decidable_of_iff (name.head?.any isLetter = true ∧
    name.all (fun c => !Lexeme.endsName c && c.toLower == c) = true) <| by
    simp [PlainName]

/-- A tag that is read as it is written. -/
structure Plain (tag : Tag) : Prop where
  name : PlainName tag.name
  marks : Lexeme.Unmarked tag.name
  attributes : ∀ attr ∈ tag.attributes, attr.Plain

variable {tag : Tag}

lemma Plain.tagName_append (plain : tag.Plain) {rest : Text}
    (behind : rest.head?.all isBlank) : Lexeme.tagName (tag.name ++ rest) = tag.name := by
  have inName : ∀ c ∈ tag.name, (!Lexeme.endsName c) = true := fun c member => by
    rw [(plain.name.2 c member).1]
    rfl
  have stops : ∀ c ∈ rest.head?, (!Lexeme.endsName c) = false := fun c member => by
    simp [Lexeme.endsName, (Option.all_eq_true _ _).1 behind c member]
  rw [Lexeme.tagName, Text.takeWhile_row inName stops,
    Attribute.lower_eq_self fun c member => (plain.name.2 c member).2]

lemma Plain.startTag_inside (plain : tag.Plain) : Lexeme.startTag tag.inside = tag.token := by
  have last : tag.inside.getLast? ≠ some '/' := by
    refine Attribute.getLast?_append_sources (fun h => ?_) plain.attributes
    have ends := (plain.name.2 '/' (List.mem_of_getLast? h)).1
    exact absurd ends (by decide)
  have open' : (tag.inside.getLast? == some '/') = false := by simpa using last
  have name : Lexeme.tagName tag.inside = tag.name :=
    plain.tagName_append (Attribute.head?_sources tag.attributes)
  have left : tag.inside.drop tag.name.length = tag.attributes.flatMap Attribute.source :=
    List.drop_left
  simp only [Lexeme.startTag, open', Bool.false_eq_true, if_false, name, left,
    Attribute.readAll_sources plain.attributes, token]

/-- **A start tag is read as it was written.** -/
lemma Plain.constructAt?_source (plain : tag.Plain) (rest : Text) :
    Lexeme.constructAt? (tag.source ++ rest) =
      some (some tag.token, tag.inside.length + 1) := by
  have index : Lexeme.tagEndIndex? none (tag.inside ++ '>' :: rest) =
      some tag.inside.length := by
    rw [inside, List.append_assoc, Lexeme.tagEndIndex?_append plain.marks,
      Attribute.tagEndIndex?_sources plain.attributes, Option.map_some, List.length_append,
      Nat.add_comm]
  have taken : (tag.inside ++ '>' :: rest).take tag.inside.length = tag.inside := List.take_left
  have read : Lexeme.construct? (tag.inside ++ '>' :: rest) =
      some (some tag.token, tag.inside.length + 1) := by
    have letter := plain.name.1
    cases hname : tag.name with
    | nil => simp [hname] at letter
    | cons first name =>
      rw [hname] at letter
      have hinside : tag.inside = first :: (name ++ tag.attributes.flatMap Attribute.source) := by
        rw [inside, hname, List.cons_append]
      simp only [List.head?_cons, Option.any_some] at letter
      have notMark : first ≠ '!' ∧ first ≠ '?' ∧ first ≠ '/' := by
        refine ⟨?_, ?_, ?_⟩ <;> rintro rfl <;> exact absurd letter (by decide)
      rw [hinside, List.cons_append] at index taken ⊢
      simp only [Lexeme.construct?, notMark, false_and, or_self, if_false, letter, if_true, index,
        Option.map_some, taken]
      rw [← hinside, plain.startTag_inside]
  rw [source, List.cons_append, List.append_assoc, List.singleton_append]
  simp only [Lexeme.constructAt?, if_true, read]

/-- **An end tag is read as it was written.** -/
lemma Plain.constructAt?_endSource (plain : tag.Plain) (rest : Text) :
    Lexeme.constructAt? (tag.endSource ++ rest) =
      some (some tag.endToken, tag.name.length + 2) := by
  have index : Lexeme.closeIndex? (tag.name ++ '>' :: rest) = some tag.name.length :=
    Lexeme.closeIndex?_append plain.marks rest
  have taken : (tag.name ++ '>' :: rest).take tag.name.length = tag.name := List.take_left
  have name : Lexeme.tagName (tag.name ++ []) = tag.name := plain.tagName_append rfl
  rw [List.append_nil] at name
  have letter : (tag.name ++ '>' :: rest).head?.any isLetter := by
    have := plain.name.1
    cases hname : tag.name with
    | nil => simp [hname] at this
    | cons first name => simpa [hname] using this
  have source : tag.endSource ++ rest = '<' :: '/' :: (tag.name ++ '>' :: rest) := by
    simp [endSource]
  have notMark : ('/' : Char) ≠ '!' ∧ ('/' : Char) ≠ '?' := by decide
  simp only [source, Lexeme.constructAt?, if_true, Lexeme.construct?, notMark, false_and, or_self,
    if_false, letter, index, Option.map_some, taken, name, endToken]

end Tag

end RichText.Html
