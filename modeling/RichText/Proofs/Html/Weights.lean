import Mathlib.Tactic.Ring
import RichText.Message
import RichText.Proofs.Html.EmojiElements

/-!
# The weight of tags

Tokens tell how much text each tag holds: the `weight` of a list of tokens counts every character
of its data once for each element that is open around it.  It does not matter how the data falls
into runs (`weight_merge`), and for the tokens of a forest it is a sum over its spans, each with the
length of the text that it covers once for each of its tags (`weight_tokensOf`).

So markup tells, as its tags do not, whether an entity has been cut off: messages that are written
alike have one weight (`messageWeight_eq`), and a span that ends before its entity does adds less to
it than the entity has (`nodeWeight_lt`).
-/

namespace RichText.Html

variable {settings : Settings} {text : Text}

namespace Token

/-- The characters of the data among tokens, each counted once for each element around it, of which
`depth` are open before the first token. -/
def weight (depth : Nat) : List Token → Nat
  | [] => 0
  | .startTag _ _ _ :: tokens => weight (depth + 1) tokens
  | .endTag _ :: tokens => weight (depth - 1) tokens
  | .text piece :: tokens => depth * piece.length + weight depth tokens

lemma weight_join (depth : Nat) (token : Token) (tokens : List Token) :
    weight depth (join token tokens) = weight depth (token :: tokens) := by
  unfold join
  split
  · split
    · rename_i empty
      simp [weight, empty]
    · split
      · simp only [weight, List.length_append, Nat.mul_add, Nat.add_assoc]
      · rfl
  · rfl

lemma weight_merge (depth : Nat) (tokens : List Token) :
    weight depth (merge tokens) = weight depth tokens := by
  induction tokens generalizing depth with
  | nil => rfl
  | cons token tokens ih =>
    rw [merge, List.foldr_cons, ← merge, weight_join]
    cases token <;> simp only [weight, ih]

lemma weight_tokens_append (depth : Nat) (tags : List Tag) (tokens : List Token) :
    weight depth (tags.map Tag.token ++ tokens) = weight (depth + tags.length) tokens := by
  induction tags generalizing depth with
  | nil => rfl
  | cons tag tags ih =>
    rw [List.map_cons, List.cons_append, Tag.token, weight, ih, List.length_cons, Nat.add_assoc,
      Nat.add_comm 1]

lemma weight_endTokens_append (depth : Nat) (tags : List Tag) (tokens : List Token) :
    weight (depth + tags.length) (tags.map Tag.endToken ++ tokens) = weight depth tokens := by
  induction tags with
  | nil => rfl
  | cons tag tags ih =>
    rw [List.map_cons, List.cons_append, Tag.endToken, weight, List.length_cons, ← Nat.add_assoc,
      Nat.add_sub_cancel, ih]

end Token

/-- What a span adds to the weight: the characters that it covers, once for each of its tags. -/
def nodeWeight (settings : Settings) (units : List CodeUnit) (node : Span × Forest) : Nat :=
  (spanTags settings units node.1 node.2).length *
    (Utf16.slice units node.1.start node.1.stop).length

/-- **The weight of a forest is the sum over its spans**, beside what its stretch has anyway. -/
lemma weight_tokensOf {forest : Forest} {position limit : Nat}
    (within : forest.Within position limit) (depth : Nat) (tokens : List Token) :
    Token.weight depth (tokensOf settings (Utf16.encode text) position limit forest ++ tokens) =
      depth * (Utf16.slice (Utf16.encode text) position limit).length +
        (forest.nodes.map (nodeWeight settings (Utf16.encode text))).sum +
        Token.weight depth tokens := by
  induction forest generalizing position limit depth tokens with
  | nil => simp [tokensOf, Token.weight, Forest.nodes]
  | cons span inner after ihInner ihAfter =>
    obtain ⟨first, hinner, hafter⟩ := within
    have whole : (Utf16.slice (Utf16.encode text) position limit).length =
        (Utf16.slice (Utf16.encode text) position span.start).length +
          (Utf16.slice (Utf16.encode text) span.start span.stop).length +
          (Utf16.slice (Utf16.encode text) span.stop limit).length := by
      rw [← List.length_append, ← List.length_append, Utf16.slice_append first hinner.le,
        Utf16.slice_append (first.trans hinner.le) hafter.le]
    have closed := Token.weight_endTokens_append depth
      (spanTags settings (Utf16.encode text) span inner).reverse
      (tokensOf settings (Utf16.encode text) span.stop limit after ++ tokens)
    rw [List.length_reverse] at closed
    simp only [tokensOf, List.cons_append, List.append_assoc, Token.weight,
      Token.weight_tokens_append, ihInner hinner, closed, ihAfter hafter, Forest.nodes,
      List.map_cons, List.map_append, List.sum_cons, List.sum_append, nodeWeight, whole]
    ring

/-- The weight of a message: what the spans of its nesting add. -/
def messageWeight (settings : Settings) (text : Text) (entities : List Entity) : Nat :=
  ((Forest.ofEntities (Utf16.unitCount text) entities).nodes.map
    (nodeWeight settings (Utf16.encode text))).sum

lemma weight_message (settings : Settings) (text : Text) (entities : List Entity) :
    ∃ tokens, Tokenizes (style.write settings text entities) tokens ∧
      Token.weight 0 tokens = messageWeight settings text entities := by
  have within : Forest.Within 0 (Utf16.unitCount text)
      (Forest.ofEntities (Utf16.unitCount text) entities) := Forest.within_nest (Nat.zero_le _) _
  refine ⟨_, tokenizes_message settings text entities, ?_⟩
  rw [Token.weight_merge, Utf16.length_encode, ← List.append_nil (tokensOf _ _ _ _ _),
    weight_tokensOf within, messageWeight]
  simp [Token.weight]

/-- **Messages that are written alike have one weight.** -/
lemma messageWeight_eq {entities others : List Entity}
    (same : style.write settings text entities = style.write settings text others) :
    messageWeight settings text entities = messageWeight settings text others := by
  obtain ⟨tokens, reads, weight⟩ := weight_message settings text entities
  obtain ⟨further, readsToo, other⟩ := weight_message settings text others
  rw [same, Tokenizes, readsToo] at reads
  rw [← weight, ← other, (List.map_inj_right fun _ _ => Option.some.inj).1 reads]

/-! ## The weight of an entity -/

lemma length_tagsOf (settings : Settings) (kind : Kind) (raw other : Text) :
    (tagsOf settings kind raw).length = (tagsOf settings kind other).length := by
  cases kind <;> rfl

/-- What a span adds if it has all that its entity covers within the tags of the entity. -/
def entityWeight (settings : Settings) (units : List CodeUnit) (entity : Entity) : Nat :=
  (tagsOf settings entity.kind []).length * (entity.covered units).length

variable {span : Span} {inner : Forest}

/-- What a span is cut off by is what its text is short of. -/
lemma length_slice_add_rest (text : Text) (start : span.start = span.entity.offset.toNat)
    (order : span.start ≤ span.stop) (stop : span.stop ≤ span.start + span.entity.length.toNat) :
    (Utf16.slice (Utf16.encode text) span.start span.stop).length +
        (Utf16.slice (Utf16.encode text) span.stop
          (span.start + span.entity.length.toNat)).length =
      (span.entity.covered (Utf16.encode text)).length := by
  rw [← List.length_append, Utf16.slice_append order stop, Entity.covered, ← start]

lemma length_spanTags_le (settings : Settings) (units : List CodeUnit) (span : Span)
    (inner : Forest) : (spanTags settings units span inner).length ≤
      (tagsOf settings span.entity.kind []).length := by
  rw [length_tagsOf settings _ [] (Utf16.slice units span.start span.stop)]
  exact (Token.spanTags_sublist span inner).length_le

lemma nodeWeight_le (start : span.start = span.entity.offset.toNat)
    (order : span.start ≤ span.stop) (stop : span.stop ≤ span.start + span.entity.length.toNat) :
    nodeWeight settings (Utf16.encode text) (span, inner) ≤
      entityWeight settings (Utf16.encode text) span.entity := by
  have tags := length_spanTags_le settings (Utf16.encode text) span inner
  have covered := length_slice_add_rest text start order stop
  exact Nat.mul_le_mul tags (Nat.le.intro covered)

/-- **A span that is cut off adds less.** -/
lemma nodeWeight_lt (enabled : settings.customEmoji = true)
    (start : span.start = span.entity.offset.toNat) (order : span.start ≤ span.stop)
    (stop : span.stop < span.start + span.entity.length.toNat)
    (between : Utf16.Between text span.stop)
    (ends : Utf16.Between text (span.start + span.entity.length.toNat)) :
    nodeWeight settings (Utf16.encode text) (span, inner) <
      entityWeight settings (Utf16.encode text) span.entity := by
  have tags := length_spanTags_le settings (Utf16.encode text) span inner
  have some := List.length_pos_of_ne_nil (tagsOf_ne_nil enabled span.entity.kind [])
  have lost : Utf16.slice (Utf16.encode text) span.stop
      (span.start + span.entity.length.toNat) ≠ [] := fun none =>
    absurd ((Utf16.slice_eq_nil_iff between ends stop.le).1 none) stop.ne
  have covered := length_slice_add_rest text start order stop.le
  have part := List.length_pos_of_ne_nil lost
  calc nodeWeight settings (Utf16.encode text) (span, inner)
      ≤ (tagsOf settings span.entity.kind []).length *
          (Utf16.slice (Utf16.encode text) span.start span.stop).length :=
        Nat.mul_le_mul_right _ tags
    _ < entityWeight settings (Utf16.encode text) span.entity :=
        Nat.mul_lt_mul_of_pos_left (by omega) some

/-- A span that has its tags and all that its entity covers adds what the entity has. -/
lemma nodeWeight_eq (start : span.start = span.entity.offset.toNat)
    (stop : span.stop = span.start + span.entity.length.toNat)
    (tags : spanTags settings (Utf16.encode text) span inner =
      tagsOf settings span.entity.kind
        (Utf16.slice (Utf16.encode text) span.start span.stop)) :
    nodeWeight settings (Utf16.encode text) (span, inner) =
      entityWeight settings (Utf16.encode text) span.entity := by
  rw [nodeWeight, tags, length_tagsOf settings _ _ [], entityWeight, Entity.covered, stop, start]

end RichText.Html
