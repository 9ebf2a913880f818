import RichText.Document
import RichText.Proofs.Json.Values

/-!
# Documents are read back

A message whose numbers are in range is written as a document that describes it
(`ofDocument?_toDocument`), whatever its text, its entities and the texts they carry.

The document is JSON, and JSON is read back as it was written (`Json.read?_write`).  What is left is
what the members of an object say: each key of an entity is there once (`only?_ofMembers`), its
numbers are within double precision (`isFinite_integer`) and its strings are texts.
-/

namespace RichText

open Json (Value Number)

namespace Json

/-! ## Members -/

namespace Value

@[simp] lemma toText?_ofText (text : Text) : (ofText text).toText? = some text :=
  Utf16.decode?_encode text

@[simp] lemma isSound_ofText (text : Text) : (ofText text).isSound = true := by
  simp [ofText, isSound]

/-- The values under a key are found by comparing texts. -/
lemma occurrences_ofMembers (key : Text) (members : List (Text × Value)) :
    occurrences key (members.map fun (key, value) => (Utf16.encode key, value)) =
      (members.filter (·.1 = key)).map (·.2) := by
  simp [occurrences, List.filter_map, Function.comp_def, Utf16.encode_injective.eq_iff]

lemma isSound_ofMembers {members : List (Text × Value)}
    (sound : ∀ key value, (key, value) ∈ members → value.isSound = true) :
    (ofMembers members).isSound = true := by
  rw [ofMembers, isSound]
  induction members with
  | nil => rfl
  | cons member others ih =>
    have first := sound member.1 member.2 List.mem_cons_self
    have rest := ih fun key value among => sound key value (List.mem_cons_of_mem _ among)
    simp [areSoundMembers, first, rest]

lemma depth_ofMembers {members : List (Text × Value)} {depth : Nat}
    (nested : ∀ key value, (key, value) ∈ members → value.depth ≤ depth) :
    (ofMembers members).depth ≤ depth + 1 := by
  rw [ofMembers, Value.depth]
  refine Nat.succ_le_succ ?_
  induction members with
  | nil => exact Nat.zero_le _
  | cons member others ih =>
    have first := nested member.1 member.2 List.mem_cons_self
    have rest := ih fun key value among => nested key value (List.mem_cons_of_mem _ among)
    exact Nat.max_le.2 ⟨first, rest⟩

end Value

/-! ## Whole numbers -/

/-- Rounding adds at most what the last kept digit is worth. -/
lemma Double.round_le (n : Nat) : round n ≤ n + Nat.pow 2 (n.log2 + 1 - precision) := by
  simp only [round]
  generalize Nat.pow 2 (n.log2 + 1 - precision) = unit
  have kept : n / unit * unit ≤ n := Nat.div_mul_le_self n unit
  split
  · omega
  · rw [Nat.succ_mul]
    omega

/-- **A whole number of at most 64 binary digits is within double precision.** -/
lemma Number.isFinite_integer {value : Int} (small : value.natAbs < significandBound) :
    (integer value).isFinite = true := by
  have one : Double.round (Nat.pow 10 (0 : Int).toNat) = 1 := Double.round_of_lt (by decide)
  have bounded : Double.round value.natAbs < Double.bound := by
    by_cases zero : value.natAbs = 0
    · rw [zero]
      decide +kernel
    have digits : value.natAbs.log2 < 64 := (Nat.log2_lt zero).2 small
    have unit : Nat.pow 2 (value.natAbs.log2 + 1 - Double.precision) ≤ Nat.pow 2 64 :=
      Nat.pow_le_pow_right (by decide) (by omega)
    calc Double.round value.natAbs
        ≤ value.natAbs + Nat.pow 2 (value.natAbs.log2 + 1 - Double.precision) :=
          Double.round_le value.natAbs
      _ ≤ Nat.pow 2 64 + Nat.pow 2 64 := Nat.add_le_add (Nat.le_of_lt small) unit
      _ < Double.bound := by decide +kernel
  simp only [isFinite, leading_of_lt small, fits, one, Nat.mul_one, bounded]
  simp [Double.greatestPower]

lemma Value.isSound_ofInt {n : Int} (fits : Identifier.InRange n) : (ofInt n).isSound = true := by
  refine Number.isFinite_integer ?_
  simp only [Identifier.InRange, Identifier.least, Identifier.greatest] at fits
  have bound : Number.significandBound = 18446744073709551616 := rfl
  omega

end Json

/-! ## Entities -/

lemma Kind.identifier?_ofInt {n : Int} (inRange : Identifier.InRange n) :
    identifier? (.ofInt n) = some n := by
  simp [identifier?, Value.ofInt, Value.toInt?, inRange]

namespace Members

lemma only?_ofMembers {key : String} {value : Value} {members : List (Text × Value)}
    (once : members.filter (·.1 = key.toList) = [(key.toList, value)]) :
    only? key (members.map fun (key, value) => (Utf16.encode key, value)) = some value := by
  rw [only?, Value.occurrences_ofMembers, once]
  rfl

end Members

namespace Entity

/-- The members that an entity is written as. -/
def members (entity : Entity) : List (Text × Value) :=
  ("offset".toList, .ofInt entity.offset) :: ("length".toList, .ofInt entity.length) ::
    entity.kind.toMembers

/-- What an entity is written as has each key once. -/
lemma filter_members (entity : Entity) :
    entity.members.filter (·.1 = "offset".toList) =
      [("offset".toList, .ofInt entity.offset)] ∧
    entity.members.filter (·.1 = "length".toList) =
      [("length".toList, .ofInt entity.length)] ∧
    entity.members.filter (·.1 = "type".toList) =
      [("type".toList, .ofText entity.kind.name)] := by
  obtain ⟨offset, length, kind⟩ := entity
  cases kind <;> exact ⟨rfl, rfl, rfl⟩

lemma toJson_eq (entity : Entity) : entity.toJson = .ofMembers entity.members := rfl

/-- The members of an entity as they are read. -/
abbrev readMembers (entity : Entity) : Members :=
  entity.members.map fun (key, value) => (Utf16.encode key, value)

/-- A kind is found by its name, with what it carries. -/
lemma ofName?_readMembers {entity : Entity} (fits : entity.kind.Fits) :
    Kind.ofName? entity.kind.name entity.readMembers = some entity.kind := by
  obtain ⟨offset, length, kind⟩ := entity
  have carried (key : String) (value : Value) (read : Value → Option Kind)
      (once : (members ⟨offset, length, kind⟩).filter (·.1 = key.toList) =
        [(key.toList, value)]) (same : read value = some kind) :
      Kind.Shape.ofMembers? (readMembers ⟨offset, length, kind⟩) (.carrying key read) =
        some kind := by
    rw [Kind.Shape.ofMembers?, Members.only?_ofMembers once, Option.bind_some, same]
  cases kind with
  | bold | italic | underline | strike | spoiler | code | blockquote | url | email => rfl
  | pre language =>
    exact carried "language" (.ofText language) (fun value => value.toText?.map .pre) rfl (by simp)
  | textUrl url =>
    exact carried "url" (.ofText url) (fun value => value.toText?.map .textUrl) rfl (by simp)
  | mentionName userId =>
    refine carried "user_id" (.ofInt userId)
      (fun value => (Kind.identifier? value).map .mentionName) rfl ?_
    rw [Kind.identifier?_ofInt fits]
    rfl
  | customEmoji documentId =>
    refine carried "document_id" (.ofInt documentId)
      (fun value => (Kind.identifier? value).map .customEmoji) rfl ?_
    rw [Kind.identifier?_ofInt fits]
    rfl

/-- A position is an identifier too. -/
lemma identifier_of_position {n : Int} (inRange : Position.InRange n) : Identifier.InRange n := by
  simp only [Position.InRange, Position.least, Position.greatest] at inRange
  simp only [Identifier.InRange, Identifier.least, Identifier.greatest]
  omega

/-- The members of an entity are numbers in range and texts. -/
lemma value_of_members {entity : Entity} (fits : entity.Fits) {key : Text} {value : Value}
    (member : (key, value) ∈ entity.members) :
    (∃ n, Identifier.InRange n ∧ value = .ofInt n) ∨ ∃ text, value = .ofText text := by
  obtain ⟨offset, length, kind⟩ := entity
  obtain ⟨offsetFits, lengthFits, kindFits⟩ := fits
  simp only [members, Kind.toMembers, List.mem_cons, Prod.mk.injEq] at member
  rcases member with ⟨-, rfl⟩ | ⟨-, rfl⟩ | ⟨-, rfl⟩ | carried
  · exact .inl ⟨offset, identifier_of_position offsetFits, rfl⟩
  · exact .inl ⟨length, identifier_of_position lengthFits, rfl⟩
  · exact .inr ⟨_, rfl⟩
  · cases kind with
    | bold | italic | underline | strike | spoiler | code | blockquote | url | email => cases carried
    | pre text | textUrl text =>
      obtain ⟨-, rfl⟩ := Prod.mk.inj (List.mem_singleton.1 carried)
      exact .inr ⟨text, rfl⟩
    | mentionName n | customEmoji n =>
      obtain ⟨-, rfl⟩ := Prod.mk.inj (List.mem_singleton.1 carried)
      exact .inl ⟨n, kindFits, rfl⟩

lemma isSound_toJson {entity : Entity} (fits : entity.Fits) : entity.toJson.isSound = true := by
  refine Value.isSound_ofMembers fun key value member => ?_
  rcases value_of_members fits member with ⟨n, inRange, rfl⟩ | ⟨text, rfl⟩
  · exact Value.isSound_ofInt inRange
  · exact Value.isSound_ofText text

lemma depth_toJson {entity : Entity} (fits : entity.Fits) : entity.toJson.depth ≤ 1 := by
  refine Value.depth_ofMembers fun key value member => ?_
  rcases value_of_members fits member with ⟨n, -, rfl⟩ | ⟨text, rfl⟩ <;> exact Nat.le_refl 0

/-- **An entity is read back.** -/
lemma ofJson?_toJson {entity : Entity} (fits : entity.Fits) :
    ofJson? entity.toJson = some entity := by
  obtain ⟨offset, length, type⟩ := entity.filter_members
  have position (key : String) {n : Int} (inRange : Position.InRange n)
      (once : entity.members.filter (·.1 = key.toList) = [(key.toList, .ofInt n)]) :
      Members.position? key entity.readMembers = some n := by
    simp [Members.position?, Members.int?, Members.only?_ofMembers once, Value.ofInt, Value.toInt?,
      inRange]
  have kind : Kind.ofMembers? entity.readMembers = some entity.kind := by
    have name := ofName?_readMembers fits.2.2
    simp only [Kind.ofMembers?, Members.only?_ofMembers type, Option.bind_eq_bind,
      Option.bind_some]
    simp only [Value.ofText] at name ⊢
    simpa [Value.toText?] using name
  have sound := isSound_toJson fits
  rw [toJson_eq, Value.ofMembers] at sound ⊢
  simp [ofJson?, sound, position "offset" fits.1 offset, position "length" fits.2.1 length, kind]

end Entity

/-! ## Messages -/

namespace Message

lemma entityIn?_toJson {entity : Entity} (fits : entity.Fits) :
    entityIn? entity.toJson = some entity := by
  have shallow := Entity.depth_toJson fits
  rw [entityIn?, if_pos (by simp only [greatestDepth]; omega), Entity.ofJson?_toJson fits]

lemma entitiesIn?_toJson {entities : List Entity} (fits : ∀ entity ∈ entities, entity.Fits) :
    entitiesIn? (.array (entities.map Entity.toJson)) = some entities := by
  show (entities.map Entity.toJson).mapM entityIn? = some entities
  induction entities with
  | nil => rfl
  | cons entity others ih =>
    have rest := ih fun other member => fits other (List.mem_cons_of_mem _ member)
    rw [List.map_cons, List.mapM_cons, entityIn?_toJson (fits entity List.mem_cons_self), rest]
    rfl

/-- **A message is read back**, as long as its numbers are in range. -/
lemma ofJson?_toJson {message : Message} (fits : ∀ entity ∈ message.entities, entity.Fits) :
    ofJson? message.toJson = some message := by
  have text : Members.text? "text"
      (message.toMembers.map fun (key, value) => (Utf16.encode key, value)) =
        some message.text := by
    have once : message.toMembers.filter (·.1 = "text".toList) =
        [("text".toList, .ofText message.text)] := rfl
    rw [Members.text?, Members.only?_ofMembers once, Option.bind_some, Value.toText?_ofText]
  have entities : Value.occurrences "entities".toList
      (message.toMembers.map fun (key, value) => (Utf16.encode key, value)) =
        [.array (message.entities.map Entity.toJson)] := by
    rw [Value.occurrences_ofMembers]
    rfl
  simp only [toJson, Value.ofMembers, ofJson?, text, entities, entitiesIn?_toJson fits]
  rw [if_neg (by simp)]
  rfl

/-- **A document describes the message it was written from**, with a gap behind it or without. -/
lemma ofDocument?_toDocument {message : Message} (fits : ∀ entity ∈ message.entities, entity.Fits)
    {gap : Text} (blank : ∀ c ∈ gap, Json.isGap c = true) :
    ofDocument? (message.toDocument ++ gap) = some message := by
  rw [ofDocument?, toDocument, Json.read?_write Json.Layout.blank_indented message.toJson blank,
    Option.bind_some, ofJson?_toJson fits]

end Message

end RichText
