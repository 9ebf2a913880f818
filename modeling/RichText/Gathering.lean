import RichText.Entity
import RichText.Text.Utf16

/-!
# Gathering text and entities

A reader of markup meets text and the starts and ends of entities in turn.  A gathering keeps the
text met so far and the entities that have started; each piece of text makes every started entity
longer, so that an entity is complete the moment it ends.  Entities that have started are told
apart by a key, a tag name or a delimiter, and there is at most one for each.  Entities that have
ended are listed in the order they did.

A gathering is seen through its text, its started entities (`draft?`) and its finished entities;
the lemmas at the end say what each operation does to each of the three.  `text_append` and
`draft?_append` say that text reaches the message and every started entity alike, and
`entities_finish` that an entity is listed as it stands when it ends.
-/

namespace RichText

/-- The text and entities met so far, with the started entities under their keys. -/
structure Gathering (κ : Type) where
  /-- The text, last character first. -/
  reversed : Text
  /-- The length of the text in code units. -/
  units : Int
  /-- The entities that have started and not ended. -/
  started : List (κ × OpenEntity)
  /-- The entities that have ended, in that order. -/
  entities : List Entity

namespace Gathering

variable {κ : Type}

/-- No text, and nothing started. -/
def empty : Gathering κ := ⟨[], 0, [], []⟩

instance : Inhabited (Gathering κ) := ⟨empty⟩

/-- The text met so far. -/
def text (gathering : Gathering κ) : Text := gathering.reversed.reverse

/-- Appends a piece of text, which every started entity covers. -/
def append (piece : Text) (gathering : Gathering κ) : Gathering κ :=
  if piece.isEmpty then gathering
  else
    let added := Utf16.length piece
    { gathering with
      reversed := piece.reverseAux gathering.reversed
      units := Position.clamp (gathering.units + added)
      started := gathering.started.map fun (key, draft) => (key, draft.grow added) }

/-- Appends one character. -/
def appendChar (c : Char) (gathering : Gathering κ) : Gathering κ := gathering.append [c]

variable [DecidableEq κ]

/-- The entity started under a key. -/
def draft? (key : κ) (gathering : Gathering κ) : Option OpenEntity := gathering.started.lookup key

/-- Whether an entity has started under a key and not ended. -/
def isOpen (key : κ) (gathering : Gathering κ) : Bool := (gathering.draft? key).isSome

/-- Starts an entity at the end of the text, unless one is open under its key. -/
def start (key : κ) (kind : Kind) (gathering : Gathering κ) : Gathering κ :=
  if gathering.isOpen key then gathering
  else { gathering with started := (key, .start gathering.units kind) :: gathering.started }

/-- Changes the entity started under a key. -/
def revise (key : κ) (change : OpenEntity → OpenEntity) (gathering : Gathering κ) : Gathering κ :=
  let revised := gathering.started.map fun (k, draft) =>
    (k, if k = key then change draft else draft)
  { gathering with started := revised }

/-- Forgets the entity started under a key. -/
def abandon (key : κ) (gathering : Gathering κ) : Gathering κ :=
  { gathering with started := gathering.started.filter fun (k, _) => k ≠ key }

/-- Ends the entity started under a key, if there is one, and lists it. -/
def finish (key : κ) (gathering : Gathering κ) : Gathering κ :=
  match gathering.draft? key with
  | none => gathering
  | some draft => { gathering.abandon key with entities := gathering.entities ++ [draft.close] }

/-- The characters at the front of a reversed text that make up its last `units` code units; a
character of which only a half is asked for is taken whole. -/
def takeUnits : Int → Text → Text
  | _, [] => []
  | units, c :: rest => if units ≤ 0 then [] else c :: takeUnits (units - unitWidth c) rest

/-- The text that the entity started under a key covers so far. -/
def covered? (key : κ) (gathering : Gathering κ) : Option Text :=
  (gathering.draft? key).map fun draft => (takeUnits draft.length gathering.reversed).reverse

/-! ## What each operation does to the text -/

omit [DecidableEq κ] in
@[simp] theorem text_empty : (empty : Gathering κ).text = [] := rfl

omit [DecidableEq κ] in
@[simp] theorem text_append (piece : Text) (gathering : Gathering κ) :
    (gathering.append piece).text = gathering.text ++ piece := by
  cases piece <;> simp [append, text, List.reverseAux_eq]

omit [DecidableEq κ] in
@[simp] theorem text_appendChar (c : Char) (gathering : Gathering κ) :
    (gathering.appendChar c).text = gathering.text ++ [c] := text_append [c] gathering

@[simp] theorem text_start (key : κ) (kind : Kind) (gathering : Gathering κ) :
    (gathering.start key kind).text = gathering.text := by
  unfold start; split <;> rfl

@[simp] theorem text_revise (key : κ) (change : OpenEntity → OpenEntity) (gathering : Gathering κ) :
    (gathering.revise key change).text = gathering.text := rfl

@[simp] theorem text_abandon (key : κ) (gathering : Gathering κ) :
    (gathering.abandon key).text = gathering.text := rfl

@[simp] theorem text_finish (key : κ) (gathering : Gathering κ) :
    (gathering.finish key).text = gathering.text := by
  unfold finish; split <;> rfl

/-! ## What each operation does to the started entities -/

omit [DecidableEq κ] in
theorem lookup_map [BEq κ] [LawfulBEq κ] (change : κ → OpenEntity → OpenEntity) (key : κ)
    (started : List (κ × OpenEntity)) :
    (started.map fun (k, draft) => (k, change k draft)).lookup key =
      (started.lookup key).map (change key) := by
  induction started with
  | nil => rfl
  | cons entry rest ih =>
    obtain ⟨k, draft⟩ := entry
    by_cases h : key = k
    · subst h; simp
    · have differ : (key == k) = false := by simpa using h
      simp [List.lookup_cons, differ, ih]

@[simp] theorem draft?_empty (key : κ) : (empty : Gathering κ).draft? key = none := rfl

/-- Appending makes every started entity longer by the piece. -/
theorem draft?_append (key : κ) {piece : Text} (h : piece ≠ []) (gathering : Gathering κ) :
    (gathering.append piece).draft? key =
      (gathering.draft? key).map (·.grow (Utf16.length piece)) := by
  have filled : piece.isEmpty = false := by simpa using h
  simp only [append, filled, Bool.false_eq_true, if_false, draft?]
  exact lookup_map (fun _ draft => draft.grow (Utf16.length piece)) key gathering.started

/-- Starting changes nothing under other keys, nor under its own if an entity is open there. -/
theorem draft?_start (key other : κ) (kind : Kind) (gathering : Gathering κ) :
    (gathering.start key kind).draft? other =
      if other = key then some ((gathering.draft? key).getD (.start gathering.units kind))
      else gathering.draft? other := by
  unfold start isOpen
  cases h : gathering.draft? key with
  | some draft => by_cases eq : other = key <;> simp [eq, h]
  | none =>
    by_cases eq : other = key
    · simp [draft?, eq]
    · have differ : (other == key) = false := by simpa using eq
      simp [draft?, List.lookup_cons, eq, differ]

/-- Revising changes the entity under its key and no other. -/
theorem draft?_revise (key other : κ) (change : OpenEntity → OpenEntity)
    (gathering : Gathering κ) :
    (gathering.revise key change).draft? other =
      if other = key then (gathering.draft? key).map change else gathering.draft? other := by
  have revised := lookup_map (fun k draft => if k = key then change draft else draft) other
    gathering.started
  unfold draft? revise
  simp only [revised]
  by_cases eq : other = key
  · subst eq; simp
  · simp [eq]

/-- Nothing is started under a key that is abandoned, and nothing else changes. -/
theorem draft?_abandon (key other : κ) (gathering : Gathering κ) :
    (gathering.abandon key).draft? other =
      if other = key then none else gathering.draft? other := by
  unfold draft? abandon
  simp only
  induction gathering.started with
  | nil => simp
  | cons entry rest ih =>
    obtain ⟨k, draft⟩ := entry
    by_cases eq : other = k
    · subst eq
      by_cases gone : other = key
      · simpa [gone] using ih
      · simp [gone]
    · have differ : (other == k) = false := by simpa using eq
      by_cases gone : k = key
      · subst gone
        simpa [List.lookup_cons, differ] using ih
      · simpa [List.lookup_cons, gone, differ] using ih

/-- Nothing is started under a key that is finished, and nothing else changes. -/
theorem draft?_finish (key other : κ) (gathering : Gathering κ) :
    (gathering.finish key).draft? other =
      if other = key then none else gathering.draft? other := by
  unfold finish
  cases h : gathering.draft? key with
  | none => by_cases eq : other = key <;> simp [eq, h]
  | some draft => exact draft?_abandon key other gathering

/-! ## What each operation does to the finished entities -/

omit [DecidableEq κ] in
@[simp] theorem entities_append (piece : Text) (gathering : Gathering κ) :
    (gathering.append piece).entities = gathering.entities := by
  unfold append; split <;> rfl

@[simp] theorem entities_start (key : κ) (kind : Kind) (gathering : Gathering κ) :
    (gathering.start key kind).entities = gathering.entities := by
  unfold start; split <;> rfl

@[simp] theorem entities_revise (key : κ) (change : OpenEntity → OpenEntity)
    (gathering : Gathering κ) : (gathering.revise key change).entities = gathering.entities := rfl

@[simp] theorem entities_abandon (key : κ) (gathering : Gathering κ) :
    (gathering.abandon key).entities = gathering.entities := rfl

theorem entities_finish (key : κ) (gathering : Gathering κ) :
    (gathering.finish key).entities =
      gathering.entities ++ ((gathering.draft? key).map OpenEntity.close).toList := by
  unfold finish
  cases gathering.draft? key <;> simp

end Gathering

end RichText
