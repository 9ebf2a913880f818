import RichText.Entity
import RichText.Text.Utf16

/-!
# Nesting

Entities are listed flat, while markup is nested.  The nesting of a list of entities over a text
is a forest of spans, rebuilt from offsets alone: taken by offset (entities that start together
stay in list order), each entity is a span, the entities starting before its end are nested
within it, and the rest follow it.

The forest exists for every list whatever: an entity with a negative offset is left out, a start
past the end of the text moves to the end, and a span that would outlast the one around it is cut
off there.  `Forest.ofEntities` builds it, and a `Writer` makes text of it: what is written between
the spans and around them is the writer's choice, the nesting is not.

The writer does not build the forest.  It passes over the list with a cursor (`Writer.render`), and
what it writes so is what it would write for the forest (`Writer.write_eq`).
-/

namespace RichText

/-- An entity at its place in a nesting. -/
structure Span where
  /-- The place of the entity in its list. -/
  index : Nat
  entity : Entity
  /-- The code units covered, from `start` up to `stop`. -/
  start : Nat
  stop : Nat
  deriving DecidableEq, Repr, Inhabited

/-- An ordered forest of spans: either empty, or a span with the spans inside it and the spans
after it. -/
inductive Forest where
  | nil
  | cons (span : Span) (inner after : Forest)
  deriving DecidableEq, Repr, Inhabited

namespace Forest

/-- The entities that start before `stop`. -/
def startingBefore (stop : Nat) (entities : List (Entity × Nat)) : List (Entity × Nat) :=
  entities.filter fun (entity, _) => entity.offset.toNat < stop

theorem length_startingBefore_le (stop : Nat) (entities : List (Entity × Nat)) :
    (startingBefore stop entities).length ≤ entities.length :=
  List.length_filter_le _ _

/-- Nests entities, each with its index and in the order of their offsets, over the code units
from `position` up to `limit`.  An entity that starts before `position` lies in a span already
made. -/
def nest (position limit : Nat) : List (Entity × Nat) → Forest
  | [] => nil
  | (entity, index) :: later =>
    if entity.offset < 0 ∨ entity.offset.toNat < position then nest position limit later
    else
      let start := min entity.offset.toNat limit
      let stop := min (start + entity.length.toNat) limit
      cons ⟨index, entity, start, stop⟩
        (nest start stop (startingBefore stop later))
        (nest stop limit later)
termination_by entities => entities.length
decreasing_by
  · simp
  · exact Nat.lt_succ_of_le (length_startingBefore_le _ _)
  · simp

/-- The entities of a list with their indices, by offset; entities with one offset keep their
order. -/
def byOffset (entities : List Entity) : List (Entity × Nat) :=
  entities.zipIdx.mergeSort fun a b => a.1.offset ≤ b.1.offset

theorem map_fst_byOffset (entities : List Entity) :
    (byOffset entities).map Prod.fst = entities.mergeSort fun a b => a.offset ≤ b.offset := by
  have firsts : (byOffset entities).map Prod.fst =
      (entities.zipIdx.map Prod.fst).mergeSort fun a b => a.offset ≤ b.offset :=
    List.map_mergeSort fun _ _ _ _ => rfl
  rwa [List.zipIdx_map_fst] at firsts

/-- The nesting of a list of entities over a text of `size` code units. -/
def ofEntities (size : Nat) (entities : List Entity) : Forest := nest 0 size (byOffset entities)

/-- The spans of a forest, each before the spans inside it and after it. -/
def spans : Forest → List Span
  | nil => []
  | cons span inner after => span :: (spans inner ++ spans after)

@[simp] theorem nest_nil (position limit : Nat) : nest position limit [] = nil := by
  rw [nest]

@[simp] theorem spans_nil : spans nil = [] := rfl

@[simp] theorem spans_cons (span : Span) (inner after : Forest) :
    spans (cons span inner after) = span :: (spans inner ++ spans after) := rfl

end Forest

/-! ## Writing a nesting out -/

/-- How the parts of a nested text are written: `plain` writes a stretch outside every span, and
`wrap` an entity, given what was written inside it and the text it covers. -/
structure Writer where
  plain : Text → Text
  wrap : Entity → Text → Text → Text

namespace Forest

/-- Writes the stretch between two positions, if there is one. -/
def writeGap (writer : Writer) (units : List CodeUnit) (start stop : Nat) : Text :=
  if start < stop then writer.plain (Utf16.slice units start stop) else []

/-- Writes the code units from `position` up to `limit`: the gaps as they are, each span wrapped
around what is inside it. -/
def write (writer : Writer) (units : List CodeUnit) (position limit : Nat) : Forest → Text
  | nil => writeGap writer units position limit
  | cons span inner after =>
    writeGap writer units position span.start ++
      writer.wrap span.entity (write writer units span.start span.stop inner)
        (Utf16.slice units span.start span.stop) ++
      write writer units span.stop limit after

end Forest

namespace Writer

/-- The entities behind another in a list that are written within it, if it ends at `stop`. -/
def children (stop : Nat) (later : List Entity) : List Entity :=
  later.filter (·.offset.toNat < stop)

/-- Writes the code units from `position` up to `limit` in one pass over entities in the order of
their offsets, with `position` as the cursor.  An entity that starts before the cursor has been
passed; any other is wrapped around what is written for its children. -/
def render (writer : Writer) (units : List CodeUnit) (position limit : Nat) : List Entity → Text
  | [] => Forest.writeGap writer units position limit
  | entity :: later =>
    if entity.offset < 0 ∨ entity.offset.toNat < position then
      render writer units position limit later
    else
      let start := min entity.offset.toNat limit
      let stop := min (start + entity.length.toNat) limit
      let inner := render writer units start stop (children stop later)
      Forest.writeGap writer units position start ++
        writer.wrap entity inner (Utf16.slice units start stop) ++
        render writer units stop limit later
termination_by entities => entities.length
decreasing_by
  · simp
  · exact Nat.lt_succ_of_le (List.length_filter_le _ _)
  · simp

/-- Writes a text with entities.  Every text and every list of entities can be written. -/
def write (writer : Writer) (text : Text) (entities : List Entity) : Text :=
  let units := Utf16.encode text
  writer.render units 0 units.length (entities.mergeSort fun a b => a.offset ≤ b.offset)

/-- **One pass follows a nesting.**  What it writes is what is written for the forest of the same
entities. -/
theorem render_eq (writer : Writer) (units : List CodeUnit) (position limit : Nat)
    (entities : List (Entity × Nat)) :
    writer.render units position limit (entities.map Prod.fst) =
      (Forest.nest position limit entities).write writer units position limit := by
  fun_induction Forest.nest position limit entities with
  | case1 => rw [List.map_nil, render, Forest.write]
  | case2 position limit entity index later passed ih =>
    rw [List.map_cons, render, if_pos passed, ih]
  | case3 position limit entity index later kept start stop ihInner ihAfter =>
    have inner : children stop (later.map Prod.fst) =
        (Forest.startingBefore stop later).map Prod.fst := List.filter_map
    rw [List.map_cons, render, if_neg kept, Forest.write, ← ihInner, ← ihAfter, ← inner]

/-- What is written for a text is what is written for the nesting of its entities. -/
theorem write_eq (writer : Writer) (text : Text) (entities : List Entity) :
    writer.write text entities =
      (Forest.ofEntities (Utf16.encode text).length entities).write writer (Utf16.encode text) 0
        (Utf16.encode text).length := by
  rw [Forest.ofEntities, ← render_eq, Forest.map_fst_byOffset]
  rfl

end Writer

end RichText
