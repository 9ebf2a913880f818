import Mathlib.Tactic.Lemma
import RichText.Message

/-!
# Clipping is intersecting

An entity spans the code units from its offset up to its end.  When some units go from the front of
its text and others remain, what is left of it is what its span has in common with the stretch that
remains, counted from where that stretch starts.  `Entity.common?` says so in whole numbers of any
size.

Clipping finds the same (`Entity.clip?_eq_common?`), although it takes the end of an entity that
lies beyond the greatest position for that position: what remains ends before it.  And although it
adds and subtracts, it never leaves the positions: its one sum is held within their range, and its
differences need not be (`Entity.clipInRange?_eq`).
-/

namespace RichText

namespace Position

/-- The difference of two positions, if it is a position again. -/
def difference? (first second : Int) : Option Int :=
  if InRange (first - second) then some (first - second) else none

lemma inRange_of_le {n : Int} (low : 0 ≤ n) (high : n ≤ greatest) : InRange n :=
  ⟨Int.le_trans (by decide) low, high⟩

lemma difference?_eq_some {first second : Int} (low : second ≤ first)
    (high : first - second ≤ greatest) :
    difference? first second = some (first - second) :=
  if_pos (inRange_of_le (Int.sub_nonneg_of_le low) high)

end Position

namespace Entity

variable {skipped kept : Int} {entity : Entity}

lemma kind_of_clip? {left : Entity} (h : entity.clip? skipped kept = some left) :
    left.kind = entity.kind := by
  unfold clip? at h
  split at h
  · cases h
  split at h
  · cases h
  simp only at h
  repeat' split at h
  all_goals cases h
  all_goals rfl

/-- What an entity has in common with the `kept` units behind the first `skipped`, counted from
where these start. -/
def common? (skipped kept : Int) (entity : Entity) : Option Entity :=
  let start := max entity.offset skipped
  let stop := min (entity.offset + entity.length) (skipped + kept)
  if 0 < entity.length ∧ start < stop then some ⟨start - skipped, stop - start, entity.kind⟩
  else none

lemma common?_eq_some {left : Entity} (h : entity.common? skipped kept = some left) :
    0 < entity.length ∧ 0 < left.length ∧ left.kind = entity.kind ∧
      left.offset = max entity.offset skipped - skipped ∧
      left.offset + left.length = min (entity.offset + entity.length - skipped) kept := by
  unfold common? at h
  simp only [Option.ite_none_right_eq_some, Option.some.injEq] at h
  obtain ⟨⟨filled, apart⟩, rfl⟩ := h
  refine ⟨filled, ?_, rfl, rfl, ?_⟩ <;> simp only <;> omega

/-- **Clipping is intersecting**, for entities that end within the range of positions and for
stretches that do, however large the numbers of the entity. -/
lemma clip?_eq_common? (skips : 0 ≤ skipped) (keeps : 0 ≤ kept)
    (bound : entity.offset + entity.length ≤ Position.greatest ∨
      skipped + kept < Position.greatest) :
    entity.clip? skipped kept = entity.common? skipped kept := by
  simp only [Position.greatest] at bound
  have held (offset length : Int) : Position.clamp (offset + length) =
      max (-2147483648) (min (offset + length) 2147483647) := rfl
  unfold clip? common?
  split
  · rw [if_neg (by omega)]
  split
  · rename_i past
    rw [stop, held] at past
    rw [if_neg (by omega)]
  rename_i past
  simp only [stop, held] at past ⊢
  -- the entity starts in what remains, or in front of it
  split
  all_goals
    simp only
    split
    · rw [if_pos (by omega)]
      simp only [Option.some.injEq, Entity.mk.injEq, and_true]
      omega
    split
    · rw [if_neg (by omega)]
    · rw [if_pos (by omega)]
      simp only [Option.some.injEq, Entity.mk.injEq, and_true]
      omega

/-- Clipping in the arithmetic of positions: where a difference leaves their range there is no
result. -/
def clipInRange? (skipped kept : Int) (entity : Entity) : Option (Option Entity) :=
  if entity.length ≤ 0 then some none
  else if entity.stop ≤ skipped then some none
  else do
    let moved ←
      if skipped ≤ entity.offset then
        (Position.difference? entity.offset skipped).map fun offset => { entity with offset }
      else
        (Position.difference? entity.stop skipped).map fun length =>
          { entity with offset := 0, length }
    if moved.stop ≤ kept then some (some moved)
    else if kept ≤ moved.offset then some none
    else (Position.difference? kept moved.offset).map fun length => some { moved with length }

/-- **Clipping needs no number beyond the range of positions.** -/
lemma clipInRange?_eq (skips : 0 ≤ skipped) (bound : kept ≤ Position.greatest)
    (inRange : Position.InRange entity.offset) :
    entity.clipInRange? skipped kept = some (entity.clip? skipped kept) := by
  have start : entity.offset ≤ Position.greatest := inRange.2
  have held : entity.stop ≤ Position.greatest := (Position.inRange_clamp _).2
  -- what starts behind no negative position is cut without a further number
  have cut (moved : Entity) (low : 0 ≤ moved.offset) :
      (if moved.stop ≤ kept then some (some moved)
        else if kept ≤ moved.offset then some none
        else (Position.difference? kept moved.offset).map
          fun length => some { moved with length }) =
      some (if moved.stop ≤ kept then some moved
        else if kept ≤ moved.offset then none
        else some { moved with length := kept - moved.offset }) := by
    split
    · rfl
    split
    · rfl
    · rw [Position.difference?_eq_some (by omega) (by omega), Option.map_some]
  unfold clipInRange? clip?
  split
  · rfl
  split
  · rfl
  split
  · rw [Position.difference?_eq_some (by omega) (by omega), Option.map_some]
    exact cut _ (by simp only; omega)
  · rw [Position.difference?_eq_some (by omega) (by omega), Option.map_some]
    exact cut _ (Int.le_refl 0)

end Entity

end RichText
