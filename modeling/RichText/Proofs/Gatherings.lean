import Mathlib.Tactic.Lemma
import RichText.Gathering
import RichText.Proofs.Slices

/-!
# What a stretch of markup adds to a gathering

A stretch of markup that a reader takes whole adds text and finished entities, makes the entities
that were open longer, and leaves open just what was open before.  `Grows before after piece new`
says so, and is how the readers of both dialects are followed: stretches one after another add up
(`Grows.trans`), and a stretch between the start and the end of an entity adds that entity behind
its own (`Grows.finish`).

Positions are held within their range, so this is true only while the text is short enough.  A
gathering whose counts are exact is `Sound`: every open entity reaches up to the end of the text
and starts between two characters.
-/

namespace RichText

namespace OpenEntity

/-- Covers `units` more code units, however many they are. -/
def extend (units : Nat) (draft : OpenEntity) : OpenEntity :=
  { draft with length := draft.length + units }

@[simp] lemma extend_zero (draft : OpenEntity) : draft.extend 0 = draft := by
  simp [extend]

lemma extend_extend (first second : Nat) (draft : OpenEntity) :
    (draft.extend first).extend second = draft.extend (first + second) := by
  simp only [extend, mk.injEq, true_and, and_true]
  omega

end OpenEntity

namespace Gathering

variable {κ : Type} [DecidableEq κ]

/-- The counts of a gathering are exact. -/
structure Sound (gathering : Gathering κ) : Prop where
  units : gathering.units = Utf16.unitCount gathering.text
  draft : ∀ key draft, gathering.draft? key = some draft → ∃ front since : Text,
    gathering.text = front ++ since ∧ draft.offset = Utf16.unitCount front ∧
      draft.length = Utf16.unitCount since

/-- A text whose positions are all in range. -/
def Short (text : Text) : Prop := (Utf16.unitCount text : Int) < Position.greatest

instance (text : Text) : Decidable (Short text) := inferInstanceAs (Decidable (_ < _))

omit [DecidableEq κ] in
lemma Short.of_append {front back : Text} (h : Short (front ++ back)) : Short front := by
  simp only [Short, Utf16.unitCount_append] at h ⊢
  omega

lemma Short.length_eq {text : Text} (h : Short text) :
    Utf16.length text = Utf16.unitCount text := by
  refine Position.clamp_of_inRange ⟨?_, Int.le_of_lt h⟩
  simp only [Position.least]
  omega

lemma sound_empty : (empty : Gathering κ).Sound := ⟨rfl, by simp⟩

lemma units_start (key : κ) (kind : Kind) (gathering : Gathering κ) :
    (gathering.start key kind).units = gathering.units := by
  unfold start
  split <;> rfl

lemma units_finish (key : κ) (gathering : Gathering κ) :
    (gathering.finish key).units = gathering.units := by
  unfold finish
  split <;> rfl

lemma finish_of_free {gathering : Gathering κ} {key : κ} (free : gathering.draft? key = none) :
    gathering.finish key = gathering := by
  simp only [Gathering.finish, free]

lemma entities_finish_of_open {gathering : Gathering κ} {key : κ} {draft : OpenEntity}
    (isOpen : gathering.draft? key = some draft) :
    (gathering.finish key).entities = gathering.entities ++ [draft.close] := by
  rw [entities_finish, isOpen]
  rfl

lemma revise_start {gathering : Gathering κ} {key : κ} (free : gathering.draft? key = none)
    {change : OpenEntity → OpenEntity} {kind revised : Kind}
    (h : change (.start gathering.units kind) = .start gathering.units revised) :
    (gathering.start key kind).revise key change = gathering.start key revised := by
  have others : gathering.started.map (fun entry : κ × OpenEntity =>
      (entry.1, if entry.1 = key then change entry.2 else entry.2)) = gathering.started := by
    rw [List.map_congr_left, List.map_id]
    intro entry member
    have differ := List.lookup_eq_none_iff.1 free entry member
    have other : entry.1 ≠ key := fun same => by simp [same] at differ
    simp [other]
  simp only [Gathering.start, isOpen, free, Option.isSome_none, Bool.false_eq_true, if_false,
    Gathering.revise, List.map_cons, if_true, h]
  rw [others]

/-! ## What is open behind an operation -/

section Open

variable {gathering : Gathering κ} {key other : κ} {draft : OpenEntity}

@[simp] lemma isOpen_append (piece : Text) (key : κ) :
    (gathering.append piece).isOpen key = gathering.isOpen key := by
  by_cases filled : piece = []
  · subst filled
    rfl
  · rw [isOpen, draft?_append key filled, Option.isSome_map]
    rfl

@[simp] lemma isOpen_appendChar (c : Char) (key : κ) :
    (gathering.appendChar c).isOpen key = gathering.isOpen key := isOpen_append [c] key

lemma isOpen_start (kind : Kind) (h : other ≠ key) :
    (gathering.start key kind).isOpen other = gathering.isOpen other := by
  rw [isOpen, draft?_start, if_neg h]
  rfl

lemma isOpen_start_self (key : κ) (kind : Kind) (gathering : Gathering κ) :
    (gathering.start key kind).isOpen key = true := by
  rw [isOpen, draft?_start, if_pos rfl]
  rfl

lemma isOpen_revise (change : OpenEntity → OpenEntity) :
    (gathering.revise key change).isOpen other = gathering.isOpen other := by
  rw [isOpen, draft?_revise]
  split
  · rename_i same
    rw [Option.isSome_map, same]
    rfl
  · rfl

lemma isOpen_finish (h : other ≠ key) :
    (gathering.finish key).isOpen other = gathering.isOpen other := by
  rw [isOpen, draft?_finish, if_neg h]
  rfl

@[simp] lemma isOpen_finish_self (key : κ) (gathering : Gathering κ) :
    (gathering.finish key).isOpen key = false := by
  rw [isOpen, draft?_finish, if_pos rfl]
  rfl

lemma isOpen_abandon (h : other ≠ key) :
    (gathering.abandon key).isOpen other = gathering.isOpen other := by
  rw [isOpen, draft?_abandon, if_neg h]
  rfl

@[simp] lemma isOpen_abandon_self (key : κ) (gathering : Gathering κ) :
    (gathering.abandon key).isOpen key = false := by
  rw [isOpen, draft?_abandon, if_pos rfl]
  rfl

lemma start_of_isOpen (h : gathering.isOpen key = true) (kind : Kind) :
    gathering.start key kind = gathering := if_pos h

lemma draft?_append_eq_some {piece : Text}
    (found : (gathering.append piece).draft? other = some draft) :
    ∃ old, gathering.draft? other = some old ∧ draft.offset = old.offset ∧
      draft.kind = old.kind := by
  by_cases filled : piece = []
  · subst filled
    exact ⟨draft, found, rfl, rfl⟩
  · rw [draft?_append other filled] at found
    obtain ⟨old, hold, rfl⟩ := Option.map_eq_some_iff.1 found
    exact ⟨old, hold, rfl, rfl⟩

/-- What is open behind a start has just started, or was open before. -/
lemma draft?_start_eq_some {kind : Kind}
    (found : (gathering.start key kind).draft? other = some draft) :
    other = key ∧ draft = .start gathering.units kind ∨
      gathering.draft? other = some draft := by
  rw [draft?_start] at found
  split at found
  · rename_i same
    cases started : gathering.draft? key with
    | none =>
      simp only [started, Option.getD_none, Option.some.injEq] at found
      exact .inl ⟨same, found.symm⟩
    | some old =>
      simp only [started, Option.getD_some] at found
      exact .inr (by rw [same, started, found])
  · exact .inr found

lemma draft?_revise_eq_some {change : OpenEntity → OpenEntity}
    (found : (gathering.revise key change).draft? other = some draft) :
    ∃ old, gathering.draft? other = some old ∧
      (other = key ∧ draft = change old ∨ draft = old) := by
  rw [draft?_revise] at found
  split at found
  · rename_i same
    obtain ⟨old, hold, rfl⟩ := Option.map_eq_some_iff.1 found
    exact ⟨old, by rw [same, hold], .inl ⟨same, rfl⟩⟩
  · exact ⟨draft, found, .inr rfl⟩

lemma draft?_abandon_eq_some (found : (gathering.abandon key).draft? other = some draft) :
    other ≠ key ∧ gathering.draft? other = some draft := by
  rw [draft?_abandon] at found
  split at found
  · cases found
  · exact ⟨by assumption, found⟩

lemma draft?_finish_eq_some (found : (gathering.finish key).draft? other = some draft) :
    other ≠ key ∧ gathering.draft? other = some draft := by
  rw [draft?_finish] at found
  split at found
  · cases found
  · exact ⟨by assumption, found⟩

end Open

/-! ## Soundness is kept -/

/-- While the text is short, appending makes every open entity longer by the whole piece. -/
lemma Sound.draft?_append {gathering : Gathering κ} (sound : gathering.Sound) {piece : Text}
    (short : Short (gathering.text ++ piece)) (key : κ) :
    (gathering.append piece).draft? key =
      (gathering.draft? key).map (·.extend (Utf16.unitCount piece)) := by
  by_cases filled : piece = []
  · subst filled
    simp [append]
  · rw [Gathering.draft?_append key filled]
    cases h : gathering.draft? key with
    | none => rfl
    | some draft =>
      obtain ⟨front, since, whole, -, length⟩ := sound.draft key draft h
      have bound : (Utf16.unitCount front + Utf16.unitCount since + Utf16.unitCount piece : Int)
          < Position.greatest := by
        rw [Short, whole, Utf16.unitCount_append, Utf16.unitCount_append] at short
        omega
      have added : Utf16.length piece = Utf16.unitCount piece := by
        apply Short.length_eq
        simp only [Short]
        omega
      simp only [Option.map_some, OpenEntity.grow, OpenEntity.extend, added]
      rw [Position.clamp_of_inRange]
      simp only [Position.InRange, Position.least, length]
      omega

lemma Sound.append {gathering : Gathering κ} (sound : gathering.Sound) {piece : Text}
    (short : Short (gathering.text ++ piece)) : (gathering.append piece).Sound := by
  constructor
  · by_cases filled : piece = []
    · subst filled
      simpa [Gathering.append] using sound.units
    · have bound : (Utf16.unitCount gathering.text + Utf16.unitCount piece : Int)
          < Position.greatest := by
        rw [Short, Utf16.unitCount_append] at short
        omega
      have added : Utf16.length piece = Utf16.unitCount piece := by
        apply Short.length_eq
        simp only [Short]
        omega
      have empty : piece.isEmpty = false := by simpa using filled
      rw [text_append, Utf16.unitCount_append]
      simp only [Gathering.append, empty, Bool.false_eq_true, if_false, added, sound.units]
      rw [Position.clamp_of_inRange]
      · push_cast
        rfl
      · simp only [Position.InRange, Position.least]
        omega
  · intro key draft h
    rw [sound.draft?_append short] at h
    obtain ⟨old, hold, rfl⟩ := Option.map_eq_some_iff.1 h
    obtain ⟨front, since, whole, offset, length⟩ := sound.draft key old hold
    refine ⟨front, since ++ piece, ?_, offset, ?_⟩
    · rw [text_append, whole, List.append_assoc]
    · simp only [OpenEntity.extend, length, Utf16.unitCount_append]
      push_cast
      rfl

lemma Sound.start {gathering : Gathering κ} (sound : gathering.Sound) (key : κ) (kind : Kind) :
    (gathering.start key kind).Sound := by
  constructor
  · rw [text_start, units_start, sound.units]
  · intro other draft found
    rw [text_start]
    rcases draft?_start_eq_some found with ⟨-, rfl⟩ | old
    · exact ⟨gathering.text, [], by simp, sound.units, rfl⟩
    · exact sound.draft other draft old

lemma Sound.revise {gathering : Gathering κ} (sound : gathering.Sound) (key : κ)
    {change : OpenEntity → OpenEntity} (offset : ∀ draft, (change draft).offset = draft.offset)
    (length : ∀ draft, (change draft).length = draft.length) :
    (gathering.revise key change).Sound := by
  refine ⟨sound.units, fun other draft found => ?_⟩
  rw [text_revise]
  obtain ⟨old, hold, ⟨-, rfl⟩ | rfl⟩ := draft?_revise_eq_some found
  · simpa only [offset, length] using sound.draft other old hold
  · exact sound.draft other draft hold

lemma Sound.abandon {gathering : Gathering κ} (sound : gathering.Sound) (key : κ) :
    (gathering.abandon key).Sound :=
  ⟨sound.units, fun other draft found =>
    sound.draft other draft (draft?_abandon_eq_some found).2⟩

lemma Sound.finish {gathering : Gathering κ} (sound : gathering.Sound) (key : κ) :
    (gathering.finish key).Sound := by
  constructor
  · rw [text_finish, units_finish, sound.units]
  · intro other draft found
    rw [text_finish]
    exact sound.draft other draft (draft?_finish_eq_some found).2

/-! ## Covered text -/

/-- The units of a text at the end of a longer one are that text. -/
lemma takeUnits_reverse (since front : Text) :
    takeUnits (Utf16.unitCount since) (since.reverse ++ front.reverse) = since.reverse := by
  have general (reversed : Text) : takeUnits (Utf16.unitCount reversed.reverse)
      (reversed ++ front.reverse) = reversed := by
    induction reversed with
    | nil => cases front.reverse <;> simp [takeUnits]
    | cons c rest ih =>
      have width : 0 < unitWidth c := by unfold unitWidth; split <;> decide
      have total : (Utf16.unitCount (c :: rest).reverse : Int) - unitWidth c
          = Utf16.unitCount rest.reverse := by
        simp
      have positive : ¬ (Utf16.unitCount (c :: rest).reverse : Int) ≤ 0 := by
        simp only [List.reverse_cons, Utf16.unitCount_append, Utf16.unitCount_cons]
        omega
      rw [List.cons_append, takeUnits, if_neg positive, total, ih]
  simpa using general since.reverse

/-- An open entity covers what was gathered since it started. -/
lemma covered?_eq {gathering : Gathering κ} {key : κ} {draft : OpenEntity} {front since : Text}
    (h : gathering.draft? key = some draft) (whole : gathering.text = front ++ since)
    (length : draft.length = Utf16.unitCount since) :
    gathering.covered? key = some since := by
  have reversed : gathering.reversed = since.reverse ++ front.reverse := by
    rw [← List.reverse_append, ← whole, Gathering.text, List.reverse_reverse]
  simp [covered?, h, length, reversed, takeUnits_reverse]

/-! ## Growth -/

/-- From `before` to `after` the text gained `piece`, the entities `new` ended, and the entities
open before are still open and no others. -/
structure Grows (before after : Gathering κ) (piece : Text) (new : List Entity) : Prop where
  text : after.text = before.text ++ piece
  draft : ∀ key, after.draft? key =
    (before.draft? key).map (·.extend (Utf16.unitCount piece))
  entities : after.entities = before.entities ++ new
  sound : after.Sound

variable {before middle after : Gathering κ} {piece more : Text} {new newer : List Entity}

lemma Grows.refl (sound : before.Sound) : Grows before before [] [] := by
  refine ⟨by simp, fun key => ?_, by simp, sound⟩
  cases before.draft? key <;> simp

/-- **Growth adds up.** -/
lemma Grows.trans (first : Grows before middle piece new)
    (second : Grows middle after more newer) :
    Grows before after (piece ++ more) (new ++ newer) := by
  refine ⟨?_, fun key => ?_, ?_, second.sound⟩
  · rw [second.text, first.text, List.append_assoc]
  · rw [second.draft, first.draft, Option.map_map, Utf16.unitCount_append]
    congr 1
    funext draft
    exact OpenEntity.extend_extend _ _ draft
  · rw [second.entities, first.entities, List.append_assoc]

lemma Grows.append (sound : before.Sound) (short : Short (before.text ++ piece)) :
    Grows before (before.append piece) piece [] :=
  ⟨text_append piece before, sound.draft?_append short, by simp, sound.append short⟩

lemma Grows.draft?_eq_none (grows : Grows before after piece new) {key : κ}
    (free : before.draft? key = none) : after.draft? key = none := by
  rw [grows.draft, free]
  rfl

lemma Grows.draft?_started {key : κ} {kind : Kind} (sound : before.Sound)
    (free : before.draft? key = none)
    (grows : Grows (before.start key kind) after piece new) :
    after.draft? key =
      some ⟨Utf16.unitCount before.text, Utf16.unitCount piece, kind⟩ := by
  rw [grows.draft, draft?_start, if_pos rfl, free, ← sound.units]
  simp [OpenEntity.start, OpenEntity.extend]

/-- An entity that started under a free key covers what was added since. -/
lemma Grows.covered?_started {key : κ} {kind : Kind} (sound : before.Sound)
    (free : before.draft? key = none)
    (grows : Grows (before.start key kind) after piece new) :
    after.covered? key = some piece :=
  covered?_eq (grows.draft?_started sound free) (by rw [grows.text, text_start]) rfl

lemma Grows.draft?_finish {key : κ} {kind : Kind} (free : before.draft? key = none)
    (grows : Grows (before.start key kind) after piece new) (other : κ) :
    (after.finish key).draft? other =
      (before.draft? other).map (·.extend (Utf16.unitCount piece)) := by
  rw [Gathering.draft?_finish]
  by_cases same : other = key
  · subst same
    simp [free]
  · rw [if_neg same, grows.draft, draft?_start, if_neg same]

/-- **Enclosing growth.**  What starts under a free key before some growth and ends behind it adds
the entity over that growth behind the entities within. -/
lemma Grows.finish {key : κ} {kind : Kind} (sound : before.Sound)
    (free : before.draft? key = none)
    (grows : Grows (before.start key kind) after piece new) :
    Grows before (after.finish key) piece
      (new ++ [⟨Utf16.unitCount before.text, Utf16.unitCount piece, kind⟩]) := by
  refine ⟨?_, grows.draft?_finish free, ?_, grows.sound.finish key⟩
  · rw [text_finish, grows.text, text_start]
  · rw [entities_finish, grows.draft?_started sound free, grows.entities, entities_start,
      List.append_assoc]
    rfl

/-- Enclosing growth, the kind being fixed at the end only. -/
lemma Grows.finish_revised {key : κ} {kind : Kind} (final : Kind) (sound : before.Sound)
    (free : before.draft? key = none)
    (grows : Grows (before.start key kind) after piece new) :
    Grows before ((after.revise key (·.setKind final)).finish key) piece
      (new ++ [⟨Utf16.unitCount before.text, Utf16.unitCount piece, final⟩]) := by
  have revised : (after.revise key (·.setKind final)).Sound :=
    grows.sound.revise key (fun _ => rfl) (fun _ => rfl)
  refine ⟨?_, fun other => ?_, ?_, revised.finish key⟩
  · rw [text_finish, text_revise, grows.text, text_start]
  · rw [← grows.draft?_finish free other, Gathering.draft?_finish, Gathering.draft?_finish,
      draft?_revise]
    by_cases same : other = key <;> simp [same]
  · rw [entities_finish, draft?_revise, if_pos rfl, grows.draft?_started sound free,
      entities_revise, grows.entities, entities_start, List.append_assoc]
    rfl

/-! ## Stretches of a text -/

variable {text : Text} {position start limit : Nat}

omit [DecidableEq κ] in
lemma Short.upTo_append_slice (short : Short text) (order : position ≤ limit) :
    Short (Utf16.upTo position text ++ Utf16.slice (Utf16.encode text) position limit) := by
  obtain ⟨rest, whole⟩ := Utf16.upTo_prefix limit text
  rw [← whole] at short
  rw [Utf16.upTo_append_slice order]
  exact short.of_append

/-- Growth over one stretch and then over the next is growth over both. -/
lemma Grows.stretch (order : position ≤ start) (further : start ≤ limit)
    (first : Grows before middle (Utf16.slice (Utf16.encode text) position start) new)
    (second : Grows middle after (Utf16.slice (Utf16.encode text) start limit) newer) :
    Grows before after (Utf16.slice (Utf16.encode text) position limit) (new ++ newer) := by
  rw [← Utf16.slice_append order further]
  exact first.trans second

end Gathering

end RichText
