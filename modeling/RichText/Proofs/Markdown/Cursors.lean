import Mathlib.Tactic.Lemma
import RichText.Proofs.Markdown.Moves

/-!
# Cursors

Four readers look through a source of Markdown, each with a cursor of its own: the pass that
collects the marks of links, the reader itself, the reader of code and that of the targets of links.
The last three start at places to which others have jumped, and in a run of backslashes every second
place is the wrong one to start from.  Yet all their cursors stand at boundaries of the source
(`cursors_agree`), so that none of them takes the second half of an escape for a delimiter or for
another backslash.
-/

namespace RichText.Markdown

variable {source : Text} {move : Nat → Option Nat} {start stop place size used count : Nat}
  {quoting : Bool}

/-! ## Places that are reached -/

/-- The places to which a cursor comes from a start, when from a place it moves on by so many
characters, or not at all. -/
inductive Reaches (move : Nat → Option Nat) (start : Nat) : Nat → Prop
  | here : Reaches move start start
  | further {place count : Nat} (reached : Reaches move start place)
      (moved : move place = some count) : Reaches move start (place + count)

/-- What is reached behind the first move is reached. -/
lemma Reaches.behind (h : Reaches move (start + count) place) (moved : move start = some count) :
    Reaches move start place := by
  induction h with
  | here => exact .further .here moved
  | further _ next ih => exact .further ih next

lemma Reaches.mono {other : Nat → Option Nat} (h : Reaches move start place)
    (moves : ∀ place count, move place = some count → other place = some count) :
    Reaches other start place := by
  induction h with
  | here => exact .here
  | further _ moved ih => exact .further ih (moves _ _ moved)

/-- A cursor that starts at a boundary and moves by pieces stays at boundaries. -/
lemma Reaches.isBoundary (h : Reaches move start place) (first : IsBoundary source start)
    (moves : ∀ place count, move place = some count → IsBoundary (source.drop place) count) :
    IsBoundary source place := by
  induction h with
  | here => exact first
  | further _ moved ih => exact (isBoundary_drop ih).1 (moves _ _ moved)

/-! ## The cursors

That the readers move so is what `collect_move`, `readCode?_eq` and `readTarget_eq` say of them. -/

/-- How the pass for the marks of links moves. -/
def markMove? (source : Text) (place : Nat) : Option Nat :=
  (piece? (source.drop place)).map Prod.snd

/-- How the reader of code between runs of `size` backticks moves. -/
def codeMove? (size : Nat) (quoting : Bool) (source : Text) (place : Nat) : Option Nat :=
  (codePiece? size quoting (source.drop place)).map Prod.snd

/-- How the reader of a target that ends at `stop` moves. -/
def targetMove? (source : Text) (stop place : Nat) : Option Nat :=
  if place < stop then markMove? source place else none

lemma markMove?_isBoundary (place count : Nat) (moved : markMove? source place = some count) :
    IsBoundary (source.drop place) count := by
  obtain ⟨⟨c, count⟩, piece, rfl⟩ := Option.map_eq_some_iff.1 moved
  exact piece?_isBoundary piece

lemma codeMove?_isBoundary (place count : Nat)
    (moved : codeMove? size quoting source place = some count) :
    IsBoundary (source.drop place) count := by
  obtain ⟨⟨c, count⟩, piece, rfl⟩ := Option.map_eq_some_iff.1 moved
  exact (codePiece?_spec piece).2

lemma markMove?_of_targetMove? (place count : Nat)
    (moved : targetMove? source stop place = some count) : markMove? source place = some count := by
  unfold targetMove? at moved
  split at moved
  · exact moved
  · cases moved

/-- The pass for the marks goes on where its cursor moves to. -/
lemma collect_move {opened : List Nat} {marks : LinkMarks}
    (moved : markMove? source place = some count) :
    ∃ waiting later, LinkMarks.collect place opened marks (source.drop place) =
      LinkMarks.collect (place + count) waiting later (source.drop (place + count)) := by
  obtain ⟨⟨c, count⟩, piece, rfl⟩ := Option.map_eq_some_iff.1 moved
  rw [← List.drop_drop]
  generalize source.drop place = text at piece
  cases text with
  | nil => cases piece
  | cons d rest =>
    rw [LinkMarks.collect.eq_def]
    simp only [piece?] at piece
    cases escape : escaped? (d :: rest) with
    | some e =>
      simp only [escape] at piece
      cases piece
      exact ⟨opened, marks, by simp [escape]⟩
    | none =>
      simp only [escape] at piece
      cases piece
      simp only [escape, Option.isSome_none, Bool.false_eq_true, if_false, List.drop_succ_cons,
        List.drop_zero]
      split
      · exact ⟨_, _, rfl⟩
      split
      · split <;> exact ⟨_, _, rfl⟩
      split <;> exact ⟨_, _, rfl⟩

lemma collect_of_reaches (h : Reaches (markMove? source) 0 place) : ∃ opened marks,
    LinkMarks.ofSource source = LinkMarks.collect place opened marks (source.drop place) := by
  induction h with
  | here => exact ⟨_, _, rfl⟩
  | further _ moved ih =>
    obtain ⟨opened, marks, same⟩ := ih
    obtain ⟨waiting, later, next⟩ := @collect_move source _ _ opened marks moved
    exact ⟨waiting, later, same.trans next⟩

/-- Code that is read ends where the cursor of its reader stops, at a run of backticks. -/
lemma reaches_of_readCode? {code : Text}
    (h : readCode? size quoting (source.drop start) = some (code, used)) :
    ∃ place, Reaches (codeMove? size quoting source) start place ∧
      List.replicate size '\x60' <+: source.drop place ∧ start + used = place + size := by
  induction length : (source.drop start).length using Nat.strong_induction_on
    generalizing start code used with
  | _ _ ih =>
    subst length
    rw [readCode?_eq] at h
    split at h
    · rename_i c count piece
      obtain ⟨positive, boundary⟩ := codePiece?_spec piece
      obtain ⟨⟨inside, later⟩, read, same⟩ := Option.map_eq_some_iff.1 h
      cases same
      rw [List.drop_drop] at read
      have bound := boundary.le
      have shorter : (source.drop (start + count)).length < (source.drop start).length := by
        simp only [List.length_drop] at bound ⊢
        omega
      obtain ⟨place, reached, ticks, same⟩ := ih _ shorter read rfl
      exact ⟨place, reached.behind (by simp [codeMove?, piece]), ticks, by omega⟩
    · rename_i stopped
      split at h
      · cases h
      · rename_i filled
        cases h
        obtain ⟨rest, ticks⟩ := codePiece?_eq_none stopped filled
        exact ⟨start, .here, ⟨rest, ticks.symm⟩, rfl⟩

/-! ## Targets -/

lemma piece?_le {text : Text} {c : Char} (piece : piece? text = some (c, count))
    (boundary : IsBoundary text place) (positive : 0 < place) : count ≤ place := by
  obtain ⟨front, rest, first, rfl⟩ := pieces_of_piece? piece
  obtain rfl | ⟨later, rfl, -⟩ := (isBoundary_of_pieces first).1 boundary
  · exact absurd positive (Nat.lt_irrefl 0)
  · exact Nat.le_add_left _ _

lemma exists_piece? {text : Text} (filled : text ≠ []) :
    ∃ c count, piece? text = some (c, count) := by
  cases text with
  | nil => contradiction
  | cons c rest =>
    simp only [piece?]
    split <;> exact ⟨_, _, rfl⟩

/-- What the next piece of a target does, before a boundary. -/
lemma exists_targetMove? (boundary : IsBoundary source place) (last : IsBoundary source stop)
    (before : place < stop) :
    ∃ c count, piece? (source.drop place) = some (c, count) ∧ 0 < count ∧ place + count ≤ stop ∧
      IsBoundary source (place + count) := by
  have inside := last.le
  have filled : source.drop place ≠ [] := by
    rw [Ne, List.drop_eq_nil_iff]
    omega
  obtain ⟨c, count, piece⟩ := exists_piece? filled
  have positive := piece?_pos piece
  have next := piece?_isBoundary piece
  have ends : IsBoundary (source.drop place) (stop - place) := by
    rwa [isBoundary_drop boundary, Nat.add_sub_cancel' before.le]
  have short := piece?_le piece ends (by omega)
  exact ⟨c, count, piece, positive, by omega, (isBoundary_drop boundary).1 next⟩

/-- Between two boundaries a target is read up to the second, and no further. -/
lemma readTarget_between (boundary : IsBoundary source place) (last : IsBoundary source stop)
    (before : place ≤ stop) : Reaches (targetMove? source stop) place stop ∧
      (readTarget (stop - place) (source.drop place)).2 = source.drop stop := by
  induction left : stop - place using Nat.strong_induction_on generalizing place with
  | _ _ ih =>
    subst left
    rcases before.eq_or_lt with rfl | inside
    · exact ⟨.here, by rw [Nat.sub_self, readTarget_zero]⟩
    · obtain ⟨c, count, piece, positive, bound, next⟩ := exists_targetMove? boundary last inside
      have moved : targetMove? source stop place = some count := by
        rw [targetMove?, if_pos inside, markMove?, piece, Option.map_some]
      obtain ⟨reached, same⟩ := ih _ (by omega) next bound rfl
      refine ⟨reached.behind moved, ?_⟩
      rw [readTarget_eq, if_neg (by omega), piece]
      simp only [List.drop_drop]
      rw [show stop - place - count = stop - (place + count) by omega]
      exact same

/-- The cursor in a target never passes its end. -/
lemma isBoundary_and_le_of_reaches (h : Reaches (targetMove? source stop) start place)
    (first : IsBoundary source start) (last : IsBoundary source stop) (before : start ≤ stop) :
    IsBoundary source place ∧ place ≤ stop := by
  have moves (place count : Nat) (moved : targetMove? source stop place = some count) :=
    markMove?_isBoundary place count (markMove?_of_targetMove? place count moved)
  induction h with
  | here => exact ⟨first, before⟩
  | @further place count reached moved ih =>
    obtain ⟨boundary, bound⟩ := ih
    refine ⟨(isBoundary_drop boundary).1 (moves _ _ moved), ?_⟩
    have inside : place < stop := by
      by_contra passed
      simp [targetMove?, passed] at moved
    obtain ⟨c, other, piece, -, room, -⟩ := exists_targetMove? boundary last inside
    have same : other = count := by
      simpa [targetMove?, inside, markMove?, piece] using moved
    exact same ▸ room

/-- The pass for the marks of links comes to the boundaries and nowhere else. -/
lemma reaches_markMove?_iff : Reaches (markMove? source) 0 place ↔ IsBoundary source place := by
  refine ⟨fun h => h.isBoundary (isBoundary_zero source) markMove?_isBoundary, fun h => ?_⟩
  have reached := (readTarget_between (isBoundary_zero source) h (Nat.zero_le place)).1
  exact reached.mono markMove?_of_targetMove?

/-! ## All cursors -/

/-- The cursors of a reading, of the code that may start there and of the target of the link that
may open there, stand at boundaries of the source. -/
structure Aligned (source : Text) (reading : Reading) : Prop where
  /-- What is left is what stands behind the cursor. -/
  rest : reading.rest = source.drop reading.position
  position : IsBoundary source reading.position
  /-- Code behind backticks is read from boundary to boundary. -/
  code : ∀ size rest, reading.rest = List.replicate size '\x60' ++ rest → ∀ place,
    Reaches (codeMove? size reading.quoting source) (reading.position + size) place →
      IsBoundary source place
  /-- It ends at one of them, before as many backticks, and the reader goes on at another. -/
  codeStop : ∀ size rest code used, reading.rest = List.replicate size '\x60' ++ rest →
    readCode? size reading.quoting rest = some (code, used) → ∃ place,
      Reaches (codeMove? size reading.quoting source) (reading.position + size) place ∧
        List.replicate size '\x60' <+: source.drop place ∧
        reading.position + size + used = place + size ∧ IsBoundary source (place + size)
  /-- The target of a link is read from boundary to boundary, and not beyond its end. -/
  target : ∀ link, reading.linkHere? (.ofSource source) = some link → ∀ place,
    Reaches (targetMove? source (link.stop - 1)) (link.textEnd + 2) place →
      IsBoundary source place ∧ place ≤ link.stop - 1
  /-- Reading it stops at its end, which is a closing parenthesis that is not escaped. -/
  targetStop : ∀ link, reading.linkHere? (.ofSource source) = some link →
    IsMark source ')' (link.stop - 1) ∧
      Reaches (targetMove? source (link.stop - 1)) (link.textEnd + 2) (link.stop - 1) ∧
      readTarget (link.stop - 1 - (link.textEnd + 2)) (source.drop (link.textEnd + 2)) =
        (link.target, source.drop (link.stop - 1))

variable {reading : Reading} {link : LinkText}

lemma Opens.targetStart (h : Opens source reading link) : IsBoundary source (link.textEnd + 2) := by
  have closed := h.paired.closes.isBoundary_succ (by decide)
  have parenthesis : IsMark source '(' (link.textEnd + 1) := ⟨h.parenthesis, closed.not_isEscaped⟩
  exact parenthesis.isBoundary_succ (by decide)

lemma AtBoundary.aligned (h : AtBoundary source reading) : Aligned source reading where
  rest := h.rest
  position := h.boundary
  code size rest ticks place reached := by
    refine reached.isBoundary ((isBoundary_drop h.boundary).1 ?_) codeMove?_isBoundary
    rw [← h.rest, ticks]
    exact isBoundary_ticks size rest
  codeStop size rest code used ticks read := by
    have opened : IsBoundary source (reading.position + size) := by
      rw [← isBoundary_drop h.boundary, ← h.rest, ticks]
      exact isBoundary_ticks size rest
    have left : source.drop (reading.position + size) = rest := by
      rw [← List.drop_drop, ← h.rest, ticks, List.drop_left' (List.length_replicate)]
    obtain ⟨place, reached, run, same⟩ := reaches_of_readCode? (left ▸ read)
    refine ⟨place, reached, run, same, ?_⟩
    rw [← same, ← isBoundary_drop opened, left]
    exact readCode?_isBoundary read
  target link found place reached := by
    have opens := opens_of_linkHere? h.rest found
    exact isBoundary_and_le_of_reaches reached opens.targetStart opens.targetEnd.1.2.isBoundary
      opens.targetEnd.1.1
  targetStop link found := by
    have opens := opens_of_linkHere? h.rest found
    obtain ⟨reached, left⟩ := readTarget_between opens.targetStart opens.targetEnd.1.2.isBoundary
      opens.targetEnd.1.1
    exact ⟨opens.targetEnd.1.2, reached, Prod.ext opens.target.symm left⟩

/-- The readers of a source agree on what is escaped in it. -/
structure CursorsAgree (settings : Settings) (source : Text) : Prop where
  /-- The pass for the marks of links comes to the boundaries and nowhere else. -/
  marks : ∀ place, Reaches (markMove? source) 0 place ↔ IsBoundary source place
  /-- At each of them it goes on with what is left. -/
  pass : ∀ place, Reaches (markMove? source) 0 place → ∃ opened marks,
    LinkMarks.ofSource source = LinkMarks.collect place opened marks (source.drop place)
  /-- The reader comes to its end by steps. -/
  run : ∃ steps, Reading.run settings (.ofSource source) (.start source) =
    .after settings source steps
  /-- After each of them its cursor stands at a boundary, and so do those of the code and of the
  targets that it may read there. -/
  aligned : ∀ steps, Aligned source (.after settings source steps)
  /-- At a boundary nothing is the second half of an escape, and everywhere else something is. -/
  unescaped : ∀ place, IsBoundary source place ↔ place ≤ source.length ∧ ¬ IsEscaped source place

/-- **All readers agree on what is escaped**, in every source. -/
theorem cursors_agree (settings : Settings) (source : Text) : CursorsAgree settings source where
  marks place := reaches_markMove?_iff
  pass place reached := collect_of_reaches reached
  run := by
    obtain ⟨steps, same, -⟩ := Reading.run_eq_after settings source
    exact ⟨steps, same⟩
  aligned steps := (atBoundary_after settings source steps).aligned
  unescaped place := by
    refine ⟨fun h => ⟨h.le, h.not_isEscaped⟩, fun ⟨bound, plain⟩ => ?_⟩
    by_contra cut
    exact plain (isEscaped_iff.2 ⟨bound, cut⟩)

end RichText.Markdown
