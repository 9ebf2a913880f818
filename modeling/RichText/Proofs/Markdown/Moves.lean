import Mathlib.Tactic.Lemma
import RichText.Proofs.Markdown.Brackets
import RichText.Proofs.Markdown.Steps

/-!
# Moves of the reader

A step of the reader does one of four things (`Move`): it finishes the innermost link, stays at the
end, enters a link at a bracket, or takes some characters and changes what it has gathered.  In the
last case the characters taken end where a piece of the source ends (`Takes`), whichever rule took
them; so after any number of steps the reader stands at a boundary of the source
(`atBoundary_after`).
-/

namespace RichText.Markdown

variable {source text rest next : Text} {c : Char} {size used count place steps : Nat}
  {quoting : Bool}

/-! ## Verbatim text by pieces -/

/-- What the first piece of a text stands for, and how long it is. -/
def piece? : Text → Option (Char × Nat)
  | [] => none
  | c :: rest =>
    match escaped? (c :: rest) with
    | some e => some (e, 2)
    | none => some (c, 1)

/-- What a reader of code takes next, and how long it is; nothing at the run of backticks that ends
the code, and nothing at the end. -/
def codePiece? (size : Nat) (quoting : Bool) : Text → Option (Char × Nat)
  | [] => none
  | c :: rest =>
    if c = '\x60' ∧ (List.replicate size '\x60').isPrefixOf (c :: rest) then none
    else if c = '\n' ∧ quoting ∧ rest.head? = some '>' then some (c, quoteMarkLength rest + 1)
    else piece? (c :: rest)

/-- Code is read piece by piece. -/
lemma readCode?_eq (size : Nat) (quoting : Bool) (text : Text) :
    readCode? size quoting text =
      match codePiece? size quoting text with
      | some (c, count) => (readCode? size quoting (text.drop count)).map fun (code, used) =>
          (c :: code, used + count)
      | none => if text = [] then none else some ([], size) := by
  cases text with
  | nil => simp [readCode?, codePiece?]
  | cons c rest =>
    rw [readCode?.eq_def]
    simp only [codePiece?, piece?]
    cases escape : escaped? (c :: rest) with
    | some e =>
      obtain ⟨behind, same, -⟩ := escaped?_eq_some escape
      cases same
      simp
    | none =>
      simp only
      split
      · simp
      · split
        · simp only [List.drop_succ_cons, Nat.add_assoc, Nat.add_comm 1]
        · rfl

/-- The target of a link is read piece by piece. -/
lemma readTarget_eq (size : Nat) (text : Text) :
    readTarget size text =
      if size = 0 then ([], text)
      else match piece? text with
        | some (c, count) =>
          (c :: (readTarget (size - count) (text.drop count)).1,
            (readTarget (size - count) (text.drop count)).2)
        | none => ([], []) := by
  cases text with
  | nil => simp [readTarget, piece?]
  | cons c rest =>
    rw [readTarget.eq_def]
    simp only [piece?]
    split
    · rfl
    · cases escape : escaped? (c :: rest) <;> simp

/-! ## Where pieces end -/

lemma isBoundary_piece (piece : Text) (free : '\\' ∉ piece) (rest : Text) :
    IsBoundary (piece ++ rest) piece.length := by
  simpa using (isBoundary_zero (piece ++ rest)).skip rfl free

lemma isBoundary_one (h : escaped? (c :: rest) = none) : IsBoundary (c :: rest) 1 :=
  isBoundary_first (pieces_cons h)

/-- The mark of a quoted line cuts no escape. -/
lemma isBoundary_quoteMark (h : text.head? = some '>') :
    IsBoundary text (quoteMarkLength text) := by
  obtain ⟨rest, rfl⟩ := List.head?_eq_some_iff.1 h
  unfold quoteMarkLength
  split
  · rename_i space
    obtain ⟨tail, rfl⟩ : ∃ tail, rest = ' ' :: tail := by
      rwa [List.getElem?_cons_succ, ← List.head?_eq_getElem?, List.head?_eq_some_iff] at space
    exact isBoundary_piece ['>', ' '] (by decide) tail
  · exact isBoundary_piece ['>'] (by decide) rest

/-- What `piece?` finds is the first of the pieces. -/
lemma pieces_of_piece? (h : piece? text = some (c, count)) :
    ∃ piece rest, pieces text = piece :: pieces rest ∧ piece.length = count := by
  unfold piece? at h
  split at h
  · cases h
  · rename_i d rest
    split at h
    · rename_i escape
      obtain ⟨behind, same, punctuation⟩ := escaped?_eq_some escape
      cases h
      cases same
      exact ⟨_, behind, pieces_escape punctuation behind, rfl⟩
    · rename_i plain
      cases h
      exact ⟨_, rest, pieces_cons plain, rfl⟩

lemma piece?_isBoundary (h : piece? text = some (c, count)) : IsBoundary text count := by
  obtain ⟨piece, rest, first, rfl⟩ := pieces_of_piece? h
  exact isBoundary_first first

lemma piece?_pos (h : piece? text = some (c, count)) : 0 < count := by
  unfold piece? at h
  repeat' split at h
  all_goals cases h <;> decide

/-- A reader of code takes whole pieces. -/
lemma codePiece?_spec (h : codePiece? size quoting text = some (c, count)) :
    0 < count ∧ IsBoundary text count := by
  unfold codePiece? at h
  split at h
  · cases h
  · split at h
    · cases h
    · split at h
      · rename_i rest _ line
        cases h
        obtain ⟨rfl, -, marked⟩ := line
        refine ⟨Nat.succ_pos _, (isBoundary_cons (escaped?_cons_of_ne (by decide) rest)).2 ?_⟩
        exact .inr ⟨_, rfl, isBoundary_quoteMark marked⟩
      · exact ⟨piece?_pos h, piece?_isBoundary h⟩

/-- A reader of code stops only before backticks. -/
lemma codePiece?_eq_none (h : codePiece? size quoting text = none) (filled : text ≠ []) :
    ∃ rest, text = List.replicate size '\x60' ++ rest := by
  unfold codePiece? at h
  split at h
  · contradiction
  · split at h
    · rename_i ticks
      obtain ⟨rest, same⟩ := List.isPrefixOf_iff_prefix.1 ticks.2
      exact ⟨rest, same.symm⟩
    · split at h
      · cases h
      · unfold piece? at h
        dsimp only at h
        split at h <;> cases h

lemma isBoundary_ticks (size : Nat) (rest : Text) :
    IsBoundary (List.replicate size '\x60' ++ rest) size := by
  simpa using isBoundary_piece (List.replicate size '\x60') (by simp) rest

/-- **Code ends at a boundary**, and so does the run of backticks behind it. -/
lemma readCode?_isBoundary {code : Text} (h : readCode? size quoting text = some (code, used)) :
    IsBoundary text used := by
  induction length : text.length using Nat.strong_induction_on generalizing text code used with
  | _ _ ih =>
    subst length
    rw [readCode?_eq] at h
    split at h
    · rename_i c count piece
      obtain ⟨positive, boundary⟩ := codePiece?_spec piece
      obtain ⟨⟨inside, later⟩, read, same⟩ := Option.map_eq_some_iff.1 h
      cases same
      have bound := boundary.le
      have shorter : (text.drop count).length < text.length := by
        rw [List.length_drop]
        omega
      rw [Nat.add_comm, ← isBoundary_drop boundary]
      exact ih _ shorter read rfl
    · rename_i stopped
      split at h
      · cases h
      · rename_i filled
        cases h
        obtain ⟨rest, rfl⟩ := codePiece?_eq_none stopped filled
        exact isBoundary_ticks size rest

/-! ## Links that open -/

/-- What a link says of the source, when it opens at a reading. -/
structure Opens (source : Text) (reading : Reading) (link : LinkText) : Prop where
  /-- Its brackets are a pair. -/
  paired : Paired source reading.position link.textEnd
  /-- A parenthesis follows them. -/
  parenthesis : source[link.textEnd + 1]? = some '('
  /-- Its target ends at the first closing parenthesis. -/
  targetEnd : IsLeast {place | link.textEnd + 2 ≤ place ∧ IsMark source ')' place} (link.stop - 1)
  positive : 0 < link.stop
  /-- It ends before the text of the link around it. -/
  within : ∀ outer ∈ reading.links.head?, link.stop ≤ outer.textEnd
  /-- What stands in the parentheses is its target. -/
  target : link.target = (readTarget (link.stop - 1 - (link.textEnd + 2))
    (source.drop (link.textEnd + 2))).1

variable {settings : Settings} {marks : LinkMarks} {reading : Reading} {link : LinkText}

lemma opens_of_linkHere? (rest : reading.rest = source.drop reading.position)
    (h : reading.linkHere? (.ofSource source) = some link) : Opens source reading link := by
  obtain ⟨textEnd, partner, found⟩ := Option.bind_eq_some_iff.1 h
  have paired := (LinkMarks.partner?_eq_some_iff _ _ _).1 partner
  have order := paired.behind
  rw [rest, List.drop_drop, show reading.position + (textEnd + 1 - reading.position) = textEnd + 1
    by omega] at found
  split at found
  · rename_i behind left
    obtain ⟨targetEnd, ends, further⟩ := Option.bind_eq_some_iff.1 found
    have least := (LinkMarks.targetEndFrom?_eq_some_iff _ _ _).1 ends
    have behind_eq : behind = source.drop (textEnd + 2) :=
      (drop_add_length ['('] left).symm
    split at further
    · cases further
    · rename_i within
      obtain rfl := Option.some.inj further
      refine ⟨paired, ?_, least, Nat.succ_pos _, fun outer member => ?_, ?_⟩
      · rw [← List.head?_drop, left, List.head?_cons]
      · simp only [Option.mem_def] at member
        simpa [member, Nat.add_one_le_iff] using within
      · rw [← behind_eq]
        rfl
  · cases found

/-! ## Characters that are taken -/

/-- One reading comes of another by taking some characters, which cut no escape in two, and
changing what is gathered. -/
def Takes (reading read : Reading) : Prop :=
  ∃ count change, 0 < count ∧ IsBoundary reading.rest count ∧ read = reading.gather count change

lemma takes_one (rest : reading.rest = c :: next) (plain : escaped? (c :: next) = none)
    (change : Gathering Delimiter → Gathering Delimiter) :
    Takes reading (reading.gather 1 change) :=
  ⟨1, change, Nat.one_pos, rest ▸ isBoundary_one plain, rfl⟩

/-- Two characters of which neither is a backslash may be taken together. -/
lemma takes_two {d : Char} (rest : reading.rest = c :: next) (first : c ≠ '\\')
    (second : next.head? = some d) (free : d ≠ '\\')
    (change : Gathering Delimiter → Gathering Delimiter) :
    Takes reading (reading.gather 2 change) := by
  obtain ⟨tail, rfl⟩ := List.head?_eq_some_iff.1 second
  refine ⟨2, change, by decide, ?_, rfl⟩
  rw [rest]
  exact isBoundary_piece [c, d] (by simp [first.symm, free.symm]) tail

lemma takes_escape {e : Char} (rest : reading.rest = c :: next)
    (escape : escaped? (c :: next) = some e)
    (change : Gathering Delimiter → Gathering Delimiter) :
    Takes reading (reading.gather 2 change) := by
  obtain ⟨behind, same, punctuation⟩ := escaped?_eq_some escape
  refine ⟨2, change, by decide, ?_, rfl⟩
  rw [rest, same]
  exact isBoundary_first (pieces_escape punctuation behind)

/-- A line within a quote is taken together with its mark. -/
lemma takes_line (rest : reading.rest = '\n' :: next) (marked : next.head? = some '>')
    (change : Gathering Delimiter → Gathering Delimiter) :
    Takes reading (reading.gather (1 + quoteMarkLength next) change) := by
  refine ⟨_, change, by omega, ?_, rfl⟩
  rw [rest, isBoundary_cons (escaped?_cons_of_ne (by decide) next)]
  exact .inr ⟨_, Nat.add_comm _ _, isBoundary_quoteMark marked⟩

/-- Code is taken together with the backticks around it. -/
lemma takes_code {inside tail : Text} (positive : 0 < size)
    (ticks : reading.rest = List.replicate size '\x60' ++ tail)
    (read : readCode? size reading.quoting (reading.rest.drop size) = some (inside, used))
    (change : Gathering Delimiter → Gathering Delimiter) :
    Takes reading (reading.gather (size + used) change) := by
  refine ⟨_, change, by omega, ?_, rfl⟩
  have opened : IsBoundary reading.rest size := ticks ▸ isBoundary_ticks size tail
  exact (isBoundary_drop opened).1 (readCode?_isBoundary read)

/-! ## The moves -/

/-- What one step does. -/
inductive Move (settings : Settings) (marks : LinkMarks) (reading : Reading) : Reading → Prop
  /-- The innermost link, whose text has ended, is finished. -/
  | leave {link : LinkText} {outer : List LinkText} (waiting : reading.links = link :: outer)
      (ended : link.textEnd ≤ reading.position) :
      Move settings marks reading (reading.leaveLink settings link outer)
  /-- Nothing is left, and nothing happens. -/
  | stay (done : reading.rest = [])
      (before : ∀ link ∈ reading.links.head?, reading.position < link.textEnd) :
      Move settings marks reading reading
  /-- A bracket opens a link. -/
  | enter {link : LinkText} {next : Text} (bracket : reading.rest = '[' :: next)
      (found : reading.linkHere? marks = some link)
      (before : ∀ link ∈ reading.links.head?, reading.position < link.textEnd) :
      Move settings marks reading (reading.enterLink link)
  /-- Some characters are taken. -/
  | take {read : Reading} (taken : Takes reading read)
      (before : ∀ link ∈ reading.links.head?, reading.position < link.textEnd) :
      Move settings marks reading read

/-- **Following a rule is a move.** -/
lemma move_of_rule {read : Reading} (rest : reading.rest = c :: next)
    (before : ∀ link ∈ reading.links.head?, reading.position < link.textEnd)
    (rule : Reading.Rule marks reading c next read) : Move settings marks reading read := by
  cases rule with
  | quoteStart mark =>
    refine .take ⟨_, _, quoteMarkLength_pos _, ?_, rfl⟩ before
    rw [rest]
    exact isBoundary_quoteMark (by simp [mark])
  | escape escape => exact .take (takes_escape rest escape _) before
  | quoteLine line _ marked =>
    subst line
    exact .take (takes_line rest marked _) before
  | quoteBreak line =>
    subst line
    exact .take (takes_one rest (escaped?_cons_of_ne (by decide) next) _) before
  | codeBlock fenced read =>
    obtain ⟨tail, ticks⟩ := fenced
    exact .take (takes_code (by decide) (rest.trans ticks.symm) read _) before
  | loneFence fenced =>
    obtain ⟨tail, same⟩ := fenced
    have ticks : reading.rest = List.replicate 3 '\x60' ++ tail := rest.trans same.symm
    exact .take ⟨3, _, by decide, ticks ▸ isBoundary_ticks 3 tail, rfl⟩ before
  | codeSpan tick read =>
    subst tick
    exact .take (takes_code Nat.one_pos rest read _) before
  | quoteStop first second =>
    subst first
    exact .take (takes_two rest (by decide) second (by decide) _) before
  | link bracket found =>
    subst bracket
    exact .enter rest found before
  | switch doubled second =>
    have plain : c ≠ '\\' := by
      rintro rfl
      exact (Reading.doubled?_eq_some doubled).1 (by simp)
    exact .take (takes_two rest plain second plain _) before
  | text plain => exact .take (takes_one rest plain _) before

/-- **Every step is a move.** -/
lemma move_step (settings : Settings) (marks : LinkMarks) (reading : Reading) :
    Move settings marks reading (reading.step settings marks) := by
  have stepped := Reading.stepped_step settings marks reading
  generalize reading.step settings marks = later at stepped ⊢
  cases stepped with
  | leave waiting ended => exact .leave waiting ended
  | stay done before => exact .stay done before
  | on rest before rule => exact move_of_rule rest before rule

/-! ## Where the reader stands -/

/-- A reading that stands at a boundary of its source, and whose links end at boundaries. -/
structure AtBoundary (source : Text) (reading : Reading) : Prop where
  rest : reading.rest = source.drop reading.position
  boundary : IsBoundary source reading.position
  stops : ∀ link ∈ reading.links, IsBoundary source link.stop

lemma atBoundary_start (source : Text) : AtBoundary source (.start source) :=
  ⟨rfl, isBoundary_zero source, by simp [Reading.start]⟩

lemma IsMark.isBoundary_succ (h : IsMark source c place) (free : c ≠ '\\') :
    IsBoundary source (place + 1) := by
  have left : source.drop place = c :: source.drop (place + 1) := by
    obtain ⟨inside, same⟩ := List.getElem?_eq_some_iff.1 h.1
    rw [← same, ← List.drop_eq_getElem_cons inside]
  exact h.isBoundary.plain left (escaped?_cons_of_ne free _)

lemma Opens.stop (h : Opens source reading link) : IsBoundary source link.stop := by
  have closes := h.targetEnd.1.2.isBoundary_succ (by decide)
  have positive := h.positive
  rwa [Nat.sub_add_cancel positive] at closes

lemma AtBoundary.gather (h : AtBoundary source reading) (boundary : IsBoundary reading.rest count)
    (change : Gathering Delimiter → Gathering Delimiter) :
    AtBoundary source (reading.gather count change) where
  rest := by
    rw [Reading.rest_gather, h.rest, List.drop_drop]
    rfl
  boundary := by
    rw [h.rest, isBoundary_drop h.boundary] at boundary
    exact boundary
  stops := h.stops

/-- **Every step leads to a boundary.** -/
lemma AtBoundary.step (h : AtBoundary source reading) (settings : Settings) :
    AtBoundary source (reading.step settings (.ofSource source)) := by
  have move := move_step settings (.ofSource source) reading
  generalize reading.step settings (.ofSource source) = later at move
  cases move with
  | @leave link outer waiting ended =>
    have stops : ∀ other ∈ link :: outer, IsBoundary source other.stop := waiting ▸ h.stops
    -- the link ends behind this place, or at it, or was passed by
    have boundary : IsBoundary reading.rest (link.stop - reading.position) := by
      rw [h.rest, isBoundary_drop h.boundary]
      rcases Nat.le_total link.stop reading.position with passed | behind
      · rw [Nat.sub_eq_zero_of_le passed]
        exact h.boundary
      · rw [Nat.add_sub_cancel' behind]
        exact stops link List.mem_cons_self
    have moved := h.gather boundary id
    exact ⟨moved.rest, moved.boundary, fun other member => stops other (.tail link member)⟩
  | stay done before => exact h
  | @enter link next bracket found before =>
    have opens := opens_of_linkHere? h.rest found
    have boundary : IsBoundary reading.rest 1 := by
      rw [bracket]
      exact isBoundary_one (escaped?_cons_of_ne (by decide) next)
    have moved := h.gather boundary id
    refine ⟨moved.rest, moved.boundary, fun other member => ?_⟩
    rcases List.mem_cons.1 member with rfl | outer
    · exact opens.stop
    · exact h.stops other outer
  | take taken before =>
    obtain ⟨count, change, -, boundary, rfl⟩ := taken
    exact h.gather boundary change

namespace Reading

/-- The reading after a number of steps from the start of a source. -/
def after (settings : Settings) (source : Text) (steps : Nat) : Reading :=
  (step settings (.ofSource source))^[steps] (start source)

@[simp] lemma after_zero (settings : Settings) (source : Text) :
    after settings source 0 = start source := rfl

lemma after_succ (settings : Settings) (source : Text) (steps : Nat) :
    after settings source (steps + 1) =
      (after settings source steps).step settings (.ofSource source) :=
  Function.iterate_succ_apply' _ _ _

/-- A run is as many steps as there are until nothing is left. -/
lemma run_eq_iterate (settings : Settings) (marks : LinkMarks) (reading : Reading) :
    ∃ steps, run settings marks reading = (step settings marks)^[steps] reading ∧
      ((step settings marks)^[steps] reading).rest = [] ∧
      ∀ earlier < steps, ((step settings marks)^[earlier] reading).rest ≠ [] := by
  induction size : reading.remaining using Nat.strong_induction_on generalizing reading with
  | _ _ ih =>
    subst size
    by_cases done : reading.rest = []
    · refine ⟨0, ?_, done, fun earlier early => absurd early (Nat.not_lt_zero earlier)⟩
      rw [run, dif_pos done, Function.iterate_zero_apply]
    · obtain ⟨steps, same, last, more⟩ := ih _ (remaining_step_lt done) _ rfl
      refine ⟨steps + 1, (run_step done).trans same, last, fun earlier early => ?_⟩
      cases earlier with
      | zero => exact done
      | succ earlier => exact more earlier (Nat.lt_of_succ_lt_succ early)

lemma run_eq_after (settings : Settings) (source : Text) :
    ∃ steps, run settings (.ofSource source) (start source) = after settings source steps ∧
      (after settings source steps).rest = [] ∧
      ∀ earlier < steps, (after settings source earlier).rest ≠ [] :=
  run_eq_iterate settings (.ofSource source) (start source)

end Reading

lemma move_after (settings : Settings) (source : Text) (steps : Nat) :
    Move settings (.ofSource source) (.after settings source steps)
      (.after settings source (steps + 1)) := by
  rw [Reading.after_succ]
  exact move_step settings (.ofSource source) _

/-- **After any number of steps the reader stands at a boundary.** -/
lemma atBoundary_after (settings : Settings) (source : Text) (steps : Nat) :
    AtBoundary source (.after settings source steps) := by
  induction steps with
  | zero => exact atBoundary_start source
  | succ steps ih =>
    rw [Reading.after_succ]
    exact ih.step settings

end RichText.Markdown
