import Mathlib.Data.List.Chain
import RichText.Proofs.Markdown.Moves
import RichText.Proofs.Markdown.Structure

/-!
# The stack of links

A link that has opened waits on a stack until its text has been read.  Finishing it may leave the
reader where it is, and code may carry the reader past the ends of several texts at once, so the
place alone shows neither that reading ends nor what waits.  What holds after every step is that the
links on the stack lie within one another (`Nested`) and that just their keys are open
(`keeps_keys`); so each link that enters the stack is finished once (`existsUnique_finishes`), and
twice the characters left and the links waiting become fewer with every step until there are none
(`remaining_after_lt`).
-/

namespace RichText.Markdown

variable {settings : Settings} {source : Text} {marks : LinkMarks} {reading later : Reading}
  {link : LinkText} {outer links : List LinkText}

/-! ## Keys -/

/-- The keys of links that are open are those of the depths at which links wait. -/
def Keyed (links : Nat) (gathering : Gathering Delimiter) : Prop :=
  ∀ depth, gathering.isOpen (.link depth) = decide (depth < links)

lemma Keyed.of_eq {count : Nat} {before after : Gathering Delimiter} (h : Keyed count before)
    (same : ∀ depth, after.isOpen (.link depth) = before.isOpen (.link depth)) :
    Keyed count after :=
  fun depth => (same depth).trans (h depth)

/-- Whatever closes the key of the innermost link and no other leaves the others open. -/
lemma Keyed.close {count : Nat} {before after : Gathering Delimiter} (h : Keyed (count + 1) before)
    (closed : after.isOpen (.link count) = false)
    (same : ∀ depth ≠ count, after.isOpen (.link depth) = before.isOpen (.link depth)) :
    Keyed count after := by
  intro depth
  by_cases innermost : depth = count
  · rw [innermost, closed]
    simp
  · rw [same depth innermost, h depth, decide_eq_decide]
    omega

lemma keyOf_ne_link_of_isCode {kind : Kind} (code : kind.isCode = true) (links depth : Nat) :
    keyOf links kind ≠ .link depth := by
  rcases (isCode_iff_keyOf links).1 code with key | key <;> simp [key]

/-- **The reader keeps just the keys of waiting links open.** -/
lemma keeps_keys (settings : Settings) : Keeps settings Keyed where
  append h piece := h.of_eq fun depth => Gathering.isOpen_append piece _
  start {links _} h kind formatting _ := h.of_eq fun depth =>
    Gathering.isOpen_start kind (keyOf_ne_link_of_isFormatting formatting links depth).symm
  finish {links _} h kind formatting _ := h.of_eq fun depth =>
    Gathering.isOpen_finish (keyOf_ne_link_of_isFormatting formatting links depth).symm
  code {links _} h kind code _ piece := h.of_eq fun depth => by
    have other := (keyOf_ne_link_of_isCode code links depth).symm
    rw [Gathering.isOpen_finish other, Gathering.isOpen_append, Gathering.isOpen_start kind other]
  enter {links gathering} h depth := by
    by_cases innermost : depth = links
    · rw [innermost, Gathering.isOpen_start_self]
      simp
    · rw [Gathering.isOpen_start _ (by simpa using innermost), h depth, decide_eq_decide]
      omega
  leave {links gathering} h {_ kind} _ := h.close (Gathering.isOpen_finish_self _ _) fun depth other => by
    rw [Gathering.isOpen_finish (by simpa using other), Gathering.isOpen_revise]
  drop {links gathering} h := h.close (Gathering.isOpen_abandon_self _ _) fun depth other =>
    Gathering.isOpen_abandon (by simpa using other)

lemma keyed_after (settings : Settings) (source : Text) (steps : Nat) :
    Keyed (Reading.after settings source steps).links.length
      (Reading.after settings source steps).gathered := by
  induction steps with
  | zero => exact fun depth => rfl
  | succ steps ih =>
    rw [Reading.after_succ]
    exact (keeps_keys settings).step ih

/-! ## Nesting -/

/-- Links that wait, innermost first: each ends behind its text, within the source and within the
text of the next. -/
structure Nested (source : Text) (links : List LinkText) : Prop where
  ends : ∀ link ∈ links, link.textEnd < link.stop ∧ link.stop ≤ source.length
  within : links.IsChain fun inner outer => inner.stop ≤ outer.textEnd

lemma Nested.tail (h : Nested source (link :: links)) : Nested source links :=
  ⟨fun other member => h.ends other (List.mem_cons_of_mem link member), h.within.tail⟩

/-- A link that opens lies within those that wait. -/
lemma Opens.nested (h : Opens source reading link) (nested : Nested source reading.links) :
    Nested source (link :: reading.links) := by
  have order := h.targetEnd.1.1
  have inside := h.targetEnd.1.2.lt
  refine ⟨fun other member => ?_, List.isChain_cons.2 ⟨fun outer member => ?_, nested.within⟩⟩
  · rcases List.mem_cons.1 member with rfl | waiting
    · exact ⟨by omega, by omega⟩
    · exact nested.ends other waiting
  · exact h.within outer member

/-- A move keeps the links nested. -/
lemma Nested.move (nested : Nested source reading.links)
    (rest : reading.rest = source.drop reading.position)
    (move : Move settings (.ofSource source) reading later) : Nested source later.links := by
  cases move with
  | leave waiting ended =>
    rw [waiting] at nested
    exact nested.tail
  | stay done before => exact nested
  | enter bracket found before => exact (opens_of_linkHere? rest found).nested nested
  | take taken before =>
    obtain ⟨count, change, -, -, rfl⟩ := taken
    exact nested

lemma nested_after (settings : Settings) (source : Text) (steps : Nat) :
    Nested source (Reading.after settings source steps).links := by
  induction steps with
  | zero => exact ⟨by simp [Reading.start], by simp [Reading.start]⟩
  | succ steps ih =>
    exact ih.move (atBoundary_after settings source steps).rest (move_after settings source steps)

/-! ## Links that open -/

/-- A move that puts a link on the stack enters it. -/
lemma Move.enters (move : Move settings marks reading later)
    (pushed : later.links = link :: reading.links) :
    reading.linkHere? marks = some link ∧ later = reading.enterLink link := by
  cases move with
  | @leave other outer waiting ended =>
    have fewer := congrArg List.length pushed
    simp only [Reading.leaveLink, waiting, List.length_cons] at fewer
    omega
  | stay done before => simp at pushed
  | enter bracket found before =>
    obtain ⟨rfl, -⟩ := List.cons.inj pushed
    exact ⟨found, rfl⟩
  | take taken before =>
    obtain ⟨count, change, -, -, rfl⟩ := taken
    simp at pushed

lemma draft?_enterLink (keyed : Keyed reading.links.length reading.gathered) (link : LinkText) :
    reading.gathered.draft? (.link reading.links.length) = none ∧
      (reading.enterLink link).gathered.draft? (.link reading.links.length) =
        some (.start reading.gathered.units (.textUrl [])) := by
  have closed : reading.gathered.isOpen (.link reading.links.length) = false := by
    simp [keyed reading.links.length]
  have free : reading.gathered.draft? (.link reading.links.length) = none := by
    simpa [Gathering.isOpen] using closed
  refine ⟨free, ?_⟩
  show (reading.gathered.start _ _).draft? _ = _
  rw [Gathering.draft?_start, if_pos rfl, free, Option.getD_none]

/-! ## Links that are finished -/

/-- A move leaves a waiting link and those around it on the stack, unless it finishes just that
link. -/
lemma Move.suffix (move : Move settings marks reading later)
    (waits : link :: outer <:+ reading.links) :
    link :: outer <:+ later.links ∨
      reading.links = link :: outer ∧ later = reading.leaveLink settings link outer := by
  cases move with
  | @leave top below waiting ended =>
    rw [waiting] at waits
    rcases List.suffix_cons_iff.1 waits with same | inner
    · obtain ⟨rfl, rfl⟩ := List.cons.inj same
      exact .inr ⟨waiting, rfl⟩
    · exact .inl inner
  | stay done before => exact .inl waits
  | enter bracket found before => exact .inl (waits.trans (List.suffix_cons _ _))
  | take taken before =>
    obtain ⟨count, change, -, -, rfl⟩ := taken
    exact .inl waits

/-- The step behind `steps` others finishes the link that the step behind `entered` others has put
on the stack: up to there the link waits, on top of the links that it was put on, and it is the
innermost then. -/
structure Finishes (settings : Settings) (source : Text) (entered : Nat) (link : LinkText)
    (steps : Nat) : Prop where
  behind : entered < steps
  waits : ∀ between, entered < between → between ≤ steps →
    link :: (Reading.after settings source entered).links <:+
      (Reading.after settings source between).links
  innermost : (Reading.after settings source steps).links =
    link :: (Reading.after settings source entered).links
  leaves : Reading.after settings source (steps + 1) =
    (Reading.after settings source steps).leaveLink settings link
      (Reading.after settings source entered).links

/-- What is finished waits no more. -/
lemma Finishes.not_waits {entered steps : Nat} (h : Finishes settings source entered link steps) :
    ¬ link :: (Reading.after settings source entered).links <:+
      (Reading.after settings source (steps + 1)).links := by
  intro waits
  rw [h.leaves] at waits
  exact Nat.not_succ_le_self _ waits.length_le

/-! ## Progress -/

/-- Something is left to read, or to finish. -/
def Busy (reading : Reading) : Prop := reading.rest ≠ [] ∨ reading.links ≠ []

lemma AtBoundary.length_rest (h : AtBoundary source reading) :
    reading.rest.length = source.length - reading.position := by
  rw [h.rest, List.length_drop]

lemma Nested.step_eq (nested : Nested source reading.links)
    (stands : AtBoundary source reading) (done : reading.rest = [])
    (waiting : reading.links = link :: outer) :
    reading.step settings marks = reading.leaveLink settings link outer := by
  have ends := nested.ends link (by simp [waiting])
  have left := stands.length_rest
  rw [done, List.length_nil] at left
  rw [Reading.step, waiting]
  exact if_pos (by omega)

/-- **Every step leaves less to do**, also where the reader does not move. -/
lemma Nested.remaining_step_lt (nested : Nested source reading.links)
    (stands : AtBoundary source reading) (busy : Busy reading) :
    (reading.step settings marks).remaining < reading.remaining := by
  by_cases done : reading.rest = []
  · cases waiting : reading.links with
    | nil => simp [Busy, done, waiting] at busy
    | cons link outer =>
      rw [nested.step_eq stands done waiting]
      exact Reading.remaining_leaveLink_lt waiting
  · exact Reading.remaining_step_lt done

lemma remaining_after_lt {steps : Nat} (busy : Busy (.after settings source steps)) :
    (Reading.after settings source (steps + 1)).remaining <
      (Reading.after settings source steps).remaining := by
  rw [Reading.after_succ]
  exact (nested_after settings source steps).remaining_step_lt
    (atBoundary_after settings source steps) busy

/-- While there is something to do, each step uses up some of what there was at the start. -/
lemma remaining_after_add_le {steps : Nat}
    (busy : ∀ earlier < steps, Busy (.after settings source earlier)) :
    (Reading.after settings source steps).remaining + steps ≤ 2 * source.length := by
  induction steps with
  | zero => simp [Reading.remaining, Reading.start]
  | succ steps ih =>
    have used := ih fun earlier early => busy earlier (by omega)
    have less := remaining_after_lt (busy steps (Nat.lt_succ_self steps))
    omega

/-- When nothing is left to do, nothing happens. -/
lemma step_of_not_busy (idle : ¬ Busy reading) : reading.step settings marks = reading := by
  simp only [Busy, not_or, not_not] at idle
  rw [Reading.step, idle.2]
  simp only [Reading.readOn]
  rw [idle.1]

/-! ## The end -/

/-- At the end of the source, finishing all links that wait is as many steps. -/
lemma leaveLinks_eq_iterate (settings : Settings) (nested : Nested source reading.links)
    (stands : AtBoundary source reading) (done : reading.rest = [])
    (same : reading.links = links) :
    reading.leaveLinks settings links =
        (Reading.step settings (.ofSource source))^[links.length] reading ∧
      ¬ Busy ((Reading.step settings (.ofSource source))^[links.length] reading) := by
  induction links generalizing reading with
  | nil => exact ⟨rfl, by simp [Busy, done, same]⟩
  | cons link outer ih =>
    have left : reading.step settings (.ofSource source) = reading.leaveLink settings link outer :=
      nested.step_eq stands done same
    have later := nested.move stands.rest (move_step settings (.ofSource source) reading)
    have next := stands.step settings
    rw [left] at later next
    rw [List.length_cons, Function.iterate_succ_apply, left]
    exact ih later next (by simp [Reading.leaveLink, done]) rfl

/-- **Reading ends**: a run is some first steps, finishing the links that wait at its end is some
further ones, and behind these nothing is left to do. -/
lemma exists_end (settings : Settings) (source : Text) : ∃ loops total, loops ≤ total ∧
    total ≤ 2 * source.length ∧
    Reading.run settings (.ofSource source) (.start source) = .after settings source loops ∧
    (Reading.after settings source loops).leaveLinks settings
      (Reading.after settings source loops).links = .after settings source total ∧
    ¬ Busy (.after settings source total) := by
  obtain ⟨loops, run, done, more⟩ := Reading.run_eq_after settings source
  obtain ⟨left, idle⟩ := leaveLinks_eq_iterate settings
    (nested_after settings source loops) (atBoundary_after settings source loops) done rfl
  have used := remaining_after_add_le fun earlier early => .inl (more earlier early)
  have total : (Reading.step settings (.ofSource source))^[
      (Reading.after settings source loops).links.length] (Reading.after settings source loops) =
      Reading.after settings source
        ((Reading.after settings source loops).links.length + loops) :=
    (Function.iterate_add_apply _ _ _ _).symm
  rw [total] at left idle
  refine ⟨loops, _, Nat.le_add_left _ _, ?_, run, left, idle⟩
  simp only [Reading.remaining] at used
  omega

lemma after_add_of_not_busy {steps : Nat} (idle : ¬ Busy (.after settings source steps))
    (more : Nat) : Reading.after settings source (steps + more) = .after settings source steps := by
  induction more with
  | zero => rfl
  | succ more ih => rw [← Nat.add_assoc, Reading.after_succ, ih, step_of_not_busy idle]

/-- What has been put on the stack does not wait for ever. -/
lemma exists_not_waits (entered : Nat) (link : LinkText) : ∃ steps, entered < steps ∧
    ¬ link :: (Reading.after settings source entered).links <:+
      (Reading.after settings source steps).links := by
  obtain ⟨loops, total, -, -, -, -, idle⟩ := exists_end settings source
  refine ⟨total + (entered + 1), by omega, ?_⟩
  rw [after_add_of_not_busy idle]
  simp only [Busy, not_or, not_not] at idle
  simp [idle.2]

lemma exists_finishes {entered : Nat}
    (pushed : (Reading.after settings source (entered + 1)).links =
      link :: (Reading.after settings source entered).links) :
    ∃ steps, Finishes settings source entered link steps := by
  classical
  have gone := @exists_not_waits settings source entered link
  -- the last step at which the link still waits is the one that finishes it
  obtain ⟨stop, ⟨late, ended⟩, first⟩ := Nat.findX gone
  have waits (between : Nat) (behind : entered < between) (early : between < stop) :
      link :: (Reading.after settings source entered).links <:+
        (Reading.after settings source between).links := by
    by_contra missing
    exact first between early ⟨behind, missing⟩
  have further : entered + 1 < stop := by
    refine Nat.lt_of_le_of_ne late fun same => ended ?_
    rw [← same, pushed]
  obtain ⟨steps, rfl⟩ : ∃ steps, stop = steps + 1 := ⟨stop - 1, by omega⟩
  obtain stays | ⟨innermost, leaves⟩ :=
    (move_after settings source steps).suffix (waits steps (by omega) (by omega))
  · exact absurd stays ended
  · exact ⟨steps, by omega, fun between behind bound => waits between behind (by omega),
      innermost, leaves⟩

/-- Of two steps that finished a link, it would wait no more at the second. -/
lemma Finishes.not_lt {entered steps other : Nat}
    (first : Finishes settings source entered link steps)
    (second : Finishes settings source entered link other) : ¬ steps < other := by
  intro before
  have behind := first.behind
  exact first.not_waits (second.waits (steps + 1) (by omega) before)

/-- **A link that enters the stack is finished once.** -/
lemma existsUnique_finishes {entered : Nat}
    (pushed : (Reading.after settings source (entered + 1)).links =
      link :: (Reading.after settings source entered).links) :
    ∃! steps, Finishes settings source entered link steps := by
  obtain ⟨steps, finishes⟩ := exists_finishes pushed
  refine ⟨steps, finishes, fun other again => ?_⟩
  exact Nat.le_antisymm (Nat.le_of_not_lt (finishes.not_lt again))
    (Nat.le_of_not_lt (again.not_lt finishes))

/-! ## The discipline of the stack -/

lemma Move.position_le (move : Move settings marks reading later) :
    reading.position ≤ later.position := by
  cases move with
  | leave waiting ended => exact Nat.le_add_right _ _
  | stay done before => exact le_rfl
  | enter bracket found before => exact Nat.le_add_right _ _
  | take taken before =>
    obtain ⟨count, change, -, -, rfl⟩ := taken
    exact Nat.le_add_right _ _

/-- What holds of the links that wait while a source is read, after each step from its start. -/
structure StackDiscipline (settings : Settings) (source : Text) : Prop where
  /-- The reader stands within the source, before what is left. -/
  within : ∀ steps, (Reading.after settings source steps).position ≤ source.length ∧
    (Reading.after settings source steps).rest =
      source.drop (Reading.after settings source steps).position
  /-- It never goes back. -/
  forward : ∀ steps, (Reading.after settings source steps).position ≤
    (Reading.after settings source (steps + 1)).position
  /-- The keys of links that are open are those of the depths at which links wait. -/
  keys : ∀ steps depth,
    (Reading.after settings source steps).gathered.isOpen (.link depth) = true ↔
      depth < (Reading.after settings source steps).links.length
  /-- The text of each link that waits ends before the link does, and the link before the text of
  the one around it. -/
  nested : ∀ steps, Nested source (Reading.after settings source steps).links
  /-- A link that is put on the stack opens where the reader stands, and with it an entity of no
  text, under a key that was free. -/
  enters : ∀ steps link, (Reading.after settings source (steps + 1)).links =
      link :: (Reading.after settings source steps).links →
    (Reading.after settings source steps).linkHere? (.ofSource source) = some link ∧
      (Reading.after settings source steps).gathered.draft?
        (.link (Reading.after settings source steps).links.length) = none ∧
      (Reading.after settings source (steps + 1)).gathered.draft?
        (.link (Reading.after settings source steps).links.length) =
          some (.start (Reading.after settings source steps).gathered.units (.textUrl []))
  /-- It is finished by one later step, and by no other. -/
  finishes : ∀ entered link, (Reading.after settings source (entered + 1)).links =
      link :: (Reading.after settings source entered).links →
    ∃! steps, Finishes settings source entered link steps
  /-- While something is left to read or to finish, twice the characters left and the links waiting
  become fewer. -/
  progress : ∀ steps, Busy (.after settings source steps) →
    2 * (source.length - (Reading.after settings source (steps + 1)).position) +
        (Reading.after settings source (steps + 1)).links.length <
      2 * (source.length - (Reading.after settings source steps).position) +
        (Reading.after settings source steps).links.length
  /-- So reading ends, within twice as many steps as the source has characters: with the run, then
  with the links that wait at its end, and then with the quote that is open. -/
  ends : ∃ loops total, loops ≤ total ∧ total ≤ 2 * source.length ∧
    Reading.run settings (.ofSource source) (.start source) = .after settings source loops ∧
    ¬ Busy (.after settings source total) ∧
    Reading.ofSource settings source = { Reading.after settings source total with
      gathered := (Reading.after settings source total).gathered.finish .blockquote }

/-- **Every source keeps the discipline of the stack**, however its brackets stand, and so is read
to its end. -/
theorem stackDiscipline_of_source (settings : Settings) (source : Text) :
    StackDiscipline settings source where
  within steps :=
    have stands := atBoundary_after settings source steps
    ⟨stands.boundary.le, stands.rest⟩
  forward steps := (move_after settings source steps).position_le
  keys steps depth := by rw [keyed_after settings source steps depth, decide_eq_true_iff]
  nested := nested_after settings source
  enters steps link pushed := by
    obtain ⟨found, same⟩ := (move_after settings source steps).enters pushed
    obtain ⟨free, fresh⟩ := draft?_enterLink (keyed_after settings source steps) link
    rw [same]
    exact ⟨found, free, fresh⟩
  finishes entered link := existsUnique_finishes
  progress steps busy := by
    have less := remaining_after_lt busy
    simp only [Reading.remaining, (atBoundary_after settings source _).length_rest] at less
    exact less
  ends := by
    obtain ⟨loops, total, order, bound, run, left, idle⟩ := exists_end settings source
    refine ⟨loops, total, order, bound, run, idle, ?_⟩
    rw [Reading.ofSource, run, left]

end RichText.Markdown
