import Mathlib.Order.Bounds.Basic
import RichText.Markdown.LinkMarks
import RichText.Proofs.Markdown.Pieces

/-!
# Matching brackets

The marks of links are found in one pass that keeps the open brackets on a stack.  What they ought
to be does not speak of a stack: two brackets are a pair if neither is escaped and the unescaped
brackets strictly between them match among themselves (`Paired`), and the end of a target is any
parenthesis that is not escaped.  The pass finds exactly these (`LinkMarks.ofSource_exact`).

What ties the stack to the pairs is `Waits`: at every place the bracket on top of the stack is the
only one from which all brackets up to there match, and at its own place those below it stand
likewise.
-/

namespace RichText.Markdown

/-! ## Brackets of a source -/

/-- A place where a character stands that is not escaped. -/
def IsMark (source : Text) (mark : Char) (place : Nat) : Prop :=
  source[place]? = some mark ∧ ¬ IsEscaped source place

instance (source : Text) (mark : Char) (place : Nat) : Decidable (IsMark source mark place) :=
  inferInstanceAs (Decidable (_ ∧ _))

/-- The bracket at a place, if one stands there and is not escaped. -/
def bracketAt? (source : Text) (place : Nat) : Option Char :=
  if IsMark source '[' place then some '['
  else if IsMark source ']' place then some ']'
  else none

/-- The unescaped brackets of a source from one place up to another. -/
def brackets (source : Text) (start stop : Nat) : List Char :=
  (List.range' start (stop - start)).filterMap (bracketAt? source)

/-- Brackets that close one another: none, or such brackets before a pair that encloses such
brackets. -/
inductive Matched : List Char → Prop
  | nil : Matched []
  | concat {before inside : List Char} (first : Matched before) (second : Matched inside) :
      Matched (before ++ '[' :: (inside ++ [']']))

/-- Two brackets that belong together. -/
structure Paired (source : Text) (opener closer : Nat) : Prop where
  opens : IsMark source '[' opener
  closes : IsMark source ']' closer
  behind : opener < closer
  between : Matched (brackets source (opener + 1) closer)

variable {source : Text} {c : Char} {start stop place index opener closer : Nat}

lemma IsMark.unique {mark other : Char} (first : IsMark source mark place)
    (second : IsMark source other place) : mark = other :=
  Option.some.inj (first.1.symm.trans second.1)

lemma IsMark.lt (h : IsMark source c place) : place < source.length :=
  (List.getElem?_eq_some_iff.1 h.1).1

/-- A mark stands at a boundary. -/
lemma IsMark.isBoundary (h : IsMark source c place) : IsBoundary source place := by
  by_contra cut
  exact h.2 (isEscaped_iff.2 ⟨h.lt.le, cut⟩)

lemma bracketAt?_opener (h : IsMark source '[' place) : bracketAt? source place = some '[' :=
  if_pos h

lemma bracketAt?_closer (h : IsMark source ']' place) : bracketAt? source place = some ']' := by
  rw [bracketAt?, if_neg fun opens => absurd (opens.unique h) (by decide), if_pos h]

lemma isMark_of_bracketAt? (h : bracketAt? source place = some c) : IsMark source c place := by
  unfold bracketAt? at h
  split at h
  · rename_i mark
    cases h
    exact mark
  · split at h
    · rename_i mark
      cases h
      exact mark
    · cases h

lemma bracketAt?_eq_none (noOpener : ¬ IsMark source '[' place)
    (noCloser : ¬ IsMark source ']' place) : bracketAt? source place = none := by
  rw [bracketAt?, if_neg noOpener, if_neg noCloser]

@[simp] lemma brackets_self (source : Text) (place : Nat) : brackets source place place = [] := by
  simp [brackets]

lemma brackets_append (first : start ≤ place) (last : place ≤ stop) :
    brackets source start stop = brackets source start place ++ brackets source place stop := by
  rw [brackets, brackets, brackets, ← List.filterMap_append,
    show stop - start = (place - start) + (stop - place) by omega, ← List.range'_append_1,
    Nat.add_sub_cancel' first]

lemma brackets_cons (h : start < stop) :
    brackets source start stop =
      (bracketAt? source start).toList ++ brackets source (start + 1) stop := by
  rw [brackets, show stop - start = stop - (start + 1) + 1 by omega, List.range'_succ, brackets]
  cases found : bracketAt? source start <;> simp [found]

lemma brackets_succ (h : start ≤ stop) :
    brackets source start (stop + 1) =
      brackets source start stop ++ (bracketAt? source stop).toList := by
  rw [brackets_append h (Nat.le_succ stop), brackets_cons (Nat.lt_succ_self stop), brackets_self,
    List.append_nil]

/-- A bracket divides the brackets around it. -/
lemma brackets_eq_append (first : start ≤ place) (last : place < stop)
    (h : bracketAt? source place = some c) :
    brackets source start stop =
      brackets source start place ++ c :: brackets source (place + 1) stop := by
  rw [brackets_append first last.le, brackets_cons last, h, Option.toList_some,
    List.singleton_append]

lemma exists_of_brackets {before inside : List Char}
    (h : brackets source start stop = before ++ c :: inside) :
    ∃ place, start ≤ place ∧ place < stop ∧ IsMark source c place ∧
      before = brackets source start place ∧ inside = brackets source (place + 1) stop := by
  obtain ⟨front, tail, cut, rfl, behind⟩ := List.filterMap_eq_append_iff.1 h
  obtain ⟨none, place, back, rfl, no, found, rfl⟩ := List.filterMap_eq_cons_iff.1 behind
  rw [← List.append_assoc] at cut
  obtain ⟨count, bound, start', tail'⟩ := List.range'_eq_append_iff.1 cut
  obtain ⟨rfl, positive, back'⟩ := List.range'_eq_cons_iff.1 tail'.symm
  rw [Nat.mul_one] at found back'
  refine ⟨start + count, by omega, by omega, isMark_of_bracketAt? found, ?_, ?_⟩
  · rw [brackets, Nat.add_sub_cancel_left, ← start', List.filterMap_append,
      List.filterMap_eq_nil_iff.2 no, List.append_nil]
  · rw [brackets, back', show stop - start - count - 1 = stop - (start + count + 1) by omega]

/-! ## Matching -/

/-- How deep brackets lead that start at a depth, if they close none too many. -/
def depthAfter? : Nat → List Char → Option Nat
  | depth, [] => some depth
  | depth, c :: rest =>
    if c = '[' then depthAfter? (depth + 1) rest
    else match depth with
      | 0 => none
      | outer + 1 => depthAfter? outer rest

lemma depthAfter?_cons (depth : Nat) (c : Char) (rest : List Char) :
    depthAfter? depth (c :: rest) = if c = '[' then depthAfter? (depth + 1) rest
      else match depth with
        | 0 => none
        | outer + 1 => depthAfter? outer rest := by
  cases depth <;> rfl

lemma Matched.depthAfter? {word : List Char} (h : Matched word) (depth : Nat) (rest : List Char) :
    depthAfter? depth (word ++ rest) = depthAfter? depth rest := by
  induction h generalizing depth rest with
  | nil => rfl
  | concat _ _ first second =>
    rw [List.append_assoc, first, List.cons_append, List.append_assoc, depthAfter?_cons,
      if_pos rfl, second]
    rfl

lemma Matched.not_append {word rest : List Char} (h : Matched word) :
    ¬ Matched (word ++ ']' :: rest) := by
  intro longer
  have whole := longer.depthAfter? 0 []
  rw [List.append_nil, h.depthAfter? 0] at whole
  cases whole

lemma not_matched_concat (word : List Char) : ¬ Matched (word ++ ['[']) := by
  generalize same : word ++ ['['] = longer
  intro h
  cases h with
  | nil => simp at same
  | concat first second =>
    rw [← List.cons_append, ← List.append_assoc] at same
    simpa using (List.append_inj_right' same rfl)

lemma matched_concat_iff {word : List Char} :
    Matched (word ++ [']']) ↔
      ∃ before inside, word = before ++ '[' :: inside ∧ Matched before ∧ Matched inside := by
  constructor
  · generalize same : word ++ [']'] = longer
    intro h
    cases h with
    | nil => simp at same
    | concat first second =>
      rw [← List.cons_append, ← List.append_assoc] at same
      exact ⟨_, _, List.append_inj_left' same rfl, first, second⟩
  · rintro ⟨before, inside, rfl, first, second⟩
    simpa using Matched.concat first second

/-- A bracket has one partner at most. -/
lemma Paired.not_before {later : Nat} (h : Paired source opener closer) (before : closer < later) :
    ¬ Matched (brackets source (opener + 1) later) := by
  rw [brackets_eq_append h.behind before (bracketAt?_closer h.closes)]
  exact h.between.not_append

-- an escaped bracket between two others belongs to neither
example : Paired "[\\]]".toList 0 3 := by
  have between : brackets "[\\]]".toList 1 3 = [] := by decide
  exact ⟨by decide, by decide, by decide, between ▸ .nil⟩

/-! ## The stack -/

/-- The only bracket, if any, such that everything from it up to `index` matches. -/
def Nearest (source : Text) (nearest : Option Nat) (index : Nat) : Prop :=
  ∀ opener < index, IsMark source '[' opener →
    (Matched (brackets source (opener + 1) index) ↔ nearest = some opener)

/-- The brackets that wait for their partner before `index`, the nearest first. -/
inductive Waits (source : Text) : List Nat → Nat → Prop
  | nil {index : Nat} (nearest : Nearest source none index) : Waits source [] index
  | cons {top index : Nat} {outer : List Nat} (before : top < index) (opens : IsMark source '[' top)
      (nearest : Nearest source (some top) index) (below : Waits source outer top) :
      Waits source (top :: outer) index

variable {opened : List Nat} {top : Option Nat}

lemma Waits.nearest (h : Waits source opened index) : Nearest source opened.head? index := by
  cases h with
  | nil nearest => exact nearest
  | cons _ _ nearest _ => exact nearest

lemma Waits.later {later : Nat} (h : Waits source opened index) (bound : index ≤ later)
    (nearest : Nearest source opened.head? later) : Waits source opened later := by
  cases h with
  | nil => exact .nil nearest
  | cons before opens _ below => exact .cons (by omega) opens nearest below

/-- A place without a bracket changes nothing. -/
lemma Nearest.skip (h : Nearest source top index) (plain : bracketAt? source index = none) :
    Nearest source top (index + 1) := by
  intro opener before opens
  have early : opener < index := by
    refine Nat.lt_of_le_of_ne (by omega) fun same => ?_
    rw [same] at opens
    simp [bracketAt?_opener opens] at plain
  rw [brackets_succ early, plain, Option.toList_none, List.append_nil]
  exact h opener early opens

/-- An opening bracket is the nearest from then on. -/
lemma nearest_opener (opens : IsMark source '[' index) :
    Nearest source (some index) (index + 1) := by
  intro opener before _
  rcases Nat.lt_succ_iff_lt_or_eq.1 before with early | rfl
  · rw [brackets_succ early, bracketAt?_opener opens]
    exact iff_of_false (not_matched_concat _) fun same => by simp at same; omega
  · simpa using Matched.nil

/-- A closing bracket closes the nearest, so that the one below is the nearest. -/
lemma Waits.nearest_closer (h : Waits source opened index) (closes : IsMark source ']' index) :
    Nearest source opened.tail.head? (index + 1) := by
  intro opener before opens
  have early : opener < index := by
    refine Nat.lt_of_le_of_ne (by omega) fun same => ?_
    exact absurd (opens.unique (same ▸ closes)) (by decide)
  rw [brackets_succ early, bracketAt?_closer closes, Option.toList_some, matched_concat_iff]
  constructor
  · rintro ⟨_, _, cut, first, second⟩
    obtain ⟨place, behind, inside, mark, rfl, rfl⟩ := exists_of_brackets cut
    have top := (h.nearest place inside mark).1 second
    cases h with
    | nil => cases top
    | cons _ _ _ below =>
      cases top
      exact (below.nearest opener behind opens).1 first
  · intro below
    cases h with
    | nil => cases below
    | @cons top _ outer inside mark nearest rest =>
      cases rest with
      | nil => cases below
      | cons behind _ further _ =>
        cases below
        exact ⟨_, _, brackets_eq_append behind inside (bracketAt?_opener mark),
          (further opener behind opens).2 rfl, (nearest top inside mark).2 rfl⟩

namespace LinkMarks

/-! ## The pass -/

/-- What the pass has found when it comes to a place of the source: the brackets that wait, the
pairs that have closed, and the ends of targets. -/
structure Collected (source : Text) (index : Nat) (opened : List Nat) (marks : LinkMarks) :
    Prop where
  waits : Waits source opened index
  size : marks.partners.size = source.length
  partners : ∀ opener closer, marks.partners[opener]? = some (some closer) ↔
    Paired source opener closer ∧ closer < index
  targetEnds : marks.targetEnds.toList =
    (List.range index).filter fun place => IsMark source ')' place

variable {marks : LinkMarks} {rest : Text} {outer : List Nat}

lemma isMark_iff {mark : Char} (boundary : IsBoundary source index)
    (left : source.drop index = c :: rest) : IsMark source mark index ↔ mark = c := by
  have here : source[index]? = some c := by
    rw [← List.head?_drop, left, List.head?_cons]
  rw [IsMark, here, Option.some.injEq]
  exact ⟨fun mark => mark.1.symm, fun same => ⟨same.symm, boundary.not_isEscaped⟩⟩

/-- Before anything is read, nothing is found. -/
lemma collected_start (source : Text) :
    Collected source 0 [] ⟨Array.replicate source.length none, #[]⟩ := by
  refine ⟨.nil fun opener before => absurd before (Nat.not_lt_zero opener), by simp, ?_, by simp⟩
  intro opener closer
  refine iff_of_false ?_ fun pair => absurd pair.2 (Nat.not_lt_zero closer)
  simp [Array.getElem?_replicate]

lemma Collected.partners_succ (h : Collected source index opened marks)
    (no : ∀ opener, ¬ Paired source opener index) (opener closer : Nat) :
    marks.partners[opener]? = some (some closer) ↔
      Paired source opener closer ∧ closer < index + 1 := by
  rw [h.partners]
  refine and_congr_right fun pair => ?_
  have other : closer ≠ index := fun same => no opener (same ▸ pair)
  omega

lemma Collected.targetEnds_succ (h : Collected source index opened marks)
    (no : ¬ IsMark source ')' index) : marks.targetEnds.toList =
      (List.range (index + 1)).filter fun place => IsMark source ')' place := by
  simp [List.range_succ, h.targetEnds, no]

/-- A place that is no mark leaves everything as it was found. -/
lemma Collected.skip (h : Collected source index opened marks)
    (no : ∀ mark ∈ ['[', ']', ')'], ¬ IsMark source mark index) :
    Collected source (index + 1) opened marks where
  waits := h.waits.later (Nat.le_succ index)
    (h.waits.nearest.skip (bracketAt?_eq_none (no _ (by simp)) (no _ (by simp))))
  size := h.size
  partners := h.partners_succ fun _ pair => no _ (by simp) pair.closes
  targetEnds := h.targetEnds_succ (no _ (by simp))

/-- An opening bracket waits from then on. -/
lemma Collected.push (h : Collected source index opened marks)
    (opens : IsMark source '[' index) : Collected source (index + 1) (index :: opened) marks where
  waits := .cons (Nat.lt_succ_self index) opens (nearest_opener opens) h.waits
  size := h.size
  partners := h.partners_succ fun _ pair => absurd (pair.closes.unique opens) (by decide)
  targetEnds := h.targetEnds_succ fun ends => absurd (ends.unique opens) (by decide)

/-- A closing bracket belongs to the nearest that waits. -/
lemma Collected.head?_of_paired (h : Collected source index opened marks)
    (pair : Paired source opener index) : opened.head? = some opener :=
  (h.waits.nearest opener pair.behind pair.opens).1 pair.between

/-- A closing bracket for which none waits belongs to none. -/
lemma Collected.stray (h : Collected source index [] marks) (closes : IsMark source ']' index) :
    Collected source (index + 1) [] marks where
  waits := .nil (h.waits.nearest_closer closes)
  size := h.size
  partners := h.partners_succ fun _ pair => by cases h.head?_of_paired pair
  targetEnds := h.targetEnds_succ fun ends => absurd (ends.unique closes) (by decide)

/-- A closing bracket closes the nearest that waits. -/
lemma Collected.pair (h : Collected source index (opener :: outer) marks)
    (closes : IsMark source ']' index) :
    Collected source (index + 1) outer
      { marks with partners := marks.partners.setIfInBounds opener (some index) } := by
  have nearest := h.waits.nearest_closer closes
  obtain - | ⟨before, opens, matched, below⟩ := h.waits
  have pair : Paired source opener index := ⟨opens, closes, before, (matched _ before opens).2 rfl⟩
  refine ⟨below.later (by omega) nearest, by simp [h.size], fun other closer => ?_,
    h.targetEnds_succ fun ends => absurd (ends.unique closes) (by decide)⟩
  by_cases same : opener = other
  · subst same
    have room : opener < marks.partners.size := h.size ▸ opens.lt
    rw [Array.getElem?_setIfInBounds_self_of_lt room, Option.some.injEq, Option.some.injEq]
    constructor
    · rintro rfl
      exact ⟨pair, Nat.lt_succ_self index⟩
    · rintro ⟨earlier, bound⟩
      -- a bracket that waits has no partner yet
      refine Nat.le_antisymm (Nat.le_of_not_lt fun early => ?_) (Nat.le_of_lt_succ bound)
      exact earlier.not_before early pair.between
  · rw [Array.getElem?_setIfInBounds_ne same, h.partners]
    refine and_congr_right fun pair => ?_
    have early : closer ≠ index := fun last =>
      same (Option.some.inj (h.head?_of_paired (last ▸ pair)))
    omega

lemma Collected.targetEnd (h : Collected source index opened marks)
    (ends : IsMark source ')' index) :
    Collected source (index + 1) opened
      { marks with targetEnds := marks.targetEnds.push index } where
  waits := h.waits.later (Nat.le_succ index) (h.waits.nearest.skip (bracketAt?_eq_none
    (fun opens => absurd (opens.unique ends) (by decide))
    (fun closes => absurd (closes.unique ends) (by decide))))
  size := h.size
  partners := h.partners_succ fun _ pair => absurd (pair.closes.unique ends) (by decide)
  targetEnds := by simp [List.range_succ, h.targetEnds, ends]

/-- **What the pass has found at a boundary it completes to the end.** -/
lemma Collected.complete {text : Text} (h : Collected source index opened marks)
    (boundary : IsBoundary source index) (left : source.drop index = text) :
    ∃ waiting, Collected source source.length waiting (collect index opened marks text) := by
  fun_induction collect index opened marks text with
  | case1 index opened marks =>
    have last : index = source.length :=
      Nat.le_antisymm boundary.le (List.drop_eq_nil_iff.1 left)
    exact ⟨opened, last ▸ h⟩
  | case2 index opened marks c rest escape ih =>
    obtain ⟨e, found⟩ := Option.isSome_iff_exists.1 escape
    obtain ⟨behind, same, punctuation⟩ := escaped?_eq_some found
    cases same
    refine ih ((h.skip fun mark member => ?_).skip fun mark _ => ?_)
      (boundary.escape left punctuation) (drop_add_length ['\\', e] left)
    · rw [isMark_iff boundary left]
      rintro rfl
      simp at member
    · exact fun escaped => escaped.2 (boundary.isEscaped left punctuation)
  | case3 index opened marks rest plain ih =>
    exact ih (h.push ((isMark_iff boundary left).2 rfl))
      (boundary.plain left (by simpa using plain)) (drop_add_length ['['] left)
  | case4 index marks rest plain opener ih =>
    exact ih (h.stray ((isMark_iff boundary left).2 rfl))
      (boundary.plain left (by simpa using plain)) (drop_add_length [']'] left)
  | case5 index marks rest opener outer plain _ ih =>
    exact ih (h.pair ((isMark_iff boundary left).2 rfl))
      (boundary.plain left (by simpa using plain)) (drop_add_length [']'] left)
  | case6 index opened marks rest plain _ _ ih =>
    exact ih (h.targetEnd ((isMark_iff boundary left).2 rfl))
      (boundary.plain left (by simpa using plain)) (drop_add_length [')'] left)
  | case7 index opened marks c rest plain opener closer stop ih =>
    refine ih (h.skip fun mark member => ?_) (boundary.plain left (by simpa using plain))
      (drop_add_length [c] left)
    rw [isMark_iff boundary left]
    rintro rfl
    simp_all

/-- What is found in a source. -/
lemma exists_collected (source : Text) :
    ∃ waiting, Collected source source.length waiting (ofSource source) :=
  (collected_start source).complete (isBoundary_zero source) rfl

lemma partners_ofSource (source : Text) (opener closer : Nat) :
    (ofSource source).partners[opener]? = some (some closer) ↔ Paired source opener closer := by
  obtain ⟨_, found⟩ := exists_collected source
  rw [found.partners, and_iff_left_of_imp fun pair => pair.closes.lt]

lemma partner?_eq_some_iff (source : Text) (opener closer : Nat) :
    (ofSource source).partner? opener = some closer ↔ Paired source opener closer := by
  rw [partner?, Option.join_eq_some_iff, partners_ofSource]

lemma mem_targetEnds_ofSource (source : Text) (place : Nat) :
    place ∈ (ofSource source).targetEnds ↔ IsMark source ')' place := by
  obtain ⟨_, found⟩ := exists_collected source
  rw [← Array.mem_toList_iff, found.targetEnds]
  simpa using fun ends : IsMark source ')' place => ends.lt

lemma pairwise_targetEnds_ofSource (source : Text) :
    (ofSource source).targetEnds.toList.Pairwise (· < ·) := by
  obtain ⟨_, found⟩ := exists_collected source
  rw [found.targetEnds]
  exact List.pairwise_lt_range.filter _

/-! ## The search -/

variable {numbers : Array Nat} {bound low high i j : Nat}

lemma getD_eq_getElem (inside : i < numbers.size) : numbers.getD i 0 = numbers[i] := by
  simp [Array.getD, inside]

lemma getD_le_getD (ascending : numbers.toList.Pairwise (· < ·)) (order : i ≤ j)
    (inside : j < numbers.size) : numbers.getD i 0 ≤ numbers.getD j 0 := by
  rcases order.eq_or_lt with rfl | earlier
  · exact le_rfl
  · rw [getD_eq_getElem (by omega), getD_eq_getElem inside]
    exact (List.pairwise_iff_getElem.1 ascending i j (by simpa using by omega)
      (by simpa using inside) earlier).le

/-- Halving a stretch of ascending numbers, of which those before it are below the bound and those
behind it are not, divides all of them so. -/
lemma bisect_spec (bound : Nat) (ascending : numbers.toList.Pairwise (· < ·))
    (before : ∀ i < low, numbers.getD i 0 < bound)
    (behind : ∀ i, high ≤ i → i < numbers.size → bound ≤ numbers.getD i 0)
    (order : low ≤ high) (last : high ≤ numbers.size) :
    (∀ i < bisect bound numbers low high, numbers.getD i 0 < bound) ∧
      ∀ i, bisect bound numbers low high ≤ i → i < numbers.size → bound ≤ numbers.getD i 0 := by
  fun_induction bisect bound numbers low high with
  | case1 low high room middle below ih =>
    refine ih (fun i early => ?_) behind (by omega) last
    exact (getD_le_getD ascending (by omega) (by omega)).trans_lt below
  | case2 low high room middle above ih =>
    refine ih before (fun i late inside => ?_) (by omega) (by omega)
    exact (Nat.le_of_not_lt above).trans (getD_le_getD ascending late inside)
  | case3 low high empty =>
    rw [show high = low by omega] at behind
    exact ⟨before, behind⟩

/-- Halving ascending numbers finds the least that is not below the bound. -/
lemma getElem?_bisect_eq_some_iff (ascending : numbers.toList.Pairwise (· < ·)) {stop : Nat} :
    numbers[bisect bound numbers 0 numbers.size]? = some stop ↔
      IsLeast {number | bound ≤ number ∧ number ∈ numbers} stop := by
  obtain ⟨before, behind⟩ := bisect_spec bound ascending
    (fun i early => absurd early (Nat.not_lt_zero i)) (fun i late inside => by omega)
    (Nat.zero_le _) le_rfl
  generalize bisect bound numbers 0 numbers.size = first at before behind ⊢
  have found (number : Nat) (late : bound ≤ number) (member : number ∈ numbers) :
      ∃ i, first ≤ i ∧ ∃ inside : i < numbers.size, numbers[i] = number := by
    obtain ⟨i, inside, rfl⟩ := Array.mem_iff_getElem.1 member
    refine ⟨i, Nat.le_of_not_lt fun early => ?_, inside, rfl⟩
    rw [← getD_eq_getElem inside] at late
    exact absurd (before i early) (Nat.not_lt.2 late)
  have order (i : Nat) (late : first ≤ i) (inside : i < numbers.size)
      (room : first < numbers.size) : numbers[first] ≤ numbers[i] := by
    rw [← getD_eq_getElem, ← getD_eq_getElem]
    exact getD_le_getD ascending late inside
  have reached (inside : first < numbers.size) : bound ≤ numbers[first] := by
    rw [← getD_eq_getElem]
    exact behind first le_rfl inside
  constructor
  · intro here
    obtain ⟨inside, rfl⟩ := Array.getElem?_eq_some_iff.1 here
    refine ⟨⟨reached inside, Array.getElem_mem inside⟩, ?_⟩
    rintro number ⟨late, member⟩
    obtain ⟨i, later, room, rfl⟩ := found number late member
    exact order i later room inside
  · rintro ⟨⟨late, member⟩, least⟩
    obtain ⟨i, later, room, rfl⟩ := found stop late member
    have inside : first < numbers.size := by omega
    rw [Array.getElem?_eq_getElem inside, Option.some.injEq]
    exact Nat.le_antisymm (order i later room inside)
      (least ⟨reached inside, Array.getElem_mem inside⟩)

/-- **The search finds the first end of a target at or behind a place.** -/
lemma targetEndFrom?_eq_some_iff (source : Text) (start stop : Nat) :
    (ofSource source).targetEndFrom? start = some stop ↔
      IsLeast {place | start ≤ place ∧ IsMark source ')' place} stop := by
  rw [targetEndFrom?, getElem?_bisect_eq_some_iff (pairwise_targetEnds_ofSource source)]
  simp only [mem_targetEnds_ofSource]

/-! ## The marks of a source -/

/-- What the marks of links ought to be in a source. -/
structure Exact (source : Text) (marks : LinkMarks) : Prop where
  /-- There is a mark for every character. -/
  size : marks.partners.size = source.length
  /-- Two brackets are marked as partners just if they are a pair. -/
  paired : ∀ opener closer,
    marks.partners[opener]? = some (some closer) ↔ Paired source opener closer
  /-- Everywhere else there is no partner. -/
  unpaired : ∀ place < source.length, (¬ ∃ closer, Paired source place closer) →
    marks.partners[place]? = some none
  /-- The ends of targets are the closing parentheses that are not escaped. -/
  ends : ∀ place, place ∈ marks.targetEnds ↔ IsMark source ')' place
  /-- They are listed in ascending order, each once. -/
  ascending : marks.targetEnds.toList.Pairwise (· < ·)
  /-- A target that starts at a place ends at the first of them at or behind it. -/
  first : ∀ start stop, marks.targetEndFrom? start = some stop ↔
    IsLeast {place | start ≤ place ∧ IsMark source ')' place} stop

/-- **One pass matches the brackets of every source**, however many of them stand alone and
wherever backslashes stand. -/
theorem ofSource_exact (source : Text) : Exact source (ofSource source) where
  size := by
    obtain ⟨_, found⟩ := exists_collected source
    exact found.size
  paired := partners_ofSource source
  unpaired place inside alone := by
    obtain ⟨_, found⟩ := exists_collected source
    rw [← found.size] at inside
    rw [Array.getElem?_eq_getElem inside, Option.some.injEq, Option.eq_none_iff_forall_ne_some]
    intro closer same
    refine alone ⟨closer, (partners_ofSource source place closer).1 ?_⟩
    rw [Array.getElem?_eq_getElem inside, same]
  ends := mem_targetEnds_ofSource source
  ascending := pairwise_targetEnds_ofSource source
  first := targetEndFrom?_eq_some_iff source

end LinkMarks

end RichText.Markdown
