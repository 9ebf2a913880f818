import Mathlib.Tactic.Lemma
import RichText.Markdown.LinkMarks
import RichText.Proofs.Markdown.Escapes

/-!
# The marks of a link

Which bracket belongs to which, and where the target of a link ends, is found in one pass over the
whole source.  What matters for one link is only that the text before it cuts no escape in two
(`Whole`) and that its own text is `Balanced`: then its closing bracket is the partner of its
opening one (`partner?_ofSource`), whatever stands around it.  A target that holds no parenthesis
of its own ends at the one behind it (`targetEndFrom?_ofSource`).
-/

namespace RichText.Markdown

/-! ## Balanced texts -/

/-- A text whose brackets close one another, escapes apart. -/
inductive Balanced : Text → Prop
  | nil : Balanced []
  | plain {c : Char} (h : c ∉ ['\\', '[', ']']) : Balanced [c]
  | escape {c : Char} (h : isPunctuation c = true) : Balanced ['\\', c]
  | brackets {inside : Text} (balanced : Balanced inside) : Balanced ('[' :: inside ++ [']'])
  | append {front back : Text} (first : Balanced front) (second : Balanced back) :
      Balanced (front ++ back)

lemma Balanced.whole {text : Text} (h : Balanced text) : Whole text := by
  induction h with
  | nil => exact .nil
  | plain h =>
    refine .plain (fun member => h ?_) .nil
    rw [List.mem_singleton] at member
    simp [member]
  | escape h => exact .escape h .nil
  | brackets _ ih => exact .plain (by decide) (ih.append (.plain (by decide) .nil))
  | append _ _ first second => exact first.append second

lemma balanced_of_free {text : Text} (free : Free ['[', ']'] text) : Balanced text := by
  induction free with
  | nil => exact .nil
  | plain h _ ih => exact (Balanced.plain h).append ih
  | escape h _ ih => exact (Balanced.escape h).append ih

/-- Marking the lines of a text leaves its brackets as they are. -/
lemma Balanced.inQuote {text : Text} (h : Balanced text) (quoted : Bool) :
    Balanced (inQuote quoted text) := by
  induction h with
  | nil =>
    rw [inQuote_nil]
    exact .nil
  | plain h => exact balanced_of_free (free_inQuote (by simp) (.plain h .nil) quoted)
  | escape h =>
    rw [inQuote_escape h, inQuote_nil]
    exact .escape h
  | brackets _ ih =>
    rw [inQuote_append, inQuote_cons_of_ne (by decide), inQuote_cons_of_ne (by decide) quoted [],
      inQuote_nil]
    exact .brackets ih
  | append _ _ first second =>
    rw [inQuote_append]
    exact first.append second

namespace LinkMarks

/-! ## One character -/

variable {index : Nat} {opened : List Nat} {marks : LinkMarks} {rest : Text}

lemma collect_escape {c : Char} (h : isPunctuation c = true) :
    collect index opened marks ('\\' :: c :: rest) = collect (index + 2) opened marks rest := by
  rw [collect.eq_def]
  simp only [escaped?_escape h, Option.isSome_some, if_true, List.drop_one, List.tail_cons]

lemma collect_cons {c : Char} (h : c ≠ '\\') :
    collect index opened marks (c :: rest) =
      if c = '[' then collect (index + 1) (index :: opened) marks rest
      else if c = ']' then
        match opened with
        | [] => collect (index + 1) [] marks rest
        | opener :: outer => collect (index + 1) outer
            { marks with partners := marks.partners.setIfInBounds opener (some index) } rest
      else if c = ')' then
        collect (index + 1) opened { marks with targetEnds := marks.targetEnds.push index } rest
      else collect (index + 1) opened marks rest := by
  have step := collect.eq_def index opened marks (c :: rest)
  simp only [escaped?_cons_of_ne h, Option.isSome_none, Bool.false_eq_true, if_false] at step
  exact step

lemma collect_plain {c : Char} (h : c ∉ ['\\', '[', ']', ')']) :
    collect index opened marks (c :: rest) = collect (index + 1) opened marks rest := by
  simp only [List.mem_cons, List.not_mem_nil, or_false, not_or] at h
  rw [collect_cons h.1, if_neg h.2.1, if_neg h.2.2.1, if_neg h.2.2.2]

/-! ## Partners -/

/-- A mark that no bracket still waits for stays as it is. -/
lemma partners_collect {text : Text} {place : Nat} (before : place < index)
    (settled : place ∉ opened) :
    (collect index opened marks text).partners[place]? = marks.partners[place]? := by
  fun_induction collect index opened marks text with
  | case1 => rfl
  | case2 index opened marks c rest escape ih => exact ih (by omega) settled
  | case3 index opened marks rest escape ih =>
    apply ih (by omega)
    simp only [List.mem_cons, not_or]
    exact ⟨by omega, settled⟩
  | case4 index marks rest escape other ih => exact ih (by omega) settled
  | case5 index marks rest opener outer escape other ih =>
    simp only [List.mem_cons, not_or] at settled
    rw [ih (by omega) settled.2]
    exact Array.getElem?_setIfInBounds_ne (Ne.symm settled.1)
  | case6 index opened marks rest escape opener closer ih => exact ih (by omega) settled
  | case7 index opened marks c rest escape opener closer stop ih => exact ih (by omega) settled

/-- The brackets that wait and the ends of targets found all stand before an index. -/
structure Before (index : Nat) (opened : List Nat) (marks : LinkMarks) : Prop where
  opened : ∀ place ∈ opened, place < index
  targetEnds : ∀ place ∈ marks.targetEnds, place < index

lemma Before.mono {later : Nat} (before : Before index opened marks) (h : index ≤ later) :
    Before later opened marks :=
  ⟨fun place member => Nat.lt_of_lt_of_le (before.opened place member) h,
    fun place member => Nat.lt_of_lt_of_le (before.targetEnds place member) h⟩

/-- One character puts no mark behind itself. -/
lemma collect_step {c : Char} (h : c ≠ '\\') (before : Before index opened marks) :
    ∃ opened' after, Before (index + 1) opened' after ∧
      after.partners.size = marks.partners.size ∧
      ∀ rest, collect index opened marks (c :: rest) = collect (index + 1) opened' after rest := by
  have later := before.mono (Nat.le_succ index)
  by_cases opener : c = '['
  · refine ⟨index :: opened, marks, ⟨?_, later.targetEnds⟩, rfl, fun rest => ?_⟩
    · simpa using later.opened
    · rw [collect_cons h, if_pos opener]
  by_cases closer : c = ']'
  · cases opened with
    | nil =>
      refine ⟨[], marks, later, rfl, fun rest => ?_⟩
      rw [collect_cons h, if_neg opener, if_pos closer]
    | cons place outer =>
      refine ⟨outer, ⟨marks.partners.setIfInBounds place (some index), marks.targetEnds⟩,
        ⟨fun place member => later.opened place (List.mem_cons_of_mem _ member),
          later.targetEnds⟩, Array.size_setIfInBounds, fun rest => ?_⟩
      rw [collect_cons h, if_neg opener, if_pos closer]
  by_cases stop : c = ')'
  · refine ⟨opened, ⟨marks.partners, marks.targetEnds.push index⟩, ⟨later.opened, ?_⟩, rfl,
      fun rest => ?_⟩
    · intro place member
      rcases Array.mem_push.1 member with listed | rfl
      · exact later.targetEnds place listed
      · exact Nat.lt_succ_self place
    · rw [collect_cons h, if_neg opener, if_neg closer, if_pos stop]
  · refine ⟨opened, marks, later, rfl, fun rest => ?_⟩
    rw [collect_cons h, if_neg opener, if_neg closer, if_neg stop]

/-- Scanning a text that cuts no escape comes to its end. -/
lemma collect_whole {front : Text} (whole : Whole front) (before : Before index opened marks)
    (rest : Text) :
    ∃ opened' after, Before (index + front.length) opened' after ∧
      after.partners.size = marks.partners.size ∧
      collect index opened marks (front ++ rest) =
        collect (index + front.length) opened' after rest := by
  induction whole generalizing index opened marks with
  | nil => exact ⟨opened, marks, before, rfl, rfl⟩
  | @plain c front h _ ih =>
    obtain ⟨opened', middle, below, size, scanned⟩ := collect_step (ne_backslash h) before
    obtain ⟨last, after, further, same, done⟩ := ih below
    rw [Nat.add_assoc, Nat.add_comm 1] at further done
    exact ⟨last, after, further, same.trans size, (scanned _).trans done⟩
  | @escape c front h _ ih =>
    obtain ⟨last, after, further, same, done⟩ := ih (before.mono (Nat.le_add_right index 2))
    rw [Nat.add_assoc, Nat.add_comm 2] at further done
    exact ⟨last, after, further, same, (collect_escape h).trans done⟩

/-- Nothing stands before the marks of a source. -/
lemma before_ofSource (size : Nat) : Before 0 [] ⟨Array.replicate size none, #[]⟩ :=
  ⟨by simp, by simp⟩

/-- Scanning a balanced text leaves the waiting brackets as they were. -/
lemma collect_balanced {text : Text} (balanced : Balanced text) (rest : Text) :
    ∃ after : LinkMarks, after.partners.size = marks.partners.size ∧
      collect index opened marks (text ++ rest) =
        collect (index + text.length) opened after rest := by
  induction balanced generalizing index opened marks rest with
  | nil => exact ⟨marks, rfl, rfl⟩
  | @plain c h =>
    simp only [List.mem_cons, List.not_mem_nil, or_false, not_or] at h
    rw [List.singleton_append, collect_cons h.1, if_neg h.2.1, if_neg h.2.2]
    split
    · refine ⟨_, ?_, rfl⟩
      rfl
    · exact ⟨marks, rfl, rfl⟩
  | escape h => exact ⟨marks, rfl, collect_escape h⟩
  | @brackets inside _ ih =>
    obtain ⟨middle, size, scanned⟩ := @ih (index + 1) (index :: opened) marks (']' :: rest)
    refine ⟨⟨middle.partners.setIfInBounds index (some (index + 1 + inside.length)),
      middle.targetEnds⟩, ?_, ?_⟩
    · simpa using size
    · have whole : '[' :: inside ++ [']'] ++ rest = '[' :: (inside ++ ']' :: rest) := by simp
      rw [whole, collect_cons (by decide), if_pos rfl, scanned, collect_cons (by decide),
        if_neg (by decide), if_pos rfl]
      simp only [List.length_cons, List.length_append, List.length_nil]
      congr 1
      omega
  | append _ _ first second =>
    obtain ⟨middle, size, scanned⟩ := @first index opened marks (_ ++ rest)
    obtain ⟨after, further, scannedOn⟩ := @second _ opened middle rest
    refine ⟨after, further.trans size, ?_⟩
    rw [List.append_assoc, scanned, scannedOn, List.length_append, Nat.add_assoc]

/-- **The partner of a bracket.**  Around a balanced text the brackets belong together. -/
lemma partner?_ofSource {front value : Text} (whole : Whole front) (balanced : Balanced value)
    (back : Text) :
    (ofSource (front ++ '[' :: (value ++ ']' :: back))).partner? front.length =
      some (front.length + 1 + value.length) := by
  obtain ⟨opened, before, below, size, scanned⟩ := collect_whole whole
    (before_ofSource (front ++ '[' :: (value ++ ']' :: back)).length)
    ('[' :: (value ++ ']' :: back))
  obtain ⟨after, same, scannedOn⟩ := @collect_balanced (0 + front.length + 1)
    ((0 + front.length) :: opened) before value balanced (']' :: back)
  rw [Nat.zero_add] at scanned scannedOn below
  have scan : ofSource (front ++ '[' :: (value ++ ']' :: back)) =
      collect (front.length + 1 + value.length + 1) opened
        ⟨after.partners.setIfInBounds front.length (some (front.length + 1 + value.length)),
          after.targetEnds⟩ back := by
    rw [ofSource, scanned, collect_cons (by decide), if_pos rfl, scannedOn,
      collect_cons (by decide), if_neg (by decide), if_pos rfl]
  have settled : front.length ∉ opened := fun member => Nat.lt_irrefl _ (below.opened _ member)
  have room : front.length < after.partners.size := by
    rw [same, size]
    simp
  rw [partner?, scan, partners_collect (by omega) settled,
    Array.getElem?_setIfInBounds_self_of_lt room]
  rfl

/-! ## Ends of targets -/

/-- The indices, in a text that starts at `index`, of some of its closing parentheses. -/
def EndsIn (index : Nat) (text : Text) (ends : List Nat) : Prop :=
  ∀ place ∈ ends, index ≤ place ∧ text[place - index]? = some ')'

lemma EndsIn.of_drop (count : Nat) {text : Text} {ends : List Nat}
    (h : EndsIn (index + count) (text.drop count) ends) : EndsIn index text ends := by
  intro place member
  obtain ⟨behind, closes⟩ := h place member
  rw [List.getElem?_drop, show count + (place - (index + count)) = place - index by omega]
    at closes
  exact ⟨by omega, closes⟩

/-- Scanning lists the ends it meets behind those listed already. -/
lemma targetEnds_collect (index : Nat) (opened : List Nat) (marks : LinkMarks) (text : Text) :
    ∃ ends, (collect index opened marks text).targetEnds.toList =
      marks.targetEnds.toList ++ ends ∧ EndsIn index text ends := by
  fun_induction collect index opened marks text with
  | case1 => exact ⟨[], by simp, by simp [EndsIn]⟩
  | case2 index opened marks c rest escape ih =>
    obtain ⟨ends, listed, holds⟩ := ih
    exact ⟨ends, listed, EndsIn.of_drop 2 holds⟩
  | case3 index opened marks rest escape ih =>
    obtain ⟨ends, listed, holds⟩ := ih
    exact ⟨ends, listed, EndsIn.of_drop 1 holds⟩
  | case4 index marks rest escape other ih =>
    obtain ⟨ends, listed, holds⟩ := ih
    exact ⟨ends, listed, EndsIn.of_drop 1 holds⟩
  | case5 index marks rest opener outer escape other ih =>
    obtain ⟨ends, listed, holds⟩ := ih
    exact ⟨ends, listed, EndsIn.of_drop 1 holds⟩
  | case6 index opened marks rest escape opener closer ih =>
    obtain ⟨ends, listed, holds⟩ := ih
    have behind : EndsIn index (')' :: rest) ends := EndsIn.of_drop 1 holds
    refine ⟨index :: ends, by simp [listed], ?_⟩
    intro place member
    rcases List.mem_cons.1 member with rfl | later
    · simp
    · exact behind place later
  | case7 index opened marks c rest escape opener closer stop ih =>
    obtain ⟨ends, listed, holds⟩ := ih
    exact ⟨ends, listed, EndsIn.of_drop 1 holds⟩

lemma collect_free {text : Text} (free : Free ['[', ']', ')'] text) (rest : Text) :
    collect index opened marks (text ++ rest) =
      collect (index + text.length) opened marks rest := by
  induction free generalizing index with
  | nil => rfl
  | plain h _ ih =>
    rw [List.cons_append, collect_plain h, ih, List.length_cons]
    congr 1
    omega
  | escape h _ ih =>
    rw [List.cons_append, List.cons_append, collect_escape h, ih]
    simp only [List.length_cons]
    congr 1
    omega

/-- Halving finds the place before which all numbers are below the bound and behind which none
is. -/
lemma bisect_eq {bound place low high : Nat} {numbers : Array Nat}
    (before : ∀ i < place, numbers.getD i 0 < bound)
    (behind : ∀ i < high, place ≤ i → bound ≤ numbers.getD i 0) (first : low ≤ place)
    (last : place ≤ high) : bisect bound numbers low high = place := by
  fun_induction bisect bound numbers low high with
  | case1 low high room middle below ih =>
    refine ih behind ?_ last
    refine Nat.lt_of_not_le fun passed => ?_
    exact absurd (behind middle (by omega) passed) (by omega)
  | case2 low high room middle above ih =>
    have bounded : place ≤ middle :=
      Nat.le_of_not_lt fun passed => above (before middle passed)
    exact ih (fun i inside => behind i (by omega)) first bounded
  | case3 low high empty => omega

/-- **Where a target ends.**  A target without parentheses of its own ends at the one behind
it. -/
lemma targetEndFrom?_ofSource {front target : Text} (whole : Whole front)
    (free : Free ['[', ']', ')'] target) (back : Text) :
    (ofSource (front ++ (target ++ ')' :: back))).targetEndFrom? front.length =
      some (front.length + target.length) := by
  obtain ⟨opened, before, below, -, scanned⟩ := collect_whole whole
    (before_ofSource (front ++ (target ++ ')' :: back)).length) (target ++ ')' :: back)
  obtain ⟨ends, listed, behind⟩ := targetEnds_collect (front.length + target.length + 1) opened
    ⟨before.partners, before.targetEnds.push (front.length + target.length)⟩ back
  rw [Nat.zero_add] at scanned below
  have scan : (ofSource (front ++ (target ++ ')' :: back))).targetEnds.toList =
      before.targetEnds.toList ++ (front.length + target.length) :: ends := by
    rw [ofSource, scanned, collect_free free, collect_cons (by decide),
      if_neg (by decide), if_neg (by decide), if_pos rfl, listed]
    simp
  obtain ⟨numbers, hnumbers⟩ : ∃ numbers,
      numbers = (ofSource (front ++ (target ++ ')' :: back))).targetEnds := ⟨_, rfl⟩
  rw [targetEndFrom?, ← hnumbers]
  rw [← hnumbers] at scan
  have size : numbers.size = before.targetEnds.size + (ends.length + 1) := by
    rw [← Array.length_toList, scan, List.length_append, Array.length_toList, List.length_cons]
  have entry (i : Nat) : numbers[i]? =
      (before.targetEnds.toList ++ (front.length + target.length) :: ends)[i]? := by
    rw [← scan, Array.getElem?_toList]
  have found : bisect front.length numbers 0 numbers.size = before.targetEnds.size := by
    refine bisect_eq ?_ ?_ (Nat.zero_le _) (by omega)
    · intro i early
      rw [Array.getD_eq_getD_getElem?, entry, List.getElem?_append_left (by simpa using early),
        Array.getElem?_toList, Array.getElem?_eq_getElem early]
      exact below.targetEnds _ (Array.getElem_mem early)
    · intro i room late
      obtain ⟨place, hplace⟩ : ∃ place, numbers[i]? = some place :=
        ⟨_, Array.getElem?_eq_getElem room⟩
      rw [Array.getD_eq_getD_getElem?, hplace]
      rw [entry, List.getElem?_append_right (by simpa using late)] at hplace
      rcases List.mem_cons.1 (List.mem_of_getElem? hplace) with rfl | member
      · exact Nat.le_add_right _ _
      · exact Nat.le_trans (by omega) (behind place member).1
  rw [found, entry, List.getElem?_append_right (by simp)]
  simp

end LinkMarks

end RichText.Markdown
