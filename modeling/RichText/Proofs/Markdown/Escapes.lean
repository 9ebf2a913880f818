import Mathlib.Tactic.Lemma
import RichText.Markdown.Style
import RichText.Markdown.Verbatim

/-!
# Escaped text is read back

Everything that is written as text stands escaped, so that what is written cuts no escape and
holds its marks in the places meant for them only (`Free`).  Within a block quote each line is
marked besides (`inQuote`).

Only the marks have to be escaped, and all punctuation may be.  A text may be `Escaped` in any way
between the two, and what is known of the text that is written is known of all of them.

Reading verbatim undoes the escapes (`unescape`).  Code ends at its own backticks and comes back
without the marks of quoted lines where a block quote is read (`readCode?_append`); in a target
these marks stay (`readTarget_append`).
-/

namespace RichText.Markdown

/-! ## Texts without marks -/

/-- A text that holds the given characters only where they are escaped, and in which every
backslash starts an escape. -/
inductive Free (marks : List Char) : Text → Prop
  | nil : Free marks []
  | plain {c : Char} {rest : Text} (h : c ∉ '\\' :: marks) (free : Free marks rest) :
      Free marks (c :: rest)
  | escape {c : Char} {rest : Text} (h : isPunctuation c = true) (free : Free marks rest) :
      Free marks ('\\' :: c :: rest)

/-- A text in which every backslash starts an escape. -/
abbrev Whole : Text → Prop := Free []

variable {marks : List Char}

lemma Free.append {front back : Text} (first : Free marks front) (second : Free marks back) :
    Free marks (front ++ back) := by
  induction first with
  | nil => exact second
  | plain h _ ih => exact .plain h ih
  | escape h _ ih => exact .escape h ih

lemma Free.mono {fewer : List Char} (h : ∀ c ∈ fewer, c ∈ marks) {text : Text}
    (free : Free marks text) : Free fewer text := by
  induction free with
  | nil => exact .nil
  | @plain c rest plain _ ih =>
    refine .plain (fun member => plain ?_) ih
    rcases List.mem_cons.1 member with rfl | mark
    · exact List.mem_cons_self
    · exact List.mem_cons_of_mem _ (h c mark)
  | escape h _ ih => exact .escape h ih

lemma Free.whole {text : Text} (free : Free marks text) : Whole text := free.mono (by simp)

lemma free_of_forall {text : Text} (h : ∀ c ∈ text, c ∉ '\\' :: marks) : Free marks text := by
  induction text with
  | nil => exact .nil
  | cons c rest ih =>
    exact .plain (h c List.mem_cons_self) (ih fun d member => h d (List.mem_cons_of_mem _ member))

lemma escaped?_escape {c : Char} (h : isPunctuation c = true) (rest : Text) :
    escaped? ('\\' :: c :: rest) = some c := if_pos h

/-! ## What is written -/

/-- A way of escaping a character, `lineStart` telling whether a line starts with it: it stays as it
is, unless it would be a mark there, or has a backslash put before it, if it is punctuation. -/
inductive Escaping (lineStart : Bool) (c : Char) : Text → Prop
  | literal : c ∉ alwaysEscaped → (c = '>' → lineStart = false) → Escaping lineStart c [c]
  | escaped : isPunctuation c = true → Escaping lineStart c ['\\', c]

/-- A way of escaping a text, each character in its own. -/
inductive Escaped : Bool → Text → Text → Prop
  | nil {lineStart : Bool} : Escaped lineStart [] []
  | cons {lineStart : Bool} {c : Char} {text piece written : Text} : Escaping lineStart c piece →
      Escaped (c == '\n') text written → Escaped lineStart (c :: text) (piece ++ written)

lemma isPunctuation_of_escapes {c : Char} {lineStart : Bool}
    (h : (alwaysEscaped.contains c || (c == '>' && lineStart)) = true) :
    isPunctuation c = true := by
  rw [Bool.or_eq_true, Bool.and_eq_true, beq_iff_eq] at h
  rcases h with always | ⟨rfl, -⟩
  · have punctuation : alwaysEscaped.all isPunctuation = true := by decide
    exact List.all_eq_true.1 punctuation c (List.contains_iff_mem.1 always)
  · decide

/-- **What is written for a text is one way of escaping it.** -/
lemma escaped_quoteFrom (lineStart : Bool) (text : Text) :
    Escaped lineStart text (quoteFrom lineStart text) := by
  induction text generalizing lineStart with
  | nil => exact .nil
  | cons c rest ih =>
    refine .cons ?_ (ih _)
    by_cases escapes : (alwaysEscaped.contains c || (c == '>' && lineStart)) = true
    · rw [if_pos escapes]
      exact .escaped (isPunctuation_of_escapes escapes)
    · rw [if_neg escapes]
      rw [Bool.or_eq_true, not_or, List.contains_iff_mem, Bool.and_eq_true, beq_iff_eq] at escapes
      exact .literal escapes.1 fun same => by simpa [same] using escapes.2

/-- Escapes all punctuation, whether it could be a mark or not. -/
def escapeAll (text : Text) : Text :=
  text.flatMap fun c => if isPunctuation c then ['\\', c] else [c]

/-- **Escaping all punctuation is another.** -/
lemma escaped_escapeAll (lineStart : Bool) (text : Text) :
    Escaped lineStart text (escapeAll text) := by
  induction text generalizing lineStart with
  | nil => exact .nil
  | cons c rest ih =>
    rw [escapeAll, List.flatMap_cons]
    refine .cons ?_ (ih _)
    by_cases punctuation : isPunctuation c = true
    · rw [if_pos punctuation]
      exact .escaped punctuation
    · rw [if_neg punctuation]
      refine .literal (fun always => punctuation ?_)
        fun same => absurd (by rw [same]; decide) punctuation
      exact @isPunctuation_of_escapes c false (by rw [List.contains_iff_mem.2 always, Bool.true_or])

/-- No way of escaping a character leaves a mark that is always escaped. -/
lemma Escaping.free {lineStart : Bool} {c : Char} {piece : Text}
    (h : ∀ c ∈ marks, c ∈ alwaysEscaped) (escaping : Escaping lineStart c piece) :
    Free marks piece := by
  cases escaping with
  | literal plain _ =>
    refine .plain (fun member => plain ?_) .nil
    rcases List.mem_cons.1 member with rfl | mark
    · decide
    · exact h c mark
  | escaped punctuation => exact .escape punctuation .nil

lemma Escaped.free {lineStart : Bool} {text written : Text} (h : ∀ c ∈ marks, c ∈ alwaysEscaped)
    (isEscaped : Escaped lineStart text written) : Free marks written := by
  induction isEscaped with
  | nil => exact .nil
  | cons escaping _ ih => exact (escaping.free h).append ih

lemma free_quoteFrom (h : ∀ c ∈ marks, c ∈ alwaysEscaped) (lineStart : Bool) (text : Text) :
    Free marks (quoteFrom lineStart text) := (escaped_quoteFrom lineStart text).free h

lemma free_escapeTarget (target : Text) : Free ['(', ')', '[', ']'] (escapeTarget target) := by
  induction target with
  | nil => exact .nil
  | cons c rest ih =>
    have punctuation : escapedInTargets.all isPunctuation = true := by decide
    have step : escapeTarget (c :: rest) =
        (if escapedInTargets.contains c then ['\\', c] else [c]) ++ escapeTarget rest := rfl
    rw [step]
    by_cases escapes : escapedInTargets.contains c = true
    · rw [if_pos escapes]
      exact .escape (List.all_eq_true.1 punctuation c (List.contains_iff_mem.1 escapes)) ih
    · rw [if_neg escapes]
      exact .plain (fun member => escapes (List.contains_iff_mem.2 member)) ih

/-- What is written in a block quote, or elsewhere, for what is to be read there. -/
def inQuote (quoted : Bool) (value : Text) : Text := if quoted then continueQuote value else value

@[simp] lemma inQuote_false (value : Text) : inQuote false value = value := rfl

@[simp] lemma inQuote_nil (quoted : Bool) : inQuote quoted [] = [] := by cases quoted <;> rfl

@[simp] lemma inQuote_append (quoted : Bool) (front back : Text) :
    inQuote quoted (front ++ back) = inQuote quoted front ++ inQuote quoted back := by
  cases quoted
  · rfl
  · exact List.flatMap_append

lemma inQuote_cons (quoted : Bool) (c : Char) (rest : Text) :
    inQuote quoted (c :: rest) = inQuote quoted [c] ++ inQuote quoted rest :=
  inQuote_append quoted [c] rest

lemma inQuote_line : inQuote true ['\n'] = ['\n', '>', ' '] := rfl

lemma inQuote_cons_of_ne {c : Char} (h : c ≠ '\n') (quoted : Bool) (rest : Text) :
    inQuote quoted (c :: rest) = c :: inQuote quoted rest := by
  cases quoted with
  | false => rfl
  | true => simp [inQuote, continueQuote, h]

lemma inQuote_of_notMem {quoted : Bool} {value : Text} (h : '\n' ∉ value) :
    inQuote quoted value = value := by
  induction value with
  | nil => exact inQuote_nil quoted
  | cons c rest ih =>
    rw [List.mem_cons, not_or] at h
    rw [inQuote_cons_of_ne (Ne.symm h.1), ih h.2]

lemma ne_line_of_punctuation {c : Char} (h : isPunctuation c = true) : c ≠ '\n' := by
  rintro rfl
  exact absurd h (by decide)

lemma inQuote_escape {c : Char} (h : isPunctuation c = true) (quoted : Bool) (rest : Text) :
    inQuote quoted ('\\' :: c :: rest) = '\\' :: c :: inQuote quoted rest := by
  rw [inQuote_cons_of_ne (by decide), inQuote_cons_of_ne (ne_line_of_punctuation h)]

/-- Marking lines adds no other mark. -/
lemma free_inQuote (h : ∀ c ∈ ['\n', '>', ' '], c ∉ marks) {value : Text}
    (free : Free marks value) (quoted : Bool) : Free marks (inQuote quoted value) := by
  induction free with
  | nil => rw [inQuote_nil]; exact .nil
  | @plain c rest plain _ ih =>
    rw [inQuote_cons]
    refine Free.append (free_of_forall fun d member => ?_) ih
    have among : d = c ∨ d ∈ ['\n', '>', ' '] := by
      cases quoted with
      | false => exact .inl (List.mem_singleton.1 member)
      | true =>
        by_cases line : c = '\n'
        · rw [line] at member
          exact .inr member
        · rw [inQuote_cons_of_ne line, inQuote_nil] at member
          exact .inl (List.mem_singleton.1 member)
    rcases among with rfl | mark
    · exact plain
    · rw [List.mem_cons, not_or]
      refine ⟨?_, h d mark⟩
      rintro rfl
      exact absurd mark (by decide)
  | escape punctuation _ ih =>
    rw [inQuote_escape punctuation]
    exact .escape punctuation ih

/-! ## What is read -/

/-- A text without the backslashes of its escapes. -/
def unescape : Text → Text
  | [] => []
  | '\\' :: c :: rest =>
    if isPunctuation c then c :: unescape rest else '\\' :: unescape (c :: rest)
  | c :: rest => c :: unescape rest

@[simp] lemma unescape_nil : unescape [] = [] := rfl

lemma unescape_escape {c : Char} (h : isPunctuation c = true) (rest : Text) :
    unescape ('\\' :: c :: rest) = c :: unescape rest := by
  rw [unescape, if_pos h]

lemma unescape_cons {c : Char} (h : c ≠ '\\') (rest : Text) :
    unescape (c :: rest) = c :: unescape rest := by
  rw [unescape]
  rintro _ _ rfl
  exact absurd rfl h

lemma ne_backslash {c : Char} (h : c ∉ '\\' :: marks) : c ≠ '\\' := fun same => by simp [same] at h

/-- Behind a text that cuts no escape, escapes are undone apart. -/
lemma unescape_append {front : Text} (whole : Free marks front) (back : Text) :
    unescape (front ++ back) = unescape front ++ unescape back := by
  induction whole with
  | nil => rfl
  | plain h _ ih =>
    rw [List.cons_append, unescape_cons (ne_backslash h), unescape_cons (ne_backslash h), ih,
      List.cons_append]
  | escape h _ ih =>
    rw [List.cons_append, List.cons_append, unescape_escape h, unescape_escape h, ih,
      List.cons_append]

/-- **A text stands for itself however it is escaped.** -/
lemma Escaped.unescape {lineStart : Bool} {text written : Text}
    (isEscaped : Escaped lineStart text written) : unescape written = text := by
  induction isEscaped with
  | nil => rfl
  | @cons _ c _ _ _ escaping _ ih =>
    cases escaping with
    | literal plain _ =>
      have backslash : c ≠ '\\' := fun same => plain (by rw [same]; decide)
      rw [List.singleton_append, unescape_cons backslash, ih]
    | escaped punctuation =>
      rw [List.cons_append, List.singleton_append, unescape_escape punctuation, ih]

lemma unescape_quoteFrom (lineStart : Bool) (text : Text) :
    unescape (quoteFrom lineStart text) = text := (escaped_quoteFrom lineStart text).unescape

lemma unescape_escapeTarget (target : Text) : unescape (escapeTarget target) = target := by
  induction target with
  | nil => rfl
  | cons c rest ih =>
    have punctuation : escapedInTargets.all isPunctuation = true := by decide
    have step : escapeTarget (c :: rest) =
        (if escapedInTargets.contains c then ['\\', c] else [c]) ++ escapeTarget rest := rfl
    rw [step]
    by_cases escapes : escapedInTargets.contains c = true
    · have mark := List.all_eq_true.1 punctuation c (List.contains_iff_mem.1 escapes)
      rw [if_pos escapes, List.cons_append, List.singleton_append, unescape_escape mark, ih]
    · rw [if_neg escapes, List.singleton_append, unescape_cons, ih]
      rintro rfl
      exact escapes (by decide)

/-- Lines are marked apart from the escapes. -/
lemma unescape_inQuote {value : Text} (whole : Free marks value) (quoted : Bool) :
    unescape (inQuote quoted value) = inQuote quoted (unescape value) := by
  induction whole with
  | nil => rw [inQuote_nil, unescape_nil, inQuote_nil]
  | @plain c rest h _ ih =>
    have one : unescape (inQuote quoted [c]) = inQuote quoted [c] := by
      cases quoted with
      | false => exact unescape_cons (ne_backslash h) []
      | true =>
        by_cases line : c = '\n'
        · rw [line]
          rfl
        · rw [inQuote_cons_of_ne line, inQuote_nil]
          exact unescape_cons (ne_backslash h) []
    have plain : Free [] (inQuote quoted [c]) :=
      free_inQuote (by simp) (.plain (by simpa using ne_backslash h) .nil) quoted
    rw [inQuote_cons, unescape_append plain, one, ih, unescape_cons (ne_backslash h),
      inQuote_cons quoted c (unescape rest)]
  | escape h _ ih =>
    rw [inQuote_escape h, unescape_escape h, unescape_escape h, ih,
      inQuote_cons_of_ne (ne_line_of_punctuation h)]

/-! ## Reading targets -/

lemma readTarget_zero (text : Text) : readTarget 0 text = ([], text) := by
  cases text <;> simp [readTarget]

lemma readTarget_cons {c : Char} (h : c ≠ '\\') (size : Nat) (rest : Text) :
    readTarget (size + 1) (c :: rest) =
      (c :: (readTarget size rest).1, (readTarget size rest).2) := by
  rw [readTarget, if_neg (Nat.succ_ne_zero size), escaped?_cons_of_ne h]
  rfl

lemma readTarget_escape {c : Char} (h : isPunctuation c = true) (size : Nat) (rest : Text) :
    readTarget (size + 2) ('\\' :: c :: rest) =
      (c :: (readTarget size rest).1, (readTarget size rest).2) := by
  rw [readTarget, if_neg (Nat.succ_ne_zero (size + 1)), escaped?_escape h]
  rfl

/-- A text that cuts no escape is read as a target without its escapes. -/
lemma readTarget_append {value : Text} (whole : Whole value) (rest : Text) :
    readTarget value.length (value ++ rest) = (unescape value, rest) := by
  induction whole with
  | nil => exact readTarget_zero rest
  | plain h _ ih =>
    rw [List.cons_append, List.length_cons, readTarget_cons (ne_backslash h), ih,
      unescape_cons (ne_backslash h)]
  | escape h _ ih =>
    rw [List.cons_append, List.cons_append, List.length_cons, List.length_cons,
      readTarget_escape h, ih, unescape_escape h]

/-! ## Reading code -/

variable {size : Nat} {quoting : Bool} {rest : Text}

lemma readCode?_escape {c : Char} (h : isPunctuation c = true) :
    readCode? size quoting ('\\' :: c :: rest) =
      (readCode? size quoting rest).map fun read => (c :: read.1, read.2 + 2) := by
  rw [readCode?, escaped?_escape h]
  rfl

lemma readCode?_cons {c : Char} (escape : c ≠ '\\') (tick : c ≠ '\x60')
    (line : c = '\n' → quoting = true → rest.head? ≠ some '>') :
    readCode? size quoting (c :: rest) =
      (readCode? size quoting rest).map fun read => (c :: read.1, read.2 + 1) := by
  rw [readCode?, escaped?_cons_of_ne escape]
  have unmarked : ¬ (c = '\n' ∧ quoting = true ∧ rest.head? = some '>') :=
    fun marked => line marked.1 marked.2.1 marked.2.2
  simp only [tick, false_and, if_false, unmarked]

lemma readCode?_line :
    readCode? size true ('\n' :: '>' :: ' ' :: rest) =
      (readCode? size true rest).map fun read => ('\n' :: read.1, read.2 + 3) := by
  rw [readCode?, escaped?_cons_of_ne (by decide)]
  rfl

/-- A line break that is marked is read without its mark in a block quote, and with it elsewhere. -/
lemma readCode?_inQuote_line {quoted : Bool} (calm : quoting = true → quoted = true)
    (rest : Text) :
    readCode? size quoting (inQuote quoted ['\n'] ++ rest) =
      (readCode? size quoting rest).map fun read =>
        (inQuote (quoted && !quoting) ['\n'] ++ read.1,
          read.2 + (inQuote quoted ['\n']).length) := by
  cases quoting with
  | true =>
    rw [calm rfl]
    exact readCode?_line
  | false =>
    cases quoted with
    | false => exact readCode?_cons (by decide) (by decide) (by simp)
    | true =>
      rw [inQuote_line, List.cons_append, List.cons_append, List.singleton_append,
        readCode?_cons (by decide) (by decide) (by simp),
        readCode?_cons (by decide) (by decide) (by simp),
        readCode?_cons (by decide) (by decide) (by simp), Option.map_map, Option.map_map]
      rfl

lemma readCode?_ticks (h : 0 < size) :
    readCode? size quoting (List.replicate size '\x60' ++ rest) = some ([], size) := by
  obtain ⟨fewer, rfl⟩ := Nat.exists_eq_succ_of_ne_zero (Nat.pos_iff_ne_zero.1 h)
  rw [List.replicate_succ, List.cons_append, readCode?, escaped?_cons_of_ne (by decide)]
  have here : (List.replicate (fewer + 1) '\x60').isPrefixOf
      ('\x60' :: (List.replicate fewer '\x60' ++ rest)) = true := by
    rw [List.isPrefixOf_iff_prefix, List.replicate_succ]
    exact ⟨rest, rfl⟩
  simp only [here, and_self, if_true]

/-- **Code ends at its own backticks.**  Code without backticks of its own is read up to those
behind it, without its escapes.  Where its lines are marked but no block quote is read the marks
stay. -/
lemma readCode?_append {value : Text} (free : Free ['\x60'] value) {quoted : Bool}
    (calm : quoting = true → quoted = true) (h : 0 < size) (rest : Text) :
    readCode? size quoting (inQuote quoted value ++ (List.replicate size '\x60' ++ rest)) =
      some (inQuote (quoted && !quoting) (unescape value),
        (inQuote quoted value).length + size) := by
  induction free with
  | nil =>
    rw [inQuote_nil, unescape_nil, inQuote_nil, List.nil_append, readCode?_ticks h,
      List.length_nil, Nat.zero_add]
  | @plain c more plain _ ih =>
    have escape := ne_backslash plain
    have tick : c ≠ '\x60' := fun same => by simp [same] at plain
    rw [unescape_cons escape]
    by_cases line : c = '\n'
    · rw [line, inQuote_cons quoted, inQuote_cons (quoted && !quoting), List.append_assoc,
        readCode?_inQuote_line calm, ih, List.length_append]
      simp only [Option.map_some]
      congr 2
      omega
    · rw [inQuote_cons_of_ne line, inQuote_cons_of_ne line, List.cons_append,
        readCode?_cons escape tick (fun same => absurd same line), ih, List.length_cons]
      simp only [Option.map_some]
      congr 2
      omega
  | @escape c more punctuation _ ih =>
    rw [inQuote_escape punctuation, unescape_escape punctuation,
      inQuote_cons_of_ne (ne_line_of_punctuation punctuation), List.cons_append, List.cons_append,
      readCode?_escape punctuation, ih]
    simp only [Option.map_some, List.length_cons]
    congr 2
    omega

/-- **Reading verbatim undoes quoting.**  Any text that stands quoted before a run of backticks is
read up to the run, whatever follows it: outside a block quote as it was quoted, and in one with its
lines marked as a block quote marks them. -/
theorem code_undoes_quote (text rest : Text) {size : Nat} (ticks : 0 < size) :
    readCode? size false (quote text ++ (List.replicate size '\x60' ++ rest)) =
        some (text, (quote text).length + size) ∧
      readCode? size true (continueQuote (quote text) ++ (List.replicate size '\x60' ++ rest)) =
        some (text, (continueQuote (quote text)).length + size) := by
  have free : Free ['\x60'] (quote text) := free_quoteFrom (by simp [alwaysEscaped]) true text
  have undone : unescape (quote text) = text := unescape_quoteFrom true text
  -- where the lines are marked just if a block quote is read, no mark is left in the text
  have read (quoting : Bool) :
      readCode? size quoting
          (inQuote quoting (quote text) ++ (List.replicate size '\x60' ++ rest)) =
        some (text, (inQuote quoting (quote text)).length + size) := by
    rw [readCode?_append free (fun marked => marked) ticks, undone, Bool.and_not_self,
      inQuote_false]
  exact ⟨read false, read true⟩

/-- Backticks, a backslash, a line that starts with `>`, one that starts with a space, and a line
break beside the fence, behind which another backtick stands. -/
theorem code_undoes_quote_beside_fence :
    0 < 3 ∧
      readCode? 3 false "\\`\\`\\\\\n\\> a\n b\n````".toList =
        some ("``\\\n> a\n b\n".toList, 18) ∧
      readCode? 3 true "\\`\\`\\\\\n> \\> a\n>  b\n> ````".toList =
        some ("``\\\n> a\n b\n".toList, 24) :=
  ⟨by decide, @code_undoes_quote "``\\\n> a\n b\n".toList ['\x60'] 3 (by decide)⟩

end RichText.Markdown
