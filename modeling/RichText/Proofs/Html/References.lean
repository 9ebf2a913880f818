import RichText.Html.Reference
import RichText.Proofs.Numerals

/-!
# Character references

A character can be written in HTML in many ways: as itself, by its name or by its number in decimal
or hexadecimal, with as many zeros in front as a reference has room for (`Spelling`).  Whatever
follows it, each is decoded to the character (`unescape_spelling_append`), so that a text comes back
from every way of writing it (`unescape_spelled_append`).  Escaping is one such way
(`spelled_escape`).

A reference takes at least four bytes and stands for one character, which takes at most four, so
that decoding lengthens no text (`byteCount_unescape_le`).
-/

namespace RichText.Html

/-! ## Lengths -/

lemma byteCount_append (front back : Text) :
    byteCount (front ++ back) = byteCount front + byteCount back := by
  induction front with
  | nil => simp [byteCount]
  | cons c rest ih => simp only [List.cons_append, byteCount, ih, Nat.add_assoc]

lemma length_le_byteCount (text : Text) : text.length ≤ byteCount text := by
  induction text with
  | nil => exact Nat.le_refl 0
  | cons c rest ih =>
    have byte := c.utf8Size_pos
    simp only [byteCount, List.length_cons]
    omega

/-- A stretch of a text takes no more bytes. -/
lemma byteCount_le_of_infix {part text : Text} (h : part <:+: text) :
    byteCount part ≤ byteCount text := by
  obtain ⟨front, back, rfl⟩ := h
  rw [byteCount_append, byteCount_append]
  omega

lemma length_of_referent? {body : Text} {c : Char} (h : referent? body = some c) :
    2 ≤ body.length := by
  unfold referent? at h
  split at h
  · simp
  · simp
  · rename_i decimal _ _
    cases decimal with
    | nil => cases h
    | cons d rest => simp
  · obtain ⟨front, back, whole, -⟩ := List.lookup_eq_some_iff.1 h
    have names : ∀ entry ∈ namedCharacters, 2 ≤ entry.1.length := by decide
    exact names (body, c) (by rw [whole]; simp)

lemma bounds_of_reference? {text : Text} {c : Char} {used : Nat}
    (h : reference? text = some (c, used)) : 3 ≤ used ∧ used ≤ text.length := by
  unfold reference? at h
  simp only [Option.ite_none_right_eq_some] at h
  obtain ⟨⟨semicolon, -⟩, found⟩ := h
  obtain ⟨character, referent, same⟩ := Option.map_eq_some_iff.1 found
  obtain ⟨rfl, rfl⟩ := Prod.mk.inj same
  have long := length_of_referent? referent
  have inside := (List.getElem?_eq_some_iff.1 semicolon).1
  omega

/-- **Decoding references lengthens no text.** -/
lemma byteCount_unescape_le (text : Text) : byteCount (unescape text) ≤ byteCount text := by
  fun_induction unescape text with
  | case1 => exact Nat.le_refl _
  | case2 c rest character used found ih =>
    split at found
    · obtain ⟨long, inside⟩ := bounds_of_reference? found
      have taken := length_le_byteCount (rest.take used)
      rw [List.length_take, Nat.min_eq_left inside] at taken
      have parts := byteCount_append (rest.take used) (rest.drop used)
      rw [List.take_append_drop] at parts
      have byte := c.utf8Size_pos
      have narrow := character.utf8Size_le_four
      simp only [byteCount]
      omega
    · cases found
  | case3 c rest found ih =>
    simp only [byteCount]
    omega

/-! ## Ways of writing a character -/

/-- The reference with a given body. -/
def reference (body : Text) : Text := '&' :: (body ++ [';'])

/-- The most bytes that a reference may take. -/
def longestReference : Nat := 34

/-- The digits of the code point of a character in some base, with zeros in front of them or without.
Letters may be of either case. -/
def IsCode (base : Nat) (c : Char) (digits : Text) : Prop :=
  ∃ zeros, Text.lower digits = List.replicate zeros '0' ++ Numeral.ofNatBase base c.toNat

/-- A way of writing a character. -/
inductive Spelling (c : Char) : Text → Prop
  | literal : c ≠ '&' → c ≠ '<' → Spelling c [c]
  | named {name : Text} : (name, c) ∈ namedCharacters → Spelling c (reference name)
  | decimal {digits : Text} : IsCode 10 c digits →
      byteCount (reference ('#' :: digits)) ≤ longestReference →
      Spelling c (reference ('#' :: digits))
  | hexadecimal {mark : Char} {digits : Text} : mark = 'x' ∨ mark = 'X' → IsCode 16 c digits →
      byteCount (reference ('#' :: mark :: digits)) ≤ longestReference →
      Spelling c (reference ('#' :: mark :: digits))

/-- A way of writing a text, each character in its own. -/
inductive Spelled : Text → Text → Prop
  | nil : Spelled [] []
  | cons {c : Char} {text piece written : Text} : Spelling c piece → Spelled text written →
      Spelled (c :: text) (piece ++ written)

variable {c : Char} {body digits text written : Text}

/-! ## Reading a reference -/

lemma reference?_append (noEnd : ';' ∉ body) (short : byteCount body ≤ longestBody) (rest : Text) :
    reference? (body ++ ';' :: rest) = (referent? body).map fun c => (c, body.length + 1) := by
  have bytes := length_le_byteCount body
  have inside : ∀ d ∈ body, decide (d ≠ ';') = true := fun d member =>
    decide_eq_true fun same => noEnd (same ▸ member)
  have taken : ((body ++ ';' :: rest).take (longestBody + 1)).takeWhile
      (fun d => decide (d ≠ ';')) = body := by
    obtain ⟨more, room⟩ : ∃ more, longestBody + 1 = body.length + (more + 1) :=
      ⟨longestBody - body.length, by omega⟩
    rw [room, List.take_length_add_append, List.take_succ_cons]
    exact Text.takeWhile_row inside (by rintro _ ⟨⟩; rfl)
  have semicolon : (body ++ ';' :: rest)[body.length]? = some ';' := by simp
  simp only [reference?, taken, semicolon, short, and_self, if_true]

/-- What a body refers to is read, whatever follows the reference. -/
lemma unescape_reference_append (refers : referent? body = some c) (noEnd : ';' ∉ body)
    (short : byteCount (reference body) ≤ longestReference) (rest : Text) :
    unescape (reference body ++ rest) = c :: unescape rest := by
  have fits : byteCount body ≤ longestBody := by
    have ends : byteCount ['&'] = 1 ∧ byteCount [';'] = 1 := by decide
    rw [reference, ← List.singleton_append, byteCount_append, byteCount_append, ends.1,
      ends.2] at short
    simp only [longestReference, longestBody] at short ⊢
    omega
  have read : reference? (body ++ ';' :: rest) = some (c, body.length + 1) := by
    rw [reference?_append noEnd fits, refers, Option.map_some]
  have split : reference body ++ rest = '&' :: (body ++ ';' :: rest) := by simp [reference]
  have behind : (body ++ ';' :: rest).drop (body.length + 1) = rest := by simp
  rw [split, unescape, if_pos rfl, read]
  simp only [behind]

/-! ## What each way refers to -/

lemma scalar?_toNat (c : Char) : scalar? c.toNat = some c := by
  have valid : c.toNat.isValidChar := c.valid
  rw [scalar?, if_pos valid, Char.ofNat_toNat]

lemma toNat_lt_codeBound (c : Char) : c.toNat < codeBound := c.val.toNat_lt

lemma IsCode.digits? {base : Nat} (small : base ≤ 16) (two : 2 ≤ base)
    (code : IsCode base c digits) : Numeral.digits? base digits = some c.toNat := by
  obtain ⟨zeros, lowered⟩ := code
  have filled : digits.isEmpty = false := by
    cases digits with
    | nil =>
      have none := (List.append_eq_nil_iff.1 lowered.symm).2
      exact absurd none (Numeral.ofNatBase_ne_nil base c.toNat)
    | cons => rfl
  rw [Numeral.digits?, filled, ← Numeral.digitsOnto?_lower small, lowered,
    Numeral.digitsOnto?_zeros small (by omega), Numeral.digitsOnto?_ofNatBase small two]
  rfl

lemma IsCode.unsigned? {base : Nat} (small : base ≤ 16) (two : 2 ≤ base)
    (code : IsCode base c digits) : Numeral.unsigned? base codeBound digits = some c.toNat :=
  Numeral.unsigned?_of_digits? small (code.digits? small two) (toNat_lt_codeBound c)

lemma IsCode.notMem {base : Nat} {mark : Char} (small : base ≤ 16) (two : 2 ≤ base)
    (code : IsCode base c digits) (none : digitValue? 16 mark = none) : mark ∉ digits :=
  Numeral.notMem_of_digits? small (code.digits? small two) none

/-- A decimal number does not start like a hexadecimal one. -/
lemma referent?_decimal (code : IsCode 10 c digits) : referent? ('#' :: digits) = some c := by
  have noMark {mark : Char} (none : digitValue? 16 mark = none) (rest : Text) :
      digits ≠ mark :: rest := by
    rintro rfl
    exact code.notMem (by decide) (by decide) none List.mem_cons_self
  unfold referent?
  split
  · rename_i same
    exact absurd (List.cons.inj same).2 (noMark rfl _)
  · rename_i same
    exact absurd (List.cons.inj same).2 (noMark rfl _)
  · rename_i same
    obtain ⟨-, rfl⟩ := List.cons.inj same
    rw [code.unsigned? (by decide) (by decide), Option.bind_some, scalar?_toNat]
  · rename_i other
    exact absurd rfl (other digits)

lemma referent?_hexadecimal {mark : Char} (hexadecimal : mark = 'x' ∨ mark = 'X')
    (code : IsCode 16 c digits) : referent? ('#' :: mark :: digits) = some c := by
  have read : (Numeral.unsigned? 16 codeBound digits).bind scalar? = some c := by
    rw [code.unsigned? (by decide) (by decide), Option.bind_some, scalar?_toNat]
  rcases hexadecimal with rfl | rfl
  · exact read
  · exact read

lemma referent?_named {name : Text} (known : (name, c) ∈ namedCharacters) :
    referent? name = some c ∧ ';' ∉ name ∧ byteCount (reference name) ≤ longestReference := by
  have table : ∀ entry ∈ namedCharacters, referent? entry.1 = some entry.2 ∧ ';' ∉ entry.1 ∧
      byteCount (reference entry.1) ≤ longestReference := by decide
  exact table (name, c) known

/-- **Every way of writing a character is read as it**, whatever follows. -/
lemma unescape_spelling_append (spelling : Spelling c written) (rest : Text) :
    unescape (written ++ rest) = c :: unescape rest := by
  cases spelling with
  | literal plain _ => exact unescape_cons_of_ne plain rest
  | named known =>
    obtain ⟨refers, noEnd, short⟩ := referent?_named known
    exact unescape_reference_append refers noEnd short rest
  | @decimal digits code short =>
    have noEnd : ';' ∉ digits := code.notMem (by decide) (by decide) rfl
    exact unescape_reference_append (referent?_decimal code) (by simp [noEnd]) short rest
  | @hexadecimal _ digits mark code short =>
    have noEnd : ';' ∉ digits := code.notMem (by decide) (by decide) rfl
    refine unescape_reference_append (referent?_hexadecimal mark code) ?_ short rest
    rcases mark with rfl | rfl
    · simp [noEnd]
    · simp [noEnd]

/-- **A text is read back from every way of writing it**, whatever follows. -/
lemma unescape_spelled_append (spelled : Spelled text written) (rest : Text) :
    unescape (written ++ rest) = text ++ unescape rest := by
  induction spelled with
  | nil => rfl
  | cons spelling _ ih =>
    rw [List.append_assoc, unescape_spelling_append spelling, ih, List.cons_append]

lemma unescape_spelled (spelled : Spelled text written) : unescape written = text := by
  have whole := unescape_spelled_append spelled []
  rwa [List.append_nil, unescape_nil, List.append_nil] at whole

/-- No way of writing a character holds an opening bracket. -/
lemma angle_notMem_spelling (spelling : Spelling c written) : '<' ∉ written := by
  have inReference {body : Text} (plain : '<' ∉ body) : '<' ∉ reference body := by
    simp [reference, plain]
  cases spelling with
  | literal _ plain => simpa using Ne.symm plain
  | named known =>
    have table : ∀ entry ∈ namedCharacters, '<' ∉ entry.1 := by decide
    exact inReference (table _ known)
  | @decimal digits code _ =>
    have plain : '<' ∉ digits := code.notMem (by decide) (by decide) rfl
    exact inReference (by simp [plain])
  | @hexadecimal _ digits mark code _ =>
    have plain : '<' ∉ digits := code.notMem (by decide) (by decide) rfl
    rcases mark with rfl | rfl
    · exact inReference (by simp [plain])
    · exact inReference (by simp [plain])

lemma angle_notMem_spelled (spelled : Spelled text written) : '<' ∉ written := by
  induction spelled with
  | nil => exact List.not_mem_nil
  | cons spelling _ ih =>
    rw [List.mem_append, not_or]
    exact ⟨angle_notMem_spelling spelling, ih⟩

/-! ## Escapes -/

/-- Escaping is a way of writing a character. -/
lemma spelling_escapeChar (quotes : Bool) (c : Char) : Spelling c (escapeChar quotes c) := by
  have named {name : Text} {d : Char} (known : (name, d) ∈ namedCharacters) (same : c = d) :
      Spelling c (reference name) := .named (same ▸ known)
  unfold escapeChar
  split
  · rename_i same
    exact @named "amp".toList '&' (by decide) same
  split
  · rename_i same
    exact @named "lt".toList '<' (by decide) same
  split
  · rename_i same
    exact @named "gt".toList '>' (by decide) same
  split
  · rename_i same
    exact @named "quot".toList '\x22' (by decide) same.1
  · rename_i amp lt _ _
    exact .literal amp lt

/-- **Escaping is a way of writing a text.** -/
lemma spelled_escape (quotes : Bool) (text : Text) : Spelled text (escape quotes text) := by
  induction text with
  | nil => exact .nil
  | cons c text ih => exact .cons (spelling_escapeChar quotes c) ih

/-- **What was escaped is read back.** -/
lemma unescape_escape (quotes : Bool) (text : Text) : unescape (escape quotes text) = text :=
  unescape_spelled (spelled_escape quotes text)

lemma unescape_eq_self {text : Text} (h : '&' ∉ text) : unescape text = text := by
  induction text with
  | nil => exact unescape_nil
  | cons c text ih =>
    rw [List.mem_cons, not_or] at h
    rw [unescape_cons_of_ne (Ne.symm h.1), ih h.2]

lemma escape_eq_self {quotes : Bool} {text : Text} (h : ∀ c ∈ text, c ∉ ['&', '<', '>', '\x22']) :
    escape quotes text = text := by
  induction text with
  | nil => rfl
  | cons c text ih =>
    have mark := h c List.mem_cons_self
    simp only [List.mem_cons, List.not_mem_nil, or_false, not_or] at mark
    rw [escape_cons, ih fun d member => h d (List.mem_cons_of_mem _ member)]
    simp [escapeChar, mark]

lemma notMem_escape {quotes : Bool} {mark : Char} (h : ∀ c, mark ∉ escapeChar quotes c)
    (text : Text) : mark ∉ escape quotes text := by
  rw [escape, List.mem_flatMap]
  rintro ⟨c, -, member⟩
  exact h c member

lemma angle_notMem_escape (quotes : Bool) (text : Text) :
    '<' ∉ escape quotes text ∧ '>' ∉ escape quotes text := by
  refine ⟨angle_notMem_spelled (spelled_escape quotes text), notMem_escape (fun c => ?_) text⟩
  unfold escapeChar
  split
  · decide
  split
  · decide
  split
  · decide
  split
  · decide
  · rename_i bracket _
    simpa using Ne.symm bracket

lemma quote_notMem_escape (text : Text) : '\x22' ∉ escape true text := by
  refine notMem_escape (fun c => ?_) text
  unfold escapeChar
  split
  · decide
  split
  · decide
  split
  · decide
  split
  · decide
  · rename_i quote
    simpa using fun h => quote ⟨h.symm, rfl⟩

end RichText.Html
