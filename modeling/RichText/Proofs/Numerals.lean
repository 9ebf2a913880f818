import Mathlib.Tactic.Lemma
import RichText.Target
import RichText.Text.Blank

/-!
# Written numbers are read back

A number is written as an optional minus sign and digits, of which there is at least one
(`ofInt_characters`, `ofInt_ne_nil`), and it is read back as itself (`signed?_ofInt`).  The digits
may be those of any base up to sixteen (`digitsOnto?_ofNatBase`), letters among them may be of
either case (`digitsOnto?_lower`), and zeros in front do not matter (`digitsOnto?_zeros`).
-/

namespace RichText

lemma toNat_of_digit {c : Char} (h : isDigit c ∨ c = '-') : 45 ≤ c.toNat ∧ c.toNat ≤ 57 := by
  rcases h with digit | rfl
  · simp only [isDigit, Bool.and_eq_true, decide_eq_true_eq] at digit
    have low : 48 ≤ c.toNat := digit.1
    have high : c.toNat ≤ 57 := digit.2
    omega
  · decide

lemma isBlank_of_digit {c : Char} (h : isDigit c ∨ c = '-') : isBlank c = false := by
  have range := toNat_of_digit h
  simp only [isBlank, blankRanges, List.any_cons, List.any_nil, Bool.or_false,
    Bool.or_eq_false_iff, Bool.and_eq_false_iff, decide_eq_false_iff_not]
  omega

namespace Text

lemma trim_of_visible {text : Text} (h : ∀ c ∈ text, isBlank c = false) : trim text = text := by
  have stays {text : Text} (h : ∀ c ∈ text, isBlank c = false) : text.dropWhile isBlank = text :=
    @dropWhile_row isBlank [] text nofun fun c first => h c (List.mem_of_head? first)
  rw [trim, trimStart, stays h, trimEnd, stays fun c member => h c (List.mem_reverse.1 member),
    List.reverse_reverse]

end Text

namespace Numeral

variable {base value : Nat}

/-! ## Digits in a base -/

lemma digitValue?_eq_filter (small : base ≤ 16) (c : Char) :
    digitValue? base c = (digitValue? 16 c).filter (· < base) := by
  have same (value : Nat) :
      decide (value < base) = (decide (value < 16) && decide (value < base)) := by
    rw [Bool.eq_iff_iff, Bool.and_eq_true, decide_eq_true_eq, decide_eq_true_eq]
    omega
  simp only [digitValue?, Option.filter_filter, ← same]

lemma digitValue?_digit (small : base ≤ 16) (h : value < base) :
    digitValue? base (digit value) = some value := by
  have table : ∀ value < 16, digitValue? 16 (digit value) = some value := by decide
  rw [digitValue?_eq_filter small, table value (Nat.lt_of_lt_of_le h small)]
  exact Option.filter_eq_some_iff.2 ⟨rfl, decide_eq_true h⟩

lemma digitValue?_toLower (small : base ≤ 16) (c : Char) :
    digitValue? base c.toLower = digitValue? base c := by
  rw [digitValue?_eq_filter small, digitValue?_eq_filter small c]
  congr 1
  by_cases upper : 65 ≤ c.toNat ∧ c.toNat ≤ 90
  · have table : ∀ letter < 26, digitValue? 16 (Char.ofNat (65 + letter)).toLower =
        digitValue? 16 (Char.ofNat (65 + letter)) := by decide
    have letter := table (c.toNat - 65) (by omega)
    rwa [Nat.add_sub_cancel' upper.1, Char.ofNat_toNat] at letter
  · have same : c.toLower = c := dif_neg upper
    rw [same]

lemma digitsOnto?_lower (small : base ≤ 16) (value : Nat) (text : Text) :
    digitsOnto? base value (Text.lower text) = digitsOnto? base value text := by
  induction text generalizing value with
  | nil => rfl
  | cons c rest ih =>
    have lowered : Text.lower (c :: rest) = c.toLower :: Text.lower rest := rfl
    rw [lowered, digitsOnto?, digitsOnto?, digitValue?_toLower small]
    simp only [ih]

/-- Zeros in front do not matter. -/
lemma digitsOnto?_zeros (small : base ≤ 16) (positive : 0 < base) (zeros : Nat) (text : Text) :
    digitsOnto? base 0 (List.replicate zeros '0' ++ text) = digitsOnto? base 0 text := by
  have zero : digitValue? base '0' = some 0 := digitValue?_digit small positive
  induction zeros with
  | zero => rfl
  | succ zeros ih =>
    rw [List.replicate_succ, List.cons_append, digitsOnto?, zero]
    simpa using ih

lemma ofNatBase_ne_nil (base n : Nat) : ofNatBase base n ≠ [] := by
  rw [ofNatBase]
  split <;> simp

/-- **The digits of a number are read as it.** -/
lemma digitsOnto?_ofNatBase (small : base ≤ 16) (two : 2 ≤ base) (n : Nat) :
    digitsOnto? base 0 (ofNatBase base n) = some n := by
  fun_induction ofNatBase base n with
  | case1 n single =>
    have below : n < base := by omega
    simp [digitsOnto?, digitValue?_digit small below]
  | case2 n several ih =>
    have last : n / base * base + n % base = n := Nat.div_add_mod' n base
    have below : n % base < base := Nat.mod_lt n (by omega)
    simp [digitsOnto?_append, ih, digitsOnto?, digitValue?_digit small below, last]

lemma notMem_of_digits? {n : Nat} {text : Text} {c : Char} (small : base ≤ 16)
    (digits : digits? base text = some n) (none : digitValue? 16 c = none) : c ∉ text := by
  rw [digits?, Option.ite_none_left_eq_some] at digits
  obtain ⟨-, onto⟩ := digits
  generalize 0 = value at onto
  induction text generalizing value with
  | nil => exact List.not_mem_nil
  | cons d rest ih =>
    obtain ⟨v, digit, further⟩ := Option.bind_eq_some_iff.1 onto
    rw [List.mem_cons, not_or]
    refine ⟨?_, ih _ further⟩
    rintro rfl
    rw [digitValue?_eq_filter small, none] at digit
    cases digit

lemma unsigned?_of_digits? {bound n : Nat} {text : Text} (small : base ≤ 16)
    (digits : digits? base text = some n) (fits : n < bound) :
    unsigned? base bound text = some n := by
  have whole : Text.dropHead ['+'] text = text := by
    obtain ⟨taken, rfl | rfl, parts⟩ := Text.dropHead_append ['+'] text
    · exact parts.symm
    · exact absurd (by rw [parts]; exact List.mem_cons_self)
        (notMem_of_digits? (c := '+') small digits rfl)
  rw [unsigned?, whole, digits]
  exact Option.filter_eq_some_iff.2 ⟨rfl, decide_eq_true fits⟩

/-! ## Decimal numbers -/

lemma isDigit_digit : ∀ value < 10, isDigit (digit value) = true := by decide

lemma ofNat_digits (n : Nat) : ∀ c ∈ ofNat n, isDigit c = true := by
  unfold ofNat
  fun_induction ofNatBase 10 n with
  | case1 n small =>
    intro c member
    obtain rfl := List.mem_singleton.1 member
    exact isDigit_digit n (by omega)
  | case2 n small ih =>
    intro c member
    rcases List.mem_append.1 member with front | last
    · exact ih c front
    · obtain rfl := List.mem_singleton.1 last
      exact isDigit_digit (n % 10) (by omega)

lemma ofNat_ne_nil (n : Nat) : ofNat n ≠ [] := ofNatBase_ne_nil 10 n

lemma digitsOnto?_ofNat (n : Nat) : digitsOnto? 10 0 (ofNat n) = some n :=
  digitsOnto?_ofNatBase (by decide) (by decide) n

lemma digits?_ofNat (n : Nat) : digits? 10 (ofNat n) = some n := by
  have filled : (ofNat n).isEmpty = false := by simpa using ofNat_ne_nil n
  simp [digits?, filled, digitsOnto?_ofNat]

/-- A number is written in digits, and perhaps a minus sign. -/
lemma ofInt_characters (n : Int) : ∀ c ∈ ofInt n, isDigit c ∨ c = '-' := by
  intro c member
  cases n with
  | ofNat n => exact .inl (ofNat_digits n c member)
  | negSucc n =>
    rcases List.mem_cons.1 member with rfl | digit
    · exact .inr rfl
    · exact .inl (ofNat_digits (n + 1) c digit)

lemma all_isDigit_ofInt (n : Int) : (ofInt n).all isDigit = true ↔ 0 ≤ n := by
  cases n with
  | ofNat n => exact ⟨fun _ => Int.natCast_nonneg n, fun _ => List.all_eq_true.2 (ofNat_digits n)⟩
  | negSucc n => exact ⟨fun h => absurd h Bool.false_ne_true, fun h => absurd h (by omega)⟩

lemma ofInt_ne_nil (n : Int) : ofInt n ≠ [] := by
  cases n with
  | ofNat n => exact ofNat_ne_nil n
  | negSucc n => exact List.cons_ne_nil _ _

lemma trim_ofInt (n : Int) : Text.trim (ofInt n) = ofInt n :=
  Text.trim_of_visible fun c member => isBlank_of_digit (ofInt_characters n c member)

/-- A number without sign is read by its digits. -/
lemma signed?_of_digits {least greatest : Int} {text : Text}
    (digits : ∀ c ∈ text, isDigit c = true) :
    signed? least greatest text =
      ((digits? 10 text).map fun (n : Nat) => (n : Int)).filter
        fun n => least ≤ n ∧ n ≤ greatest := by
  cases text with
  | nil => rfl
  | cons first rest =>
    have digit := digits first List.mem_cons_self
    have noMinus : first ≠ '-' := by
      rintro rfl
      exact absurd digit (by decide)
    have noPlus : first ≠ '+' := by
      rintro rfl
      exact absurd digit (by decide)
    have whole := Text.dropHead_of_ne noPlus rest
    unfold signed?
    split
    · rename_i heq
      cases heq
      exact absurd rfl noMinus
    · rw [whole]

/-- **A written number is read back.** -/
lemma signed?_ofInt {least greatest n : Int} (range : least ≤ n ∧ n ≤ greatest) :
    signed? least greatest (ofInt n) = some n := by
  cases n with
  | ofNat n =>
    show signed? least greatest (ofNat n) = some (n : Int)
    rw [signed?_of_digits (ofNat_digits n), digits?_ofNat]
    exact Option.filter_eq_some_iff.2 ⟨rfl, by simpa using range⟩
  | negSucc n =>
    show ((digits? 10 (ofNat (n + 1))).map fun (n : Nat) => -(n : Int)).filter _ = _
    rw [digits?_ofNat]
    exact Option.filter_eq_some_iff.2 ⟨by simp [Int.negSucc_eq], by simpa using range⟩

end Numeral

lemma mentionedUser?_mention {userId : Int} (fits : Identifier.InRange userId) :
    mentionedUser? (mentionTarget ++ Numeral.ofInt userId) = some userId := by
  simp only [mentionedUser?, Text.after?_append]
  exact Numeral.signed?_ofInt fits

end RichText
