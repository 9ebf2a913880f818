import RichText.Text.Ascii

/-!
# Escapes in Markdown

A backslash before ASCII punctuation makes it literal, in running text, in code and in the
targets of links; before anything else it stands for itself.  Everything that looks through a
source takes an escape as one piece.
-/

namespace RichText.Markdown

/-- The character that the escape at the start of a text makes literal, if one starts there. -/
def escaped? : Text → Option Char
  | '\\' :: c :: _ => if isPunctuation c then some c else none
  | _ => none

theorem escaped?_eq_some {text : Text} {c : Char} (h : escaped? text = some c) :
    ∃ rest, text = '\\' :: c :: rest ∧ isPunctuation c = true := by
  unfold escaped? at h
  split at h
  · split at h
    · rename_i e rest hp
      cases h
      exact ⟨rest, rfl, hp⟩
    · cases h
  · cases h

@[simp] theorem escaped?_nil : escaped? [] = none := rfl

theorem escaped?_cons_of_ne {c : Char} (h : c ≠ '\\') (rest : Text) :
    escaped? (c :: rest) = none := by
  unfold escaped?
  split
  · rename_i heq
    simp only [List.cons.injEq] at heq
    exact absurd heq.1 h
  · rfl

end RichText.Markdown
