import Mathlib.Tactic.Lemma
import RichText.Proofs.Markdown.Readings
import RichText.Proofs.Trimming

/-!
# What the reader does to what it gathers

However tangled a source of Markdown is, its reader does only a few things to its gathering: it
appends text, starts and finishes formatting and block quotes, lists code at once, and starts,
finishes or forgets the link that lies as deep as links wait.  `Keeps` lists them.  What they all
keep holds of what is gathered from any source (`Keeps.ofSource`), so that a proof about every
source is one about these operations.
-/

namespace RichText.Markdown

/-- What each of the operations keeps by which the reader of Markdown gathers while a number of
links wait. -/
structure Keeps (settings : Settings) (p : Nat → Gathering Delimiter → Prop) : Prop where
  append : ∀ {links gathering}, p links gathering → ∀ piece, p links (gathering.append piece)
  start : ∀ {links gathering}, p links gathering → ∀ kind : Kind, kind.isFormatting = true →
    kind.isCode = false → p links (gathering.start (keyOf links kind) kind)
  finish : ∀ {links gathering}, p links gathering → ∀ kind : Kind, kind.isFormatting = true →
    kind.isCode = false → p links (gathering.finish (keyOf links kind))
  code : ∀ {links gathering}, p links gathering → ∀ kind : Kind, kind.isCode = true →
    (∀ language, kind = .pre language → '\n' ∉ language) → ∀ piece, p links
      (((gathering.start (keyOf links kind) kind).append piece).finish (keyOf links kind))
  enter : ∀ {links gathering}, p links gathering →
    p (links + 1) (gathering.start (.link links) (.textUrl []))
  leave : ∀ {links gathering}, p (links + 1) gathering → ∀ {target kind},
    linkKind? settings target ((gathering.covered? (.link links)).getD []) = some kind →
    p links ((gathering.revise (.link links) (·.setKind kind)).finish (.link links))
  drop : ∀ {links gathering}, p (links + 1) gathering → p links (gathering.abandon (.link links))

variable {settings : Settings} {p : Nat → Gathering Delimiter → Prop} {reading : Reading}
  {marks : LinkMarks} {links : Nat} {gathering : Gathering Delimiter}

lemma keyOf_of_doubled? {c : Char} {delimiter : Delimiter} {kind : Kind}
    (doubled : doubled? c = some (delimiter, kind)) (links : Nat) :
    delimiter = keyOf links kind ∧ kind.isFormatting = true ∧ kind.isCode = false := by
  unfold doubled? at doubled
  repeat' split at doubled
  all_goals
    simp only [Option.some.injEq, Prod.mk.injEq, reduceCtorEq] at doubled
    try (obtain ⟨rfl, rfl⟩ := doubled; exact ⟨rfl, rfl, rfl⟩)

lemma Keeps.switch (keeps : Keeps settings p) (h : p links gathering) {c : Char}
    {delimiter : Delimiter} {kind : Kind} (doubled : doubled? c = some (delimiter, kind)) :
    p links (Reading.switch delimiter kind gathering) := by
  obtain ⟨rfl, formatting, verbatim⟩ := keyOf_of_doubled? doubled links
  unfold Reading.switch
  split
  · exact keeps.finish h kind formatting verbatim
  · exact keeps.start h kind formatting verbatim

lemma notMem_language (inside : Text) : '\n' ∉ (splitBlock inside).1.trim := by
  refine fun member => absurd ((Text.trim_sublist _).mem member) ?_
  unfold splitBlock
  cases h : Text.splitLine? inside with
  | none => simp
  | some parts => exact (Text.splitLine?_eq_some h).2

lemma Keeps.leaveLink (keeps : Keeps settings p) {link : LinkText} {outer : List LinkText}
    (h : p (outer.length + 1) reading.gathered) :
    p (reading.leaveLink settings link outer).links.length
      (reading.leaveLink settings link outer).gathered := by
  unfold Reading.leaveLink
  simp only [Reading.gather]
  split
  · rename_i kind found
    exact keeps.leave h found
  · exact keeps.drop h

/-- **Every rule gathers by these operations.** -/
lemma Keeps.rule (keeps : Keeps settings p) (h : p reading.links.length reading.gathered)
    {c : Char} {next : Text} {read : Reading} (rule : Reading.Rule marks reading c next read) :
    p read.links.length read.gathered := by
  cases rule with
  | quoteStart => exact keeps.start h .blockquote rfl rfl
  | @escape e _ => exact keeps.append h [e]
  | quoteLine | text => exact keeps.append h [c]
  | quoteBreak => exact keeps.append (keeps.finish h .blockquote rfl rfl) [c]
  | @codeBlock inside =>
    exact keeps.code h _ rfl (fun _ block => Kind.pre.inj block ▸ notMem_language inside) _
  | loneFence => exact keeps.append h fence
  | @codeSpan inside => exact keeps.code h .code rfl (by simp) inside
  | quoteStop => exact keeps.finish h .blockquote rfl rfl
  | link => exact keeps.enter h
  | switch doubled => exact keeps.switch h doubled

/-- **Every step gathers by these operations.** -/
lemma Keeps.step (keeps : Keeps settings p) (h : p reading.links.length reading.gathered) :
    p (reading.step settings marks).links.length (reading.step settings marks).gathered := by
  have stepped := Reading.stepped_step settings marks reading
  generalize reading.step settings marks = later at stepped ⊢
  cases stepped with
  | leave waiting _ =>
    rw [waiting] at h
    exact keeps.leaveLink h
  | stay => exact h
  | on _ _ rule => exact keeps.rule h rule

/-- **What holds of nothing and is kept holds of what is gathered from a source**, where no link
waits any more. -/
lemma Keeps.ofSource (keeps : Keeps settings p) (empty : p 0 .empty) (source : Text) :
    p 0 (Reading.ofSource settings source).gathered := by
  have run := @Reading.run_keeps settings (.ofSource source)
    (fun reading => p reading.links.length reading.gathered) (fun _ h => keeps.step h)
    (.start source) empty
  have left := Reading.leaveLinks_keeps settings
    (fun reading => p reading.links.length reading.gathered)
    (fun link outer reading waiting h => by
      rw [waiting] at h
      exact keeps.leaveLink h) rfl run
  rw [Reading.links_leaveLinks settings rfl] at left
  exact keeps.finish left .blockquote rfl rfl

end RichText.Markdown
