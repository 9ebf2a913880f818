import RichText.Proofs.Markdown.Moves

/-!
# Nothing is invented

The text that Markdown is read as has no character but those of its source, each at most as often
as it stands there and in their order (`text_sublist_source`).  Marks, targets of links and
languages of code blocks are left out, and nothing is put in their place.

The reader moves in many ways, over an escape, over code up to its closing backticks, over the marks
of quoted lines, behind the target of a link, but never back.  Each of its steps passes some
characters and writes a part of those it passes (`Passes`), whatever it takes them for, and so does
a reading from its first step to its last.
-/

namespace RichText.Markdown

/-! ## What single rules write -/

/-- A part of what stands behind the first characters is a part of all these. -/
lemma sublist_take_of_drop {part text : Text} {front used : Nat}
    (h : part.Sublist ((text.drop front).take used)) : part.Sublist (text.take (front + used)) := by
  rw [List.take_add]
  exact h.trans (List.sublist_append_right _ _)

lemma sublist_of_escaped? {text : Text} {e : Char} (escape : escaped? text = some e) :
    [e].Sublist (text.take 2) := by
  obtain ⟨rest, rfl, -⟩ := escaped?_eq_some escape
  exact (List.Sublist.refl [e]).cons '\\'

/-- Code is a part of what is read for it. -/
lemma sublist_of_readCode? {size : Nat} {quoting : Bool} {text : Text} :
    ∀ code used, readCode? size quoting text = some (code, used) →
      code.Sublist (text.take used) := by
  fun_induction readCode? size quoting text with
  | case1 => simp
  | case2 c rest e escape ih =>
    intro code used h
    obtain ⟨⟨inside, count⟩, read, found⟩ := Option.map_eq_some_iff.1 h
    obtain ⟨rfl, rfl⟩ := Prod.mk.inj found
    obtain ⟨behind, whole, -⟩ := escaped?_eq_some escape
    obtain ⟨rfl, rfl⟩ := List.cons.inj whole
    exact ((ih inside count read).cons_cons e).cons '\\'
  | case3 c rest escape run =>
    intro code used h
    obtain ⟨rfl, rfl⟩ := Prod.mk.inj (Option.some.inj h)
    exact List.nil_sublist _
  | case4 c rest escape run line mark ih =>
    intro code used h
    obtain ⟨⟨inside, count⟩, read, found⟩ := Option.map_eq_some_iff.1 h
    obtain ⟨rfl, rfl⟩ := Prod.mk.inj found
    have further := sublist_take_of_drop (ih inside count read)
    rw [show count + 1 + mark = mark + count + 1 by omega, List.take_succ_cons]
    exact further.cons_cons c
  | case5 c rest escape run line ih =>
    intro code used h
    obtain ⟨⟨inside, count⟩, read, found⟩ := Option.map_eq_some_iff.1 h
    obtain ⟨rfl, rfl⟩ := Prod.mk.inj found
    exact (ih inside count read).cons_cons c

lemma splitBlock_sublist (inside : Text) : (splitBlock inside).2.Sublist inside := by
  unfold splitBlock
  cases h : Text.splitLine? inside with
  | none => exact List.Sublist.refl inside
  | some parts =>
    obtain ⟨line, below⟩ := parts
    rw [(Text.splitLine?_eq_some h).1]
    exact (List.sublist_cons_self '\n' below).trans (List.sublist_append_right line _)

/-! ## Steps -/

namespace Reading

variable {settings : Settings} {marks : LinkMarks} {before middle after reading : Reading}

/-- From `before` to `after` some characters were passed, and a part of them was written. -/
def Passes (before after : Reading) : Prop :=
  ∃ passed piece : Text, before.rest = passed ++ after.rest ∧
    after.gathered.text = before.gathered.text ++ piece ∧ piece.Sublist passed

lemma Passes.refl (reading : Reading) : Passes reading reading :=
  ⟨[], [], rfl, (List.append_nil _).symm, List.Sublist.refl []⟩

lemma Passes.trans (first : Passes before middle) (second : Passes middle after) :
    Passes before after := by
  obtain ⟨passed, piece, rest, wrote, part⟩ := first
  obtain ⟨further, more, rest', wrote', part'⟩ := second
  refine ⟨passed ++ further, piece ++ more, ?_, ?_, part.append part'⟩
  · rw [rest, rest', List.append_assoc]
  · rw [wrote', wrote, List.append_assoc]

/-- Moving over characters and writing a part of them. -/
lemma passes_gather {count : Nat} {change : Gathering Delimiter → Gathering Delimiter}
    {piece : Text} (wrote : (change reading.gathered).text = reading.gathered.text ++ piece)
    (part : piece.Sublist (reading.rest.take count)) :
    Passes reading (reading.gather count change) :=
  ⟨reading.rest.take count, piece, (List.take_append_drop count reading.rest).symm, wrote, part⟩

/-- Moving over characters and writing none. -/
lemma passes_silently {count : Nat} {change : Gathering Delimiter → Gathering Delimiter}
    (wrote : (change reading.gathered).text = reading.gathered.text) :
    Passes reading (reading.gather count change) :=
  passes_gather (wrote.trans (List.append_nil _).symm) (List.nil_sublist _)

lemma text_enclose (gathered : Gathering Delimiter) (key : Delimiter) (kind : Kind) (piece : Text) :
    (((gathered.start key kind).append piece).finish key).text = gathered.text ++ piece := by
  rw [Gathering.text_finish, Gathering.text_append, Gathering.text_start]

/-- Code is passed with its marks, and a part of what stands between them is written. -/
lemma passes_code {size used : Nat} {key : Delimiter} {kind : Kind} {inside piece : Text}
    (read : readCode? size reading.quoting (reading.rest.drop size) = some (inside, used))
    (part : piece.Sublist inside) :
    Passes reading (reading.gather (size + used) fun gathered =>
      ((gathered.start key kind).append piece).finish key) :=
  passes_gather (text_enclose _ _ _ _)
    (sublist_take_of_drop (part.trans (sublist_of_readCode? inside used read)))

/-- Leaving a link passes its target, if it has not been passed, and writes nothing. -/
lemma passes_leaveLink (settings : Settings) (link : LinkText) (outer : List LinkText)
    (reading : Reading) : Passes reading (reading.leaveLink settings link outer) := by
  have silent : (reading.leaveLink settings link outer).gathered.text = reading.gathered.text :=
    text_linkStop settings outer.length link.target reading.trail
  exact ⟨reading.rest.take (link.stop - reading.position), [],
    (List.take_append_drop _ _).symm, silent.trans (List.append_nil _).symm, List.nil_sublist _⟩

/-- **Every rule passes what it writes.** -/
lemma Rule.passes {c : Char} {next : Text} {read : Reading} (rule : Rule marks reading c next read)
    (rest : reading.rest = c :: next) : Passes reading read := by
  have first {count : Nat} (positive : 0 < count) : [c].Sublist (reading.rest.take count) := by
    obtain ⟨more, rfl⟩ : ∃ more, count = more + 1 := ⟨count - 1, by omega⟩
    rw [rest, List.take_succ_cons]
    exact (List.nil_sublist _).cons_cons c
  cases rule with
  | quoteStart => exact passes_silently (Gathering.text_start _ _ _)
  | @escape e escape =>
    refine passes_gather (Gathering.text_appendChar e _) ?_
    rw [rest]
    exact sublist_of_escaped? escape
  | quoteLine => exact passes_gather (Gathering.text_appendChar c _) (first (by omega))
  | quoteBreak =>
    refine passes_gather ?_ (first Nat.one_pos)
    rw [Gathering.text_appendChar, Gathering.text_finish]
  | @codeBlock inside _ _ read => exact passes_code read (splitBlock_sublist inside)
  | loneFence fenced =>
    refine passes_gather (Gathering.text_append fence _) ?_
    obtain ⟨behind, whole⟩ := fenced
    rw [rest, ← whole, List.take_left]
  | @codeSpan inside _ _ read => exact passes_code read (List.Sublist.refl inside)
  | quoteStop => exact passes_silently (Gathering.text_finish _ _)
  | link => exact passes_silently (Gathering.text_start _ _ _)
  | switch => exact passes_silently (text_switch _ _ _)
  | text => exact passes_gather (Gathering.text_appendChar c _) (first Nat.one_pos)

/-- **Every step passes what it writes.** -/
lemma passes_step (settings : Settings) (marks : LinkMarks) (reading : Reading) :
    Passes reading (reading.step settings marks) := by
  have stepped := stepped_step settings marks reading
  generalize reading.step settings marks = later at stepped ⊢
  cases stepped with
  | leave => exact passes_leaveLink settings _ _ reading
  | stay => exact Passes.refl reading
  | on rest _ rule => exact rule.passes rest

/-- **A whole reading passes what it writes.** -/
lemma passes_ofSource (settings : Settings) (source : Text) :
    Passes (start source) (ofSource settings source) := by
  have run : Passes (start source) (run settings (.ofSource source) (start source)) :=
    run_keeps (Passes (start source)) (fun reading h => h.trans (passes_step settings _ reading))
      (Passes.refl _)
  have left := leaveLinks_keeps settings (Passes (start source))
    (fun link outer reading _ h => h.trans (passes_leaveLink settings link outer reading)) rfl run
  obtain ⟨passed, piece, rest, wrote, part⟩ := left
  exact ⟨passed, piece, rest, (Gathering.text_finish _ _).trans wrote, part⟩

end Reading

/-- **Reading invents nothing.**  The text that Markdown is read as comes about from the source by
leaving characters out. -/
theorem text_sublist_source (settings : Settings) (source : Text) :
    (read settings source).text.Sublist source := by
  obtain ⟨passed, piece, rest, wrote, part⟩ := Reading.passes_ofSource settings source
  have gathered : (Reading.ofSource settings source).gathered.text = piece := wrote
  have whole : source = passed ++ (Reading.ofSource settings source).rest := rest
  calc (read settings source).text
      = piece.trim := by rw [← gathered]; rfl
    List.Sublist _ piece := Text.trim_sublist piece
    List.Sublist _ passed := part
    List.Sublist _ source := by
      rw [whole]
      exact List.sublist_append_left passed _

end RichText.Markdown
