import Mathlib.Tactic.Lemma
import RichText.Proofs.Markdown.Trails

/-!
# Reading links

A link is a piece around another: its bracket opens it, its text is read within one link more, and
at the end of that text it is left, with the kind that its target gives it (`reads_link`).  The
brackets of the source say where its text ends before it is read, so that it does not matter what
the text is as long as its own brackets are balanced.
-/

namespace RichText.Markdown

variable {depth : Nat} {quoted : Bool} {front value tail : Text} {reading : Reading}
  {settings : Settings} {change : Trail → Trail}

/-! ## Links -/

namespace Trail

/-- Reads the bracket that starts a link. -/
def linkStart (depth : Nat) (trail : Trail) : Trail :=
  trail.mark (·.start (.link depth) (.textUrl []))

/-- Reads the end of a link with its target. -/
def linkStop (settings : Settings) (depth : Nat) (target : Text) (trail : Trail) : Trail :=
  trail.mark fun gathered =>
    match linkKind? settings target ((gathered.covered? (.link depth)).getD []) with
    | some kind => (gathered.revise (.link depth) (·.setKind kind)).finish (.link depth)
    | none => gathered.abandon (.link depth)

lemma quoting_linkStart (depth : Nat) (trail : Trail) :
    (trail.linkStart depth).quoting = trail.quoting := by
  rw [linkStart, quoting_mark, Gathering.isOpen_start _ (by simp)]
  rfl

lemma quoting_linkStop (settings : Settings) (depth : Nat) (target : Text) (trail : Trail) :
    (trail.linkStop settings depth target).quoting = trail.quoting := by
  rw [linkStop, quoting_mark]
  split
  · rw [Gathering.isOpen_finish (by simp), Gathering.isOpen, Gathering.draft?_revise,
      if_neg (by simp)]
    rfl
  · rw [Gathering.isOpen, Gathering.draft?_abandon, if_neg (by simp)]
    rfl

end Trail

/-- A bracket before a balanced text and a target opens a link. -/
lemma At.linkHere?_eq {target : Text} (balanced : Balanced value)
    (free : Free ['[', ']', ')'] target)
    (h : At depth quoted front ('[' :: (value ++ ']' :: '(' :: (target ++ [')']))) tail reading) :
    reading.linkHere?
        (.ofSource (front ++ ('[' :: (value ++ ']' :: '(' :: (target ++ [')'])) ++ tail))) =
      some ⟨front.length + 1 + value.length,
        front.length + 1 + value.length + 2 + target.length + 1, unescape target⟩ := by
  have source : front ++ ('[' :: (value ++ ']' :: '(' :: (target ++ [')'])) ++ tail) =
      front ++ '[' :: (value ++ ']' :: '(' :: (target ++ ')' :: tail)) := by simp
  have partner := LinkMarks.partner?_ofSource h.whole balanced ('(' :: (target ++ ')' :: tail))
  rw [← source, ← h.position] at partner
  have whole : Whole (front ++ '[' :: (value ++ [']', '('])) :=
    h.whole.append (.plain (by decide) (balanced.whole.append
      (.plain (by decide) (.plain (by decide) .nil))))
  have size : (front ++ '[' :: (value ++ [']', '('])).length =
      reading.position + 1 + value.length + 2 := by
    rw [h.position]
    simp
    omega
  have stop := LinkMarks.targetEndFrom?_ofSource whole free tail
  have parts : front ++ '[' :: (value ++ [']', '(']) ++ (target ++ ')' :: tail) =
      front ++ ('[' :: (value ++ ']' :: '(' :: (target ++ [')'])) ++ tail) := by simp
  rw [size, parts] at stop
  have rest : reading.rest.drop (reading.position + 1 + value.length + 1 - reading.position) =
      '(' :: (target ++ ')' :: tail) := by
    have opened : reading.rest = ('[' :: (value ++ [']'])) ++ '(' :: (target ++ ')' :: tail) := by
      rw [h.rest]
      simp
    have count : reading.position + 1 + value.length + 1 - reading.position =
        ('[' :: (value ++ [']'])).length := by
      simp
      omega
    rw [opened, count, List.drop_left]
  have within : ¬ reading.links.head?.any
      (·.textEnd ≤ reading.position + 1 + value.length + 2 + target.length) = true := by
    rw [Option.any_eq_true]
    rintro ⟨outer, member, passed⟩
    have room := h.room outer member
    simp only [List.length_cons, List.length_append, List.length_nil] at room
    simp only [decide_eq_true_eq] at passed
    omega
  have read : readTarget target.length (target ++ ')' :: tail) = (unescape target, ')' :: tail) :=
    readTarget_append free.whole _
  rw [Reading.linkHere?, partner, ← h.position]
  simp only [Option.bind_eq_bind, Option.bind_some, rest, stop, within, Bool.false_eq_true,
    if_false, Nat.add_sub_cancel_left, read]

lemma Reading.readFrom_bracket {marks : LinkMarks} {here : LinkText}
    (h : reading.linkHere? marks = some here) (next : Text) :
    reading.readFrom marks '[' next = reading.enterLink here := by
  simp [Reading.readFrom, h]

/-- At the end of its text a link is left, and its target passed. -/
lemma Reading.step_of_ended {marks : LinkMarks} {here : LinkText} {outer : List LinkText}
    (links : reading.links = here :: outer) (ended : here.textEnd ≤ reading.position)
    (rest : reading.rest = value ++ tail) (last : value.getLast? = some ')')
    (stop : here.stop = reading.position + value.length) :
    reading.step settings marks = ⟨reading.position + value.length, tail, false,
      (reading.trail.linkStop settings outer.length here.target).gathered, outer⟩ := by
  have filled : value ≠ [] := by
    rintro rfl
    simp at last
  have count : here.stop - reading.position = value.length := by omega
  have line : (value.getLast? == some '\n') = false := by
    rw [last]
    decide
  have left : reading.step settings marks = reading.leaveLink settings here outer := by
    rw [Reading.step, links]
    exact if_pos ended
  rw [left, Reading.leaveLink, count, Reading.gather_eq_pass rest filled, line, Reading.pass, rest,
    List.drop_left]
  rfl

/-- The marks of a link hold no line breaks. -/
lemma inQuote_link (quoted : Bool) (value target : Text) :
    inQuote quoted (link value target) =
      '[' :: (inQuote quoted value ++ ']' :: '(' :: (inQuote quoted target ++ [')'])) := by
  have marks : inQuote quoted ['['] = ['['] ∧ inQuote quoted [']', '('] = [']', '('] ∧
      inQuote quoted [')'] = [')'] := by
    refine ⟨?_, ?_, ?_⟩ <;> exact inQuote_of_notMem (by decide)
  rw [link, inQuote_append, inQuote_append, inQuote_append, inQuote_append, marks.1, marks.2.1,
    marks.2.2]
  simp

lemma At.enterLink_eq {behind : Text} {here : LinkText}
    (h : At depth quoted front ('[' :: (value ++ behind)) tail reading) :
    reading.enterLink here = ⟨front.length + 1, value ++ (behind ++ tail), false,
      reading.gathered.start (.link depth) (.textUrl []), here :: reading.links⟩ := by
  rw [Reading.enterLink, Reading.gather, Reading.advance, h.rest, h.position, h.depth]
  simp

/-- The bracket of a link leads to its text. -/
lemma At.enterLink {behind : Text} {here : LinkText}
    (h : At depth quoted front ('[' :: (value ++ behind)) tail reading)
    (ends : here.textEnd = front.length + 1 + value.length) :
    At (depth + 1) quoted (front ++ ['[']) value (behind ++ tail) (reading.enterLink here) := by
  rw [h.enterLink_eq]
  refine ⟨h.whole.append (.plain (by decide) .nil), by simp, rfl, by simp [h.depth], ?_, ?_⟩
  · intro first member
    simp only [List.head?_cons, Option.mem_some_iff] at member
    subst member
    exact Nat.le_of_eq ends.symm
  · intro isOpen
    apply h.calm
    rwa [Trail.quoting, Reading.trail, Gathering.isOpen_start _ (by simp)] at isOpen

/-- Behind its text a link is left, and all of it has been passed. -/
lemma At.leaveLink {behind : Text} {here : LinkText} {marks : LinkMarks}
    (h : At depth quoted front ('[' :: (value ++ behind)) tail reading)
    (ends : here.textEnd = front.length + 1 + value.length)
    (stop : here.stop = front.length + 1 + value.length + behind.length)
    (last : behind.getLast? = some ')') (change : Trail → Trail) :
    ((reading.enterLink here).pass value.length (change (reading.enterLink here).trail)).run
        settings marks =
      (reading.pass ('[' :: (value ++ behind)).length
        ((change (reading.trail.linkStart depth)).linkStop settings depth here.target)).run
          settings marks := by
  obtain ⟨reached, hreached⟩ : ∃ reached, reached =
    (reading.enterLink here).pass value.length (change (reading.enterLink here).trail) := ⟨_, rfl⟩
  have trail : (reading.enterLink here).trail = reading.trail.linkStart depth := by
    rw [h.enterLink_eq]
    rfl
  have rest : reached.rest = behind ++ tail := by
    rw [hreached, h.enterLink_eq]
    exact List.drop_left
  have position : reached.position = front.length + 1 + value.length := by
    rw [hreached, h.enterLink_eq]
    rfl
  have links : reached.links = here :: reading.links := by
    rw [hreached, h.enterLink_eq]
    rfl
  have left : reached.step settings marks = _ := Reading.step_of_ended links
    (Nat.le_of_eq (ends.trans position.symm)) rest last (by rw [stop, position])
  have size : front.length + 1 + value.length + behind.length =
      front.length + ('[' :: (value ++ behind)).length := by
    simp only [List.length_cons, List.length_append]
    omega
  have more : reached.rest ≠ [] := by
    rw [rest]
    intro empty
    rw [(List.append_eq_nil_iff.1 empty).1] at last
    simp at last
  rw [← hreached, Reading.run_step more, left, Reading.pass, h.rest, List.drop_left, position,
    h.position, h.depth, hreached, Reading.trail_pass, trail, size]
  rfl

/-- **A link is read as one**, its target as it was written. -/
lemma reads_link {target : Text} (balanced : Balanced value)
    (inside : Reads settings (depth + 1) quoted quoted (inQuote quoted value) change) :
    Reads settings depth quoted quoted (inQuote quoted (link value (escapeTarget target)))
      fun trail => (change (trail.linkStart depth)).linkStop settings depth
        (inQuote quoted target) := by
  obtain ⟨text, htext⟩ : ∃ text, text = inQuote quoted value := ⟨_, rfl⟩
  obtain ⟨stop, hstop⟩ : ∃ stop, stop = inQuote quoted (escapeTarget target) := ⟨_, rfl⟩
  have free : Free ['[', ']', ')'] stop := by
    rw [hstop]
    exact free_inQuote (by simp) ((free_escapeTarget target).mono (by simp)) quoted
  have named : unescape stop = inQuote quoted target := by
    rw [hstop, unescape_inQuote (free_escapeTarget target), unescape_escapeTarget]
  have brackets : Balanced text := by
    rw [htext]
    exact balanced.inQuote quoted
  rw [inQuote_link, ← htext, ← hstop]
  rw [← htext] at inside
  have behind : Whole (']' :: '(' :: (stop ++ [')'])) :=
    .plain (by decide) (.plain (by decide) (free.whole.append (.plain (by decide) .nil)))
  refine ⟨.plain (by decide) (inside.whole.append behind), ?_, ?_⟩
  · intro trail calm isOpen
    rw [Trail.quoting_linkStop] at isOpen
    exact inside.calm _ (fun started => calm (by rwa [Trail.quoting_linkStart] at started)) isOpen
  · intro front tail reading h
    obtain ⟨marks, hmarks⟩ : ∃ marks, marks = LinkMarks.ofSource
      (front ++ ('[' :: (text ++ ']' :: '(' :: (stop ++ [')'])) ++ tail)) := ⟨_, rfl⟩
    have found := h.linkHere?_eq brackets free
    rw [← hmarks, named] at found
    obtain ⟨here, ends, past, target, found⟩ : ∃ here : LinkText,
        here.textEnd = front.length + 1 + text.length ∧
        here.stop = front.length + 1 + text.length + (']' :: '(' :: (stop ++ [')'])).length ∧
        here.target = inQuote quoted target ∧ reading.linkHere? marks = some here :=
      ⟨_, rfl, by simp; omega, rfl, found⟩
    -- the bracket opens the link, its text is read, and then the link is left
    have run := inside.run _ _ _ (h.enterLink ends)
    have source : front ++ ['['] ++ (text ++ (']' :: '(' :: (stop ++ [')']) ++ tail)) =
        front ++ ('[' :: (text ++ ']' :: '(' :: (stop ++ [')'])) ++ tail) := by simp
    rw [source, ← hmarks] at run
    have left := @At.leaveLink depth quoted front text tail reading settings _ _ marks h ends past
      (by simp [List.getLast?_cons]) change
    rw [target] at left
    rw [← hmarks, h.run_eq, Reading.readFrom_bracket found, run, left]

end RichText.Markdown
