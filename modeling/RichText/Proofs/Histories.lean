import RichText.Proofs.WellFormed

/-!
# Histories of a gathering

A reader does to its gathering what the source asks for, in any order: keys are started, ended and
started again while others are open, and nothing is checked.  What is gathered is still determined
by the `Operation`s that were done, its history.  An entity is open under a key just if it was
started there and no operation has ended it since (`isOpen_ofHistory`); it covers what was written
since the operation that started it, `Since` telling which that was (`covered?_ofHistory`).

While the text is short, everything a gathering counts is exact (`ofHistory_exact`): its units, the
place and the length of what is open, and the end of each entity it has listed, which is where the
text ended when the entity did.
-/

namespace RichText

namespace Gathering

variable {κ : Type}

/-- What a reader may do to its gathering. -/
inductive Operation (κ : Type) where
  | append (piece : Text)
  | appendChar (c : Char)
  | start (key : κ) (kind : Kind)
  | setKind (key : κ) (kind : Kind)
  | setLanguage (key : κ) (language : Text)
  | abandon (key : κ)
  | finish (key : κ)
  deriving DecidableEq, Repr

namespace Operation

/-- The text an operation writes. -/
def piece : Operation κ → Text
  | append piece => piece
  | appendChar c => [c]
  | _ => []

variable [DecidableEq κ]

/-- Does an operation. -/
def perform (gathering : Gathering κ) : Operation κ → Gathering κ
  | append piece => gathering.append piece
  | appendChar c => gathering.appendChar c
  | start key kind => gathering.start key kind
  | setKind key kind => gathering.revise key (·.setKind kind)
  | setLanguage key language => gathering.revise key (·.setLanguage language)
  | abandon key => gathering.abandon key
  | finish key => gathering.finish key

/-- Whether an operation starts an entity under a key, if none is open there. -/
def starts (key : κ) : Operation κ → Bool
  | start other _ => key = other
  | _ => false

/-- Whether an operation ends what is open under a key. -/
def ends (key : κ) : Operation κ → Bool
  | abandon other | finish other => key = other
  | _ => false

/-- What ends an entity starts none. -/
lemma starts_of_ends {key : κ} (operation : Operation κ) (ended : operation.ends key = true) :
    operation.starts key = false := by
  cases operation <;> first | rfl | cases ended

end Operation

variable [DecidableEq κ]

/-- What is gathered by operations done one after the other, with nothing gathered before. -/
def ofHistory (history : List (Operation κ)) : Gathering κ :=
  history.foldl Operation.perform .empty

omit [DecidableEq κ] in
/-- The text that operations write. -/
def written (history : List (Operation κ)) : Text := history.flatMap Operation.piece

/-- Behind the operations `before` something was started under a key, and none of the operations
`since` then has ended it. -/
def Lasts (key : κ) (history before since : List (Operation κ)) : Prop :=
  ∃ operation, history = before ++ operation :: since ∧ operation.starts key = true ∧
    ∀ later ∈ since, later.ends key = false

/-- Something was started under a key and has not been ended. -/
def Underway (key : κ) (history : List (Operation κ)) : Prop :=
  ∃ before since, Lasts key history before since

/-- The operations `since` are those behind the one that started what is open under a key: none of
them has ended it, and nothing was open under the key before. -/
def Since (key : κ) (history since : List (Operation κ)) : Prop :=
  ∃ before, Lasts key history before since ∧ ¬ Underway key before

variable {history : List (Operation κ)} {operation : Operation κ} {gathering : Gathering κ}
  {key : κ}

@[simp] lemma ofHistory_concat (history : List (Operation κ)) (operation : Operation κ) :
    ofHistory (history ++ [operation]) = operation.perform (ofHistory history) :=
  List.foldl_concat _ _ _ _

omit [DecidableEq κ] in
@[simp] lemma written_concat (history : List (Operation κ)) (operation : Operation κ) :
    written (history ++ [operation]) = written history ++ operation.piece := by
  simp [written]

/-! ## One more operation -/

lemma text_perform (operation : Operation κ) (gathering : Gathering κ) :
    (operation.perform gathering).text = gathering.text ++ operation.piece := by
  cases operation <;> simp [Operation.perform, Operation.piece]

/-- What is open was open before or has started, and has not ended. -/
lemma isOpen_perform (key : κ) (operation : Operation κ) (gathering : Gathering κ) :
    (operation.perform gathering).isOpen key =
      (operation.starts key || gathering.isOpen key && !operation.ends key) := by
  cases operation with
  | append | appendChar | setKind | setLanguage =>
    simp [Operation.perform, Operation.starts, Operation.ends, isOpen_revise]
  | start other kind =>
    by_cases same : key = other
    · simp [Operation.perform, Operation.starts, same, isOpen_start_self]
    · simp [Operation.perform, Operation.starts, Operation.ends, same, isOpen_start kind same]
  | abandon other =>
    by_cases same : key = other
    · simp [Operation.perform, Operation.starts, Operation.ends, same]
    · simp [Operation.perform, Operation.starts, Operation.ends, same, isOpen_abandon same]
  | finish other =>
    by_cases same : key = other
    · simp [Operation.perform, Operation.starts, Operation.ends, same]
    · simp [Operation.perform, Operation.starts, Operation.ends, same, isOpen_finish same]

/-! ## What a key covers -/

lemma covered?_eq_map (key : κ) (gathering : Gathering κ) :
    gathering.covered? key = (gathering.draft? key).map fun draft =>
      (takeUnits draft.length gathering.text.reverse).reverse := by
  rw [covered?, text, List.reverse_reverse]

/-- What is open covers the text that is appended, too. -/
lemma Sound.covered?_append (sound : gathering.Sound) {piece : Text}
    (short : Short (gathering.text ++ piece)) (key : κ) :
    (gathering.append piece).covered? key = (gathering.covered? key).map (· ++ piece) := by
  cases isOpen : gathering.draft? key with
  | none =>
    have free : (gathering.append piece).draft? key = none := by
      rw [sound.draft?_append short, isOpen, Option.map_none]
    rw [covered?_eq_map, covered?_eq_map, free, isOpen]
    rfl
  | some draft =>
    obtain ⟨front, since, whole, -, length⟩ := sound.draft key draft isOpen
    have grown : (gathering.append piece).draft? key =
        some (draft.extend (Utf16.unitCount piece)) := by
      rw [sound.draft?_append short, isOpen, Option.map_some]
    rw [covered?_eq isOpen whole length, Option.map_some]
    have longer : (gathering.append piece).text = front ++ (since ++ piece) := by
      rw [text_append, whole, List.append_assoc]
    refine covered?_eq grown longer ?_
    rw [OpenEntity.extend, length, Utf16.unitCount_append]
    push_cast
    rfl

lemma covered?_start (key other : κ) (kind : Kind) (gathering : Gathering κ) :
    (gathering.start key kind).covered? other =
      if other = key ∧ gathering.isOpen key = false then some []
      else gathering.covered? other := by
  rw [covered?_eq_map, covered?_eq_map, draft?_start, text_start, isOpen]
  by_cases same : other = key
  · subst same
    cases gathering.draft? other with
    | none => cases gathering.text.reverse <;> simp [OpenEntity.start, takeUnits]
    | some draft => simp
  · simp [same]

lemma covered?_revise (change : OpenEntity → OpenEntity)
    (length : ∀ draft, (change draft).length = draft.length) (key other : κ)
    (gathering : Gathering κ) :
    (gathering.revise key change).covered? other = gathering.covered? other := by
  rw [covered?_eq_map, covered?_eq_map, draft?_revise, text_revise]
  by_cases same : other = key
  · subst same
    cases gathering.draft? other <;> simp [length]
  · simp [same]

lemma covered?_abandon (key other : κ) (gathering : Gathering κ) :
    (gathering.abandon key).covered? other =
      if other = key then none else gathering.covered? other := by
  rw [covered?_eq_map, covered?_eq_map, draft?_abandon, text_abandon]
  split <;> rfl

lemma covered?_finish (key other : κ) (gathering : Gathering κ) :
    (gathering.finish key).covered? other =
      if other = key then none else gathering.covered? other := by
  rw [covered?_eq_map, covered?_eq_map, draft?_finish, text_finish]
  split <;> rfl

/-- What a key covers starts empty, grows by what is written, and is gone when it ends. -/
lemma Sound.covered?_perform (sound : gathering.Sound)
    (short : Short (gathering.text ++ operation.piece)) (key : κ) :
    (operation.perform gathering).covered? key =
      if operation.ends key then none
      else if operation.starts key && !gathering.isOpen key then some []
      else (gathering.covered? key).map (· ++ operation.piece) := by
  cases operation with
  | append piece => exact sound.covered?_append short key
  | appendChar c => exact sound.covered?_append short key
  | start other kind =>
    by_cases same : key = other <;>
      simp [Operation.perform, Operation.starts, Operation.ends, Operation.piece, covered?_start,
        same]
  | setKind other kind =>
    simp [Operation.perform, Operation.starts, Operation.ends, Operation.piece,
      covered?_revise (·.setKind kind) fun _ => rfl]
  | setLanguage other language =>
    simp [Operation.perform, Operation.starts, Operation.ends, Operation.piece,
      covered?_revise _ (OpenEntity.length_setLanguage language)]
  | abandon other =>
    simp [Operation.perform, Operation.starts, Operation.ends, Operation.piece,
      covered?_abandon]
  | finish other =>
    simp [Operation.perform, Operation.starts, Operation.ends, Operation.piece,
      covered?_finish]

/-! ## Histories -/

/-- One more operation starts something, or what was started lasts. -/
lemma lasts_concat {before since : List (Operation κ)} :
    Lasts key (history ++ [operation]) before since ↔
      before = history ∧ since = [] ∧ operation.starts key = true ∨
        ∃ rest, since = rest ++ [operation] ∧ Lasts key history before rest ∧
          operation.ends key = false := by
  rcases List.eq_nil_or_concat' since with rfl | ⟨rest, last, rfl⟩
  · constructor
    · rintro ⟨started, whole, starts, -⟩
      obtain ⟨rfl, single⟩ := List.append_inj' whole rfl
      obtain rfl := List.singleton_inj.1 single
      exact .inl ⟨rfl, rfl, starts⟩
    · rintro (⟨rfl, -, starts⟩ | ⟨rest, empty, -⟩)
      · exact ⟨operation, rfl, starts, by simp⟩
      · simp at empty
  · constructor
    · rintro ⟨started, whole, starts, kept⟩
      rw [← List.cons_append, ← List.append_assoc] at whole
      obtain ⟨rfl, single⟩ := List.append_inj' whole rfl
      obtain rfl := List.singleton_inj.1 single
      refine .inr ⟨rest, rfl, ⟨started, rfl, starts, fun later member => ?_⟩, ?_⟩
      · exact kept later (List.mem_append_left _ member)
      · exact kept operation (by simp)
    · rintro (⟨-, empty, -⟩ | ⟨_, same, ⟨started, rfl, starts, kept⟩, lasts⟩)
      · simp at empty
      · obtain ⟨rfl, single⟩ := List.append_inj' same rfl
        obtain rfl := List.singleton_inj.1 single
        refine ⟨started, by simp, starts, ?_⟩
        simpa [or_imp, forall_and, lasts] using kept

lemma underway_concat (key : κ) (history : List (Operation κ)) (operation : Operation κ) :
    Underway key (history ++ [operation]) ↔
      operation.starts key = true ∨ Underway key history ∧ operation.ends key = false := by
  simp only [Underway, lasts_concat]
  constructor
  · rintro ⟨before, since, ⟨-, -, starts⟩ | ⟨rest, -, lasts, kept⟩⟩
    · exact .inl starts
    · exact .inr ⟨⟨before, rest, lasts⟩, kept⟩
  · rintro (starts | ⟨⟨before, rest, lasts⟩, kept⟩)
    · exact ⟨history, [], .inl ⟨rfl, rfl, starts⟩⟩
    · exact ⟨before, rest ++ [operation], .inr ⟨rest, rfl, lasts, kept⟩⟩

lemma since_concat {since : List (Operation κ)} :
    Since key (history ++ [operation]) since ↔
      since = [] ∧ operation.starts key = true ∧ ¬ Underway key history ∨
        ∃ rest, since = rest ++ [operation] ∧ Since key history rest ∧
          operation.ends key = false := by
  simp only [Since, lasts_concat]
  constructor
  · rintro ⟨before, ⟨rfl, rfl, starts⟩ | ⟨rest, rfl, lasts, kept⟩, fresh⟩
    · exact .inl ⟨rfl, starts, fresh⟩
    · exact .inr ⟨rest, rfl, ⟨before, lasts, fresh⟩, kept⟩
  · rintro (⟨rfl, starts, fresh⟩ | ⟨rest, rfl, ⟨before, lasts, fresh⟩, kept⟩)
    · exact ⟨history, .inl ⟨rfl, rfl, starts⟩, fresh⟩
    · exact ⟨before, .inr ⟨rest, rfl, lasts, kept⟩, fresh⟩

lemma Since.underway {since : List (Operation κ)} (h : Since key history since) :
    Underway key history := by
  obtain ⟨before, lasts, -⟩ := h
  exact ⟨before, since, lasts⟩

/-- **When an entity is open**: it was started and nothing has ended it since. -/
lemma isOpen_ofHistory (key : κ) (history : List (Operation κ)) :
    (ofHistory history).isOpen key = true ↔ Underway key history := by
  induction history using List.reverseRecOn with
  | nil => simp [Underway, Lasts, ofHistory, isOpen]
  | append_singleton history operation ih =>
    rw [ofHistory_concat, isOpen_perform, underway_concat, ← ih]
    simp

/-- What operations gather is what a reader may build. -/
lemma built_ofHistory (history : List (Operation κ)) : (ofHistory history).Built := by
  induction history using List.reverseRecOn with
  | nil => exact .empty
  | append_singleton history operation ih =>
    rw [ofHistory_concat]
    cases operation with
    | append piece => exact ih.append piece
    | appendChar c => exact ih.append [c]
    | start key kind => exact ih.start key kind
    | setKind key kind => exact ih.revise key (fun _ => rfl) fun _ => rfl
    | setLanguage key language =>
      exact ih.revise key (OpenEntity.offset_setLanguage language)
        (OpenEntity.length_setLanguage language)
    | abandon key => exact ih.abandon key
    | finish key => exact ih.finish key

lemma text_ofHistory (history : List (Operation κ)) :
    (ofHistory history).text = written history := by
  induction history using List.reverseRecOn with
  | nil => rfl
  | append_singleton history operation ih =>
    rw [ofHistory_concat, text_perform, ih, written_concat]

lemma listed_ofHistory (short : Short (written history)) : (ofHistory history).Listed :=
  (built_ofHistory history).listed (by rwa [text_ofHistory])

/-- **What a key covers**: what was written since what is open there was started. -/
lemma covered?_ofHistory (short : Short (written history)) (key : κ) (covered : Text) :
    (ofHistory history).covered? key = some covered ↔
      ∃ since, Since key history since ∧ written since = covered := by
  induction history using List.reverseRecOn generalizing covered with
  | nil => simp [Since, Lasts, ofHistory, covered?]
  | append_singleton history operation ih =>
    rw [written_concat] at short
    have short' := short.of_append
    have sound := (listed_ofHistory short.of_append).sound
    rw [← text_ofHistory] at short
    rw [ofHistory_concat, sound.covered?_perform short key]
    simp only [since_concat]
    by_cases ended : operation.ends key = true
    · have other := operation.starts_of_ends ended
      simp [ended, other]
    rw [if_neg ended]
    rw [Bool.not_eq_true] at ended
    by_cases started : operation.starts key = true ∧ ¬ Underway key history
    · -- what starts covers nothing, and nothing was open that could go on
      have first : (operation.starts key && !(ofHistory history).isOpen key) = true := by
        simpa [← isOpen_ofHistory] using started
      have fresh (rest : List (Operation κ)) : ¬ Since key history rest :=
        fun since => started.2 since.underway
      rw [if_pos first]
      simp [started, fresh, written]
    · -- what was open goes on
      have later : ¬ (operation.starts key && !(ofHistory history).isOpen key) = true := by
        simpa [← isOpen_ofHistory] using started
      rw [if_neg later, Option.map_eq_some_iff]
      simp only [ih short']
      constructor
      · rintro ⟨_, ⟨rest, since, rfl⟩, rfl⟩
        exact ⟨rest ++ [operation], .inr ⟨rest, rfl, since, ended⟩, written_concat rest operation⟩
      · rintro ⟨_, ⟨-, starts⟩ | ⟨rest, rfl, since, -⟩, rfl⟩
        · exact absurd starts started
        · exact ⟨written rest, ⟨rest, since, rfl⟩, (written_concat rest operation).symm⟩

/-! ## Keys and listed entities -/

/-- Under each key at most one entity is open. -/
lemma Built.nodup_keys (built : gathering.Built) : (gathering.started.map Prod.fst).Nodup := by
  induction built with
  | empty => exact List.nodup_nil
  | append built piece ih =>
    unfold Gathering.append
    split
    · exact ih
    · simpa [Function.comp_def] using ih
  | @start gathering built key kind ih =>
    unfold Gathering.start
    split
    · exact ih
    · rename_i free
      refine List.nodup_cons.2 ⟨fun member => free ?_, ih⟩
      obtain ⟨entry, waiting, rfl⟩ := List.mem_map.1 member
      rw [isOpen, Option.isSome_iff_ne_none]
      intro none
      exact absurd (List.lookup_eq_none_iff.1 none entry waiting) (by simp)
  | revise built key offset length ih => simpa [Gathering.revise, Function.comp_def] using ih
  | abandon built key ih => exact ih.sublist ((List.filter_sublist).map _)
  | finish built key ih =>
    unfold Gathering.finish
    split
    · exact ih
    · exact ih.sublist ((List.filter_sublist).map _)

/-- The entity an operation lists, if it is one that ends an entity and there is one. -/
def Operation.listed (gathering : Gathering κ) : Operation κ → List Entity
  | finish key => ((gathering.draft? key).map OpenEntity.close).toList
  | _ => []

lemma entities_perform (operation : Operation κ) (gathering : Gathering κ) :
    (operation.perform gathering).entities = gathering.entities ++ operation.listed gathering := by
  cases operation <;> simp [Operation.perform, Operation.listed, appendChar, entities_finish]

lemma entities_prefix (before behind : List (Operation κ)) :
    (ofHistory before).entities <+: (ofHistory (before ++ behind)).entities := by
  induction behind using List.reverseRecOn with
  | nil => simp
  | append_singleton behind operation ih =>
    rw [← List.append_assoc, ofHistory_concat, entities_perform]
    exact ih.trans (List.prefix_append _ _)

/-- An entity that is listed was open until an operation ended it, and stands in the list where
the list ended then. -/
lemma exists_finish {index : Nat} {entity : Entity}
    (listed : (ofHistory history).entities[index]? = some entity) :
    ∃ before key behind draft, history = before ++ .finish key :: behind ∧
      index = (ofHistory before).entities.length ∧ (ofHistory before).draft? key = some draft ∧
      entity = draft.close := by
  induction history using List.reverseRecOn with
  | nil => simp [ofHistory, empty] at listed
  | append_singleton history operation ih =>
    rw [ofHistory_concat, entities_perform, List.getElem?_append] at listed
    split at listed
    · obtain ⟨before, key, behind, draft, rfl, counts⟩ := ih listed
      exact ⟨before, key, behind ++ [operation], draft, by simp, counts⟩
    · rename_i new
      cases operation with
      | finish key =>
        cases isOpen : (ofHistory history).draft? key with
        | none => simp [Operation.listed, isOpen] at listed
        | some draft =>
          simp only [Operation.listed, isOpen, Option.map_some, Option.toList_some,
            List.getElem?_singleton] at listed
          split at listed
          · exact ⟨history, key, [], draft, rfl, by omega, isOpen, (Option.some.inj listed).symm⟩
          · cases listed
      | _ => simp [Operation.listed] at listed

/-! ## Exact counts -/

/-- What a history of operations gathers is what it wrote, opened and ended, all of it counted
exactly. -/
structure Exact (history : List (Operation κ)) : Prop where
  text : (ofHistory history).text = written history
  units : (ofHistory history).units = Utf16.length (ofHistory history).text
  opened : ∀ key, (ofHistory history).isOpen key = true ↔ Underway key history
  /-- What is open reaches to the end of the text. -/
  reaches : ∀ key draft, (ofHistory history).draft? key = some draft →
    draft.offset + draft.length = (ofHistory history).units
  /-- What is open starts between two characters. -/
  between : ∀ key draft, (ofHistory history).draft? key = some draft → 0 ≤ draft.offset ∧
    Utf16.Between (ofHistory history).text draft.offset.toNat
  covers : ∀ key covered, (ofHistory history).covered? key = some covered ↔
    ∃ since, Since key history since ∧ written since = covered
  alone : ((ofHistory history).started.map Prod.fst).Nodup
  /-- Entities are listed behind those that have been. -/
  grows : ∀ before behind, history = before ++ behind →
    (ofHistory before).entities <+: (ofHistory history).entities
  /-- What is listed ended at an operation that ended it, where the text did then. -/
  ends : ∀ index entity, (ofHistory history).entities[index]? = some entity →
    ∃ before key behind draft, history = before ++ .finish key :: behind ∧
      index = (ofHistory before).entities.length ∧ (ofHistory before).draft? key = some draft ∧
      entity = draft.close ∧ entity.stop = (ofHistory before).units

lemma Sound.reaches (sound : gathering.Sound) {draft : OpenEntity}
    (isOpen : gathering.draft? key = some draft) :
    draft.offset + draft.length = gathering.units := by
  obtain ⟨front, since, whole, offset, length⟩ := sound.draft key draft isOpen
  rw [sound.units, whole, offset, length, Utf16.unitCount_append]
  push_cast
  rfl

lemma Sound.between (sound : gathering.Sound) {draft : OpenEntity}
    (isOpen : gathering.draft? key = some draft) :
    0 ≤ draft.offset ∧ Utf16.Between gathering.text draft.offset.toNat := by
  obtain ⟨front, since, whole, offset, -⟩ := sound.draft key draft isOpen
  rw [whole, offset]
  exact ⟨Int.natCast_nonneg _, Utf16.between_append front since⟩

omit [DecidableEq κ] in
lemma Short.of_history {before behind : List (Operation κ)}
    (short : Short (written (before ++ behind))) : Short (written before) := by
  rw [written, List.flatMap_append] at short
  exact short.of_append

/-- **What a gathering counts is exact**, whatever was done to it and in whichever order, as long
as positions reach to the end of its text. -/
theorem ofHistory_exact (short : Short (written history)) : Exact history := by
  have sound {before behind : List (Operation κ)} (whole : history = before ++ behind) :
      (ofHistory before).Sound ∧ Short (ofHistory before).text := by
    rw [text_ofHistory]
    have early : Short (written before) := .of_history (whole ▸ short)
    exact ⟨(listed_ofHistory early).sound, early⟩
  obtain ⟨now, shortText⟩ := sound (List.append_nil history).symm
  refine ⟨text_ofHistory history, ?_, fun key => isOpen_ofHistory key history,
    fun _ _ isOpen => now.reaches isOpen, fun _ _ isOpen => now.between isOpen,
    covered?_ofHistory short, (built_ofHistory history).nodup_keys, ?_, ?_⟩
  · rw [now.units, shortText.length_eq]
  · rintro before behind rfl
    exact entities_prefix before behind
  · intro index entity listed
    obtain ⟨before, key, behind, draft, whole, place, isOpen, rfl⟩ := exists_finish listed
    refine ⟨before, key, behind, draft, whole, place, isOpen, rfl, ?_⟩
    obtain ⟨then_, shortThen⟩ := sound whole
    have reached := then_.reaches isOpen
    rw [Entity.stop, OpenEntity.close, reached, then_.units]
    exact shortThen.length_eq

/-- A link that is started twice and resolved before it ends, around bold type that is forgotten and
code that starts under the same key. -/
theorem ofHistory_exact_reopened :
    let history : List (Operation Char) := [.append "x".toList, .start 'a' (.textUrl []),
      .appendChar '😀', .start 'b' .bold, .start 'a' .italic, .append "yz".toList, .abandon 'b',
      .setKind 'a' .url, .start 'b' .code, .finish 'a', .appendChar 'w']
    Short (written history) ∧ (ofHistory history).entities = [⟨1, 4, .url⟩] ∧
      (ofHistory history).covered? 'b' = some ['w'] ∧ Exact history :=
  ⟨by decide, by decide, by decide, ofHistory_exact (by decide)⟩

end Gathering

end RichText
