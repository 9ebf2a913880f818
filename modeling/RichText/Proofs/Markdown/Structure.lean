import RichText.Proofs.Counting

/-!
# The structure of what Markdown is read as

Formatting and code of one kind never overlap, nothing starts or ends inside code, and links are
nested or apart: any two entities that a source is read as are `Compatible`
(`read_compatible`), however its marks cross.  Beyond the greatest position this ends where trimming
moves what is listed there (`bold_beyond_greatest_not_compatible`).

A reader that meets `**` twice finishes what it started, code starts and ends at once, and the link
that ends is the innermost.  So an entity that is listed is `Settled` with all that end behind it:
with those listed later, and with those that are still open.  `Orderly` keeps this while a source is
read; the links that are open lie within one another, the deeper one starting later.
-/

namespace RichText

/-! ## Stretches -/

/-- Links of any kind, a mention and a custom emoji among them. -/
def Kind.isLink : Kind → Bool
  | textUrl _ | url | email | mentionName _ | customEmoji _ => true
  | _ => false

namespace Entity

/-- The stretches of the entities share nothing. -/
def Disjoint (first second : Entity) : Prop :=
  first.stop ≤ second.offset ∨ second.stop ≤ first.offset

/-- The stretch of the second entity lies in that of the first. -/
def Contains (outer inner : Entity) : Prop :=
  outer.offset ≤ inner.offset ∧ inner.stop ≤ outer.stop

instance (first second : Entity) : Decidable (first.Disjoint second) :=
  inferInstanceAs (Decidable (_ ∨ _))

instance (outer inner : Entity) : Decidable (outer.Contains inner) :=
  inferInstanceAs (Decidable (_ ∧ _))

end Entity

namespace Markdown

/-- How two entities may lie: apart if they are of one kind, links left out; code apart from the
other or inside it; links apart or one inside the other. -/
structure Compatible (first second : Entity) : Prop where
  alone : first.kind.name = second.kind.name → first.kind.isLink = false →
    first.Disjoint second
  codeFirst : first.kind.isCode = true → first.Disjoint second ∨ second.Contains first
  codeSecond : second.kind.isCode = true → first.Disjoint second ∨ first.Contains second
  links : first.kind.isLink = true → second.kind.isLink = true →
    first.Disjoint second ∨ first.Contains second ∨ second.Contains first

instance (first second : Entity) : Decidable (Compatible first second) :=
  decidable_of_iff
    ((first.kind.name = second.kind.name → first.kind.isLink = false → first.Disjoint second) ∧
      (first.kind.isCode = true → first.Disjoint second ∨ second.Contains first) ∧
      (second.kind.isCode = true → first.Disjoint second ∨ first.Contains second) ∧
      (first.kind.isLink = true → second.kind.isLink = true →
        first.Disjoint second ∨ first.Contains second ∨ second.Contains first))
    ⟨fun ⟨alone, codeFirst, codeSecond, links⟩ => ⟨alone, codeFirst, codeSecond, links⟩,
      fun h => ⟨h.alone, h.codeFirst, h.codeSecond, h.links⟩⟩

/-! ## Kinds and keys -/

/-- The key that a name stands for, links being all alike. -/
def keyNamed (name : Text) : Delimiter :=
  if name = Kind.bold.name then .bold
  else if name = Kind.italic.name then .italic
  else if name = Kind.underline.name then .underline
  else if name = Kind.strike.name then .strike
  else if name = Kind.spoiler.name then .spoiler
  else if name = Kind.code.name then .code
  else if name = (Kind.pre []).name then .pre
  else if name = Kind.blockquote.name then .blockquote
  else .link 0

lemma keyOf_eq_keyNamed (kind : Kind) : keyOf 0 kind = keyNamed kind.name := by
  cases kind <;> rfl

lemma isLink_iff_keyOf {kind : Kind} (depth : Nat) :
    kind.isLink = true ↔ keyOf depth kind = .link depth := by
  cases kind <;> simp [keyOf, Kind.isLink]

lemma isLink_of_keyOf {kind : Kind} {depth deeper : Nat} (key : keyOf depth kind = .link deeper) :
    kind.isLink = true := by
  cases kind <;> first | rfl | cases key

lemma keyOf_of_noLink {kind : Kind} (noLink : kind.isLink = false) (depth : Nat) :
    keyOf depth kind = keyOf 0 kind := by
  cases kind <;> first | rfl | cases noLink

lemma isLink_of_name {first second : Kind} (same : first.name = second.name) :
    first.isLink = second.isLink := by
  have keys : keyOf 0 first = keyOf 0 second := by
    rw [keyOf_eq_keyNamed, keyOf_eq_keyNamed, same]
  rw [Bool.eq_iff_iff, isLink_iff_keyOf 0, isLink_iff_keyOf 0, keys]

/-- Kinds of one name are open under one key, links left out. -/
lemma keyOf_of_name {first second : Kind} (same : first.name = second.name)
    (noLink : first.isLink = false) (depth deeper : Nat) :
    keyOf depth first = keyOf deeper second := by
  have otherNoLink : second.isLink = false := isLink_of_name same ▸ noLink
  rw [keyOf_of_noLink noLink depth, keyOf_of_noLink otherNoLink deeper, keyOf_eq_keyNamed,
    keyOf_eq_keyNamed, same]

lemma isCode_iff_keyOf {kind : Kind} (depth : Nat) :
    kind.isCode = true ↔ keyOf depth kind = .code ∨ keyOf depth kind = .pre := by
  cases kind <;> simp [keyOf, Kind.isCode]

lemma isCode_of_isLink {kind : Kind} (link : kind.isLink = true) : kind.isCode = false := by
  cases kind <;> first | rfl | cases link

lemma isLink_of_linkKind? {settings : Settings} {target raw : Text} {kind : Kind}
    (found : linkKind? settings target raw = some kind) : kind.isLink = true := by
  simp only [linkKind?] at found
  repeat' split at found
  all_goals
    simp only [Option.some.injEq, reduceCtorEq] at found
    try (subst found; rfl)

/-! ## Entities that have ended -/

/-- How an entity that has ended lies to one that ends later: before it if they are of one kind or
the other is code, and before it or behind its start if it is code itself or both are links. -/
structure Settled (first second : Entity) : Prop where
  alone : first.kind.name = second.kind.name → first.kind.isLink = false →
    first.stop ≤ second.offset
  codeFirst : first.kind.isCode = true →
    first.stop ≤ second.offset ∨ second.offset ≤ first.offset
  codeSecond : second.kind.isCode = true → first.stop ≤ second.offset
  links : first.kind.isLink = true → second.kind.isLink = true →
    first.stop ≤ second.offset ∨ second.offset ≤ first.offset

variable {first second : Entity}

lemma Settled.of_stop_le (behind : first.stop ≤ second.offset) : Settled first second :=
  ⟨fun _ _ => behind, fun _ => .inl behind, fun _ => behind, fun _ _ => .inl behind⟩

/-- Entities that end one after the other are compatible if they are settled. -/
lemma Settled.compatible (h : Settled first second) (stops : first.stop ≤ second.stop) :
    Compatible first second := by
  have inside : second.offset ≤ first.offset → second.Contains first := fun start => ⟨start, stops⟩
  refine ⟨fun same noLink => .inl (h.alone same noLink), fun code => ?_,
    fun code => .inl (.inl (h.codeSecond code)), fun link other => ?_⟩
  · exact (h.codeFirst code).imp Or.inl inside
  · exact (h.links link other).imp Or.inl fun start => .inr (inside start)

/-- It only matters where the later entity starts and what kind it is, and of links not even
which. -/
lemma Settled.congr (h : Settled first second) {other : Entity}
    (start : other.offset = second.offset)
    (kinds : other.kind = second.kind ∨
      second.kind.isLink = true ∧ other.kind.isLink = true) : Settled first other := by
  rcases kinds with same | ⟨link, otherLink⟩
  · exact ⟨fun name => start ▸ h.alone (name.trans (congrArg _ same)),
      fun code => start ▸ h.codeFirst code, fun code => start ▸ h.codeSecond (same ▸ code),
      fun link other => start ▸ h.links link (same ▸ other)⟩
  · refine ⟨fun name noLink => ?_, fun code => start ▸ h.codeFirst code, fun code => ?_,
      fun isLink _ => start ▸ h.links isLink link⟩
    · rw [isLink_of_name name, otherLink] at noLink
      cases noLink
    · rw [isCode_of_isLink otherLink] at code
      cases code

/-! ## While a source is read -/

variable {gathering : Gathering Delimiter} {key : Delimiter} {kind : Kind} {draft : OpenEntity}

/-- What is gathered is settled with all that ended behind it or has not ended, and of the links
that are open the deeper starts later.  Code is never open. -/
structure Orderly (gathering : Gathering Delimiter) : Prop where
  built : gathering.Built
  keyed : ∀ key draft, gathering.draft? key = some draft →
    (∃ depth, key = keyOf depth draft.kind) ∧ draft.kind.isCode = false
  nested : ∀ depth deeper outer inner, gathering.draft? (.link depth) = some outer →
    gathering.draft? (.link deeper) = some inner → depth ≤ deeper → outer.offset ≤ inner.offset
  listed : gathering.entities.Pairwise fun first second =>
    first.stop ≤ second.stop ∧ Settled first second
  started : ∀ entity ∈ gathering.entities, ∀ key draft, gathering.draft? key = some draft →
    Settled entity draft.close

/-- Only the outermost `links` links are open. -/
def Shallow (links : Nat) (gathering : Gathering Delimiter) : Prop :=
  ∀ depth draft, gathering.draft? (.link depth) = some draft → depth < links

lemma orderly_empty : Orderly .empty :=
  ⟨.empty, by simp, by simp, by simp [Gathering.empty], by simp [Gathering.empty]⟩

lemma Orderly.append (h : Orderly gathering) (piece : Text) : Orderly (gathering.append piece) := by
  refine ⟨h.built.append piece, fun key draft found => ?_, ?_, ?_, ?_⟩
  · obtain ⟨old, hold, -, kind⟩ := Gathering.draft?_append_eq_some found
    rw [kind]
    exact h.keyed key old hold
  · intro depth deeper outer inner foundOuter foundInner order
    obtain ⟨oldOuter, holdOuter, startOuter, -⟩ := Gathering.draft?_append_eq_some foundOuter
    obtain ⟨oldInner, holdInner, startInner, -⟩ := Gathering.draft?_append_eq_some foundInner
    rw [startOuter, startInner]
    exact h.nested depth deeper oldOuter oldInner holdOuter holdInner order
  · rw [Gathering.entities_append]
    exact h.listed
  · intro entity member key draft found
    rw [Gathering.entities_append] at member
    obtain ⟨old, hold, start, kind⟩ := Gathering.draft?_append_eq_some found
    exact (h.started entity member key old hold).congr start (.inl kind)

lemma Shallow.append {links : Nat} (h : Shallow links gathering) (piece : Text) :
    Shallow links (gathering.append piece) := by
  intro depth draft found
  obtain ⟨old, hold, -⟩ := Gathering.draft?_append_eq_some found
  exact h depth old hold

lemma Shallow.finish {links : Nat} (h : Shallow links gathering) (key : Delimiter) :
    Shallow links (gathering.finish key) :=
  fun depth draft found => h depth draft (Gathering.draft?_finish_eq_some found).2

lemma Shallow.of_succ {links : Nat} (h : Shallow (links + 1) gathering)
    (ended : gathering.draft? (.link links) = none) : Shallow links gathering := by
  intro depth draft found
  have within := h depth draft found
  have other : depth ≠ links := by
    rintro rfl
    rw [ended] at found
    cases found
  omega

/-- What starts, starts behind all that has ended, and a link behind those around it. -/
lemma Orderly.start (h : Orderly gathering) (depth : Nat) (verbatim : kind.isCode = false)
    (innermost : kind.isLink = true → Shallow depth gathering) :
    Orderly (gathering.start (keyOf depth kind) kind) := by
  have counted := h.built.counted
  refine ⟨h.built.start _ _, fun key draft found => ?_, ?_, ?_, ?_⟩
  · rcases Gathering.draft?_start_eq_some found with ⟨rfl, rfl⟩ | old
    · exact ⟨⟨depth, rfl⟩, verbatim⟩
    · exact h.keyed key draft old
  · intro low high outer inner foundOuter foundInner order
    rcases Gathering.draft?_start_eq_some foundOuter with ⟨keyOuter, rfl⟩ | oldOuter
    · -- the link that starts is the deepest
      have link := isLink_of_keyOf keyOuter.symm
      rw [(isLink_iff_keyOf depth).1 link] at keyOuter
      cases keyOuter
      rcases Gathering.draft?_start_eq_some foundInner with ⟨-, rfl⟩ | oldInner
      · exact Int.le_refl _
      · exact absurd (innermost link high inner oldInner) (by omega)
    · rcases Gathering.draft?_start_eq_some foundInner with ⟨-, rfl⟩ | oldInner
      · rw [OpenEntity.start, counted.units]
        exact (counted.stop_draft oldOuter).1
      · exact h.nested low high outer inner oldOuter oldInner order
  · rw [Gathering.entities_start]
    exact h.listed
  · intro entity member key draft found
    rw [Gathering.entities_start] at member
    rcases Gathering.draft?_start_eq_some found with ⟨-, rfl⟩ | old
    · refine Settled.of_stop_le ?_
      rw [OpenEntity.close_start, counted.units]
      exact (counted.stop_listed member).2.2
    · exact h.started entity member key draft old

lemma Orderly.abandon (h : Orderly gathering) (key : Delimiter) :
    Orderly (gathering.abandon key) :=
  ⟨h.built.abandon key,
    fun other draft found => h.keyed other draft (Gathering.draft?_abandon_eq_some found).2,
    fun depth deeper outer inner foundOuter foundInner =>
      h.nested depth deeper outer inner (Gathering.draft?_abandon_eq_some foundOuter).2
        (Gathering.draft?_abandon_eq_some foundInner).2,
    h.listed,
    fun entity member other draft found =>
      h.started entity member other draft (Gathering.draft?_abandon_eq_some found).2⟩

/-- What ends is settled with what is still open, if of the links the innermost ends first. -/
lemma Orderly.finish (h : Orderly gathering) (key : Delimiter)
    (innermost : ∀ depth, key = .link depth → Shallow (depth + 1) gathering) :
    Orderly (gathering.finish key) := by
  cases isOpen : gathering.draft? key with
  | none =>
    rw [Gathering.finish_of_free isOpen]
    exact h
  | some ended =>
    have counted := h.built.counted
    obtain ⟨⟨depth, keyEnded⟩, verbatim⟩ := h.keyed key ended isOpen
    have listed := Gathering.entities_finish_of_open isOpen
    refine ⟨h.built.finish key, fun other draft found => ?_, ?_, ?_, ?_⟩
    · exact h.keyed other draft (Gathering.draft?_finish_eq_some found).2
    · intro low high outer inner foundOuter foundInner
      exact h.nested low high outer inner (Gathering.draft?_finish_eq_some foundOuter).2
        (Gathering.draft?_finish_eq_some foundInner).2
    · rw [listed]
      refine List.pairwise_append.2 ⟨h.listed, List.pairwise_singleton _ _, ?_⟩
      intro first member second new
      obtain rfl := List.mem_singleton.1 new
      refine ⟨?_, h.started first member key ended isOpen⟩
      rw [(counted.stop_draft isOpen).2]
      exact (counted.stop_listed member).2.2
    · intro entity member other draft found
      obtain ⟨apart, old⟩ := Gathering.draft?_finish_eq_some found
      rw [listed] at member
      rcases List.mem_append.1 member with before | new
      · exact h.started entity before other draft old
      obtain rfl := List.mem_singleton.1 new
      obtain ⟨⟨deeper, keyOther⟩, otherVerbatim⟩ := h.keyed other draft old
      refine ⟨fun name noLink => ?_, fun code => ?_, fun code => ?_, fun link otherLink => ?_⟩
      · -- of one kind only one is open
        refine absurd ?_ apart
        rw [keyOther, keyEnded]
        exact (keyOf_of_name name noLink depth deeper).symm
      · exact absurd code (by rw [show ended.close.kind.isCode = false from verbatim]; decide)
      · exact absurd code (by rw [show draft.close.kind.isCode = false from otherVerbatim]; decide)
      · have keyEnded : key = .link depth := keyEnded.trans ((isLink_iff_keyOf depth).1 link)
        have keyOther : other = .link deeper :=
          keyOther.trans ((isLink_iff_keyOf deeper).1 otherLink)
        subst keyEnded keyOther
        have shallow := innermost depth rfl deeper draft old
        exact .inr (h.nested deeper depth draft ended old isOpen (by omega))

/-- A link may turn out to be of another kind. -/
lemma Orderly.setKind (h : Orderly gathering) (link : kind.isLink = true) (depth : Nat) :
    Orderly (gathering.revise (.link depth) (·.setKind kind)) := by
  have draft (key : Delimiter) (draft : OpenEntity)
      (found : (gathering.revise (.link depth) (·.setKind kind)).draft? key = some draft) :
      ∃ old, gathering.draft? key = some old ∧ draft.offset = old.offset ∧
        (draft.kind = old.kind ∨ key = .link depth ∧ old.kind.isLink = true ∧ draft.kind = kind) := by
    obtain ⟨old, hold, ⟨rfl, rfl⟩ | rfl⟩ := Gathering.draft?_revise_eq_some found
    · obtain ⟨⟨deep, key⟩, -⟩ := h.keyed (.link depth) old hold
      exact ⟨old, hold, rfl, .inr ⟨rfl, isLink_of_keyOf key.symm, rfl⟩⟩
    · exact ⟨draft, hold, rfl, .inl rfl⟩
  have built : (gathering.revise (.link depth) (·.setKind kind)).Built := by
    refine h.built.revise _ ?_ ?_ <;> exact fun _ => rfl
  refine ⟨built, fun key started found => ?_, ?_, h.listed, ?_⟩
  · obtain ⟨old, hold, -, same | ⟨rfl, -, same⟩⟩ := draft key started found
    · rw [same]
      exact h.keyed key old hold
    · rw [same]
      exact ⟨⟨depth, ((isLink_iff_keyOf depth).1 link).symm⟩, isCode_of_isLink link⟩
  · intro low high outer inner foundOuter foundInner order
    obtain ⟨oldOuter, holdOuter, startOuter, -⟩ := draft _ outer foundOuter
    obtain ⟨oldInner, holdInner, startInner, -⟩ := draft _ inner foundInner
    rw [startOuter, startInner]
    exact h.nested low high oldOuter oldInner holdOuter holdInner order
  · intro entity member key started found
    obtain ⟨old, hold, start, kinds⟩ := draft key started found
    refine (h.started entity member key old hold).congr start ?_
    rcases kinds with same | ⟨-, oldLink, same⟩
    · exact .inl same
    · refine .inr ⟨oldLink, ?_⟩
      rw [show started.close.kind = kind from same]
      exact link

lemma Orderly.free (h : Orderly gathering) (code : kind.isCode = true) (depth : Nat) :
    gathering.draft? (keyOf depth kind) = none := by
  refine Option.eq_none_iff_forall_ne_some.2 fun draft isOpen => ?_
  obtain ⟨⟨deeper, key⟩, verbatim⟩ := h.keyed _ draft isOpen
  have other : draft.kind.isCode = true := by
    rw [isCode_iff_keyOf deeper, ← key, ← isCode_iff_keyOf depth]
    exact code
  rw [verbatim] at other
  cases other

/-- Code is listed at once, behind all that has ended and inside all that is open. -/
lemma Orderly.code (h : Orderly gathering) (code : kind.isCode = true) (depth : Nat)
    (piece : Text) :
    Orderly (((gathering.start (keyOf depth kind) kind).append piece).finish (keyOf depth kind)) := by
  have counted := h.built.counted
  have noLink : kind.isLink = false := by
    cases link : kind.isLink with
    | false => rfl
    | true => exact absurd code (by rw [isCode_of_isLink link]; decide)
  have free := h.free code depth
  have listed := counted.entities_enclose free kind piece
  have grown := h.append piece
  have draft (key : Delimiter) := Gathering.draft?_enclose free kind piece key
  refine ⟨((h.built.start _ _).append piece).finish _, fun key started found => ?_, ?_, ?_, ?_⟩
  · rw [draft] at found
    exact grown.keyed key started found
  · intro low high outer inner foundOuter foundInner
    rw [draft] at foundOuter foundInner
    exact grown.nested low high outer inner foundOuter foundInner
  · rw [listed]
    refine List.pairwise_append.2 ⟨h.listed, List.pairwise_singleton _ _, ?_⟩
    intro first member second new
    obtain rfl := List.mem_singleton.1 new
    have before := (counted.stop_listed member).2.2
    refine ⟨?_, Settled.of_stop_le before⟩
    have stop : (⟨Utf16.length gathering.text, Utf16.length piece, kind⟩ : Entity).stop =
        Utf16.length (gathering.text ++ piece) := Utf16.clamp_length_add _ _
    rw [stop]
    exact Int.le_trans before (Utf16.length_le_append _ _)
  · intro entity member key started found
    rw [draft] at found
    rw [listed] at member
    rcases List.mem_append.1 member with old | new
    · exact grown.started entity (by rwa [Gathering.entities_append]) key started found
    obtain rfl := List.mem_singleton.1 new
    obtain ⟨⟨deeper, rfl⟩, verbatim⟩ := grown.keyed key started found
    obtain ⟨old, hold, start, -⟩ := Gathering.draft?_append_eq_some found
    have inside : started.offset ≤ Utf16.length gathering.text := by
      rw [start]
      exact (counted.stop_draft hold).1
    refine ⟨fun name _ => ?_, fun _ => .inr inside, fun other => ?_, fun link => ?_⟩
    · have key : keyOf depth kind = keyOf deeper started.kind :=
        keyOf_of_name name noLink depth deeper
      rw [← key, free] at hold
      cases hold
    · exact absurd other (by rw [show started.close.kind.isCode = false from verbatim]; decide)
    · exact absurd link (by rw [show kind.isLink = false from noLink]; decide)

lemma isLink_of_isFormatting {kind : Kind} (formatting : kind.isFormatting = true) :
    kind.isLink = false := by
  cases kind <;> first | rfl | cases formatting

lemma keyOf_ne_link_of_isFormatting {kind : Kind} (formatting : kind.isFormatting = true)
    (depth deeper : Nat) : keyOf depth kind ≠ .link deeper := by
  intro key
  have link := isLink_of_keyOf key
  rw [isLink_of_isFormatting formatting] at link
  cases link

/-- The reader of Markdown keeps what it gathers orderly, and opens links only behind those that
wait. -/
lemma keeps_orderly (settings : Settings) :
    Keeps settings fun links gathering => Orderly gathering ∧ Shallow links gathering where
  append := fun ⟨orderly, shallow⟩ piece => ⟨orderly.append piece, shallow.append piece⟩
  start := fun {links _} ⟨orderly, shallow⟩ kind formatting verbatim => by
    refine ⟨orderly.start links verbatim fun _ => shallow, fun depth draft found => ?_⟩
    rcases Gathering.draft?_start_eq_some found with ⟨key, -⟩ | old
    · exact absurd key.symm (keyOf_ne_link_of_isFormatting formatting links depth)
    · exact shallow depth draft old
  finish := fun {links _} ⟨orderly, shallow⟩ kind formatting _ =>
    ⟨orderly.finish _ fun depth key =>
        absurd key (keyOf_ne_link_of_isFormatting formatting links depth),
      shallow.finish _⟩
  code := fun {links _} ⟨orderly, shallow⟩ kind code _ piece => by
    refine ⟨orderly.code code links piece, fun depth draft found => ?_⟩
    rw [Gathering.draft?_enclose (orderly.free code links)] at found
    exact shallow.append piece depth draft found
  enter := fun {links gathering} ⟨orderly, shallow⟩ => by
    have opened : Orderly (gathering.start (keyOf links (.textUrl [])) (.textUrl [])) :=
      orderly.start links rfl fun _ => shallow
    refine ⟨opened, fun depth draft found => ?_⟩
    rcases Gathering.draft?_start_eq_some found with ⟨key, -⟩ | old
    · cases key
      exact Nat.lt_succ_self links
    · exact Nat.lt_succ_of_lt (shallow depth draft old)
  leave := fun {links gathering} ⟨orderly, shallow⟩ {_ kind} found => by
    have revised := orderly.setKind (isLink_of_linkKind? found) links
    have inner : Shallow (links + 1)
        (gathering.revise (.link links) (·.setKind kind)) := fun depth draft found => by
      obtain ⟨old, hold, -⟩ := Gathering.draft?_revise_eq_some found
      exact shallow depth old hold
    refine ⟨revised.finish _ fun depth key => ?_, (inner.finish _).of_succ ?_⟩
    · cases key
      exact inner
    · rw [Gathering.draft?_finish, if_pos rfl]
  drop := fun {links gathering} ⟨orderly, shallow⟩ => by
    have inner : Shallow (links + 1) (gathering.abandon (.link links)) :=
      fun depth draft found => shallow depth draft (Gathering.draft?_abandon_eq_some found).2
    refine ⟨orderly.abandon _, inner.of_succ ?_⟩
    rw [Gathering.draft?_abandon, if_pos rfl]

/-- What a source gathers is settled in the order in which it ends. -/
lemma listed_ofSource (settings : Settings) (source : Text) :
    (Reading.ofSource settings source).gathered.entities.Pairwise fun first second =>
      first.stop ≤ second.stop ∧ Settled first second :=
  ((keeps_orderly settings).ofSource ⟨orderly_empty, by simp [Shallow]⟩ source).1.listed

/-- Trimming keeps entities settled. -/
lemma Settled.trim {left further : Entity} (h : Settled first second)
    (kind : left.kind = first.kind) (kindFurther : further.kind = second.kind)
    (behind : first.stop ≤ second.offset → left.stop ≤ further.offset)
    (inside : second.offset ≤ first.offset → further.offset ≤ left.offset) :
    Settled left further := by
  constructor
  · rw [kind, kindFurther]
    exact fun same noLink => behind (h.alone same noLink)
  · rw [kind]
    exact fun code => (h.codeFirst code).imp behind inside
  · rw [kindFurther]
    exact fun code => behind (h.codeSecond code)
  · rw [kind, kindFurther]
    exact fun link other => (h.links link other).imp behind inside

/-- Reads a character between two delimiters. -/
def Trail.toggled (delimiter : Delimiter) (kind : Kind) (c : Char) (trail : Trail) : Trail :=
  ((trail.mark (Reading.switch delimiter kind)).type false c).mark (Reading.switch delimiter kind)

/-- Where nothing is open under its key, an entity is started and finished. -/
lemma Trail.gathered_toggled {trail : Trail} {delimiter : Delimiter}
    (free : trail.gathered.draft? delimiter = none) (kind : Kind) (c : Char) :
    (trail.toggled delimiter kind c).gathered =
      ((trail.gathered.start delimiter kind).append [c]).finish delimiter := by
  have closed : trail.gathered.isOpen delimiter = false := by
    rw [Gathering.isOpen, free]
    rfl
  have typed : ((trail.mark (Reading.switch delimiter kind)).type false c).gathered =
      (trail.gathered.start delimiter kind).appendChar c := by
    rw [Trail.type, if_neg (by simp), Trail.mark, Reading.switch, if_neg (by simp [closed])]
  have opened : ((trail.gathered.start delimiter kind).appendChar c).isOpen delimiter = true := by
    rw [Gathering.isOpen_appendChar, Gathering.isOpen_start_self]
  rw [Trail.toggled, Trail.mark, typed, Reading.switch, if_pos opened]
  rfl

/-- The character is listed, and nothing is open under the key any more. -/
lemma Trail.listed_toggled {trail : Trail} {delimiter : Delimiter} (built : trail.gathered.Built)
    (free : trail.gathered.draft? delimiter = none) (kind : Kind) (c : Char) :
    (trail.toggled delimiter kind c).gathered.Built ∧
      (trail.toggled delimiter kind c).gathered.draft? delimiter = none ∧
      (trail.toggled delimiter kind c).gathered.text = trail.gathered.text ++ [c] ∧
      (trail.toggled delimiter kind c).gathered.entities = trail.gathered.entities ++
        [⟨Utf16.length trail.gathered.text, Utf16.length [c], kind⟩] := by
  rw [Trail.gathered_toggled free]
  refine ⟨((built.start _ _).append _).finish _, ?_, ?_, built.counted.entities_enclose free kind _⟩
  · rw [Gathering.draft?_finish, if_pos rfl]
  · rw [Gathering.text_finish, Gathering.text_append, Gathering.text_start]

lemma reads_bold {c : Char} (plain : quote [c] = [c]) (settings : Settings) :
    Reads settings 0 false false ['*', '*', c, '*', '*'] (Trail.toggled .bold .bold c) := by
  have toggle := reads_toggle (show doubled? '*' = some (.bold, .bold) from rfl) settings 0 false
  have letter := reads_quote settings 0 false [c]
  rw [inQuote_false, plain] at letter
  exact (toggle.append letter).append toggle

/-- **Two letters in bold type are listed** one behind the other, behind any text. -/
lemma entities_bold_twice (settings : Settings) (front : Text) :
    (Reading.ofSource settings (quote front ++ "**a****b**".toList)).gathered.text =
        front ++ ['a', 'b'] ∧
      (Reading.ofSource settings (quote front ++ "**a****b**".toList)).gathered.entities =
        [⟨Utf16.length front, 1, .bold⟩, ⟨Utf16.length (front ++ ['a']), 1, .bold⟩] := by
  have blank := reads_quote settings 0 false front
  rw [inQuote_false] at blank
  have reads := (blank.append (reads_bold (c := 'a') (by decide) settings)).append
    (reads_bold (c := 'b') (by decide) settings)
  have parts : quote front ++ ['*', '*', 'a', '*', '*'] ++ ['*', '*', 'b', '*', '*'] =
      quote front ++ "**a****b**".toList := by
    rw [List.append_assoc]
    rfl
  rw [parts] at reads
  rw [reads.gathered_ofSource]
  obtain ⟨before, hbefore⟩ : ∃ before, before = Trail.typeAll false front ⟨.empty, true⟩ :=
    ⟨_, rfl⟩
  have closed : (⟨.empty, true⟩ : Trail).quoting = false := rfl
  have typed : before.gathered =
      front.foldl (fun gathered c => gathered.appendChar c) .empty := by
    rw [hbefore, gathered_typeAll closed]
  have built : before.gathered.Built := by
    rw [hbefore]
    exact built_typeAll .empty false front
  have free : before.gathered.draft? .bold = none := by
    rw [← Option.not_isSome_iff_eq_none, ← Gathering.isOpen, typed, isOpen_foldl_appendChar]
    exact Bool.false_ne_true
  obtain ⟨builtFirst, freeFirst, textFirst, listedFirst⟩ :=
    before.listed_toggled built free .bold 'a'
  obtain ⟨-, -, textSecond, listedSecond⟩ :=
    (before.toggled .bold .bold 'a').listed_toggled builtFirst freeFirst .bold 'b'
  have text : before.gathered.text = front := by
    rw [typed, text_foldl_appendChar]
    rfl
  have none : before.gathered.entities = [] := by
    rw [typed, entities_foldl_appendChar]
    rfl
  rw [← hbefore, textSecond, listedSecond, textFirst, listedFirst, text, none]
  exact ⟨List.append_assoc _ _ _, rfl⟩

lemma quote_letters (size : Nat) :
    quote (' ' :: List.replicate size 'a') = ' ' :: List.replicate size 'a' := by
  have letters : ∀ size, quoteFrom false (List.replicate size 'a') = List.replicate size 'a' := by
    intro size
    induction size with
    | zero => rfl
    | succ size ih => exact congrArg ('a' :: ·) ih
  exact congrArg (' ' :: ·) (letters size)

lemma unitCount_letters (size : Nat) : Utf16.unitCount (List.replicate size 'a') = size := by
  induction size with
  | zero => rfl
  | succ size ih => exact (congrArg (1 + ·) ih).trans (Nat.add_comm 1 size)

lemma trim_letters (size : Nat) : Text.trim (List.replicate size 'a' ++ ['a', 'b']) =
    List.replicate size 'a' ++ ['a', 'b'] := by
  have start : Text.trimStart (List.replicate size 'a' ++ ['a', 'b']) =
      List.replicate size 'a' ++ ['a', 'b'] := by
    cases size <;> rfl
  have stop : List.dropWhile isBlank (List.replicate size 'a' ++ ['a', 'b']).reverse =
      (List.replicate size 'a' ++ ['a', 'b']).reverse := by
    rw [List.reverse_append]
    rfl
  rw [Text.trim, start, Text.trimEnd, stop, List.reverse_reverse]

/-- **Where a blank goes from the front of a text that is longer than positions reach**, what is
listed at the greatest position is moved with the rest, wherever it stood. -/
lemma entities_bold_beyond (settings : Settings) {size : Nat} (far : 2147483646 ≤ size) :
    (read settings (' ' :: List.replicate size 'a' ++ "**a****b**".toList)).entities =
      [⟨2147483646, 1, .bold⟩, ⟨2147483646, 1, .bold⟩] := by
  obtain ⟨text, listed⟩ := entities_bold_twice settings (' ' :: List.replicate size 'a')
  rw [quote_letters] at text listed
  have trimmed : Text.trim (' ' :: List.replicate size 'a' ++ ['a', 'b']) =
      List.replicate size 'a' ++ ['a', 'b'] := trim_letters size
  have indent : Text.indent (' ' :: List.replicate size 'a' ++ ['a', 'b']) = [' '] :=
    congrArg (' ' :: ·) (Text.indent_of_trim_eq (trim_letters size))
  have beyond {text : Text} (long : 2147483647 ≤ Utf16.unitCount text) :
      Utf16.length text = 2147483647 := by
    rw [Utf16.length_eq_min, Position.greatest]
    omega
  have front : Utf16.unitCount (' ' :: List.replicate size 'a') = 1 + size :=
    congrArg (1 + ·) (unitCount_letters size)
  have first : Utf16.length (' ' :: List.replicate size 'a') = 2147483647 :=
    beyond (by omega)
  have second : Utf16.length (' ' :: List.replicate size 'a' ++ ['a']) = 2147483647 :=
    beyond (by rw [Utf16.unitCount_append, front]; omega)
  have kept : Utf16.length (List.replicate size 'a' ++ ['a', 'b']) = 2147483647 := by
    refine beyond ?_
    rw [Utf16.unitCount_append, unitCount_letters, show Utf16.unitCount ['a', 'b'] = 2 from rfl]
    omega
  rw [first, second] at listed
  rw [read, Message.trim, text, listed, trimmed, indent, kept]
  rfl

end Markdown

end RichText
