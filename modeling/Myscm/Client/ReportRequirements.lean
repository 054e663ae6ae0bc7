import Mathlib.Data.List.Forall2
import Myscm.Client.ReportMeaning
import Myscm.Server.ImageReports

/-!
Owns what the client makes of the header of a report: the requirements on the
local system.

Owns: the value a comment holds for a name; which lines of a header are
requirements and when a system meets them; the meaning of a header.

Does not own: the entries below the header.
-/

namespace Myscm.Client

open Myscm.Library Myscm.Server SystemImageGenerator

/-! ## Values of comments -/

/-- The comment gives the value to the name. -/
def NamesValue (comment name value : Str) : Prop :=
  ∃ front pad, Str.Blank front ∧ Str.Blank pad ∧
    comment = '#' :: (front ++ (name ++ (pad ++ ':' :: value)))

/-- A name that starts with a character of its own. -/
def Solid (name : Str) : Prop := ∃ c rest, name = c :: rest ∧ Str.isSpace c = false

theorem Solid.head {name : Str} (solid : Solid name) (rest : Str) :
    ∀ c ∈ (name ++ rest).head?, Str.isSpace c = false := by
  obtain ⟨c, later, rfl, notSpace⟩ := solid
  simpa using notSpace

/-- What `_get_value_from_comment` matches from the name on. -/
def namedRegex (name : Str) : Regex :=
  Regex.chars (name.map fun c d => decide (d = c)) <|
    .seq (.many 0 Str.isSpace) <| .seq (.one (· = ':')) <| .seq (.many 0 Str.isSpace) <|
      .seq (.group (.many 0 (· ≠ '\n'))) (.many 0 Str.isSpace)

theorem ways_namedRegex_of_not_prefix {name s : Str} (differs : ¬ name <+: s) :
    (namedRegex name).ways s = [] :=
  Regex.ways_chars_of_not_prefix _ differs

theorem ways_namedRegex_append (name s : Str) :
    (namedRegex name).ways (name ++ s) =
      (Regex.seq (.many 0 Str.isSpace) <| .seq (.one (· = ':')) <| .seq (.many 0 Str.isSpace) <|
        .seq (.group (.many 0 (· ≠ '\n'))) (.many 0 Str.isSpace)).ways s := by
  apply Regex.ways_chars_append
  rw [List.forall₂_map_left_iff, List.forall₂_same]
  simp

/-- A comment is matched from its first solid character on. -/
theorem getValueFromComment_eq {name front text : Str} (solid : Solid name)
    (frontBlank : Str.Blank front) (textSolid : ∀ c ∈ text.head?, Str.isSpace c = false) :
    getValueFromComment name ('#' :: (front ++ text)) =
      ((namedRegex name).fullmatch text).bind List.head? := by
  have hash : ∀ c ∈ ('#' :: (front ++ text)).head?, Str.isSpace c = false := by
    intro c first
    rw [List.head?_cons, Option.mem_some_iff] at first
    rw [← first]
    decide
  have blocked (c : Char) (later : Str) (space : Str.isSpace c = true) :
      (namedRegex name).ways (c :: later) = [] := by
    apply ways_namedRegex_of_not_prefix
    obtain ⟨d, rest, rfl, notSpace⟩ := solid
    rintro ⟨tail, whole⟩
    rw [List.cons_append] at whole
    rw [(List.cons.inj whole).1, space] at notSpace
    cases notSpace
  have skipped := Regex.ways_many_seq frontBlank textSolid blocked
  unfold getValueFromComment
  dsimp only
  rw [Regex.fullmatch, Regex.fullmatch, Regex.ways_seq, Regex.ways_many_of_stop hash,
    List.flatMap_singleton, Regex.ways_seq, Regex.ways_one_cons (by decide),
    List.flatMap_singleton]
  rw [namedRegex] at skipped
  rw [skipped, namedRegex]
  simp

/-- The value that a comment gives to a name is what is found for it. -/
theorem getValueFromComment_of_namesValue {comment name value : Str} (solid : Solid name)
    (single : '\n' ∉ value) (names : NamesValue comment name value) :
    getValueFromComment name comment = some (Str.lstrip value) := by
  obtain ⟨front, pad, frontBlank, padBlank, rfl⟩ := names
  rw [getValueFromComment_eq solid frontBlank (solid.head _)]
  have colon : ∀ c ∈ (':' :: value).head?, Str.isSpace c = false := by
    intro c first
    rw [List.head?_cons, Option.mem_some_iff] at first
    rw [← first]
    decide
  obtain ⟨gap, gapBlank, valueSplit⟩ := Str.exists_blank_lstrip value
  -- The way tried first takes all it can at each step; the steps stand from the last one on.
  have atEnd : ((Regex.many 0 Str.isSpace).ways []).head? = some ([], []) := by decide
  have atValue : ((Regex.group (.many 0 (· ≠ '\n'))).ways (Str.lstrip value)).head? =
      some ([Str.lstrip value], []) := by
    have whole := @Regex.head?_ways_group_many (fun c => decide (c ≠ '\n')) (Str.lstrip value) [] 0
      (Nat.zero_le _) (fun c member => by
        have notEnd : c ≠ '\n' := fun isEnd =>
          single (isEnd ▸ (Str.lstrip_suffix value).subset member)
        simp [notEnd]) (by simp)
    rwa [List.append_nil] at whole
  have atGap : ((Regex.many 0 Str.isSpace).ways value).head? = some ([], Str.lstrip value) := by
    have whole := @Regex.head?_ways_many Str.isSpace gap (Str.lstrip value) 0 (Nat.zero_le _) gapBlank
      Str.head?_lstrip_not_space
    rwa [← valueSplit] at whole
  have atColon : ((Regex.one (· = ':')).ways (':' :: value)).head? = some ([], value) := by
    rw [Regex.ways_one_cons (by decide)]
    rfl
  have atPad : ((Regex.many 0 Str.isSpace).ways (pad ++ ':' :: value)).head? =
      some ([], ':' :: value) :=
    Regex.head?_ways_many (Nat.zero_le _) padBlank colon
  have behindName := Regex.head?_ways_seq atPad (Regex.head?_ways_seq atColon
    (Regex.head?_ways_seq atGap (Regex.head?_ways_seq atValue atEnd)))
  rw [← ways_namedRegex_append] at behindName
  rw [Regex.fullmatch_of_head? behindName]
  rfl

/-- Nothing is found for a name that the comment gives no value. -/
theorem getValueFromComment_of_not_namesValue {name s : Str} (solid : Solid name)
    (nameless : ∀ value, ¬ NamesValue ('#' :: s) name value) :
    getValueFromComment name ('#' :: s) = none := by
  obtain ⟨front, frontBlank, split⟩ := Str.exists_blank_lstrip s
  rw [split, getValueFromComment_eq solid frontBlank Str.head?_lstrip_not_space, Regex.fullmatch]
  suffices none : (namedRegex name).ways (Str.lstrip s) = [] by
    rw [none]
    rfl
  by_cases isPrefix : name <+: Str.lstrip s
  · obtain ⟨rest, whole⟩ := isPrefix
    rw [← whole, ways_namedRegex_append]
    obtain ⟨pad, padBlank, padSplit⟩ := Str.exists_blank_lstrip rest
    have blocked (c : Char) (later : Str) (space : Str.isSpace c = true) :
        (Regex.seq (.one (· = ':')) <| .seq (.many 0 Str.isSpace) <|
          .seq (.group (.many 0 (· ≠ '\n'))) (.many 0 Str.isSpace)).ways (c :: later) = [] := by
      have notColon : c ≠ ':' := fun colon => by
        rw [colon] at space
        revert space
        decide
      simp [Regex.ways_seq, Regex.ways_one, notColon]
    rw [padSplit, Regex.ways_many_seq padBlank Str.head?_lstrip_not_space blocked]
    cases behind : Str.lstrip rest with
    | nil => rfl
    | cons c value =>
        have notColon : c ≠ ':' := by
          rintro rfl
          rw [behind] at padSplit
          refine nameless value ⟨front, pad, frontBlank, padBlank, ?_⟩
          rw [split, ← whole]
          exact congrArg (fun tail => '#' :: (front ++ (name ++ tail))) padSplit
        simp [Regex.ways_seq, Regex.ways_one, notColon]
  · exact ways_namedRegex_of_not_prefix isPrefix

/-! ## Requirements -/

/-- The names of requirements, with the local value each is compared with. -/
def requirements (host : Host) : List (Str × Str) :=
  [(systemStr, host.system), (linuxDistroStr, host.distroName), (cpuArchitectureStr, host.machine)]

/-- What the comment requires of the local system, if anything, is the case. An empty
value requires nothing. -/
def RequirementsMet (host : Host) (comment : Str) : Prop :=
  ∀ requirement ∈ requirements host, ∀ value, NamesValue comment requirement.1 value →
    Str.strip value = [] ∨ host.lower requirement.2 = host.lower (Str.strip value)

/-- Names of requirements start with different characters. -/
theorem requirement_head {host : Host} {requirement : Str × Str}
    (member : requirement ∈ requirements host) :
    ∃ c rest, requirement.1 = c :: rest ∧ Str.isSpace c = false ∧
      ((c = 'S' ∧ requirement = (systemStr, host.system)) ∨
        (c = 'G' ∧ requirement = (linuxDistroStr, host.distroName)) ∨
        (c = 'C' ∧ requirement = (cpuArchitectureStr, host.machine))) := by
  simp only [requirements, List.mem_cons, List.not_mem_nil, or_false] at member
  rcases member with rfl | rfl | rfl
  · exact ⟨'S', _, rfl, by decide, .inl ⟨rfl, rfl⟩⟩
  · exact ⟨'G', _, rfl, by decide, .inr (.inl ⟨rfl, rfl⟩)⟩
  · exact ⟨'C', _, rfl, by decide, .inr (.inr ⟨rfl, rfl⟩)⟩

theorem requirement_solid {host : Host} {requirement : Str × Str}
    (member : requirement ∈ requirements host) : Solid requirement.1 := by
  obtain ⟨c, rest, shape, solid, _⟩ := requirement_head member
  exact ⟨c, rest, shape, solid⟩

/-- Behind the blanks of a comment that names a value, the name stands. -/
theorem NamesValue.isPrefix {s name value : Str} (solid : Solid name)
    (names : NamesValue ('#' :: s) name value) : name <+: Str.lstrip s := by
  obtain ⟨front, pad, frontBlank, padBlank, whole⟩ := names
  rw [(List.cons.inj whole).2, Str.lstrip_blank_append frontBlank, Str.lstrip_eq_self (solid.head _)]
  exact List.prefix_append _ _

theorem NamesValue.value_unique {s name value other : Str} (solid : Solid name)
    (names : NamesValue ('#' :: s) name value) (otherNames : NamesValue ('#' :: s) name other) :
    value = other := by
  have colon (rest : Str) : ∀ c ∈ (':' :: rest).head?, Str.isSpace c = false := by
    intro c first
    rw [List.head?_cons, Option.mem_some_iff] at first
    rw [← first]
    decide
  obtain ⟨front, pad, frontBlank, padBlank, whole⟩ := names
  obtain ⟨otherFront, otherPad, otherFrontBlank, otherPadBlank, otherWhole⟩ := otherNames
  have behind := congrArg Str.lstrip ((List.cons.inj whole).2.symm.trans (List.cons.inj otherWhole).2)
  rw [Str.lstrip_blank_append frontBlank, Str.lstrip_blank_append otherFrontBlank,
    Str.lstrip_eq_self (solid.head _), Str.lstrip_eq_self (solid.head _)] at behind
  have rest := congrArg Str.lstrip (List.append_cancel_left behind)
  rw [Str.lstrip_blank_append padBlank, Str.lstrip_blank_append otherPadBlank,
    Str.lstrip_eq_self (colon _), Str.lstrip_eq_self (colon _)] at rest
  exact (List.cons.inj rest).2

/-- A comment names one requirement at most. -/
theorem requirement_unique {host : Host} {requirement other : Str × Str} {s value otherValue : Str}
    (member : requirement ∈ requirements host) (otherMember : other ∈ requirements host)
    (names : NamesValue ('#' :: s) requirement.1 value)
    (otherNames : NamesValue ('#' :: s) other.1 otherValue) : requirement = other := by
  obtain ⟨tail, whole⟩ := names.isPrefix (requirement_solid member)
  obtain ⟨otherTail, otherWhole⟩ := otherNames.isPrefix (requirement_solid otherMember)
  obtain ⟨c, rest, shape, _, which⟩ := requirement_head member
  obtain ⟨d, later, otherShape, _, otherWhich⟩ := requirement_head otherMember
  rw [shape, List.cons_append] at whole
  rw [otherShape, List.cons_append] at otherWhole
  have same : c = d := (List.cons.inj (whole.trans otherWhole.symm)).1
  subst same
  rcases which with ⟨rfl, isSystem⟩ | ⟨rfl, isDistro⟩ | ⟨rfl, isArch⟩ <;> grind

section Check

variable {host : Host} {comment : Str}

theorem systemStr_mem : (systemStr, host.system) ∈ requirements host := by
  simp [requirements]

theorem linuxDistroStr_mem : (linuxDistroStr, host.distroName) ∈ requirements host := by
  simp [requirements]

theorem cpuArchitectureStr_mem : (cpuArchitectureStr, host.machine) ∈ requirements host := by
  simp [requirements]

theorem isOk_assertValid_of_none
    (none : ∀ requirement ∈ requirements host, getValueFromComment requirement.1 comment = none) :
    (assertValidSystemVersion host comment).isOk = true := by
  have atSystem := none _ systemStr_mem
  have atDistro := none _ linuxDistroStr_mem
  have atArch := none _ cpuArchitectureStr_mem
  unfold assertValidSystemVersion
  dsimp only at atSystem atDistro atArch ⊢
  rw [atSystem, atDistro, atArch]
  rfl

/-- Where one name has a value, the check is that of its requirement. -/
theorem isOk_assertValid_of_some {requirement : Str × Str} {value : Str}
    (member : requirement ∈ requirements host)
    (held : getValueFromComment requirement.1 comment = some value)
    (others : ∀ other ∈ requirements host, other ≠ requirement →
      getValueFromComment other.1 comment = none) :
    (assertValidSystemVersion host comment).isOk = true ↔
      value = [] ∨ host.lower requirement.2 = host.lower value := by
  have differs {name other localVal otherVal : Str} (names : name ≠ other) :
      (name, localVal) ≠ (other, otherVal) := fun same => names (Prod.mk.inj same).1
  by_cases empty : value = []
  · subst empty
    refine iff_of_true ?_ (.inl rfl)
    simp only [requirements, List.mem_cons, List.not_mem_nil, or_false] at member
    unfold assertValidSystemVersion
    dsimp only
    rcases member with rfl | rfl | rfl
    · rw [others _ linuxDistroStr_mem (differs (by decide)), others _ cpuArchitectureStr_mem (differs (by decide)), held]
      rfl
    · rw [others _ systemStr_mem (differs (by decide)), others _ cpuArchitectureStr_mem (differs (by decide)), held]
      rfl
    · rw [others _ systemStr_mem (differs (by decide)), others _ linuxDistroStr_mem (differs (by decide)),
        held]
      rfl
  · have kept : (some value).filter (fun x => decide (x ≠ [])) = some value := by simp [empty]
    have dropped : (none : Option Str).filter (fun x => decide (x ≠ [])) = none := rfl
    have isOk_ite (text : Str) (localVal : Str) :
        (if host.lower localVal ≠ host.lower value then
            Except.error (ClientError.sysImgValidator text)
          else Except.ok ()).isOk = true ↔
          value = [] ∨ host.lower localVal = host.lower value := by
      by_cases same : host.lower localVal = host.lower value
      · rw [if_neg (not_not.mpr same)]
        exact iff_of_true rfl (.inr same)
      · rw [if_pos same]
        exact iff_of_false Bool.false_ne_true (not_or.mpr ⟨empty, same⟩)
    simp only [requirements, List.mem_cons, List.not_mem_nil, or_false] at member
    unfold assertValidSystemVersion
    dsimp only
    rcases member with rfl | rfl | rfl
    · rw [held, kept]
      exact isOk_ite _ _
    · rw [others _ systemStr_mem (differs (by decide)), dropped, held, kept]
      exact isOk_ite _ _
    · rw [others _ systemStr_mem (differs (by decide)), others _ linuxDistroStr_mem (differs (by decide)),
        dropped, held, kept]
      exact isOk_ite _ _

end Check

/-- The check of a comment, by the values it gives to names. -/
theorem isOk_assertValid_iff (host : Host) {s : Str} (single : '\n' ∉ s) :
    (assertValidSystemVersion host ('#' :: s)).isOk = true ↔
      ∀ requirement ∈ requirements host, ∀ value, NamesValue ('#' :: s) requirement.1 value →
        Str.lstrip value = [] ∨ host.lower requirement.2 = host.lower (Str.lstrip value) := by
  have found {requirement : Str × Str} {value : Str} (member : requirement ∈ requirements host)
      (names : NamesValue ('#' :: s) requirement.1 value) :
      getValueFromComment requirement.1 ('#' :: s) = some (Str.lstrip value) := by
    apply getValueFromComment_of_namesValue (requirement_solid member) _ names
    obtain ⟨front, pad, _, _, whole⟩ := names
    rw [(List.cons.inj whole).2] at single
    simp only [List.mem_append, List.mem_cons, not_or] at single
    exact single.2.2.2.2
  by_cases named : ∃ requirement ∈ requirements host, ∃ value,
      NamesValue ('#' :: s) requirement.1 value
  · obtain ⟨requirement, member, value, names⟩ := named
    rw [isOk_assertValid_of_some member (found member names) fun other otherMember differs =>
      getValueFromComment_of_not_namesValue (requirement_solid otherMember)
        fun otherValue otherNames =>
          differs (requirement_unique otherMember member otherNames names)]
    constructor
    · intro met other otherMember otherValue otherNames
      obtain rfl := requirement_unique otherMember member otherNames names
      rwa [names.value_unique (requirement_solid member) otherNames] at met
    · exact fun met => met requirement member value names
  · constructor
    · exact fun _ requirement member value names =>
        absurd ⟨requirement, member, value, names⟩ named
    · intro _
      refine isOk_assertValid_of_none fun other otherMember => ?_
      exact getValueFromComment_of_not_namesValue (requirement_solid otherMember)
        fun value names => named ⟨other, otherMember, value, names⟩

/-- The values of a comment that is trimmed at its end. -/
theorem namesValue_rstrip_iff {s name value : Str} :
    NamesValue ('#' :: Str.rstrip s) name value ↔
      ∃ whole, NamesValue ('#' :: s) name whole ∧ Str.rstrip whole = value := by
  have colon : Str.isSpace ':' = false := by decide
  constructor
  · rintro ⟨front, pad, frontBlank, padBlank, split⟩
    obtain ⟨tail, tailBlank, trimmed⟩ := Str.exists_blank_rstrip s
    have shape := (List.cons.inj split).2
    refine ⟨value ++ tail, ⟨front, pad, frontBlank, padBlank, ?_⟩, ?_⟩
    · rw [trimmed, shape]
      simp
    · rw [Str.rstrip_append_blank tailBlank]
      have ends := Str.getLast?_rstrip_not_space (s := s)
      rw [shape, List.getLast?_append, List.getLast?_append, List.getLast?_append,
        List.getLast?_cons] at ends
      apply Str.rstrip_eq_self
      intro c last
      apply ends c
      simp [Option.mem_def.mp last]
  · rintro ⟨whole, ⟨front, pad, frontBlank, padBlank, split⟩, rfl⟩
    refine ⟨front, pad, frontBlank, padBlank, ?_⟩
    have solid : ¬ Str.Blank (':' :: whole) := fun blank => by
      rw [blank ':' List.mem_cons_self] at colon
      cases colon
    have shape : front ++ (name ++ (pad ++ ':' :: whole)) = front ++ name ++ pad ++ ':' :: whole := by
      simp
    rw [(List.cons.inj split).2, shape, Str.rstrip_append_of_not_blank solid, Str.rstrip_cons colon]
    simp

theorem requirementsMet_iff (host : Host) {s : Str} (single : '\n' ∉ s) :
    (assertValidSystemVersion host (Str.strip ('#' :: s))).isOk = true ↔
      RequirementsMet host ('#' :: s) := by
  have stripped : Str.strip ('#' :: s) = '#' :: Str.rstrip s := by
    have left : Str.lstrip ('#' :: s) = '#' :: s := Str.lstrip_eq_self (by simp; decide)
    rw [Str.strip, left, Str.rstrip_cons (by decide)]
  have inside : '\n' ∉ Str.rstrip s := fun member => single ((Str.isPrefix_rstrip s).subset member)
  rw [stripped, isOk_assertValid_iff host inside]
  constructor
  · intro met requirement member value names
    have trimmed := met requirement member _ (namesValue_rstrip_iff.mpr ⟨value, names, rfl⟩)
    rwa [Str.lstrip_rstrip] at trimmed
  · intro met requirement member value names
    obtain ⟨whole, wholeNames, rfl⟩ := namesValue_rstrip_iff.mp names
    rw [Str.lstrip_rstrip]
    exact met requirement member whole wholeNames

/-! ## Lines of a header -/

/-- A comment that starts with other characters than a requirement requires nothing. -/
theorem requirementsMet_of_start {host : Host} {c d : Char} {rest : Str}
    (solid : Str.isSpace c = false)
    (differs : [c, d] ∉ [['S', 'y'], ['G', 'N'], ['C', 'P']]) :
    RequirementsMet host ('#' :: ' ' :: c :: d :: rest) := by
  intro requirement member value names
  have isPrefix := names.isPrefix (requirement_solid member)
  rw [← List.singleton_append, Str.lstrip_blank_append (by decide),
    Str.lstrip_eq_self (by simpa using solid)] at isPrefix
  obtain ⟨tail, whole⟩ := isPrefix
  have start : (requirement.1 ++ tail).take 2 ∈ [['S', 'y'], ['G', 'N'], ['C', 'P']] := by
    simp only [requirements, List.mem_cons, List.not_mem_nil, or_false] at member
    rcases member with rfl | rfl | rfl
    · exact List.mem_cons_self
    · exact List.mem_cons_of_mem _ List.mem_cons_self
    · exact List.mem_cons_of_mem _ (List.mem_cons_of_mem _ List.mem_cons_self)
  rw [whole] at start
  exact absurd start differs

/-- What the server writes for a value is blank, or it is the local value up to case. -/
def ValueMet (host : Host) (localVal value : Str) : Prop :=
  Str.strip (knownValue value) = [] ∨
    host.lower localVal = host.lower (Str.strip (knownValue value))

theorem namesValue_sysInfoLine (key value : Str) :
    NamesValue (sysInfoLine key value) key (' ' :: knownValue value) :=
  ⟨[' '], List.replicate (24 - key.length) ' ', by decide, Str.blank_replicate _, by
    simp [sysInfoLine, Str.ljust]⟩

/-- The line of a requirement requires its value. -/
theorem requirementsMet_sysInfoLine_iff {host : Host} {requirement : Str × Str}
    (member : requirement ∈ requirements host) (value : Str) :
    RequirementsMet host (sysInfoLine requirement.1 value) ↔ ValueMet host requirement.2 value := by
  have trimmed : Str.strip (' ' :: knownValue value) = Str.strip (knownValue value) :=
    @Str.strip_blank_append _ [' '] (by decide)
  have names := namesValue_sysInfoLine requirement.1 value
  constructor
  · intro met
    have here := met requirement member _ names
    rwa [trimmed] at here
  · intro met other otherMember otherValue otherNames
    obtain rfl := requirement_unique otherMember member otherNames names
    rw [← names.value_unique (requirement_solid member) otherNames, trimmed]
    exact met

/-- A line above the entries: empty, or a comment. -/
def HeaderLine (line : Str) : Prop := SingleLine line ∧ (line = [] ∨ line.head? = some '#')

instance (line : Str) : Decidable (HeaderLine line) :=
  inferInstanceAs (Decidable (_ ∧ _))

theorem requirementsMet_nil (host : Host) : RequirementsMet host [] := by
  rintro requirement member value ⟨front, pad, _, _, whole⟩
  cases whole

/-- A line of the header passes nothing, and raises where a requirement is not met. -/
theorem lineMeaning_headerLine (host : Host) (n : Nat) {line : Str} (isHeader : HeaderLine line) :
    (RequirementsMet host line ∧ lineMeaning host n line = some none) ∨
      (¬ RequirementsMet host line ∧ lineMeaning host n line = none) := by
  obtain ⟨⟨single, _⟩, rfl | hash⟩ := isHeader
  · exact .inl ⟨requirementsMet_nil host, lineMeaning_blank (by simp [Str.Blank])⟩
  · obtain ⟨s, rfl⟩ : ∃ s, line = '#' :: s := by
      cases line with
      | nil => cases hash
      | cons c s => exact ⟨s, by rw [Option.some.inj hash]⟩
    have comment : Str.startsWith (Str.strip ('#' :: s)) ['#'] = true := by
      have left : Str.lstrip ('#' :: s) = '#' :: s := Str.lstrip_eq_self (by simp; decide)
      rw [Str.strip, left, Str.rstrip_cons (by decide)]
      rfl
    rw [lineMeaning_comment comment,
      ← requirementsMet_iff host fun inside => single (List.mem_cons_of_mem _ inside)]
    by_cases met : (assertValidSystemVersion host (Str.strip ('#' :: s))).isOk = true
    · exact .inl ⟨met, if_pos met⟩
    · exact .inr ⟨met, if_neg met⟩

/-- Below a header, a report is read as the entries are, where the requirements are met. -/
theorem meaning_header_append_iff {host : Host} {n : Nat} {lines rest : List Str}
    {expected : List (List Str)} (header : ∀ line ∈ lines, HeaderLine line) :
    meaning host n (lines ++ rest) = (expected, true) ↔
      (∀ line ∈ lines, RequirementsMet host line) ∧ meaning host n rest = (expected, true) := by
  induction lines with
  | nil => simp
  | cons line lines inductionHypothesis =>
      have later := inductionHypothesis fun other member => header other (List.mem_cons_of_mem _ member)
      rw [List.cons_append, meaning, List.forall_mem_cons]
      rcases lineMeaning_headerLine host n (header line List.mem_cons_self) with
        ⟨met, meant⟩ | ⟨notMet, meant⟩
      · rw [meant]
        dsimp only
        rw [later]
        simp [met]
      · rw [meant]
        simp [notMet]

/-- Below a header, a report reads to its end where the requirements are met and the entries do. -/
theorem meaning_header_append_ends_iff {host : Host} {n : Nat} {lines rest : List Str}
    (header : ∀ line ∈ lines, HeaderLine line) :
    (meaning host n (lines ++ rest)).2 = true ↔
      (∀ line ∈ lines, RequirementsMet host line) ∧ (meaning host n rest).2 = true := by
  have whole (expected : List (List Str)) :=
    @meaning_header_append_iff host n lines rest expected header
  constructor
  · intro ends
    obtain ⟨met, meant⟩ := (whole _).mp (Prod.ext rfl ends)
    exact ⟨met, by rw [meant]⟩
  · rintro ⟨met, ends⟩
    rw [(whole _).mpr ⟨met, Prod.ext rfl ends⟩]

/-! ## The header of changed.txt -/

theorem headerLine_descriptionLines (header : ReportHeader) (desc : Str) :
    ∀ line ∈ descriptionLines header desc, HeaderLine line := by
  intro line member
  unfold descriptionLines at member
  split at member
  · rw [List.mem_singleton.mp member]
    exact ⟨by decide, .inl rfl⟩
  · obtain ⟨body, rfl, inside⟩ := TextWrap.wrap_indent member
    have free {c : Char} (white : TextWrap.isWhite c = true) (notBlank : c ≠ ' ') :
        c ∉ body := fun inBody => by
      rcases TextWrap.mem_mungeWhitespace (inside c inBody) with blank | ⟨_, notWhite⟩
      · exact notBlank blank
      · rw [white] at notWhite
        cases notWhite
    have feed := free (c := '\n') (by decide) (by decide)
    have ret := free (c := '\r') (by decide) (by decide)
    exact ⟨⟨by simpa using feed, by simpa using ret⟩, .inr rfl⟩

theorem headerLine_comment {text : Str} (single : SingleLine text) : HeaderLine ('#' :: ' ' :: text) :=
  ⟨⟨by simpa using single.1, by simpa using single.2⟩, .inr rfl⟩

theorem headerLine_sysInfoLine {key value : Str} (keySingle : SingleLine key)
    (single : SingleLine value) : HeaderLine (sysInfoLine key value) := by
  have known : SingleLine (knownValue value) := by
    unfold knownValue
    split
    · exact single
    · decide
  apply headerLine_comment
  simp [SingleLine, Str.ljust, keySingle.1, keySingle.2, known.1, known.2]

theorem singleLine_of_plain {text : Str} (plain : PlainText text) : SingleLine text :=
  ⟨plain.not_mem rfl, plain.not_mem rfl⟩

theorem singleLine_ofInt (i : Int) : SingleLine (Str.ofInt i) := by
  constructor
  · intro member
    rcases Str.mem_ofInt member with minus | digit
    · exact absurd minus (by decide)
    · exact absurd digit (by decide)
  · intro member
    rcases Str.mem_ofInt member with minus | digit
    · exact absurd minus (by decide)
    · exact absurd digit (by decide)

variable (header : ReportHeader)

theorem headerLine_sysInfo :
    ∀ info ∈ sysInfo header, HeaderLine (sysInfoLine info.1 info.2) := by
  have plain := header.plain
  simp only [List.forall_mem_cons, List.not_mem_nil, false_implies, implies_true, and_true] at plain
  obtain ⟨time, date, utcTime, utcDate, system, distro, machine, node, implementation, version,
    compiler⟩ := plain
  simp only [sysInfo, List.forall_mem_cons, List.not_mem_nil, false_implies, implies_true, and_true]
  refine ⟨headerLine_sysInfoLine (by decide) (singleLine_ofInt _),
    headerLine_sysInfoLine (by decide) (singleLine_ofInt _),
    headerLine_sysInfoLine (by decide) (singleLine_of_plain time),
    headerLine_sysInfoLine (by decide) (singleLine_of_plain date),
    headerLine_sysInfoLine (by decide) (singleLine_of_plain utcTime),
    headerLine_sysInfoLine (by decide) (singleLine_of_plain utcDate),
    headerLine_sysInfoLine (by decide) (singleLine_of_plain system),
    headerLine_sysInfoLine (by decide) (singleLine_of_plain distro),
    headerLine_sysInfoLine (by decide) (singleLine_of_plain machine),
    headerLine_sysInfoLine (by decide) (singleLine_of_plain node),
    headerLine_sysInfoLine (by decide) (singleLine_of_plain implementation),
    headerLine_sysInfoLine (by decide) (singleLine_of_plain version),
    headerLine_sysInfoLine (by decide) (singleLine_of_plain compiler)⟩

theorem headerLine_changedTitleLine : HeaderLine changedTitleLine := by
  decide +kernel

theorem forall_changedEntriesHeader_iff {P : Str → Prop} :
    (∀ line ∈ appendChangedEntriesHeader header, P line) ↔
      P [] ∧ P ['#'] ∧ P ('#' :: ' ' :: "MODIFIED FILES REPORT".toList) ∧ P changedTitleLine ∧
        (∀ line ∈ descriptionLines header (changedDescription header), P line) ∧
          ∀ info ∈ sysInfo header, P (sysInfoLine info.1 info.2) := by
  simp only [appendChangedEntriesHeader, appendSysInfoHeader, List.forall_mem_append,
    List.forall_mem_cons, List.forall_mem_map, List.not_mem_nil, false_implies, implies_true,
    and_true]
  tauto

/-- What the header requires is the case on the local machine. -/
structure HeaderMet (host : Host) (header : ReportHeader) : Prop where
  system : ValueMet host host.system header.system
  distro : ValueMet host host.distroName (header.title header.distroName)
  machine : ValueMet host host.machine header.machine
  description : ∀ line ∈ descriptionLines header (changedDescription header),
    RequirementsMet host line

theorem headerLine_changedEntriesHeader :
    ∀ line ∈ appendChangedEntriesHeader header, HeaderLine line := by
  rw [forall_changedEntriesHeader_iff]
  exact ⟨by decide, by decide, by decide, headerLine_changedTitleLine,
    headerLine_descriptionLines header _, headerLine_sysInfo header⟩

theorem requirementsMet_changedEntriesHeader_iff {host : Host} :
    (∀ line ∈ appendChangedEntriesHeader header, RequirementsMet host line) ↔
      HeaderMet host header := by
  have sharp : RequirementsMet host ['#'] := by
    rintro requirement member value ⟨front, pad, _, _, whole⟩
    simp at whole
  have title : RequirementsMet host changedTitleLine :=
    requirementsMet_of_start (by decide) (by decide)
  have modified : RequirementsMet host ('#' :: ' ' :: "MODIFIED FILES REPORT".toList) :=
    requirementsMet_of_start (by decide) (by decide)
  have info (key value : Str) (started : ∃ c d rest, key = c :: d :: rest ∧
      Str.isSpace c = false ∧ [c, d] ∉ [['S', 'y'], ['G', 'N'], ['C', 'P']]) :
      RequirementsMet host (sysInfoLine key value) := by
    obtain ⟨c, d, rest, rfl, solid, differs⟩ := started
    exact requirementsMet_of_start solid differs
  rw [forall_changedEntriesHeader_iff]
  simp only [sysInfo, List.forall_mem_cons, List.not_mem_nil, false_implies, implies_true, and_true]
  constructor
  · rintro ⟨_, _, _, _, description, _, _, _, _, _, _, system, distro, machine, _⟩
    exact ⟨(requirementsMet_sysInfoLine_iff systemStr_mem _).mp system,
      (requirementsMet_sysInfoLine_iff linuxDistroStr_mem _).mp distro,
      (requirementsMet_sysInfoLine_iff cpuArchitectureStr_mem _).mp machine, description⟩
  · rintro ⟨system, distro, machine, description⟩
    refine ⟨requirementsMet_nil host, sharp, modified, title, description, ?_, ?_, ?_, ?_, ?_, ?_,
      (requirementsMet_sysInfoLine_iff systemStr_mem _).mpr system,
      (requirementsMet_sysInfoLine_iff linuxDistroStr_mem _).mpr distro,
      (requirementsMet_sysInfoLine_iff cpuArchitectureStr_mem _).mpr machine, ?_, ?_, ?_, ?_⟩ <;>
      exact info _ _ ⟨_, _, _, rfl, by decide, by decide⟩

/-! ## The header of removed.txt -/

theorem headerLine_removedEntriesHeader :
    ∀ line ∈ appendRemovedEntriesHeader header, HeaderLine line := by
  simp only [appendRemovedEntriesHeader, appendSysInfoHeader, List.forall_mem_append,
    List.forall_mem_cons, List.forall_mem_map, List.not_mem_nil, false_implies, implies_true,
    and_true]
  exact ⟨⟨⟨⟨⟨⟨by decide, by decide⟩, headerLine_descriptionLines header _⟩, by decide⟩,
    headerLine_sysInfo header⟩, by decide, by decide⟩, by decide, by decide⟩

end Myscm.Client
