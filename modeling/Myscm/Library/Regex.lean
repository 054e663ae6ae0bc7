import Myscm.Library.Text

/-!
Owns regular expressions as Python's `re` runs them: the ways an expression
can consume the front of a text, in the order the matcher tries them.

Owns: single characters, greedy and lazy repetition of a character class,
sequence, captured groups, `fullmatch`.

Does not own: the concrete syntax of patterns.
-/

namespace Myscm.Library

/-- A regular expression. `many` repeats a class greedily, `few` lazily. -/
inductive Regex where
  | empty
  | one (accept : Char → Bool)
  | many (atLeast : Nat) (accept : Char → Bool)
  | few (accept : Char → Bool)
  | seq (first second : Regex)
  | group (body : Regex)

namespace Regex

/-- One way to match: the captured groups in order, and the text left over. -/
abbrev Way := List Str × Str

/-- The ways a greedy repetition can consume a text, longest first. -/
def manyWays (atLeast : Nat) (accept : Char → Bool) (s : Str) : List Way :=
  (((List.range ((s.takeWhile accept).length + 1)).filter (atLeast ≤ ·)).reverse).map
    fun taken => ([], s.drop taken)

/-- The ways a lazy repetition can consume a text, shortest first. -/
def fewWays (accept : Char → Bool) : Str → List Way
  | [] => [([], [])]
  | c :: rest => ([], c :: rest) :: if accept c then fewWays accept rest else []

/-- All ways of matching the front of `s`, in the order they are tried. -/
def ways : Regex → Str → List Way
  | .empty, s => [([], s)]
  | .one accept, s =>
      match s with
      | [] => []
      | c :: rest => if accept c then [([], rest)] else []
  | .many atLeast accept, s => manyWays atLeast accept s
  | .few accept, s => fewWays accept s
  | .seq first second, s =>
      (ways first s).flatMap fun way =>
        (ways second way.2).map fun next => (way.1 ++ next.1, next.2)
  | .group body, s =>
      (ways body s).map fun way => (s.take (s.length - way.2.length) :: way.1, way.2)

/-- `regex.fullmatch(s)`: the groups of the first way that consumes all of `s`. -/
def fullmatch (regex : Regex) (s : Str) : Option (List Str) :=
  ((regex.ways s).find? fun way => way.2 = []).map Prod.fst

/-- The expression that matches the given characters one after the other. -/
def chars (accepts : List (Char → Bool)) (last : Regex) : Regex :=
  accepts.foldr (fun accept rest => .seq (.one accept) rest) last

theorem ways_empty (s : Str) : empty.ways s = [([], s)] := rfl

theorem ways_one (accept : Char → Bool) (c : Char) (s : Str) :
    (one accept).ways (c :: s) = if accept c then [([], s)] else [] := rfl

theorem ways_many (atLeast : Nat) (accept : Char → Bool) (s : Str) :
    (many atLeast accept).ways s = manyWays atLeast accept s := rfl

theorem ways_few (accept : Char → Bool) (s : Str) :
    (few accept).ways s = fewWays accept s := rfl

theorem ways_seq (first second : Regex) (s : Str) :
    (seq first second).ways s =
      (first.ways s).flatMap fun way =>
        (second.ways way.2).map fun next => (way.1 ++ next.1, next.2) := rfl

theorem ways_group (body : Regex) (s : Str) :
    (group body).ways s =
      (body.ways s).map fun way => (s.take (s.length - way.2.length) :: way.1, way.2) := rfl

theorem ways_one_cons {accept : Char → Bool} {c : Char} (accepted : accept c = true) (s : Str) :
    (one accept).ways (c :: s) = [([], s)] := by
  rw [ways_one, if_pos accepted]

theorem ways_chars_append {accepts : List (Char → Bool)} {last : Regex} {front rest : Str}
    (accepted : List.Forall₂ (fun accept c => accept c = true) accepts front) :
    (chars accepts last).ways (front ++ rest) = last.ways rest := by
  induction accepted with
  | nil => rfl
  | cons here _ inductionHypothesis =>
      simp only [chars, List.foldr_cons, List.cons_append, ways_seq, ways_one_cons here,
        List.flatMap_cons, List.flatMap_nil, List.append_nil, List.nil_append]
      have unfolded := inductionHypothesis
      rw [chars] at unfolded
      rw [unfolded]
      simp

/-- A literal that the text does not start with is not matched. -/
theorem ways_chars_of_not_prefix {literal s : Str} (last : Regex) (differs : ¬ literal <+: s) :
    (chars (literal.map fun c d => decide (d = c)) last).ways s = [] := by
  induction literal generalizing s with
  | nil => exact absurd (List.nil_prefix) differs
  | cons c rest inductionHypothesis =>
      have unfolded : (chars ((c :: rest).map fun c d => decide (d = c)) last).ways s =
          ((one fun d => decide (d = c)).ways s).flatMap fun way =>
            ((chars (rest.map fun c d => decide (d = c)) last).ways way.2).map fun next =>
              (way.1 ++ next.1, next.2) := rfl
      rw [unfolded]
      cases s with
      | nil => rfl
      | cons d later =>
          by_cases same : d = c
          · subst same
            have restDiffers : ¬ rest <+: later := fun isPrefix =>
              differs ((List.prefix_cons_inj d).mpr isPrefix)
            simp [ways_one, inductionHypothesis restDiffers]
          · simp [ways_one, same]

theorem ways_many_of_stop {accept : Char → Bool} {s : Str}
    (stop : ∀ c ∈ s.head?, accept c = false) : (many 0 accept).ways s = [([], s)] := by
  have none : s.takeWhile accept = [] := by
    cases s with
    | nil => rfl
    | cons c rest => simp [stop c (by simp)]
  simp [ways_many, manyWays, none]

theorem ways_many_cons {accept : Char → Bool} {c : Char} (accepted : accept c = true) (s : Str) :
    (many 0 accept).ways (c :: s) = (many 0 accept).ways s ++ [([], c :: s)] := by
  simp [ways_many, manyWays, accepted, List.range_succ_eq_map, Function.comp_def]

/-- A repetition leaves none of its characters where what follows cannot start with one. -/
theorem ways_many_seq {accept : Char → Bool} {next : Regex} {front rest : Str}
    (all : ∀ c ∈ front, accept c = true) (stop : ∀ c ∈ rest.head?, accept c = false)
    (blocked : ∀ c later, accept c = true → next.ways (c :: later) = []) :
    (seq (many 0 accept) next).ways (front ++ rest) = next.ways rest := by
  induction front with
  | nil => simp [ways_seq, ways_many_of_stop stop]
  | cons c front inductionHypothesis =>
      have here := all c List.mem_cons_self
      have later := inductionHypothesis fun d member => all d (List.mem_cons_of_mem c member)
      rw [ways_seq] at later
      rw [List.cons_append, ways_seq, ways_many_cons here, List.flatMap_append, later]
      simp [blocked _ _ here]

/-! ## The way tried first -/

/-- A repetition takes all characters of its class first. -/
theorem head?_ways_many {accept : Char → Bool} {s rest : Str} {atLeast : Nat}
    (long : atLeast ≤ s.length) (all : ∀ c ∈ s, accept c = true)
    (stop : ∀ c ∈ rest.head?, accept c = false) :
    ((many atLeast accept).ways (s ++ rest)).head? = some ([], rest) := by
  have restTaken : rest.takeWhile accept = [] := by
    cases rest with
    | nil => rfl
    | cons c later => simp [stop c (by simp)]
  have taken : (s ++ rest).takeWhile accept = s := by
    rw [List.takeWhile_append_of_pos all, restTaken, List.append_nil]
  rw [ways_many, manyWays, taken, List.range_succ, List.filter_append]
  simp [long]

theorem head?_ways_seq {first second : Regex} {s : Str} {way next : Way}
    (firstWay : (first.ways s).head? = some way)
    (secondWay : (second.ways way.2).head? = some next) :
    ((seq first second).ways s).head? = some (way.1 ++ next.1, next.2) := by
  obtain ⟨others, firstSplit⟩ := List.head?_eq_some_iff.mp firstWay
  obtain ⟨laters, secondSplit⟩ := List.head?_eq_some_iff.mp secondWay
  simp [ways_seq, firstSplit, secondSplit]

/-- A group around one class takes all characters of the class. -/
theorem head?_ways_group_many {accept : Char → Bool} {s rest : Str} {atLeast : Nat}
    (long : atLeast ≤ s.length) (all : ∀ c ∈ s, accept c = true)
    (stop : ∀ c ∈ rest.head?, accept c = false) :
    ((group (many atLeast accept)).ways (s ++ rest)).head? = some ([s], rest) := by
  obtain ⟨others, split⟩ := List.head?_eq_some_iff.mp (head?_ways_many long all stop)
  simp [ways_group, split]

/-- What a lazy group captures behind `done` where what follows cannot match before `rest`. -/
private theorem head?_flatMap_few {accept : Char → Bool} {next : Regex} {front rest : Str}
    {way : Way} (done : Str) (all : ∀ c ∈ front, accept c = true)
    (blocked : ∀ c ∈ front, ∀ later, next.ways (c :: later) = [])
    (nextWay : (next.ways rest).head? = some way) :
    ((fewWays accept (front ++ rest)).flatMap fun lazy =>
      (next.ways lazy.2).map fun later =>
        ((done ++ (front ++ rest)).take ((done ++ (front ++ rest)).length - lazy.2.length) :: later.1,
          later.2)).head? = some ((done ++ front) :: way.1, way.2) := by
  induction front generalizing done with
  | nil =>
      obtain ⟨others, split⟩ := List.head?_eq_some_iff.mp nextWay
      obtain ⟨lazier, here⟩ : ∃ lazier, fewWays accept rest = ([], rest) :: lazier := by
        cases rest with
        | nil => exact ⟨[], rfl⟩
        | cons c later => exact ⟨_, rfl⟩
      simp [here, split]
  | cons c front inductionHypothesis =>
      have here := all c List.mem_cons_self
      have stuck := blocked c List.mem_cons_self (front ++ rest)
      have later := inductionHypothesis (done ++ [c])
        (fun d member => all d (List.mem_cons_of_mem c member))
        (fun d member => blocked d (List.mem_cons_of_mem c member))
      simpa [fewWays, here, stuck] using later

/-- A lazy group takes all up to the place where what follows can match. -/
theorem head?_ways_group_few_seq {accept : Char → Bool} {next : Regex} {front rest : Str}
    {way : Way} (all : ∀ c ∈ front, accept c = true)
    (blocked : ∀ c ∈ front, ∀ later, next.ways (c :: later) = [])
    (nextWay : (next.ways rest).head? = some way) :
    ((seq (group (few accept)) next).ways (front ++ rest)).head? =
      some (front :: way.1, way.2) := by
  have captured := head?_flatMap_few [] all blocked nextWay
  have empty : ∀ lazy ∈ fewWays accept (front ++ rest), lazy.1 = [] := by
    intro lazy member
    generalize front ++ rest = s at member
    induction s with
    | nil =>
        rw [fewWays, List.mem_singleton] at member
        rw [member]
    | cons c s inductionHypothesis =>
        rw [fewWays, List.mem_cons] at member
        rcases member with rfl | member
        · rfl
        · split at member
          · exact inductionHypothesis member
          · exact absurd member List.not_mem_nil
  rw [List.nil_append, List.nil_append] at captured
  rw [ways_seq, ways_group, ways_few, List.flatMap_map, ← captured]
  congr 1
  apply List.flatMap_congr
  intro lazy member
  simp [empty lazy member]

/-! ## All ways -/

theorem mem_ways_seq {first second : Regex} {s : Str} {way : Way} :
    way ∈ (seq first second).ways s ↔
      ∃ before ∈ first.ways s, ∃ next ∈ second.ways before.2,
        way = (before.1 ++ next.1, next.2) := by
  rw [ways_seq, List.mem_flatMap]
  simp only [List.mem_map, eq_comm]

theorem mem_ways_one {accept : Char → Bool} {s : Str} {way : Way} :
    way ∈ (one accept).ways s ↔ ∃ c, s = c :: way.2 ∧ accept c = true ∧ way.1 = [] := by
  obtain ⟨groups, rest⟩ := way
  cases s with
  | nil => simp [show (one accept).ways [] = [] from rfl]
  | cons c later =>
      by_cases accepted : accept c = true
      · rw [ways_one_cons accepted, List.mem_singleton, Prod.mk.injEq]
        constructor
        · rintro ⟨rfl, rfl⟩
          exact ⟨c, rfl, accepted, rfl⟩
        · rintro ⟨d, same, _, rfl⟩
          exact ⟨rfl, (List.cons.inj same).2.symm⟩
      · simp only [ways_one, if_neg accepted, List.not_mem_nil, false_iff]
        rintro ⟨d, same, isAccepted, _⟩
        rw [(List.cons.inj same).1] at accepted
        exact accepted isAccepted

/-- The rests that a repetition leaves. -/
theorem mem_ways_many {atLeast : Nat} {accept : Char → Bool} {s : Str} {way : Way} :
    way ∈ (many atLeast accept).ways s ↔
      ∃ front, s = front ++ way.2 ∧ atLeast ≤ front.length ∧ (∀ c ∈ front, accept c = true) ∧
        way.1 = [] := by
  rw [ways_many, manyWays, List.mem_map]
  simp only [List.mem_reverse, List.mem_filter, List.mem_range, decide_eq_true_eq]
  constructor
  · rintro ⟨taken, ⟨within, enough⟩, rfl⟩
    have within : taken ≤ (s.takeWhile accept).length := by omega
    have front : (s.takeWhile accept).take taken = s.take taken := by
      have isPrefix := List.prefix_iff_eq_take.mp (List.takeWhile_prefix accept (l := s))
      rw [isPrefix, List.take_take, min_eq_left within]
    refine ⟨s.take taken, (List.take_append_drop taken s).symm, ?_, ?_, rfl⟩
    · rw [← front, List.length_take]
      omega
    · rw [← front]
      exact fun c member => List.mem_takeWhile_imp (List.mem_of_mem_take member)
  · rintro ⟨front, whole, enough, all, noGroups⟩
    refine ⟨front.length, ⟨?_, enough⟩, ?_⟩
    · rw [whole, List.takeWhile_append_of_pos all, List.length_append]
      omega
    · rw [whole, List.drop_left]
      exact Prod.ext noGroups.symm rfl

theorem mem_ways_group {body : Regex} {s : Str} {way : Way} :
    way ∈ (group body).ways s ↔
      ∃ inner ∈ body.ways s, way = (s.take (s.length - inner.2.length) :: inner.1, inner.2) := by
  rw [ways_group, List.mem_map]
  simp only [eq_comm]

/-- A group around a class captures what it takes. -/
theorem mem_ways_group_many {atLeast : Nat} {accept : Char → Bool} {s : Str} {way : Way} :
    way ∈ (group (many atLeast accept)).ways s ↔
      ∃ front, s = front ++ way.2 ∧ atLeast ≤ front.length ∧ (∀ c ∈ front, accept c = true) ∧
        way.1 = [front] := by
  rw [mem_ways_group]
  constructor
  · rintro ⟨inner, isInner, rfl⟩
    obtain ⟨front, whole, enough, all, noGroups⟩ := mem_ways_many.mp isInner
    refine ⟨front, whole, enough, all, ?_⟩
    rw [whole, noGroups]
    simp
  · rintro ⟨front, whole, enough, all, captured⟩
    refine ⟨([], way.2), mem_ways_many.mpr ⟨front, whole, enough, all, rfl⟩, ?_⟩
    refine Prod.ext ?_ rfl
    rw [captured, whole]
    simp

theorem mem_ways_chars {accepts : List (Char → Bool)} {last : Regex} {s : Str} {way : Way} :
    way ∈ (chars accepts last).ways s ↔
      ∃ front rest, s = front ++ rest ∧
        List.Forall₂ (fun accept c => accept c = true) accepts front ∧ way ∈ last.ways rest := by
  induction accepts generalizing s way with
  | nil =>
      constructor
      · exact fun member => ⟨[], s, rfl, .nil, member⟩
      · rintro ⟨front, rest, rfl, none, member⟩
        cases none
        exact member
  | cons accept accepts inductionHypothesis =>
      rw [show chars (accept :: accepts) last = seq (one accept) (chars accepts last) from rfl,
        mem_ways_seq]
      constructor
      · rintro ⟨before, isBefore, next, isNext, rfl⟩
        obtain ⟨c, whole, accepted, noGroups⟩ := mem_ways_one.mp isBefore
        obtain ⟨front, rest, later, all, member⟩ :=
          (@inductionHypothesis before.2 next).mp isNext
        refine ⟨c :: front, rest, by rw [whole, later, List.cons_append], .cons accepted all, ?_⟩
        rw [noGroups]
        exact member
      · rintro ⟨front, rest, rfl, all, member⟩
        cases all with
        | @cons _ c _ front accepted all =>
            exact ⟨([], front ++ rest), mem_ways_one.mpr ⟨c, rfl, accepted, rfl⟩, way,
              inductionHypothesis.mpr ⟨front, rest, rfl, all, member⟩, rfl⟩

theorem mem_ways_of_fullmatch {regex : Regex} {s : Str} {groups : List Str}
    (isMatch : regex.fullmatch s = some groups) : (groups, []) ∈ regex.ways s := by
  obtain ⟨way, found, rfl⟩ := Option.map_eq_some_iff.mp isMatch
  have consumed : way.2 = [] := by simpa using List.find?_some found
  rw [← consumed]
  exact List.mem_of_find?_eq_some found

theorem fullmatch_isSome_iff {regex : Regex} {s : Str} :
    (regex.fullmatch s).isSome ↔ ∃ groups, (groups, []) ∈ regex.ways s := by
  constructor
  · intro isSome
    obtain ⟨groups, isMatch⟩ := Option.isSome_iff_exists.mp isSome
    exact ⟨groups, mem_ways_of_fullmatch isMatch⟩
  · rintro ⟨groups, member⟩
    rw [fullmatch, Option.isSome_map, List.find?_isSome]
    exact ⟨_, member, by simp⟩

/-- Where the way tried first consumes all, its groups are the match. -/
theorem fullmatch_of_head? {regex : Regex} {s : Str} {groups : List Str}
    (firstWay : (regex.ways s).head? = some (groups, [])) : regex.fullmatch s = some groups := by
  obtain ⟨others, split⟩ := List.head?_eq_some_iff.mp firstWay
  simp [fullmatch, split]

end Regex

end Myscm.Library
