import Mathlib.Data.List.Pairwise
import Mathlib.Tactic.Common

/-!
Owns the gaps of an ascending list of naturals: the runs of naturals that the list steps over.

Owns: intervals of naturals; the gaps that a walk along a list finds; that they are ascending and
apart, and hold exactly the naturals below the last member that the list lacks.

Does not own: how an interval is written.
-/

namespace Myscm.Library

/-- A non-empty interval of naturals, by its ends. -/
structure Interval where
  low : Nat
  high : Nat
  ordered : low ≤ high
  deriving DecidableEq

namespace Interval

instance : Membership Nat Interval where
  mem interval n := interval.low ≤ n ∧ n ≤ interval.high

/-- One interval ends below the start of another. -/
def Before (earlier later : Interval) : Prop := earlier.high < later.low

/-- An interval before another one shares no member with it, and its members are smaller. -/
theorem Before.lt {earlier later : Interval} (before : earlier.Before later) {m n : Nat}
    (first : m ∈ earlier) (second : n ∈ later) : m < n :=
  Nat.lt_of_le_of_lt first.2 (Nat.lt_of_lt_of_le before second.1)

end Interval

namespace Gaps

/-- The naturals from `next` on that lie below `bound`, as one interval if there are any. -/
def below (next bound : Nat) : List Interval :=
  if some' : next < bound then [⟨next, bound - 1, by omega⟩] else []

/-- The gaps of a list from `next` on. -/
def gapsFrom (next : Nat) : List Nat → List Interval
  | [] => []
  | number :: rest => below next number ++ gapsFrom (number + 1) rest

theorem mem_below {next bound n : Nat} :
    (∃ gap ∈ below next bound, n ∈ gap) ↔ next ≤ n ∧ n < bound := by
  unfold below
  split
  · rename_i some'
    simp only [List.mem_singleton, exists_eq_left]
    show next ≤ n ∧ n ≤ bound - 1 ↔ _
    omega
  · rename_i none
    constructor
    · intro inside
      cases inside with
      | intro gap inside => cases inside.1
    · intro inside
      omega

theorem low_le_of_mem_below {next bound : Nat} {gap : Interval} (member : gap ∈ below next bound) :
    next ≤ gap.low ∧ gap.high < bound := by
  unfold below at member
  split at member
  · rename_i some'
    rw [List.mem_singleton.mp member]
    show next ≤ next ∧ bound - 1 < bound
    omega
  · cases member

theorem pairwise_below (next bound : Nat) : (below next bound).Pairwise Interval.Before := by
  unfold below
  split
  · exact List.pairwise_singleton _ _
  · exact List.Pairwise.nil

/-- Behind a number of an ascending list the walk goes on where it meets the others. -/
theorem succ_reached {number : Nat} {rest : List Nat}
    (ascending : (number :: rest).Pairwise (· ≤ ·)) : ∀ other ∈ rest, number + 1 ≤ other + 1 := by
  intro other member
  exact Nat.succ_le_succ ((List.pairwise_cons.mp ascending).1 other member)

/-- What a walk from `next` on reports starts there or later, whatever the list is. -/
theorem le_low_of_mem_gapsFrom {numbers : List Nat} {next : Nat} {gap : Interval}
    (ascending : numbers.Pairwise (· ≤ ·)) (reached : ∀ number ∈ numbers, next ≤ number + 1)
    (member : gap ∈ gapsFrom next numbers) : next ≤ gap.low := by
  induction numbers generalizing next with
  | nil => cases member
  | cons number rest inductionHypothesis =>
      cases List.mem_append.mp member with
      | inl here => exact (low_le_of_mem_below here).1
      | inr later =>
          have after : number + 1 ≤ gap.low :=
            inductionHypothesis ascending.of_cons (succ_reached ascending) later
          have close := reached number List.mem_cons_self
          omega

/-- The gaps of an ascending list are in ascending order, and no two of them meet. -/
theorem pairwise_gapsFrom {numbers : List Nat} (ascending : numbers.Pairwise (· ≤ ·))
    (next : Nat) : (gapsFrom next numbers).Pairwise Interval.Before := by
  induction numbers generalizing next with
  | nil => exact List.Pairwise.nil
  | cons number rest inductionHypothesis =>
      apply List.pairwise_append.mpr
      refine ⟨pairwise_below _ _, inductionHypothesis ascending.of_cons _, ?_⟩
      intro earlier here later there
      have ends := (low_le_of_mem_below here).2
      have starts : number + 1 ≤ later.low :=
        le_low_of_mem_gapsFrom ascending.of_cons (succ_reached ascending) there
      show earlier.high < later.low
      omega

/-- **The gaps are exact.** They hold the naturals from `next` on that the list lacks and that
some member is greater than. A number that is repeated leaves no gap behind it, because the walk
goes on from the number's successor. -/
theorem mem_gapsFrom {numbers : List Nat} {next n : Nat} (ascending : numbers.Pairwise (· ≤ ·))
    (reached : ∀ number ∈ numbers, next ≤ number + 1) :
    (∃ gap ∈ gapsFrom next numbers, n ∈ gap) ↔
      next ≤ n ∧ n ∉ numbers ∧ ∃ number ∈ numbers, n < number := by
  induction numbers generalizing next with
  | nil =>
      constructor
      · intro inside
        cases inside with
        | intro gap inside => cases inside.1
      · intro inside
        cases inside.2.2 with
        | intro number inside => cases inside.1
  | cons number rest inductionHypothesis =>
      have close := reached number List.mem_cons_self
      have later := inductionHypothesis ascending.of_cons (succ_reached ascending)
      rw [gapsFrom]
      simp only [List.mem_append, or_and_right, exists_or, mem_below, later, List.mem_cons, not_or,
        exists_eq_left]
      constructor
      · intro inside
        cases inside with
        | inl here =>
            have lacks : n ∉ rest := by
              intro isMember
              have above := succ_reached ascending n isMember
              omega
            exact ⟨here.1, ⟨by omega, lacks⟩, .inl here.2⟩
        | inr there => exact ⟨by omega, ⟨by omega, there.2.1⟩, .inr there.2.2⟩
      · intro inside
        by_cases low : n < number
        · exact .inl ⟨inside.1, low⟩
        · right
          refine ⟨by omega, inside.2.1.2, ?_⟩
          cases inside.2.2 with
          | inl high => omega
          | inr high => exact high

/-- In an ascending list some member is greater than a number if and only if the last one is. -/
theorem exists_gt_iff {numbers : List Nat} (nonempty : numbers ≠ [])
    (ascending : numbers.Pairwise (· ≤ ·)) (n : Nat) :
    (∃ number ∈ numbers, n < number) ↔ n < numbers.getLast nonempty := by
  constructor
  · intro greater
    cases greater with
    | intro number greater =>
        have atMost : number ≤ numbers.getLast nonempty :=
          ascending.rel_getLast greater.1
        omega
  · intro greater
    exact ⟨_, List.getLast_mem nonempty, greater⟩

end Gaps

end Myscm.Library
