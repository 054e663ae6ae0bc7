import Myscm.Library.Gaps
import Myscm.Server.AideDbManager

/-!
Owns what the report of missing databases tells an administrator: which versions lie in a gap
between the databases that are still there.

Owns: reading a reported range back; that the ranges are the gaps of the list they are made for.

Does not own: the listing of the databases; the text around the ranges, which goes to the log.
-/

namespace Myscm.Server.AIDEDatabasesManager

open Myscm.Library

/-! ## Reading a range -/

/-- A range as an administrator reads it: a number, or an interval `a-b` with `a < b`. -/
def readRange (text : Str) : Option Interval :=
  match text.splitOn '-' with
  | [number] => do
      let n ← Str.parseDigits 10 number
      some ⟨n, n, Nat.le_refl n⟩
  | [low, high] => do
      let a ← Str.parseDigits 10 low
      let b ← Str.parseDigits 10 high
      if less : a < b then some ⟨a, b, Nat.le_of_lt less⟩ else none
  | _ => none

/-- The text of an interval: its only number, or its ends with `-` between them. -/
def rangeText (range : Interval) : Str :=
  if range.low = range.high then
    Str.ofNat range.low
  else
    Str.ofNat range.low ++ '-' :: Str.ofNat range.high

private theorem dash_not_mem_ofNat (n : Nat) : '-' ∉ Str.ofNat n := by
  intro member
  have digit : ('-').isDigit = true :=
    @Str.toDigits_isDigit 10 n (by decide) (by decide) '-' member
  revert digit
  decide

private theorem parseDigits_ofNat (n : Nat) : Str.parseDigits 10 (Str.ofNat n) = some n :=
  Str.parseDigits_toDigits (by decide) (by decide) n

theorem readRange_rangeText (range : Interval) : readRange (rangeText range) = some range := by
  obtain ⟨low, high, ordered⟩ := range
  unfold rangeText
  dsimp only
  split
  · rename_i same
    subst same
    rw [readRange, List.splitOn_eq_singleton (dash_not_mem_ofNat low)]
    simp only [parseDigits_ofNat, Option.bind_eq_bind, Option.bind_some]
  · rename_i apart
    have less : low < high := Nat.lt_of_le_of_ne ordered apart
    rw [readRange, List.splitOn_append_cons_self_of_not_mem (dash_not_mem_ofNat low),
      List.splitOn_eq_singleton (dash_not_mem_ofNat high)]
    simp only [parseDigits_ofNat, Option.bind_eq_bind, Option.bind_some, dif_pos less]

/-! ## The ranges are the gaps -/

/-- What the loop appends for two neighbours is the gap between them. -/
private theorem missingBetween_eq {first : Nat} {rest : List Nat} :
    missingBetween (first :: rest) = (Gaps.gapsFrom (first + 1) rest).map rangeText := by
  induction rest generalizing first with
  | nil => rfl
  | cons second rest inductionHypothesis =>
      rw [missingBetween, inductionHypothesis, Gaps.gapsFrom, List.map_append]
      congr 1
      unfold Gaps.below
      by_cases gap : first + 1 < second
      · rw [if_pos gap, dif_pos gap, List.map_singleton, rangeText]
        by_cases single : second - first = 2
        · have same : first + 1 = second - 1 := by omega
          rw [if_pos single, if_pos same]
        · have apart : first + 1 ≠ second - 1 := by omega
          rw [if_neg single, if_neg apart]
      · rw [if_neg gap, dif_neg gap, List.map_nil]

private theorem ofNat_zero : Str.ofNat 0 = ['0'] := by decide

/-- What stands in front of the loop is the gap below the first number. -/
theorem getMissingAideDbFilesRanges_eq (first : Nat) (rest : List Nat) :
    getMissingAideDbFilesRanges (some (first :: rest)) =
      some ((Gaps.gapsFrom 0 (first :: rest)).map rangeText) := by
  rw [getMissingAideDbFilesRanges, missingBetween_eq, Gaps.gapsFrom, List.map_append]
  congr 2
  unfold Gaps.below
  by_cases gap : 0 < first
  · rw [if_pos gap, dif_pos gap, List.map_singleton, rangeText]
    by_cases single : first = 1
    · have same : 0 = first - 1 := by omega
      rw [if_pos single, if_pos same, ofNat_zero]
      rfl
    · have apart : 0 ≠ first - 1 := by omega
      rw [if_neg single, if_neg apart, ofNat_zero]
      rfl
  · rw [if_neg gap, dif_neg gap, List.map_nil]

/-- **The gap report is exact.** Every range reads as a number or as an interval. Each interval
ends below the start of every later one, so that they are ascending and disjoint, and together
they hold the numbers below the largest one that the list lacks. -/
theorem getMissingAideDbFilesRanges_exact (numbers : List Nat) (nonempty : numbers ≠ [])
    (ascending : numbers.Pairwise (· ≤ ·)) :
    ∃ (texts : List Str) (ranges : List Interval),
      getMissingAideDbFilesRanges (some numbers) = some texts ∧
      texts.map readRange = ranges.map some ∧
      ranges.Pairwise Interval.Before ∧
      ∀ n, (∃ range ∈ ranges, n ∈ range) ↔ n < numbers.getLast nonempty ∧ n ∉ numbers := by
  cases numbers with
  | nil => exact absurd rfl nonempty
  | cons first rest =>
      refine ⟨_, Gaps.gapsFrom 0 (first :: rest), getMissingAideDbFilesRanges_eq first rest, ?_,
        Gaps.pairwise_gapsFrom ascending 0, ?_⟩
      · rw [List.map_map]
        apply List.map_congr_left
        intro range _
        exact readRange_rangeText range
      · intro n
        rw [Gaps.mem_gapsFrom ascending (fun number _ => Nat.zero_le _),
          Gaps.exists_gt_iff nonempty ascending]
        constructor
        · intro inside
          exact ⟨inside.2.2, inside.2.1⟩
        · intro inside
          exact ⟨Nat.zero_le n, inside.2, inside.1⟩

/-- Versions 2 and 4 are there, 4 is listed twice, and 8 is the newest one. -/
theorem getMissingAideDbFilesRanges_exact_example :
    ∃ (texts : List Str) (ranges : List Interval),
      getMissingAideDbFilesRanges (some [2, 4, 4, 8]) = some texts ∧
      texts.map readRange = ranges.map some ∧
      ranges.Pairwise Interval.Before ∧
      ∀ n, (∃ range ∈ ranges, n ∈ range) ↔ n < 8 ∧ n ∉ [2, 4, 4, 8] :=
  getMissingAideDbFilesRanges_exact [2, 4, 4, 8] (by decide) (by decide)

end Myscm.Server.AIDEDatabasesManager
