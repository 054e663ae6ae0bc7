import Mathlib.Algebra.GroupWithZero.Nat
import Mathlib.Data.List.Infix
import Mathlib.Tactic.Common

/-!
Owns unsigned counters that chunks are subtracted from while they are not zero.

Owns: the subtractions that a list of chunks leads to; when none of them wraps; what the counter
is behind chunks that do not wrap.

Does not own: where the chunks come from.
-/

namespace Myscm.Library

namespace Countdown

/-- A subtraction: the counter before it, and the length of the chunk. -/
structure Subtraction where
  counter : UInt64
  chunk : Nat
  deriving DecidableEq

/-- The subtractions from a counter by chunks, until it is zero or there are no more. -/
def subtractions (counter : UInt64) : List Nat → List Subtraction
  | [] => []
  | chunk :: rest =>
      if counter = 0 then []
      else ⟨counter, chunk⟩ :: subtractions (counter - UInt64.ofNat chunk) rest

/-- No counter wraps below zero. -/
def NeverWraps (log : List Subtraction) : Prop :=
  ∀ entry ∈ log, entry.chunk ≤ entry.counter.toNat

/-- No chunk starts within the total and ends beyond it. -/
def Aligned (total : Nat) (chunks : List Nat) : Prop :=
  ∀ front chunk, front ++ [chunk] <+: chunks → front.sum < total → front.sum + chunk ≤ total

theorem aligned_nil (total : Nat) : Aligned total [] := by
  intro front chunk isPrefix
  have none := List.eq_nil_of_prefix_nil isPrefix
  simp at none

theorem aligned_cons_iff {total chunk : Nat} {rest : List Nat} (positive : 0 < total) :
    Aligned total (chunk :: rest) ↔ chunk ≤ total ∧ Aligned (total - chunk) rest := by
  constructor
  · intro aligned
    have within : chunk ≤ total := by
      have first := aligned [] chunk ⟨rest, rfl⟩ positive
      simpa using first
    refine ⟨within, fun front next isPrefix before => ?_⟩
    have later := aligned (chunk :: front) next (List.cons_prefix_cons.mpr ⟨rfl, isPrefix⟩)
      (by rw [List.sum_cons]; omega)
    rw [List.sum_cons] at later
    omega
  · rintro ⟨within, aligned⟩ front next isPrefix before
    cases front with
    | nil =>
        obtain ⟨rfl, _⟩ := List.cons_prefix_cons.mp isPrefix
        simpa using within
    | cons first front =>
        rw [List.cons_append] at isPrefix
        obtain ⟨rfl, behind⟩ := List.cons_prefix_cons.mp isPrefix
        rw [List.sum_cons] at before ⊢
        have later := aligned front next behind (by omega)
        omega

theorem aligned_zero (chunks : List Nat) : Aligned 0 chunks := by
  intro front chunk _ before
  exact absurd before (Nat.not_lt_zero _)

/-- Chunks that do not exceed the total together are aligned with it. -/
theorem aligned_of_sum_le {total : Nat} {chunks : List Nat} (within : chunks.sum ≤ total) :
    Aligned total chunks := by
  rintro front chunk ⟨rest, rfl⟩ _
  simp only [List.sum_append, List.sum_cons, List.sum_nil] at within
  omega

theorem toNat_sub_chunk {counter : UInt64} {chunk : Nat} (within : chunk ≤ counter.toNat) :
    (counter - UInt64.ofNat chunk).toNat = counter.toNat - chunk := by
  have below := counter.toNat_lt
  have isChunk : (UInt64.ofNat chunk).toNat = chunk :=
    UInt64.toNat_ofNat_of_lt' (by rw [UInt64.size]; omega)
  rw [UInt64.toNat_sub_of_le _ _ (by rw [UInt64.le_iff_toNat_le, isChunk]; exact within), isChunk]

/-- No subtraction wraps if and only if the chunks are aligned with the counter. -/
theorem neverWraps_subtractions_iff (counter : UInt64) (chunks : List Nat) :
    NeverWraps (subtractions counter chunks) ↔ Aligned counter.toNat chunks := by
  induction chunks generalizing counter with
  | nil => exact ⟨fun _ => aligned_nil _, fun _ entry none => by cases none⟩
  | cons chunk rest inductionHypothesis =>
      rw [subtractions]
      by_cases zero : counter = 0
      · rw [if_pos zero, zero]
        exact ⟨fun _ => aligned_zero _, fun _ entry none => by cases none⟩
      · have positive : 0 < counter.toNat := by
          rcases Nat.eq_zero_or_pos counter.toNat with isZero | positive
          · exact absurd (UInt64.toNat_inj.mp isZero) zero
          · exact positive
        rw [if_neg zero, aligned_cons_iff positive]
        unfold NeverWraps at inductionHypothesis ⊢
        rw [List.forall_mem_cons]
        constructor
        · rintro ⟨within, later⟩
          have aligned := (inductionHypothesis _).mp later
          rw [toNat_sub_chunk within] at aligned
          exact ⟨within, aligned⟩
        · rintro ⟨within, aligned⟩
          refine ⟨within, (inductionHypothesis _).mpr ?_⟩
          rw [toNat_sub_chunk within]
          exact aligned

end Countdown

end Myscm.Library
