import Myscm.Library.Lines
import Mathlib.Algebra.BigOperators.Group.List.Basic

/-!
Owns reading a file line by line into a buffer of limited size, as `fgets` does.

Owns: one read; all reads up to the end of the file; that the reads are the lines of the file
where each of them fits into the buffer.

Does not own: what a program does with a line.
-/

namespace Myscm.Library

/-- The bytes that `fgets` takes from a file when it has room for some of them: it stops behind a
line feed. Returned with what is left of the file. -/
def takeLine : Nat → List UInt8 → List UInt8 × List UInt8
  | 0, file => ([], file)
  | _ + 1, [] => ([], [])
  | room + 1, c :: rest =>
      if c = 10 then ([c], rest)
      else
        let (more, left) := takeLine room rest
        (c :: more, left)

theorem takeLine_append (room : Nat) (file : List UInt8) :
    (takeLine room file).1 ++ (takeLine room file).2 = file := by
  induction room generalizing file with
  | zero => rfl
  | succ room inductionHypothesis =>
      cases file with
      | nil => rfl
      | cons c rest =>
          rw [takeLine]
          split
          · rfl
          · exact congrArg (c :: ·) (inductionHypothesis rest)

theorem takeLine_ne_nil {room : Nat} {file : List UInt8} (positive : 0 < room)
    (nonempty : file ≠ []) : (takeLine room file).1 ≠ [] := by
  cases room with
  | zero => omega
  | succ room =>
      cases file with
      | nil => exact absurd rfl nonempty
      | cons c rest =>
          rw [takeLine]
          split
          · exact List.cons_ne_nil _ _
          · exact List.cons_ne_nil _ _

theorem length_takeLine_snd {room : Nat} {file : List UInt8} (positive : 0 < room)
    (nonempty : file ≠ []) : (takeLine room file).2.length < file.length := by
  have whole := congrArg List.length (takeLine_append room file)
  have some' := List.length_pos_iff.mpr (takeLine_ne_nil positive nonempty)
  rw [List.length_append] at whole
  omega

/-- What the calls of `fgets(buf, size, file)` deliver one after the other, until one is at the
end of the file. One byte of the buffer is for the NUL. -/
def fgetsAll (size : Nat) (file : List UInt8) : List (List UInt8) :=
  if more : file ≠ [] ∧ 0 < size - 1 then
    (takeLine (size - 1) file).1 :: fgetsAll size (takeLine (size - 1) file).2
  else
    []
termination_by file.length
decreasing_by exact length_takeLine_snd more.2 more.1

theorem fgetsAll_nil (size : Nat) : fgetsAll size [] = [] := by
  rw [fgetsAll, dif_neg (fun more => more.1 rfl)]

theorem fgetsAll_cons {size : Nat} {file : List UInt8} (nonempty : file ≠ [])
    (room : 0 < size - 1) :
    fgetsAll size file =
      (takeLine (size - 1) file).1 :: fgetsAll size (takeLine (size - 1) file).2 := by
  rw [fgetsAll, dif_pos ⟨nonempty, room⟩]

theorem flatten_fgetsAll {size : Nat} (room : 0 < size - 1) (file : List UInt8) :
    (fgetsAll size file).flatten = file := by
  induction file using fgetsAll.induct size with
  | case1 file more inductionHypothesis =>
      rw [fgetsAll, dif_pos more, List.flatten_cons, inductionHypothesis, takeLine_append]
  | case2 file none =>
      have empty : file = [] := by
        by_contra nonempty
        exact none ⟨nonempty, room⟩
      rw [empty, fgetsAll_nil]
      rfl

theorem ne_nil_of_mem_fgetsAll {size : Nat} {file line : List UInt8}
    (member : line ∈ fgetsAll size file) : line ≠ [] := by
  induction file using fgetsAll.induct size with
  | case1 file more inductionHypothesis =>
      rw [fgetsAll, dif_pos more] at member
      cases List.mem_cons.mp member with
      | inl first =>
          rw [first]
          exact takeLine_ne_nil more.2 more.1
      | inr later => exact inductionHypothesis later
  | case2 file none =>
      rw [fgetsAll, dif_neg none] at member
      cases member

/-- There are at most as many reads as the file has bytes. -/
theorem length_fgetsAll_le {size : Nat} (room : 0 < size - 1) (file : List UInt8) :
    (fgetsAll size file).length ≤ file.length := by
  have whole := congrArg List.length (flatten_fgetsAll room file)
  rw [List.length_flatten] at whole
  rw [← whole, ← List.length_map List.length]
  apply List.length_le_sum_of_one_le
  intro length member
  obtain ⟨line, isLine, rfl⟩ := List.mem_map.mp member
  exact List.length_pos_iff.mpr (ne_nil_of_mem_fgetsAll isLine)

/-! ## Files whose lines fit -/

theorem takeLine_line {room : Nat} {line rest : List UInt8} (single : 10 ∉ line)
    (fits : line.length < room) : takeLine room (line ++ 10 :: rest) = (line ++ [10], rest) := by
  induction line generalizing room with
  | nil =>
      cases room with
      | zero => exact absurd fits (Nat.not_lt_zero _)
      | succ room =>
          rw [List.nil_append, takeLine, if_pos rfl]
          rfl
  | cons c line inductionHypothesis =>
      cases room with
      | zero => exact absurd fits (Nat.not_lt_zero _)
      | succ room =>
          have other : c ≠ 10 := fun same => single (same ▸ List.mem_cons_self)
          rw [List.cons_append, takeLine, if_neg other,
            inductionHypothesis (fun member => single (List.mem_cons_of_mem _ member))
              (by rw [List.length_cons] at fits; omega)]
          rfl

theorem takeLine_last {room : Nat} {line : List UInt8} (single : 10 ∉ line)
    (fits : line.length ≤ room) : takeLine room line = (line, []) := by
  induction line generalizing room with
  | nil => cases room <;> rfl
  | cons c line inductionHypothesis =>
      cases room with
      | zero => exact absurd fits (Nat.not_succ_le_zero _)
      | succ room =>
          have other : c ≠ 10 := fun same => single (same ▸ List.mem_cons_self)
          rw [takeLine, if_neg other,
            inductionHypothesis (fun member => single (List.mem_cons_of_mem _ member))
              (by rw [List.length_cons] at fits; omega)]

theorem splitLines_nil : splitLines (10 : UInt8) [] = [] := rfl

theorem splitLines_line {line : List UInt8} (single : 10 ∉ line) (rest : List UInt8) :
    splitLines 10 (line ++ 10 :: rest) = line :: splitLines 10 rest := by
  unfold splitLines
  rw [List.splitOn_append_cons_self_of_not_mem single]
  cases pieces : rest.splitOn 10 with
  | nil => exact absurd pieces (List.splitOn_ne_nil 10 rest)
  | cons first others =>
      dsimp only
      rw [List.getLast?_cons_cons, List.dropLast_cons_cons]
      split
      · rfl
      · rfl

theorem splitLines_last {line : List UInt8} (single : 10 ∉ line) (nonempty : line ≠ []) :
    splitLines 10 line = [line] := by
  unfold splitLines
  rw [List.splitOn_eq_singleton single]
  dsimp only
  rw [List.getLast?_singleton, Option.map_some, Option.getD_some]
  cases line with
  | nil => exact absurd rfl nonempty
  | cons c rest => rfl

/-- A file is empty, or starts with a complete line, or is one line without a line feed. -/
theorem file_cases (file : List UInt8) :
    file = [] ∨ (∃ line rest, 10 ∉ line ∧ file = line ++ 10 :: rest) ∨ (10 ∉ file ∧ file ≠ []) := by
  by_cases empty : file = []
  · exact .inl empty
  · right
    by_cases ends : 10 ∈ file
    · left
      obtain ⟨line, rest, whole, single⟩ := List.eq_append_cons_of_mem ends
      exact ⟨line, rest, single, whole⟩
    · exact .inr ⟨ends, empty⟩

/-- Where every line fits into the buffer together with its line feed and a NUL, the reads are
the lines, each with its line feed; the last one may lack it. -/
theorem fgetsAll_of_fits {size : Nat} {file : List UInt8}
    (fits : ∀ line ∈ splitLines 10 file, line.length + 1 < size) :
    List.Forall₂ (fun read line => read = line ∨ read = line ++ [10]) (fgetsAll size file)
      (splitLines 10 file) := by
  induction length : file.length using Nat.strong_induction_on generalizing file with
  | _ bound inductionHypothesis =>
    cases file_cases file with
    | inl empty =>
        rw [empty, fgetsAll_nil, splitLines_nil]
        exact .nil
    | inr more =>
        cases more with
        | inl complete =>
            obtain ⟨line, rest, single, rfl⟩ := complete
            rw [splitLines_line single] at fits ⊢
            have room := fits line List.mem_cons_self
            rw [fgetsAll_cons (by simp) (by omega), takeLine_line single (by omega)]
            apply List.Forall₂.cons (.inr rfl)
            apply inductionHypothesis rest.length _ _ rfl
            · rw [← length, List.length_append, List.length_cons]
              omega
            · intro other member
              exact fits other (List.mem_cons_of_mem _ member)
        | inr last =>
            rw [splitLines_last last.1 last.2] at fits ⊢
            have room := fits file List.mem_cons_self
            rw [fgetsAll_cons last.2 (by omega), takeLine_last last.1 (by omega), fgetsAll_nil]
            exact .cons (.inl rfl) .nil

end Myscm.Library
