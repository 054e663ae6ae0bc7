import Myscm.Library.Prog
import Myscm.Library.Lines

/-!
Owns the file that holds a single integer in a single line.

Owns: parsing of the file's text with every error, and the two steps of
writing a value.

Does not own: where the file is stored, which state it is part of.
-/

namespace Myscm.Common

open Myscm.Library

/-- The exceptions of the version file, with their messages and values. -/
inductive VersionFileError where
  | versionFile (message : Str)
  | emptyFile (message : Str)
  | tooManyLines (message : Str)
  | notInteger (message value : Str)
  | outOfAllowedRange (message : Str) (value : Int)
  deriving DecidableEq

namespace VersionFile

/-- `f.readline()`: the line with its end, and what follows. -/
def readline : Str → Str × Str
  | [] => ([], [])
  | '\n' :: rest => (['\n'], rest)
  | c :: rest => (c :: (readline rest).1, (readline rest).2)

/-- `VersionFile.parse` of a file's text; none is a file that cannot be opened. -/
def parse (startingValue : Int) : Option Str → Except VersionFileError Int
  | none => .error (.versionFile "Failed to open file".toList)
  | some content =>
      let first := readline (Str.universalNewlines content)
      let firstLine := Str.strip first.1
      let secondLine := (readline first.2).1
      if firstLine = [] then
        .error (.emptyFile "Empty file".toList)
      else if secondLine ≠ [] then
        .error (.tooManyLines "Too many lines in file".toList)
      else
        match Str.parseInt firstLine with
        | none => .error (.notInteger "Integer was expected".toList firstLine)
        | some ver =>
            if ver < startingValue then
              .error (.outOfAllowedRange ("Number greater than ".toList ++
                Str.ofInt startingValue ++ " was expected".toList) ver)
            else
              .ok ver

/-- `VersionFile.set_value`: opening the file for writing truncates it, and
closing it writes the number. `store` replaces the file's text in a state. -/
def setValue {σ ε : Type} (store : Str → σ → Except ε σ) (val : Int) : Prog σ ε Unit := do
  Prog.step (store [])
  Prog.step (store (Str.ofInt val))

/-! ## A written number reads back -/

private theorem readline_of_no_newline {s : Str} (single : '\n' ∉ s) : readline s = (s, []) := by
  induction s with
  | nil => rfl
  | cons c rest inductionHypothesis =>
      have notHere : c ≠ '\n' := fun same => single (by simp [same])
      have notLater : '\n' ∉ rest := fun member => single (by simp [member])
      unfold readline
      split
      · simp_all
      · rename_i same
        exact absurd (List.cons.inj same).1 notHere
      · rename_i same
        obtain ⟨rfl, rfl⟩ := List.cons.inj same
        rw [inductionHypothesis notLater]

theorem universalNewlines_of_no_return {s : Str} (none : '\r' ∉ s) :
    Str.universalNewlines s = s := by
  induction s with
  | nil => rfl
  | cons c rest inductionHypothesis =>
      have notHere : c ≠ '\r' := fun same => none (by simp [same])
      have notLater : '\r' ∉ rest := fun member => none (by simp [member])
      rw [Str.universalNewlines]
      · rw [inductionHypothesis notLater]
      · intro _ same
        exact absurd same notHere
      · exact notHere

/-- Every character of a written integer is a digit or the sign. -/
private theorem mem_ofInt {i : Int} {c : Char} (member : c ∈ Str.ofInt i) :
    c = '-' ∨ c.isDigit = true := by
  cases i with
  | ofNat n =>
      exact .inr (@Str.toDigits_isDigit 10 n (by decide) (by decide) c member)
  | negSucc n =>
      rcases List.mem_cons.mp member with sign | digit
      · exact .inl sign
      · exact .inr
          (@Str.toDigits_isDigit 10 (n + 1) (by decide) (by decide) c digit)

private theorem ofInt_free {i : Int} {c : Char} (notSign : c ≠ '-')
    (notDigit : c.isDigit = false) : c ∉ Str.ofInt i := by
  intro member
  rcases mem_ofInt member with sign | digit
  · exact notSign sign
  · rw [notDigit] at digit
    cases digit

theorem parse_ofInt {startingValue i : Int} (allowed : startingValue ≤ i) :
    parse startingValue (some (Str.ofInt i)) = .ok i := by
  have noReturn : '\r' ∉ Str.ofInt i := ofInt_free (by decide) (by decide)
  have noNewline : '\n' ∉ Str.ofInt i := ofInt_free (by decide) (by decide)
  have value : Str.parseInt (Str.strip (Str.ofInt i)) = some i := by
    rw [Str.parseInt, Str.strip_strip]
    exact Str.parseInt_ofInt i
  have nonempty : Str.strip (Str.ofInt i) ≠ [] := by
    intro empty
    rw [empty, Str.parseInt_nil] at value
    cases value
  simp [parse, universalNewlines_of_no_return noReturn, readline_of_no_newline noNewline,
    nonempty, value, Int.not_lt.mpr allowed, readline]

theorem startingValue_le_of_parse {startingValue ver : Int} {content : Option Str}
    (parsed : parse startingValue content = .ok ver) : startingValue ≤ ver := by
  cases content with
  | none => cases parsed
  | some text =>
      simp only [parse] at parsed
      split at parsed
      · cases parsed
      · split at parsed
        · cases parsed
        · split at parsed
          · cases parsed
          · split at parsed
            · cases parsed
            · rename_i notBelow
              cases parsed
              omega

theorem parse_empty (startingValue : Int) :
    parse startingValue (some []) = .error (.emptyFile "Empty file".toList) := by
  simp [parse, Str.universalNewlines, readline, Str.strip, Str.lstrip, Str.rstrip]

end VersionFile

end Myscm.Common
