import Myscm.Client.Report

/-!
Owns what the lines of a report come to: the value lists handed to the callback
and whether the end is reached.

Owns: the value lists a reading passes; the meaning of a line and of a list of
lines; the meaning of both readings of an encoded text.

Does not own: how reports are written and what the values mean.
-/

namespace Myscm.Client

open Myscm.Library Myscm.Server

/-- A callback that notes the value lists it is given. -/
def recorder : Nat → List Str → Prog (List (List Str)) ClientError Unit :=
  fun _ values => Prog.step fun seen => .ok (seen ++ [values])

/-- The value lists `run_fun_for_each_report_line` passes to its callback. -/
def passedValues (host : Host) (n : Nat) (name : ReportName) (lines : List (Option Str)) :
    List (List Str) :=
  (runFunForEachReportLine host n name recorder lines []).final []

/-- The reading ends without raising. -/
def Completes (host : Host) (n : Nat) (name : ReportName) (lines : List (Option Str)) : Prop :=
  (runFunForEachReportLine host n name recorder lines []).ending.isOk = true

/-! ## The parts of a line -/

theorem lineParts_single {s : Str} (noZero : '\x00' ∉ s) : lineParts s = [Str.strip s] := by
  rw [lineParts, List.splitOn_eq_singleton noZero]
  rfl

theorem lineParts_cons {part rest : Str} (noZero : '\x00' ∉ part) :
    lineParts (part ++ '\x00' :: rest) = Str.strip part :: lineParts rest := by
  rw [lineParts, List.splitOn_append_cons_self_of_not_mem noZero]
  rfl

theorem not_mem_of_blank {s : Str} (blank : Str.Blank s) : '\x00' ∉ s := fun member =>
  absurd (blank _ member) (by decide)

theorem lineParts_blank_append {front s : Str} (blank : Str.Blank front) :
    lineParts (front ++ s) = lineParts s := by
  have frontFree := not_mem_of_blank blank
  by_cases zero : '\x00' ∈ s
  · obtain ⟨part, rest, rfl, noZero⟩ := List.eq_append_cons_of_mem zero
    rw [← List.append_assoc, lineParts_cons (by simp [frontFree, noZero]), lineParts_cons noZero,
      Str.strip_blank_append blank]
  · rw [lineParts_single (by simp [frontFree, zero]), lineParts_single zero,
      Str.strip_blank_append blank]

theorem lineParts_append_blank {s tail : Str} (blank : Str.Blank tail) :
    lineParts (s ++ tail) = lineParts s := by
  induction count : s.length using Nat.strongRecOn generalizing s with
  | ind n inductionHypothesis =>
      by_cases zero : '\x00' ∈ s
      · obtain ⟨part, rest, rfl, noZero⟩ := List.eq_append_cons_of_mem zero
        rw [List.append_assoc, List.cons_append, lineParts_cons noZero, lineParts_cons noZero,
          inductionHypothesis rest.length (by simp [← count]; omega) rfl]
      · rw [lineParts_single (by simp [zero, not_mem_of_blank blank]), lineParts_single zero,
          Str.strip_append_blank blank]

/-- Trimming a line changes none of its parts. -/
theorem lineParts_strip (s : Str) : lineParts (Str.strip s) = lineParts s := by
  obtain ⟨front, tail, frontBlank, tailBlank, whole⟩ := Str.exists_blank_strip s
  conv_rhs => rw [whole]
  rw [List.append_assoc, lineParts_blank_append frontBlank, lineParts_append_blank tailBlank]

/-! ## Meanings of lines -/

section Meaning

variable (host : Host) (n : Nat)

/-- What a line comes to, its messages apart: none raises, `some none` passes
nothing. -/
def lineMeaning (l : Str) : Option (Option (List Str)) :=
  (lineValues host n ⟨[], []⟩ 0 l).toOption

/-- What a list of lines comes to: the value lists passed, and whether the end
is reached. -/
def meaning : List Str → List (List Str) × Bool
  | [] => ([], true)
  | l :: rest =>
      match lineMeaning host n l with
      | none => ([], false)
      | some none => meaning rest
      | some (some values) => (values :: (meaning rest).1, (meaning rest).2)

variable {host n}

theorem lineMeaning_eq (name : ReportName) (lineNo : Nat) (l : Str) :
    (lineValues host n name lineNo l).toOption = lineMeaning host n l := by
  unfold lineMeaning lineValues
  dsimp only
  split
  · cases assertValidSystemVersion host (Str.strip l) <;> simp [Except.map, Except.toOption]
  · split
    · split <;> simp [Except.toOption]
    · simp [Except.toOption]

variable (host n) in
theorem readReport_eq_meaning (name : ReportName) (lineNo validLines : Nat)
    (lines : List Str) :
    (readReport host n name lineNo validLines (lines.map some)).1 = (meaning host n lines).1 ∧
      (readReport host n name lineNo validLines (lines.map some)).2.isOk =
        (meaning host n lines).2 := by
  induction lines generalizing lineNo validLines with
  | nil => exact ⟨rfl, rfl⟩
  | cons l rest inductionHypothesis =>
      rw [List.map_cons, readReport, meaning, ← lineMeaning_eq name (lineNo + 1) l]
      cases lineValues host n name (lineNo + 1) l with
      | error failure => exact ⟨rfl, rfl⟩
      | ok values =>
          cases values with
          | none => exact inductionHypothesis _ _
          | some values =>
              obtain ⟨passed, ending⟩ := inductionHypothesis (lineNo + 1) (validLines + 1)
              exact ⟨congrArg (values :: ·) passed, ending⟩

theorem lineMeaning_congr {l m : Str} (same : Str.strip l = Str.strip m) :
    lineMeaning host n l = lineMeaning host n m := by
  simp only [lineMeaning, lineValues, same]

theorem lineMeaning_blank {l : Str} (blank : Str.Blank l) :
    lineMeaning host n l = some none := by
  have empty : Str.strip l = [] := Str.strip_eq_nil_iff.mpr blank
  simp [lineMeaning, lineValues, empty, Str.startsWith, Except.toOption]

theorem lineMeaning_comment {l : Str}
    (comment : Str.startsWith (Str.strip l) ['#'] = true) :
    lineMeaning host n l =
      if (assertValidSystemVersion host (Str.strip l)).isOk then some none else none := by
  simp only [lineMeaning, lineValues, comment, if_true]
  cases assertValidSystemVersion host (Str.strip l) <;> rfl

theorem lineMeaning_values {l : Str}
    (notComment : Str.startsWith (Str.strip l) ['#'] = false) (notBlank : ¬ Str.Blank l) :
    lineMeaning host n l =
      if (lineParts (Str.strip l)).length = n then some (some (lineParts (Str.strip l)))
      else none := by
  have nonempty : Str.strip l ≠ [] := fun empty => notBlank (Str.strip_eq_nil_iff.mp empty)
  simp only [lineMeaning, lineValues, notComment, Bool.false_eq_true, if_false, nonempty,
    ne_eq, not_false_eq_true, if_true, ite_not]
  split <;> rfl

theorem meaning_append (left right : List Str) :
    meaning host n (left ++ right) =
      if (meaning host n left).2 then
        ((meaning host n left).1 ++ (meaning host n right).1, (meaning host n right).2)
      else
        meaning host n left := by
  induction left with
  | nil => simp [meaning]
  | cons l rest inductionHypothesis =>
      rw [List.cons_append, meaning, meaning, inductionHypothesis]
      rcases result : lineMeaning host n l with _ | _ | values
      · simp
      · simp
      · dsimp only
        split <;> rfl

theorem meaning_filter_solid (lines : List Str) :
    meaning host n (lines.filter Str.solid) = meaning host n lines := by
  induction lines with
  | nil => rfl
  | cons l rest inductionHypothesis =>
      rw [List.filter_cons]
      split
      · rw [meaning, meaning, inductionHypothesis]
      · rename_i notSolid
        have blank : Str.Blank l := by simpa [Str.solid] using notSolid
        rw [inductionHypothesis, meaning, lineMeaning_blank blank]

end Meaning

/-! ## Whole reports -/

section Reports

variable {host : Host} {n : Nat}

theorem parts_of_lines (lines : List Str) :
    (lines.filter Str.solid).flatMap (fun line => (line.splitOn '\r').filter Str.solid) =
      lines.flatMap fun line => (line.splitOn '\r').filter Str.solid := by
  induction lines with
  | nil => rfl
  | cons line rest inductionHypothesis =>
      rw [List.filter_cons]
      split
      · rw [List.flatMap_cons, List.flatMap_cons, inductionHypothesis]
      · rename_i notSolid
        have blank : Str.Blank line := by simpa [Str.solid] using notSolid
        have none : (line.splitOn '\r').filter Str.solid = [] := by
          rw [List.filter_eq_nil_iff]
          intro part isPart
          have partBlank : Str.Blank part := fun c member =>
            blank c (mem_of_mem_splitOnP (p := (· == '\r')) isPart member)
          simp [Str.solid, partBlank]
        rw [inductionHypothesis, List.flatMap_cons, none, List.nil_append]

theorem forEach_recorder (calls : List (List Str × Nat)) (seen : List (List Str)) :
    Prog.Ends (Prog.forEach (fun call => recorder call.2 call.1) calls) seen ()
      (seen ++ calls.map Prod.fst) := by
  induction calls generalizing seen with
  | nil => simp [Prog.forEach]
  | cons call calls inductionHypothesis =>
      rw [Prog.forEach, Prog.ends_andThen_iff]
      refine ⟨(), seen ++ [call.1], ?_, ?_⟩
      · exact (Prog.ends_step_iff _ _ _).mpr rfl
      · simpa using inductionHypothesis (seen ++ [call.1])

variable (host n) in
theorem recorder_run (name : ReportName) (lines : List (Option Str)) :
    passedValues host n name lines = (readReport host n name 0 0 lines).1 ∧
      (Completes host n name lines ↔ (readReport host n name 0 0 lines).2.isOk = true) := by
  obtain ⟨ending, final⟩ :=
    forEach_recorder ((readReport host n name 0 0 lines).1.zipIdx) []
  have run : runFunForEachReportLine host n name recorder lines [] =
      ⟨(Prog.forEach (fun call : List Str × Nat => recorder call.2 call.1)
          ((readReport host n name 0 0 lines).1.zipIdx) []).states,
        (readReport host n name 0 0 lines).2⟩ := by
    rw [runFunForEachReportLine, reportLoop_eq]
    simp only [Prog.andThen, ending, Prog.tryReads_run, List.append_nil]
  constructor
  · rw [passedValues, run]
    have unzipped : (readReport host n name 0 0 lines).1.zipIdx.map Prod.fst =
        (readReport host n name 0 0 lines).1 := by simp
    rw [unzipped, List.nil_append] at final
    exact final
  · rw [Completes, run]

/-- The value lists of the validator's reading, by the lines of the text. -/
theorem binary_meaning (name : ReportName) (text : Str) :
    passedValues host n name (binaryLines (Utf8.encode text)) =
        (meaning host n (splitLines '\n' text)).1 ∧
      (Completes host n name (binaryLines (Utf8.encode text)) ↔
        (meaning host n (splitLines '\n' text)).2 = true) := by
  obtain ⟨passed, completes⟩ := recorder_run host n name
    (binaryLines (Utf8.encode text))
  rw [passed, completes, binaryLines, Utf8.splitLines_encode]
  obtain ⟨values, ending⟩ :=
    readReport_eq_meaning host n name 0 0 (splitLines '\n' text)
  rw [values, ending]
  exact ⟨rfl, Iff.rfl⟩

/-- The value lists of the extractor's reading, by the parts of those lines. -/
theorem text_meaning (name : ReportName) (text : Str) :
    passedValues host n name (textLines (Utf8.encode text)) =
        (meaning host n ((splitLines '\n' text).flatMap
          fun line => (line.splitOn '\r').filter Str.solid)).1 ∧
      (Completes host n name (textLines (Utf8.encode text)) ↔
        (meaning host n ((splitLines '\n' text).flatMap
          fun line => (line.splitOn '\r').filter Str.solid)).2 = true) := by
  obtain ⟨passed, completes⟩ := recorder_run host n name
    (textLines (Utf8.encode text))
  rw [passed, completes, textLines, Utf8.decode_encode]
  obtain ⟨values, ending⟩ := readReport_eq_meaning host n name 0 0
    (splitLines '\n' (Str.universalNewlines text))
  dsimp only
  rw [values, ending, ← meaning_filter_solid, Str.solid_lines_universalNewlines, parts_of_lines]
  exact ⟨rfl, Iff.rfl⟩

end Reports

/-! ## Reports of complete lines -/

/-- The two ways a report is read: the member of the archive, the extracted file. -/
inductive Reading where
  | validator
  | extractor

/-- The lines of a report in a reading. -/
def Reading.lines : Reading → List UInt8 → List (Option Str)
  | .validator => binaryLines
  | .extractor => textLines

/-- Both readings of the written lines pass these value lists and end without raising. -/
def ReadsAs (host : Host) (n : Nat) (lines : List Str) (expected : List (List Str)) : Prop :=
  ∀ (reading : Reading) (name : ReportName),
    passedValues host n name (reading.lines (Utf8.encode (unlines lines))) = expected ∧
      Completes host n name (reading.lines (Utf8.encode (unlines lines)))

/-- The line holds no line end. -/
def SingleLine (line : Str) : Prop := '\n' ∉ line ∧ '\r' ∉ line

instance (line : Str) : Decidable (SingleLine line) :=
  inferInstanceAs (Decidable (_ ∧ _))

/-- A reading of complete lines passes and raises as the lines do. -/
theorem reading_meaning {host : Host} {n : Nat} {lines : List Str}
    (single : ∀ line ∈ lines, SingleLine line) (reading : Reading) (name : ReportName) :
    passedValues host n name (reading.lines (Utf8.encode (unlines lines))) =
        (meaning host n lines).1 ∧
      (Completes host n name (reading.lines (Utf8.encode (unlines lines))) ↔
        (meaning host n lines).2 = true) := by
  have written : splitLines '\n' (unlines lines) = lines :=
    splitLines_unlines fun line member => (single line member).1
  have parts : (lines.flatMap fun line => (line.splitOn '\r').filter Str.solid) =
      lines.filter Str.solid := by
    rw [← List.flatMap_singleton' (lines.filter Str.solid), ← parts_of_lines]
    apply List.flatMap_congr
    intro line member
    obtain ⟨inLines, solid⟩ := List.mem_filter.mp member
    rw [List.splitOn_eq_singleton (single line inLines).2, List.filter_singleton, solid]
    rfl
  cases reading with
  | validator =>
      have binary := @binary_meaning host n name (unlines lines)
      rwa [written] at binary
  | extractor =>
      have text := @text_meaning host n name (unlines lines)
      rwa [written, parts, meaning_filter_solid] at text

theorem readsAs_iff {host : Host} {n : Nat} {lines : List Str} {expected : List (List Str)}
    (single : ∀ line ∈ lines, SingleLine line) :
    ReadsAs host n lines expected ↔ meaning host n lines = (expected, true) := by
  constructor
  · intro reads
    obtain ⟨passed, completes⟩ := reads .validator ⟨[], []⟩
    obtain ⟨passedMeaning, completesMeaning⟩ := reading_meaning single .validator ⟨[], []⟩
    exact Prod.ext (passedMeaning.symm.trans passed) (completesMeaning.mp completes)
  · intro same reading name
    obtain ⟨passed, completes⟩ := @reading_meaning host n _ single reading name
    rw [same] at passed completes
    exact ⟨passed, completes.mpr rfl⟩

end Myscm.Client
