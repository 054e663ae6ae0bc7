import Myscm.Client.ReportMeaning

/-!
Owns the comparison of the two readings of one report: the validator's of the
archive member and the extractor's of the extracted file.

Owns: when both pass the same value lists to the callback.

Does not own: what the values mean.
-/

namespace Myscm.Client

open Myscm.Library Myscm.Server

/-- The three reports of an image. -/
inductive Report where
  | added
  | changed
  | removed
  deriving DecidableEq

/-- How many values a line of the report holds. -/
def Report.valueCount : Report → Nat
  | .added => 2
  | .changed => propertiesCount
  | .removed => 2

/-- A line is read alike when at most one of its parts between carriage returns
holds text, or when the line and every such part are comments with satisfied
requirements. -/
def LineReadAlike (host : Host) (line : Str) : Prop :=
  ((line.splitOn '\r').filter Str.solid).length ≤ 1 ∨
    ∀ part ∈ line :: (line.splitOn '\r').filter Str.solid,
      Str.startsWith (Str.strip part) ['#'] = true ∧
        (assertValidSystemVersion host (Str.strip part)).isOk = true

/-- A report is read alike when it is UTF-8 and each of its lines is. -/
def ReadAlike (host : Host) (bytes : List UInt8) : Prop :=
  ∃ text, Utf8.decode bytes = some text ∧
    ∀ line ∈ splitLines '\n' text, LineReadAlike host line

/-! ## A line and its parts between carriage returns -/

/-- How many characters are not white space. -/
private def solidCount (s : Str) : Nat := s.countP fun c => !Str.isSpace c

private theorem solidCount_of_blank {s : Str} (blank : Str.Blank s) : solidCount s = 0 := by
  rw [solidCount, List.countP_eq_zero]
  intro c member
  simp [blank c member]

private theorem solidCount_pos {s : Str} (solid : Str.solid s = true) : 0 < solidCount s := by
  rw [solidCount, List.countP_pos_iff]
  by_contra none
  have blank : Str.Blank s := by
    intro c member
    by_contra notSpace
    exact none ⟨c, member, by simpa using notSpace⟩
  simp [Str.solid, blank] at solid

private theorem solidCount_strip (s : Str) : solidCount (Str.strip s) = solidCount s := by
  have left : ∀ t : Str, solidCount (Str.lstrip t) = solidCount t := by
    intro t
    have split := congrArg solidCount (List.takeWhile_append_dropWhile (p := Str.isSpace) (l := t))
    have front : solidCount (t.takeWhile Str.isSpace) = 0 :=
      solidCount_of_blank fun c member => List.mem_takeWhile_imp member
    rw [solidCount, List.countP_append] at split
    rw [Str.lstrip, ← split]
    simpa [solidCount] using front
  have right : ∀ t : Str, solidCount (Str.rstrip t) = solidCount t := by
    intro t
    have reversed := left t.reverse
    simpa [Str.rstrip, Str.lstrip, solidCount, List.rdropWhile] using reversed
  rw [Str.strip, right, left]

/-- A line has one part more than zero characters; the parts hold the rest of
its solid characters. -/
private theorem lineParts_count (s : Str) :
    (lineParts s).length = s.count '\x00' + 1 ∧
      ((lineParts s).map solidCount).sum + s.count '\x00' = solidCount s := by
  induction s with
  | nil => exact ⟨rfl, rfl⟩
  | cons c rest inductionHypothesis =>
      simp only [lineParts, List.splitOn_eq_splitOnP, List.map_map, List.length_map]
        at inductionHypothesis ⊢
      rw [List.splitOnP_cons_eq_if_modifyHead]
      have strips : ∀ t : Str, (solidCount ∘ Str.strip) t = solidCount t := solidCount_strip
      by_cases isZero : c = '\x00'
      · subst isZero
        have notSpace : Str.isSpace '\x00' = false := by decide
        simp only [beq_self_eq_true, if_true, List.length_cons, List.map_cons, List.sum_cons,
          List.count_cons_self, strips]
        refine ⟨by omega, ?_⟩
        have here : solidCount ('\x00' :: rest) = solidCount rest + 1 := by
          simp [solidCount, notSpace]
        have empty : solidCount [] = 0 := rfl
        omega
      · have notZero : (c == '\x00') = false := by simpa using isZero
        simp only [notZero, Bool.false_eq_true, if_false, List.count_cons_of_ne isZero]
        cases split : rest.splitOnP (· == '\x00') with
        | nil => exact absurd split (List.splitOnP_ne_nil _ rest)
        | cons piece pieces =>
            simp only [split, List.length_cons, List.map_cons, List.sum_cons, strips,
              List.modifyHead_cons] at inductionHypothesis ⊢
            refine ⟨by omega, ?_⟩
            have head : solidCount (c :: piece) + solidCount rest =
                solidCount (c :: rest) + solidCount piece := by
              simp only [solidCount, List.countP_cons]
              omega
            omega

/-- The first character that is not white space. -/
private def firstSolid (s : Str) : Option Char := s.find? fun c => !Str.isSpace c

private theorem startsWith_strip_iff (s : Str) (c : Char) :
    Str.startsWith (Str.strip s) [c] = true ↔ firstSolid s = some c := by
  have found : firstSolid s = (Str.lstrip s).head? := by
    rw [firstSolid, List.find?_eq_head?_dropWhile_not, Str.lstrip]
    simp
  have kept : (Str.strip s).head? = (Str.lstrip s).head? := by
    obtain ⟨tail, split⟩ := Str.isPrefix_rstrip (Str.lstrip s)
    cases stripped : Str.rstrip (Str.lstrip s) with
    | nil =>
        have blank := Str.rstrip_eq_nil_iff.mp stripped
        have empty : Str.lstrip s = [] :=
          Str.lstrip_eq_nil_iff.mpr (Str.blank_lstrip_iff.mp blank)
        rw [Str.strip, stripped, empty]
    | cons d rest =>
        rw [stripped] at split
        rw [Str.strip, stripped, ← split]
        rfl
  rw [found, ← kept]
  cases Str.strip s with
  | nil => simp [Str.startsWith]
  | cons d rest =>
      simp only [Str.startsWith, List.isPrefixOf, Bool.and_true, beq_iff_eq, List.head?_cons,
        Option.some.injEq]
      exact eq_comm

section Parts

variable (parts : List Str)

private theorem intercalate_cons (part : Str) {rest : List Str} (nonempty : rest ≠ []) :
    ['\r'].intercalate (part :: rest) = part ++ '\r' :: ['\r'].intercalate rest := by
  rw [List.intercalate_cons_of_ne_nil nonempty]
  simp

private theorem blank_intercalate (blank : ∀ part ∈ parts, Str.Blank part) :
    Str.Blank (['\r'].intercalate parts) := by
  induction parts with
  | nil => intro c member; simp at member
  | cons part rest inductionHypothesis =>
      by_cases empty : rest = []
      · rw [empty]
        simpa using blank part (by simp)
      · rw [intercalate_cons part empty]
        intro c member
        rcases List.mem_append.mp member with inPart | later
        · exact blank part (by simp) c inPart
        · rcases List.mem_cons.mp later with rfl | inRest
          · decide
          · exact inductionHypothesis (fun other isOther => blank other (by simp [isOther])) c
              inRest

private theorem blank_of_filter_nil (none : parts.filter Str.solid = []) :
    ∀ part ∈ parts, Str.Blank part := by
  intro part member
  have notSolid := List.filter_eq_nil_iff.mp none part member
  simpa [Str.solid] using notSolid

private theorem strip_intercalate {part : Str} (single : parts.filter Str.solid = [part]) :
    Str.strip (['\r'].intercalate parts) = Str.strip part := by
  induction parts with
  | nil => cases single
  | cons first rest inductionHypothesis =>
      rw [List.filter_cons] at single
      split at single
      · obtain ⟨rfl, none⟩ := List.cons.inj single
        have restBlank := blank_intercalate rest (blank_of_filter_nil rest none)
        by_cases empty : rest = []
        · simp [empty]
        · rw [intercalate_cons first empty]
          apply Str.strip_append_blank
          intro c member
          rcases List.mem_cons.mp member with rfl | inRest
          · decide
          · exact restBlank c inRest
      · rename_i notSolid
        have firstBlank : Str.Blank first := by simpa [Str.solid] using notSolid
        have nonempty : rest ≠ [] := by
          rintro rfl
          cases single
        rw [intercalate_cons first nonempty, Str.strip_blank_append firstBlank,
          show '\r' :: ['\r'].intercalate rest = ['\r'] ++ ['\r'].intercalate rest from rfl,
          Str.strip_blank_append (by decide), inductionHypothesis single]

private theorem firstSolid_intercalate :
    firstSolid (['\r'].intercalate parts) = (parts.filter Str.solid).head?.bind firstSolid := by
  induction parts with
  | nil => rfl
  | cons first rest inductionHypothesis =>
      have front : firstSolid (['\r'].intercalate (first :: rest)) =
          (firstSolid first).or (firstSolid (['\r'].intercalate rest)) := by
        by_cases empty : rest = []
        · subst empty
          simp [firstSolid]
        · rw [intercalate_cons first empty]
          have space : Str.isSpace '\r' = true := by decide
          simp [firstSolid, List.find?_append, space]
      rw [front, inductionHypothesis, List.filter_cons]
      cases found : firstSolid first with
      | none =>
          have blank : Str.Blank first := by
            intro c member
            have := List.find?_eq_none.mp found c member
            simpa using this
          simp [Str.solid, blank]
      | some c =>
          have notBlank : ¬ Str.Blank first := by
            intro blank
            have here := List.find?_some found
            simp [blank c (List.mem_of_find?_eq_some found)] at here
          simp [Str.solid, notBlank, found]

private theorem solidCount_intercalate :
    solidCount (['\r'].intercalate parts) = ((parts.filter Str.solid).map solidCount).sum := by
  induction parts with
  | nil => rfl
  | cons first rest inductionHypothesis =>
      have front : solidCount (['\r'].intercalate (first :: rest)) =
          solidCount first + solidCount (['\r'].intercalate rest) := by
        by_cases empty : rest = []
        · subst empty
          simp [solidCount]
        · rw [intercalate_cons first empty]
          have space : Str.isSpace '\r' = true := by decide
          simp [solidCount, List.countP_append, space]
      rw [front, inductionHypothesis, List.filter_cons]
      split
      · simp
      · rename_i notSolid
        have blank : Str.Blank first := by simpa [Str.solid] using notSolid
        rw [solidCount_of_blank blank, Nat.zero_add]

end Parts

/-! ## One line, both ways -/

section OneLine

variable {host : Host} {n : Nat} {line : Str}

private theorem line_eq_intercalate (line : Str) :
    ['\r'].intercalate (line.splitOn '\r') = line :=
  List.intercalate_splitOn '\r'

/-- A comment that passes nothing had its requirements satisfied. -/
private theorem isOk_of_comment {l : Str}
    (comment : Str.startsWith (Str.strip l) ['#'] = true)
    (reached : lineMeaning host n l ≠ none) :
    (assertValidSystemVersion host (Str.strip l)).isOk = true := by
  rw [lineMeaning_comment comment] at reached
  by_contra notOk
  simp [notOk] at reached

/-- A line read alike passes what its parts pass. -/
private theorem meaning_of_lineReadAlike (alike : LineReadAlike host line) :
    meaning host n [line] = meaning host n ((line.splitOn '\r').filter Str.solid) := by
  rcases alike with single | comments
  · match found : (line.splitOn '\r').filter Str.solid with
    | [] =>
        have blank : Str.Blank line := by
          rw [← line_eq_intercalate line]
          exact blank_intercalate _ (blank_of_filter_nil _ found)
        simp [meaning, lineMeaning_blank blank]
    | [part] =>
        have same : Str.strip line = Str.strip part := by
          rw [← strip_intercalate _ found, line_eq_intercalate]
        simp [meaning, lineMeaning_congr same]
    | _ :: _ :: _ =>
        rw [found] at single
        simp at single
  · have passNothing : ∀ parts : List Str,
        (∀ part ∈ parts, Str.startsWith (Str.strip part) ['#'] = true ∧
          (assertValidSystemVersion host (Str.strip part)).isOk = true) →
        meaning host n parts = ([], true) := by
      intro parts
      induction parts with
      | nil => exact fun _ => rfl
      | cons part rest inductionHypothesis =>
          intro all
          obtain ⟨comment, satisfied⟩ := all part (by simp)
          rw [meaning, lineMeaning_comment comment, if_pos satisfied]
          exact inductionHypothesis fun other member => all other (by simp [member])
    rw [passNothing [line] fun part member => comments part (by simp_all),
      passNothing _ fun part member => comments part (by simp [member])]

/-- A solid line that passes nothing is a satisfied comment. -/
private theorem comment_of_passes_nothing {l : Str} (isSolid : Str.solid l = true)
    (passed : lineMeaning host n l = some none) :
    Str.startsWith (Str.strip l) ['#'] = true ∧
      (assertValidSystemVersion host (Str.strip l)).isOk = true := by
  have notBlank : ¬ Str.Blank l := by
    intro blank
    simp [Str.solid, blank] at isSolid
  cases comment : Str.startsWith (Str.strip l) ['#'] with
  | true => exact ⟨rfl, isOk_of_comment (n := n) comment (by simp [passed])⟩
  | false =>
      rw [lineMeaning_values comment notBlank] at passed
      split at passed <;> cases passed

private theorem comments_of_pass_nothing {parts : List Str}
    (allSolid : ∀ part ∈ parts, Str.solid part = true)
    (passed : meaning host n parts = ([], true)) :
    ∀ part ∈ parts, Str.startsWith (Str.strip part) ['#'] = true ∧
      (assertValidSystemVersion host (Str.strip part)).isOk = true := by
  induction parts with
  | nil => simp
  | cons part rest inductionHypothesis =>
      rw [meaning] at passed
      rcases result : lineMeaning host n part with _ | _ | values
      · simp [result] at passed
      · simp only [result] at passed
        intro other member
        rcases List.mem_cons.mp member with rfl | later
        · exact comment_of_passes_nothing (allSolid _ (by simp)) result
        · exact inductionHypothesis (fun p isPart => allSolid p (by simp [isPart])) passed
            other later
      · simp [result] at passed

/-- The parts of a line that passes values pass values too. -/
private theorem passed_of_parts {values : List Str}
    (passed : lineMeaning host n line = some (some values))
    (reached : (meaning host n ((line.splitOn '\r').filter Str.solid)).2 = true) :
    values = lineParts (Str.strip line) ∧
      ∃ part rest, (line.splitOn '\r').filter Str.solid = part :: rest ∧
        (meaning host n ((line.splitOn '\r').filter Str.solid)).1 =
          lineParts (Str.strip part) :: (meaning host n rest).1 ∧
        (lineParts (Str.strip part)).length = (lineParts (Str.strip line)).length := by
  have notBlank : ¬ Str.Blank line := by
    intro blank
    rw [lineMeaning_blank blank] at passed
    cases passed
  have notComment : Str.startsWith (Str.strip line) ['#'] = false := by
    by_contra comment
    rw [Bool.not_eq_false] at comment
    rw [lineMeaning_comment comment] at passed
    split at passed <;> cases passed
  rw [lineMeaning_values notComment notBlank] at passed
  split at passed
  · rename_i lineLength
    cases passed
    refine ⟨rfl, ?_⟩
    cases found : (line.splitOn '\r').filter Str.solid with
    | nil =>
        refine absurd ?_ notBlank
        rw [← line_eq_intercalate line]
        exact blank_intercalate _ (blank_of_filter_nil _ found)
    | cons part rest =>
        have isSolid : Str.solid part = true := by
          have member : part ∈ (line.splitOn '\r').filter Str.solid := by simp [found]
          exact (List.mem_filter.mp member).2
        have partNotBlank : ¬ Str.Blank part := by
          intro blank
          simp [Str.solid, blank] at isSolid
        have sameFirst : firstSolid line = firstSolid part := by
          rw [← line_eq_intercalate line, firstSolid_intercalate, found]
          rfl
        have partNotComment : Str.startsWith (Str.strip part) ['#'] = false := by
          by_contra comment
          rw [Bool.not_eq_false, startsWith_strip_iff, ← sameFirst, ← startsWith_strip_iff,
            notComment] at comment
          cases comment
        refine ⟨part, rest, rfl, ?_⟩
        rw [found, meaning, lineMeaning_values partNotComment partNotBlank] at reached
        rw [meaning, lineMeaning_values partNotComment partNotBlank]
        by_cases partLength : (lineParts (Str.strip part)).length = n
        · rw [if_pos partLength]
          exact ⟨rfl, partLength.trans lineLength.symm⟩
        · rw [if_neg partLength] at reached
          cases reached
  · cases passed

/-- Where a line and its parts reach the end, the parts pass at least as much. -/
private theorem length_passed_le {passed : List (List Str)}
    (lineReached : meaning host n [line] = (passed, true))
    (reached : (meaning host n ((line.splitOn '\r').filter Str.solid)).2 = true) :
    passed.length ≤ (meaning host n ((line.splitOn '\r').filter Str.solid)).1.length := by
  rw [meaning] at lineReached
  rcases result : lineMeaning host n line with _ | _ | values
  · simp [result] at lineReached
  · simp only [result, meaning, Prod.mk.injEq, and_true] at lineReached
    simp [← lineReached]
  · obtain ⟨_, part, rest, _, parts, _⟩ := passed_of_parts result reached
    simp only [result, meaning, Prod.mk.injEq, and_true] at lineReached
    simp [← lineReached, parts]

/-- A line that reaches the end and passes what its parts pass is read alike. -/
private theorem lineReadAlike_of_meaning
    (lineReached : (meaning host n [line]).2 = true)
    (same : meaning host n [line] = meaning host n ((line.splitOn '\r').filter Str.solid)) :
    LineReadAlike host line := by
  have reached := lineReached
  rw [same] at reached
  by_contra notAlike
  simp only [LineReadAlike, not_or, Nat.not_le] at notAlike
  obtain ⟨several, notComments⟩ := notAlike
  rcases result : lineMeaning host n line with _ | _ | values
  · simp [meaning, result] at lineReached
  · -- the line passes nothing, so it is a comment and so is every part
    have isSolid : Str.solid line = true := by
      cases found : (line.splitOn '\r').filter Str.solid with
      | nil => simp [found] at several
      | cons part rest =>
          have member : part ∈ (line.splitOn '\r').filter Str.solid := by simp [found]
          obtain ⟨isPart, partSolid⟩ := List.mem_filter.mp member
          have positive := solidCount_pos partSolid
          have counts := solidCount_intercalate (line.splitOn '\r')
          rw [line_eq_intercalate, found, List.map_cons, List.sum_cons] at counts
          by_contra notSolid
          have blank : Str.Blank line := by simpa [Str.solid] using notSolid
          rw [solidCount_of_blank blank] at counts
          omega
    have passedNothing : meaning host n ((line.splitOn '\r').filter Str.solid) =
        ([], true) := by
      rw [← same]
      simp [meaning, result]
    apply notComments
    intro part member
    rcases List.mem_cons.mp member with rfl | isPart
    · exact comment_of_passes_nothing isSolid result
    · exact comments_of_pass_nothing (fun p inParts => (List.mem_filter.mp inParts).2)
        passedNothing part isPart
  · -- the line passes values that hold more than those of the first part
    obtain ⟨isParts, part, rest, found, parts, sameLength⟩ := passed_of_parts result reached
    have samePassed := congrArg Prod.fst same
    simp only [meaning, result, parts, List.cons.injEq] at samePassed
    obtain ⟨sameValues, _⟩ := samePassed
    rw [isParts] at sameValues
    have lineCounts := lineParts_count (Str.strip line)
    have partCounts := lineParts_count (Str.strip part)
    rw [solidCount_strip] at lineCounts partCounts
    have lineSolid : solidCount line =
        (((line.splitOn '\r').filter Str.solid).map solidCount).sum := by
      rw [← solidCount_intercalate, line_eq_intercalate]
    rw [found] at several lineSolid
    cases rest with
    | nil => simp at several
    | cons second others =>
        have secondSolid : Str.solid second = true := by
          have member : second ∈ (line.splitOn '\r').filter Str.solid := by simp [found]
          exact (List.mem_filter.mp member).2
        have positive := solidCount_pos secondSolid
        simp only [List.map_cons, List.sum_cons] at lineSolid
        rw [sameValues] at lineCounts
        omega

end OneLine

/-! ## Whole reports -/

section Reports

variable {host : Host} {n : Nat}

private theorem meaning_cons (line : Str) (rest : List Str) :
    meaning host n (line :: rest) =
      if (meaning host n [line]).2 then
        ((meaning host n [line]).1 ++ (meaning host n rest).1, (meaning host n rest).2)
      else
        meaning host n [line] :=
  meaning_append [line] rest

private theorem meaning_flatMap_of_alike {lines : List Str}
    (alike : ∀ line ∈ lines, LineReadAlike host line) :
    meaning host n lines =
      meaning host n (lines.flatMap fun line => (line.splitOn '\r').filter Str.solid) := by
  induction lines with
  | nil => rfl
  | cons line rest inductionHypothesis =>
      rw [List.flatMap_cons, meaning_append, meaning_cons,
        meaning_of_lineReadAlike (alike line (by simp)),
        inductionHypothesis fun other member => alike other (by simp [member])]

private theorem length_flatMap_passed_le {lines : List Str}
    (reached : (meaning host n lines).2 = true)
    (partsReached : (meaning host n
      (lines.flatMap fun line => (line.splitOn '\r').filter Str.solid)).2 = true) :
    (meaning host n lines).1.length ≤
        (meaning host n
          (lines.flatMap fun line => (line.splitOn '\r').filter Str.solid)).1.length ∧
      ((meaning host n lines).1 =
          (meaning host n
            (lines.flatMap fun line => (line.splitOn '\r').filter Str.solid)).1 →
        ∀ line ∈ lines, LineReadAlike host line) := by
  induction lines with
  | nil => simp [meaning]
  | cons line rest inductionHypothesis =>
      rw [meaning_cons] at reached ⊢
      rw [List.flatMap_cons, meaning_append] at partsReached ⊢
      by_cases lineReached : (meaning host n [line]).2 = true
      · by_cases lineParts :
          (meaning host n ((line.splitOn '\r').filter Str.solid)).2 = true
        · rw [if_pos lineReached] at reached ⊢
          rw [if_pos lineParts] at partsReached ⊢
          obtain ⟨restLength, restAlike⟩ := inductionHypothesis reached partsReached
          have lineLength := length_passed_le
            (show meaning host n [line] = ((meaning host n [line]).1, true) by
              rw [← lineReached]) lineParts
          dsimp only at restLength ⊢
          refine ⟨by simp only [List.length_append]; omega, ?_⟩
          intro same
          have sameLengths := congrArg List.length same
          simp only [List.length_append] at sameLengths
          obtain ⟨sameLine, sameRest⟩ := List.append_inj same (by omega)
          intro other member
          rcases List.mem_cons.mp member with rfl | later
          · exact lineReadAlike_of_meaning lineReached
              (Prod.ext sameLine (lineReached.trans lineParts.symm))
          · exact restAlike sameRest other later
        · rw [if_neg lineParts] at partsReached
          exact absurd partsReached lineParts
      · rw [if_neg lineReached] at reached
        exact absurd reached lineReached

/-- A report whose validator reading completes is UTF-8. -/
private theorem exists_text_of_completes {name : ReportName} {bytes : List UInt8}
    (completes : Completes host n name (binaryLines bytes)) : ∃ text, bytes = Utf8.encode text := by
  apply Utf8.exists_encode_of_lines
  obtain ⟨_, reached⟩ := recorder_run host n name (binaryLines bytes)
  rw [reached, binaryLines] at completes
  have allDecode : ∀ (lines : List (Option Str)) (lineNo validLines : Nat),
      (readReport host n name lineNo validLines lines).2.isOk = true →
        ∀ line ∈ lines, line.isSome = true := by
    intro lines
    induction lines with
    | nil => simp
    | cons line rest inductionHypothesis =>
        intro lineNo validLines isOk
        cases line with
        | none => cases isOk
        | some l =>
            rw [readReport] at isOk
            intro other member
            rcases List.mem_cons.mp member with rfl | later
            · rfl
            · rcases result : lineValues host n name (lineNo + 1) l with _ | _ | values
              · rw [result] at isOk
                cases isOk
              · rw [result] at isOk
                exact inductionHypothesis _ _ isOk other later
              · rw [result] at isOk
                exact inductionHypothesis _ _ isOk other later
  intro line member
  exact allDecode _ _ _ completes _ (List.mem_map_of_mem member)

end Reports

/-- A local machine as the images below ask for it. -/
def exampleHost : Host where
  system := "Linux".toList
  distroName := "Gentoo".toList
  machine := "x86_64".toList
  lower := id

end Myscm.Client
