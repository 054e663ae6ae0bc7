import Mathlib.Data.List.Perm.Subperm
import Myscm.Server.AideCheckParser

/-!
Owns what is read from an AIDE `--check` report: how a summary line splits, and
what a well-formed report gives for each of its sections.

Owns: `AideReport` with its lines; the split of a line whose info string holds no
separator; the sections of a report; a section whose title is repeated.

Does not own: AIDE databases.
-/

namespace Myscm.Server

open Myscm.Library

namespace AIDECheckParser

/-! ## Summary lines -/

/-- The size marks of the third column of an info string. -/
def sizeMarks : List Char := ['=', '<', '>']

/-- An info string as AIDE writes it. -/
structure SummaryInfo where
  text : Str
  text_length : text.length = aideInfoStrPattern.length
  ftype : FileType
  ftype_value : text.head? = some ftype.value
  allowed : ∀ c ∈ text.tail,
    c ∈ aideInfoStrPattern ∨ c ∈ sizeMarks ∨ c ∈ AIDEEntry.allowedInfoStrChars

/-- An absolute path on one line. -/
structure LinePath where
  text : Str
  absolute : text.head? = some '/'
  single : '\n' ∉ text

/-- A summary line. -/
def summaryLine (info path : Str) : Str := info ++ ':' :: ' ' :: (path ++ ['\n'])

private theorem head?_ways_simpleEntry {front gap body : Str} (noColon : ':' ∉ front)
    (single : '\n' ∉ front) (start : ∀ c ∈ front.head?, Str.isSpace c = false)
    (blank : Str.Blank gap) (bodyStart : ∃ c ∈ body.head?, Str.isSpace c = false)
    (bodySingle : '\n' ∉ body) :
    (simpleEntryRegex.ways (front ++ ':' :: (gap ++ (body ++ ['\n'])))).head? =
      some ([front, body], []) := by
  obtain ⟨c, isHead, solid⟩ := bodyStart
  have bodyHead : (body ++ ['\n']).head? = some c := by
    rw [List.head?_append, Option.mem_def.mp isHead]
    rfl
  have line : ∀ {s : Str}, '\n' ∉ s → ∀ d ∈ s, decide (d ≠ '\n') = true :=
    fun noEnd d member => decide_eq_true fun isEnd => noEnd (isEnd ▸ member)
  have behind : ((Regex.seq (.group (.many 0 (· ≠ '\n'))) (.many 0 Str.isSpace)).ways
      (body ++ ['\n'])).head? = some ([body], []) := by
    apply @Regex.head?_ways_seq _ _ _ ([body], ['\n']) ([], [])
    · exact Regex.head?_ways_group_many (Nat.zero_le _) (line bodySingle) (by simp)
    · exact @Regex.head?_ways_many Str.isSpace ['\n'] [] 0 (Nat.zero_le _) (by decide) (by simp)
  have rest : ((Regex.seq (.many 0 Str.isSpace) <|
      .seq (.group (.many 0 (· ≠ '\n'))) (.many 0 Str.isSpace)).ways
        (gap ++ (body ++ ['\n']))).head? = some ([body], []) := by
    apply @Regex.head?_ways_seq _ _ _ ([], body ++ ['\n']) ([body], []) _ behind
    apply Regex.head?_ways_many (Nat.zero_le _) blank
    intro d isFirst
    rw [bodyHead, Option.mem_some_iff] at isFirst
    rw [← isFirst]
    exact solid
  have colon : ((Regex.seq (.one (· = ':')) <| .seq (.many 0 Str.isSpace) <|
      .seq (.group (.many 0 (· ≠ '\n'))) (.many 0 Str.isSpace)).ways
        (':' :: (gap ++ (body ++ ['\n'])))).head? = some ([body], []) := by
    apply @Regex.head?_ways_seq _ _ _ ([], gap ++ (body ++ ['\n'])) ([body], []) _ rest
    rw [Regex.ways_one_cons (by decide)]
    rfl
  have split := Regex.head?_ways_group_few_seq (line single)
    (fun d member later => by
      have differs : d ≠ ':' := fun isColon => noColon (isColon ▸ member)
      simp [Regex.ways_seq, Regex.ways_one, differs]) colon
  apply @Regex.head?_ways_seq _ _ _ ([], _) _ _ split
  rw [Regex.ways_many_of_stop]
  · rfl
  · intro d isFirst
    cases front with
    | nil =>
        obtain rfl : ':' = d := by simpa using isFirst
        decide
    | cons e later => exact start d (by simpa using isFirst)

/-- The line up to the first colon is the info, and what follows without the blanks before
it is the path. -/
theorem getSimpleAideEntry_split {front gap body : Str} (noColon : ':' ∉ front)
    (single : '\n' ∉ front) (start : ∀ c ∈ front.head?, Str.isSpace c = false)
    (blank : Str.Blank gap) (bodyStart : ∃ c ∈ body.head?, Str.isSpace c = false)
    (bodySingle : '\n' ∉ body) :
    getSimpleAideEntry (front ++ ':' :: (gap ++ (body ++ ['\n']))) = .ok ⟨front, body⟩ := by
  rw [getSimpleAideEntry, Regex.fullmatch_of_head?
    (head?_ways_simpleEntry noColon single start blank bodyStart bodySingle)]

private theorem ftype_visible (ftype : FileType) : Str.isSpace ftype.value = false := by
  cases ftype <;> decide

/-- The first character of an info string is not blank. -/
theorem SummaryInfo.start (info : SummaryInfo) :
    ∀ c ∈ info.text.head?, Str.isSpace c = false := by
  intro c isHead
  rw [info.ftype_value, Option.mem_some_iff] at isHead
  rw [← isHead]
  exact ftype_visible info.ftype

theorem SummaryInfo.single (info : SummaryInfo) : '\n' ∉ info.text := by
  obtain ⟨text, _, ftype, isFirst, allowed⟩ := info
  intro member
  cases text with
  | nil => exact absurd member List.not_mem_nil
  | cons c later =>
      obtain rfl : c = ftype.value := by simpa using isFirst
      rcases List.mem_cons.mp member with isType | inTail
      · cases ftype <;> exact absurd isType (by decide)
      · rcases allowed '\n' inTail with letter | mark | character
        · exact absurd letter (by decide)
        · exact absurd mark (by decide)
        · exact absurd character (by decide)

theorem LinePath.bodyStart (path : LinePath) :
    ∃ c ∈ path.text.head?, Str.isSpace c = false :=
  ⟨'/', path.absolute, by decide⟩

/-- A line whose info holds no colon splits behind it. -/
theorem getSimpleAideEntry_summaryLine {info : Str} {path : LinePath} (noColon : ':' ∉ info)
    (single : '\n' ∉ info) (start : ∀ c ∈ info.head?, Str.isSpace c = false) :
    getSimpleAideEntry (summaryLine info path.text) = .ok ⟨info, path.text⟩ :=
  @getSimpleAideEntry_split _ [' '] _ noColon single start (by decide) path.bodyStart path.single

/-- A summary line splits into its info string and its path just where the info string holds
no colon: the lazy group ends at the first one. -/
theorem getSimpleAideEntry_iff (info : SummaryInfo) (path : LinePath) :
    getSimpleAideEntry (summaryLine info.text path.text) = .ok ⟨info.text, path.text⟩ ↔
      ':' ∉ info.text := by
  constructor
  · intro read colon
    obtain ⟨front, later, split, noColon⟩ := List.eq_append_cons_of_mem colon
    have infoSingle := info.single
    have infoStart := info.start
    rw [split] at infoSingle infoStart
    obtain ⟨gap, blank, behind⟩ := Str.exists_blank_lstrip (later ++ ':' :: ' ' :: path.text)
    have visible : ∃ c ∈ (Str.lstrip (later ++ ':' :: ' ' :: path.text)).head?,
        Str.isSpace c = false := by
      cases stripped : Str.lstrip (later ++ ':' :: ' ' :: path.text) with
      | nil =>
          have allBlank := Str.lstrip_eq_nil_iff.mp stripped
          exact absurd (allBlank ':' (by simp)) (by decide)
      | cons c rest =>
          exact ⟨c, rfl, Str.head?_lstrip_not_space c (by rw [stripped]; rfl)⟩
    have bodySingle : '\n' ∉ Str.lstrip (later ++ ':' :: ' ' :: path.text) := by
      intro member
      have inside := (Str.lstrip_suffix _).subset member
      rw [List.mem_append, List.mem_cons, List.mem_cons] at inside
      rcases inside with inInfo | isColon | isBlank | inPath
      · exact infoSingle (by simp [inInfo])
      · exact absurd isColon (by decide)
      · exact absurd isBlank (by decide)
      · exact path.single inPath
    have line : summaryLine info.text path.text =
        front ++ ':' :: (gap ++ (Str.lstrip (later ++ ':' :: ' ' :: path.text) ++ ['\n'])) := by
      rw [← List.append_assoc gap, ← behind, summaryLine, split]
      simp
    have start : ∀ c ∈ front.head?, Str.isSpace c = false := by
      intro c isHead
      apply infoStart
      rw [List.head?_append, Option.mem_def.mp isHead]
      rfl
    rw [line, getSimpleAideEntry_split noColon (fun member => infoSingle (by simp [member])) start
      blank visible bodySingle] at read
    have sameInfo : front = info.text := congrArg AIDESimpleEntry.aideInfoStr (Except.ok.inj read)
    rw [sameInfo] at noColon
    exact noColon colon
  · intro noColon
    exact getSimpleAideEntry_summaryLine noColon info.single info.start

/-- A changed file with an attribute that AIDE was told to ignore. -/
def ignoredAttribute : SummaryInfo :=
  ⟨"f.=:.............".toList, by decide, .regularFile, by decide, by decide⟩

/-- The root of the tree. -/
def rootPath : LinePath := ⟨['/'], by decide, by decide⟩

theorem getSimpleAideEntry_ignoredAttribute :
    getSimpleAideEntry (summaryLine ignoredAttribute.text rootPath.text) ≠
      .ok ⟨ignoredAttribute.text, rootPath.text⟩ := by
  decide

/-! ## Sections -/

/-- A line of a section. Its info, which starts with the file type, holds no colon. -/
structure ReportLine where
  info : Str
  path : LinePath
  noColon : ':' ∉ info
  single : '\n' ∉ info
  start : ∀ c ∈ info.head?, Str.isSpace c = false

namespace ReportLine

def text (line : ReportLine) : Str := summaryLine line.info line.path.text

def entry (line : ReportLine) : AIDESimpleEntry := ⟨line.info, line.path.text⟩

theorem read (line : ReportLine) : getSimpleAideEntry line.text = .ok line.entry :=
  getSimpleAideEntry_summaryLine line.noColon line.single line.start

theorem not_empty (line : ReportLine) : line.text ≠ ['\n'] := by
  intro isEmpty
  have colon : ':' ∈ line.text := by simp [text, summaryLine]
  rw [isEmpty] at colon
  exact absurd colon (by decide)

end ReportLine

/-- A section of a report. -/
structure ReportSection where
  type : EntryType
  blanks : Nat
  first : ReportLine
  later : List ReportLine

namespace ReportSection

/-- The lines that list entries. -/
def listed (part : ReportSection) : List ReportLine := part.first :: part.later

/-- The lines behind the title. -/
def body (part : ReportSection) : List Str :=
  aideSeparator :: (List.replicate part.blanks ['\n'] ++ (part.listed.map ReportLine.text ++ [['\n']]))

def lines (part : ReportSection) : List Str :=
  aideSeparator :: title part.type :: part.body

/-- The entries of the section by path. The last line of a path counts. -/
def entries (part : ReportSection) : Dict Str AIDESimpleEntry :=
  .ofPairs (part.listed.map fun line => (line.path.text, line.entry))

end ReportSection

/-- What a report starts with: lines in front, and sections of different types. -/
structure ReportFront where
  preamble : List Str
  sections : List ReportSection
  noSeparator : aideSeparator ∉ preamble
  distinct : (sections.map ReportSection.type).Nodup

namespace ReportFront

def lines (front : ReportFront) : List Str :=
  front.preamble ++ front.sections.flatMap ReportSection.lines

/-- The entry of a path in the section of a type: the last line of the path counts. -/
def entry? (front : ReportFront) (type : EntryType) (path : Str) : Option AIDESimpleEntry :=
  (front.sections.find? fun part => part.type = type).bind fun part =>
    (part.listed.reverse.find? fun line => line.path.text = path).map ReportLine.entry

end ReportFront

/-- A well-formed report. -/
structure AideReport extends ReportFront where
  closing : Str
  isClosing : closing = filesAttrs ∨ closing = detailedInfo
  details : List Str

namespace AideReport

def lines (report : AideReport) : List Str :=
  report.toReportFront.lines ++ aideSeparator :: report.closing :: report.details

end AideReport

theorem title_injective {type other : EntryType} (same : title type = title other) :
    type = other := by
  cases type <;> cases other <;> first | rfl | exact absurd same (by decide)

theorem readToLineFrom_append {searchedLine : Str} {front : List Str} (rest : List Str)
    (readLines : Nat) (missing : searchedLine ∉ front) :
    readToLineFrom searchedLine readLines (front ++ searchedLine :: rest) =
      (readLines + front.length + 1, rest) := by
  induction front generalizing readLines with
  | nil => simp [readToLineFrom]
  | cons line front inductionHypothesis =>
      rw [List.mem_cons, not_or] at missing
      rw [List.cons_append, readToLineFrom, if_neg (Ne.symm missing.1),
        inductionHypothesis _ missing.2, List.length_cons]
      congr 1
      omega

theorem readUntilEmptyLine_lines (listed : List ReportLine) (d : Dict Str AIDESimpleEntry)
    (rest : List Str) :
    readUntilEmptyLine d (listed.map ReportLine.text ++ ['\n'] :: rest) =
      .ok (listed.foldl (fun d line => d.set line.path.text line.entry) d, rest) := by
  induction listed generalizing d with
  | nil => simp [readUntilEmptyLine]
  | cons line listed inductionHypothesis =>
      rw [List.map_cons, List.cons_append, readUntilEmptyLine, if_pos line.not_empty, line.read]
      exact inductionHypothesis _

theorem createSimpleEntries_body (part : ReportSection) (rest : List Str) :
    createSimpleEntriesFromLinesUpToNewLine
        (List.replicate part.blanks ['\n'] ++ (part.listed.map ReportLine.text ++ ['\n'] :: rest)) =
      .ok (part.entries, rest) := by
  induction part.blanks with
  | zero =>
      rw [List.replicate_zero, List.nil_append, ReportSection.listed, List.map_cons,
        List.cons_append, createSimpleEntriesFromLinesUpToNewLine, if_pos part.first.not_empty,
        part.first.read]
      show readUntilEmptyLine _ _ = _
      rw [readUntilEmptyLine_lines, ReportSection.entries, Dict.ofPairs, ReportSection.listed,
        List.map_cons, List.foldl_cons, List.foldl_map]
      rfl
  | succ blanks inductionHypothesis =>
      rw [List.replicate_succ, List.cons_append, createSimpleEntriesFromLinesUpToNewLine,
        if_neg (by simp)]
      exact inductionHypothesis

/-! ## Turns of the loop -/

section Turns

variable {expected : Dict Str EntryType} {entries : AIDEEntries AIDESimpleEntry}

/-- A turn that finds a section reads just that section. -/
theorem setEntriesTurns_section {preamble : List Str} (noSeparator : aideSeparator ∉ preamble)
    {part : ReportSection} (awaited : expected.get? (title part.type) = some part.type)
    (turns : Nat) (rest : List Str) :
    setEntriesTurns (turns + 1) expected entries (preamble ++ (part.lines ++ rest)) =
      setEntriesTurns turns (expected.erase (title part.type))
        (entries.setOf part.type part.entries) rest := by
  have split : preamble ++ (part.lines ++ rest) =
      preamble ++ aideSeparator :: title part.type :: aideSeparator ::
        (List.replicate part.blanks ['\n'] ++ (part.listed.map ReportLine.text ++ ['\n'] :: rest)) := by
    simp [ReportSection.lines, ReportSection.body]
  rw [split, setEntriesTurns, readToLine, readToLineFrom_append _ _ noSeparator]
  dsimp only
  rw [awaited]
  dsimp only
  rw [readAssertNextLines, if_neg (by simp), readAssertNextLines]
  show (createSimpleEntriesFromLinesUpToNewLine _ >>= _) = _
  rw [createSimpleEntries_body]
  rfl

/-- A turn that finds a title it does not await. -/
theorem setEntriesTurns_other {preamble : List Str} (noSeparator : aideSeparator ∉ preamble)
    {line : Str} (unawaited : expected.get? line = none) (turns : Nat) (rest : List Str) :
    setEntriesTurns (turns + 1) expected entries (preamble ++ aideSeparator :: line :: rest) =
      if line = filesAttrs ∨ line = detailedInfo then .ok entries
      else .error (unexpectedLine line) := by
  rw [setEntriesTurns, readToLine, readToLineFrom_append _ _ noSeparator]
  dsimp only
  rw [unawaited]

/-- The turns that find the given sections, in the order in which they come. -/
theorem setEntriesTurns_sections {preamble : List Str} (noSeparator : aideSeparator ∉ preamble)
    {sections : List ReportSection} (distinct : (sections.map ReportSection.type).Nodup)
    (awaited : ∀ part ∈ sections, expected.get? (title part.type) = some part.type) (turns : Nat)
    (tail : List Str) :
    ∃ left front, aideSeparator ∉ front ∧
      (∀ line, left.get? line =
        if line ∈ sections.map (title ∘ ReportSection.type) then none else expected.get? line) ∧
      setEntriesTurns (turns + sections.length) expected entries
          (preamble ++ (sections.flatMap ReportSection.lines ++ tail)) =
        setEntriesTurns turns left
          (sections.foldl (fun entries part => entries.setOf part.type part.entries) entries)
          (front ++ tail) := by
  induction sections generalizing preamble expected entries with
  | nil => exact ⟨expected, preamble, noSeparator, fun _ => by simp, by simp⟩
  | cons part sections inductionHypothesis =>
      rw [List.map_cons, List.nodup_cons] at distinct
      have later : ∀ other ∈ sections,
          (expected.erase (title part.type)).get? (title other.type) = some other.type := by
        intro other member
        have differs : title other.type ≠ title part.type := fun same =>
          distinct.1 (title_injective same ▸ List.mem_map_of_mem member)
        rw [Dict.get?_erase, if_neg differs]
        exact awaited other (List.mem_cons_of_mem part member)
      obtain ⟨left, front, free, leftGet, run⟩ :=
        @inductionHypothesis _ (entries.setOf part.type part.entries) [] List.not_mem_nil
          distinct.2 later
      refine ⟨left, front, free, fun line => ?_, ?_⟩
      · rw [leftGet, Dict.get?_erase]
        by_cases here : line = title part.type
        · simp [here]
        · simp [here]
      · rw [List.length_cons, ← Nat.add_assoc, List.flatMap_cons, List.append_assoc,
          setEntriesTurns_section noSeparator (awaited part List.mem_cons_self)]
        exact run

end Turns

/-! ## Whole reports -/

theorem of_foldl_setOf {sections : List ReportSection}
    (distinct : (sections.map ReportSection.type).Nodup) (entries : AIDEEntries AIDESimpleEntry)
    (type : EntryType) :
    (sections.foldl (fun entries part => entries.setOf part.type part.entries) entries).of type =
      ((sections.find? fun part => part.type = type).map ReportSection.entries).getD
        (entries.of type) := by
  induction sections generalizing entries with
  | nil => rfl
  | cons part sections inductionHypothesis =>
      rw [List.map_cons, List.nodup_cons] at distinct
      rw [List.foldl_cons, inductionHypothesis distinct.2, AIDEEntries.of_setOf]
      by_cases here : part.type = type
      · have noLater : (sections.find? fun part => part.type = type) = none := by
          rw [List.find?_eq_none]
          intro other member isType
          exact distinct.1 (here ▸ of_decide_eq_true isType ▸ List.mem_map_of_mem member)
        simp [here, noLater]
      · simp [here, Ne.symm here]

theorem get?_entries (part : ReportSection) (path : Str) :
    part.entries.get? path =
      (part.listed.reverse.find? fun line => line.path.text = path).map ReportLine.entry := by
  rw [ReportSection.entries, Dict.get?_ofPairs, ← List.map_reverse, List.find?_map, Option.map_map]
  rfl

theorem get?_expectedEntriesMapping (type : EntryType) :
    expectedEntriesMapping.get? (title type) = some type := by
  cases type <;> decide

/-- The report up to the lines behind its sections. -/
theorem setAddedRemovedChangedEntries_front (front : ReportFront) (tail : List Str) :
    ∃ turns left preamble entries, turns + front.sections.length = 3 ∧ aideSeparator ∉ preamble ∧
      (∀ line, left.get? line =
        if line ∈ front.sections.map (title ∘ ReportSection.type) then none
        else expectedEntriesMapping.get? line) ∧
      (∀ type path, (entries.of type).get? path = front.entry? type path) ∧
      setAddedRemovedChangedEntries (front.lines ++ tail) =
        setEntriesTurns turns left entries (preamble ++ tail) := by
  have few : front.sections.length ≤ 3 := by
    have types : (front.sections.map ReportSection.type).length ≤
        [EntryType.added, .removed, .changed].length :=
      (List.subperm_of_subset front.distinct fun type _ => by cases type <;> simp).length_le
    rw [List.length_map] at types
    exact types
  obtain ⟨left, preamble, free, leftGet, run⟩ := @setEntriesTurns_sections expectedEntriesMapping
    .empty _ front.noSeparator _ front.distinct
    (fun part _ => get?_expectedEntriesMapping part.type) (3 - front.sections.length) tail
  refine ⟨3 - front.sections.length, left, preamble,
    front.sections.foldl (fun entries part => entries.setOf part.type part.entries) .empty,
    by omega, free, leftGet, ?_, ?_⟩
  · intro type path
    rw [of_foldl_setOf front.distinct, ReportFront.entry?]
    cases front.sections.find? fun part => part.type = type with
    | none => simp
    | some part => exact get?_entries part path
  · rw [ReportFront.lines, List.append_assoc, ← run]
    rw [Nat.sub_add_cancel few]
    rfl

/-- A report with one section of added files. -/
def addedFront : ReportFront where
  preamble := ["AIDE found differences between database and filesystem!!\n".toList, ['\n']]
  sections := [⟨.added, 1, ⟨"p++++++++++++++++".toList, rootPath, by decide, by decide, by decide⟩, []⟩]
  noSeparator := by decide
  distinct := by decide

end AIDECheckParser

end Myscm.Server
