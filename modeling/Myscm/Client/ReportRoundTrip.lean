import Myscm.Client.ReportRequirements

/-!
Owns the round trip of a report: what the client reads of the lines the server
writes.

Owns: lines of added.txt and removed.txt; lines of changed.txt and its header;
when the values read are those written.

Does not own: which entries a report lists, what the values mean.
-/

namespace Myscm.Client

open Myscm.Library Myscm.Server SystemImageGenerator

/-! ## Entries of added.txt and removed.txt -/

/-- The line of an entry is read back with the path as its first value. -/
def PathReadsBack (host : Host) (path : EntryPath) (pkg : PackageName) : Prop :=
  ∃ value, ReadsAs host 2 [appendEntryLine path.text pkg.text] [[path.text, value]]

/-- A line that starts with a slash is neither blank nor a comment. -/
theorem lineMeaning_of_slash {host : Host} {n : Nat} {line : Str} (slash : line.head? = some '/') :
    lineMeaning host n line =
      if (lineParts line).length = n then some (some (lineParts line)) else none := by
  have notSpace : Str.isSpace '/' = false := by decide
  obtain ⟨rest, rfl⟩ : ∃ rest, line = '/' :: rest := by
    cases line with
    | nil => cases slash
    | cons c rest => exact ⟨rest, by rw [Option.some.inj slash]⟩
  have notBlank : ¬ Str.Blank ('/' :: rest) := fun blank => by
    rw [blank '/' List.mem_cons_self] at notSpace
    cases notSpace
  have stripped : ∃ tail, Str.strip ('/' :: rest) = '/' :: tail := by
    obtain ⟨tail, whole⟩ := Str.isPrefix_rstrip ('/' :: rest)
    have left : Str.lstrip ('/' :: rest) = '/' :: rest := by simp [Str.lstrip, notSpace]
    cases found : Str.rstrip ('/' :: rest) with
    | nil => exact absurd (Str.rstrip_eq_nil_iff.mp found) notBlank
    | cons c tail =>
        rw [found, List.cons_append] at whole
        refine ⟨tail, ?_⟩
        rw [Str.strip, left, found, (List.cons.inj whole).1]
  obtain ⟨tail, stripped⟩ := stripped
  have notComment : Str.startsWith (Str.strip ('/' :: rest)) ['#'] = false := by
    rw [stripped]
    rfl
  rw [lineMeaning_values notComment notBlank, lineParts_strip]

theorem lineParts_appendEntryLine (path : EntryPath) (pkg : PackageName) :
    lineParts (appendEntryLine path.text pkg.text) = [Str.strip path.text, Str.strip pkg.text] := by
  have pad : appendEntryLine path.text pkg.text =
      path.text ++ '\x00' :: (List.replicate (100 - (path.text.length + 1)) ' ' ++ pkg.text) := by
    simp [appendEntryLine, Str.ljust]
  rw [pad, lineParts_cons (path.plain.not_mem rfl),
    lineParts_blank_append (Str.blank_replicate _), lineParts_single (pkg.plain.not_mem rfl)]

theorem singleLine_appendEntryLine (path : EntryPath) (pkg : PackageName) :
    SingleLine (appendEntryLine path.text pkg.text) := by
  have free {c : Char} (isEnd : isReportEnd c = true) (notZero : c ≠ '\x00') (notBlank : c ≠ ' ') :
      c ∉ appendEntryLine path.text pkg.text := by
    simp [appendEntryLine, Str.ljust, path.plain.not_mem isEnd, pkg.plain.not_mem isEnd, notZero,
      notBlank]
  exact ⟨free rfl (by decide) (by decide), free rfl (by decide) (by decide)⟩

/-- The line of an entry passes path and package, both trimmed. -/
theorem lineMeaning_appendEntryLine (host : Host) (path : EntryPath) (pkg : PackageName) :
    lineMeaning host 2 (appendEntryLine path.text pkg.text) =
      some (some [Str.strip path.text, Str.strip pkg.text]) := by
  have slash : (appendEntryLine path.text pkg.text).head? = some '/' := by
    simp [appendEntryLine, Str.ljust, path.absolute]
  rw [lineMeaning_of_slash slash, lineParts_appendEntryLine]
  rfl

theorem pathReadsBack_iff_strip (host : Host) (path : EntryPath) (pkg : PackageName) :
    PathReadsBack host path pkg ↔ Str.strip path.text = path.text := by
  have single : ∀ line ∈ [appendEntryLine path.text pkg.text], SingleLine line := by
    intro line member
    rw [List.mem_singleton.mp member]
    exact singleLine_appendEntryLine path pkg
  have meant : meaning host 2 [appendEntryLine path.text pkg.text] =
      ([[Str.strip path.text, Str.strip pkg.text]], true) := by
    rw [meaning, lineMeaning_appendEntryLine]
    rfl
  unfold PathReadsBack
  simp [readsAs_iff single, meant]

/-- The path of an entry is read back exactly where it does not end in white space. -/
theorem pathReadsBack_iff (host : Host) (path : EntryPath) (pkg : PackageName) :
    PathReadsBack host path pkg ↔ ∀ c ∈ path.text.getLast?, Str.isSpace c = false := by
  have head : ∀ c ∈ path.text.head?, Str.isSpace c = false := by
    intro c first
    rw [path.absolute, Option.mem_some_iff] at first
    rw [← first]
    decide
  rw [pathReadsBack_iff_strip]
  constructor
  · intro same
    rw [← same]
    exact (Str.strip_trimmed path.text).2
  · exact fun last => Str.strip_eq_self ⟨head, last⟩

/-- A path that ends in a blank is read without it. -/
theorem not_pathReadsBack_trailing_blank :
    ¬ PathReadsBack ⟨"Linux".toList, "Debian".toList, "x86_64".toList, id⟩
      ⟨"/etc/passwd ".toList, rfl, by decide⟩ ⟨['?'], by decide⟩ := by
  rw [pathReadsBack_iff_strip]
  decide

/-! ## Cells of changed.txt -/

theorem mem_format {header : PropertyHeader} {value : Str} {c : Char}
    (tailBlank : header.tail = [] ∨ header.tail = [' ']) (member : c ∈ header.format value) :
    c ∈ value ∨ c = ' ' := by
  unfold PropertyHeader.format at member
  rcases List.mem_append.mp member with inside | tail
  · unfold Str.ljust at inside
    rcases List.mem_append.mp inside with here | pad
    · exact .inl here
    · exact .inr (List.eq_of_mem_replicate pad)
  · rcases tailBlank with none | blank
    · rw [none] at tail
      cases tail
    · rw [blank] at tail
      exact .inr (List.mem_singleton.mp tail)

/-- The cells of the given columns. -/
def cells (properties : List Str) (headers : List PropertyHeader) : Str :=
  (List.zipWith (fun property (header : PropertyHeader) => header.format (property ++ ['\x00']))
    properties headers).flatten

theorem cells_append {front back : List Str} {headers later : List PropertyHeader}
    (long : front.length = headers.length) :
    cells (front ++ back) (headers ++ later) = cells front headers ++ cells back later := by
  rw [cells, List.zipWith_append long, List.flatten_append, cells, cells]

theorem cells_cons (property : Str) (properties : List Str) (header : PropertyHeader)
    (headers : List PropertyHeader) :
    cells (property :: properties) (header :: headers) =
      property ++ '\x00' :: (List.replicate (header.width - (property.length + 1)) ' ' ++
        (header.tail ++ cells properties headers)) := by
  simp [cells, PropertyHeader.format, Str.ljust]

theorem blank_tail {header : PropertyHeader} (member : header ∈ changedFilesHeaderNames) :
    Str.Blank header.tail := by
  revert header
  decide

/-- Each cell is read as its trimmed property. -/
theorem lineParts_cells {properties : List Str} {headers : List PropertyHeader} (rest : Str)
    (long : properties.length = headers.length)
    (known : ∀ header ∈ headers, header ∈ changedFilesHeaderNames)
    (plain : ∀ property ∈ properties, PlainText property) :
    lineParts (cells properties headers ++ rest) = properties.map Str.strip ++ lineParts rest := by
  induction properties generalizing headers with
  | nil =>
      obtain rfl := List.length_eq_zero_iff.mp long.symm
      rfl
  | cons property properties inductionHypothesis =>
      cases headers with
      | nil => cases long
      | cons header headers =>
          have here : '\x00' ∉ property := (plain property List.mem_cons_self).not_mem rfl
          rw [cells_cons, List.append_assoc, List.cons_append, lineParts_cons here,
            List.append_assoc, lineParts_blank_append (Str.blank_replicate _), List.append_assoc,
            lineParts_blank_append (blank_tail (known header List.mem_cons_self)),
            inductionHypothesis (Nat.succ.inj long)
              (fun other member => known other (List.mem_cons_of_mem _ member))
              (fun other member => plain other (List.mem_cons_of_mem _ member))]
          rfl

/-! ## Lines of changed.txt -/

/-- The columns in front of the last two. -/
def frontHeaders : List PropertyHeader := changedFilesHeaderNames.take 16

theorem changedColumns_eq {front : List Str} (long : front.length = 16) (sum pkg : Str) :
    changedColumns (front ++ [sum, pkg]) =
      cells front frontHeaders ++
        (sum ++ '\x00' :: (List.replicate (99 - sum.length) ' ' ++
          (pkg ++ '\x00' :: List.replicate (24 - pkg.length) ' '))) := by
  have headers : changedFilesHeaderNames = frontHeaders ++
      [⟨PropertyType.sha1.value, 100, []⟩, ⟨"package".toList, 25, []⟩] := rfl
  have short (width n : Nat) : width + 1 - (n + 1) = width - n := by omega
  rw [changedColumns, headers, ← cells, cells_append (by rw [long]; rfl), cells_cons, cells_cons,
    short, short]
  simp [cells]

theorem rstripZeros_of_solid {s : Str} {c : Char} (solid : c ≠ '\x00') :
    Str.rstripChars ['\x00'] (s ++ [c]) = s ++ [c] := by
  rw [Str.rstripChars, List.rdropWhile_concat_neg _ _ _ (by simpa using solid)]

/-- The line of a changed entry: of its end, blanks and zero characters are cut. -/
theorem changedLine_eq {name : Str} {front : List Str} (long : front.length = 15)
    (solid : Solid name) {sum pkg : Str} (plainSum : PlainText sum) (plainPkg : PlainText pkg) :
    changedLine (name :: front ++ [sum, pkg]) =
      if pkg ≠ [] then
        cells (name :: front) frontHeaders ++
          (sum ++ '\x00' :: (List.replicate (99 - sum.length) ' ' ++ pkg))
      else if sum.length < 99 then
        cells (name :: front) frontHeaders ++
          (sum ++ '\x00' :: List.replicate (99 - sum.length) ' ')
      else
        cells (name :: front) frontHeaders ++ sum := by
  obtain ⟨c, later, rfl, notSpace⟩ := solid
  obtain ⟨rest, start⟩ : ∃ rest, cells ((c :: later) :: front) frontHeaders = c :: rest := ⟨_, rfl⟩
  have zero : Str.isSpace '\x00' = false := by decide
  have columns : changedColumns ((c :: later) :: front ++ [sum, pkg]) =
      (c :: (rest ++ (sum ++ '\x00' :: (List.replicate (99 - sum.length) ' ' ++ pkg)) ++ ['\x00'])) ++
        List.replicate (24 - pkg.length) ' ' := by
    rw [changedColumns_eq (by simp [long]), start]
    simp
  have stripped : changedLine ((c :: later) :: front ++ [sum, pkg]) =
      Str.rstripChars ['\x00']
        (cells ((c :: later) :: front) frontHeaders ++
          (sum ++ '\x00' :: (List.replicate (99 - sum.length) ' ' ++ pkg))) := by
    rw [changedLine, columns, Str.strip_append_blank (Str.blank_replicate _),
      Str.strip_eq_self (Str.trimmed_cons_append notSpace zero), ← List.cons_append,
      Str.rstripChars, List.rdropWhile_concat_pos _ _ _ (by decide), start]
    rfl
  rw [stripped]
  split
  · rename_i named
    obtain ⟨body, last, rfl⟩ : ∃ body last, pkg = body ++ [last] :=
      ⟨_, _, (List.dropLast_concat_getLast named).symm⟩
    have solidLast : last ≠ '\x00' := fun isZero =>
      plainPkg.not_mem (c := '\x00') rfl (by simp [isZero])
    have shape (front : Str) : front ++ (sum ++ '\x00' ::
        (List.replicate (99 - sum.length) ' ' ++ (body ++ [last]))) =
          (front ++ (sum ++ '\x00' :: (List.replicate (99 - sum.length) ' ' ++ body))) ++ [last] := by
      simp
    rw [shape, rstripZeros_of_solid solidLast]
  · rename_i unnamed
    obtain rfl : pkg = [] := not_not.mp unnamed
    rw [List.append_nil]
    split
    · rename_i short
      obtain ⟨pad, long⟩ : ∃ pad, 99 - sum.length = pad + 1 := ⟨98 - sum.length, by omega⟩
      have shape (front : Str) : front ++ (sum ++ '\x00' :: List.replicate (pad + 1) ' ') =
          (front ++ (sum ++ '\x00' :: List.replicate pad ' ')) ++ [' '] := by
        simp [List.replicate_succ']
      rw [long, shape, rstripZeros_of_solid (by decide)]
    · rename_i full
      have none : 99 - sum.length = 0 := by omega
      have summed : sum ≠ [] := fun empty => by simp [empty] at full
      obtain ⟨body, last, rfl⟩ : ∃ body last, sum = body ++ [last] :=
        ⟨_, _, (List.dropLast_concat_getLast summed).symm⟩
      have solidLast : last ≠ '\x00' := fun isZero =>
        plainSum.not_mem (c := '\x00') rfl (by simp [isZero])
      have shape (front : Str) : front ++ ((body ++ [last]) ++ '\x00' :: []) =
          (front ++ body ++ [last]) ++ ['\x00'] := by
        simp
      rw [none, List.replicate_zero, shape, Str.rstripChars,
        List.rdropWhile_concat_pos _ _ _ (by decide), ← Str.rstripChars,
        rstripZeros_of_solid solidLast, List.append_assoc]

/-- The last two columns keep apart: there is a package name, or a blank behind the sum. -/
def ColumnsKept (properties : List Str) : Prop :=
  properties[17]? = some [] → ∀ sum ∈ properties[16]?, sum.length < 99

instance (properties : List Str) : Decidable (ColumnsKept properties) :=
  inferInstanceAs (Decidable (_ → _))

theorem length_lineParts_changedLine {name : Str} {front : List Str} (long : front.length = 15)
    (solid : Solid name) {sum pkg : Str}
    (plain : ∀ property ∈ name :: front ++ [sum, pkg], PlainText property) :
    (ColumnsKept (name :: front ++ [sum, pkg]) →
        lineParts (changedLine (name :: front ++ [sum, pkg])) =
          (name :: front ++ [sum, pkg]).map Str.strip) ∧
      (¬ ColumnsKept (name :: front ++ [sum, pkg]) →
        (lineParts (changedLine (name :: front ++ [sum, pkg]))).length = 17) := by
  have plainSum : PlainText sum := plain sum (by simp)
  have plainPkg : PlainText pkg := plain pkg (by simp)
  have kept : ColumnsKept (name :: front ++ [sum, pkg]) ↔ (pkg = [] → sum.length < 99) := by
    have atPkg : (name :: front ++ [sum, pkg])[17]? = some pkg := by
      rw [List.getElem?_append_right (by simp [long])]
      simp [long]
    have atSum : (name :: front ++ [sum, pkg])[16]? = some sum := by
      rw [List.getElem?_append_right (by simp [long])]
      simp [long]
    rw [ColumnsKept, atPkg, atSum]
    simp
  have parts (rest : Str) : lineParts (cells (name :: front) frontHeaders ++ rest) =
      (name :: front).map Str.strip ++ lineParts rest :=
    lineParts_cells rest (by simp [long]; rfl)
      (fun header member => List.mem_of_mem_take member)
      (fun property member => plain property (List.mem_append_left _ member))
  have sumParts (rest : Str) :
      lineParts (sum ++ '\x00' :: (List.replicate (99 - sum.length) ' ' ++ rest)) =
        Str.strip sum :: lineParts rest := by
    rw [lineParts_cons (plainSum.not_mem rfl), lineParts_blank_append (Str.blank_replicate _)]
  rw [kept, changedLine_eq long solid plainSum plainPkg]
  constructor
  · intro apart
    split
    · rw [parts, sumParts, lineParts_single (plainPkg.not_mem rfl)]
      simp
    · rename_i unnamed
      obtain rfl : pkg = [] := not_not.mp unnamed
      have whole := sumParts []
      rw [List.append_nil] at whole
      rw [if_pos (apart rfl), parts, whole, lineParts_single (by simp)]
      simp
  · intro together
    obtain ⟨unnamed, full⟩ := Classical.not_imp.mp together
    rw [if_neg (not_not.mpr unnamed), if_neg full, parts, lineParts_single (plainSum.not_mem rfl)]
    simp [long]

/-! ## Entries of changed.txt -/

/-- A line of changed.txt starts with the name. -/
theorem changedLine_start {name : Str} {front : List Str} (long : front.length = 15)
    (solid : Solid name) {sum pkg : Str} (plainSum : PlainText sum) (plainPkg : PlainText pkg) :
    ∃ rest, changedLine (name :: front ++ [sum, pkg]) = name ++ '\x00' :: rest := by
  have start : ∃ rest, cells (name :: front) frontHeaders = name ++ '\x00' :: rest :=
    ⟨_, cells_cons _ _ _ _⟩
  obtain ⟨rest, start⟩ := start
  rw [changedLine_eq long solid plainSum plainPkg, start]
  split
  · exact ⟨_, List.append_assoc _ _ _⟩
  · split
    · exact ⟨_, List.append_assoc _ _ _⟩
    · exact ⟨_, List.append_assoc _ _ _⟩

theorem singleLine_changedLine {properties : List Str}
    (plain : ∀ property ∈ properties, PlainText property) : SingleLine (changedLine properties) := by
  have tails : ∀ header ∈ changedFilesHeaderNames, header.tail = [] ∨ header.tail = [' '] := by
    decide
  have free {c : Char} (isEnd : isReportEnd c = true) (notZero : c ≠ '\x00') (notBlank : c ≠ ' ') :
      c ∉ changedLine properties := by
    intro member
    have inColumns : c ∈ changedColumns properties :=
      Str.mem_of_mem_strip ((List.rdropWhile_prefix _ _).subset member)
    obtain ⟨cell, isCell, inCell⟩ := List.mem_flatten.mp inColumns
    rw [← List.map_uncurry_zip_eq_zipWith] at isCell
    obtain ⟨row, isRow, rfl⟩ := List.mem_map.mp isCell
    rcases mem_format (tails row.2 (List.of_mem_zip isRow).2) inCell with inProperty | blank
    · rcases List.mem_append.mp inProperty with here | zero
      · exact (plain row.1 (List.of_mem_zip isRow).1).not_mem isEnd here
      · exact notZero (List.mem_singleton.mp zero)
    · exact notBlank blank
  exact ⟨free rfl (by decide) (by decide), free rfl (by decide) (by decide)⟩

/-- What the client makes of the line of an entry. -/
theorem lineMeaning_entry (host : Host) {packageName : Str → Except GeneratorError Str}
    {entry : AIDEEntry} {properties : List Str}
    (computed : entry.getAideChangedProperties packageName = .ok properties)
    (absolute : entry.properties.name.head? = some '/')
    (plain : ∀ property ∈ properties, PlainText property) :
    (entry.reported = false → lineMeaning host 18 (changedLine properties) = some none) ∧
      (entry.reported = true → ColumnsKept properties →
        lineMeaning host 18 (changedLine properties) = some (some (properties.map Str.strip))) ∧
      (entry.reported = true → ¬ ColumnsKept properties →
        lineMeaning host 18 (changedLine properties) = none) := by
  obtain ⟨front, sum, pkg, long, shape⟩ := AIDEEntry.getAideChangedProperties_ok computed
  obtain ⟨path, isPath⟩ : ∃ path, entry.properties.name = '/' :: path := by
    cases whole : entry.properties.name with
    | nil =>
        rw [whole] at absolute
        cases absolute
    | cons c path =>
        rw [whole] at absolute
        exact ⟨path, by rw [Option.some.inj absolute]⟩
  have plainSum : PlainText sum := plain sum (by simp [shape])
  have plainPkg : PlainText pkg := plain pkg (by simp [shape])
  have single := singleLine_changedLine plain
  rw [isPath] at shape
  cases isReported : entry.reported with
  | false =>
      refine ⟨fun _ => ?_, by simp, by simp⟩
      rw [isReported, if_neg Bool.false_ne_true] at shape
      have solid : Solid ('#' :: ' ' :: '/' :: path) := ⟨'#', _, rfl, by decide⟩
      obtain ⟨rest, start⟩ := changedLine_start long solid plainSum plainPkg
      rw [← shape] at start
      have header : HeaderLine (changedLine properties) := ⟨single, .inr (by rw [start]; rfl)⟩
      have met : RequirementsMet host (changedLine properties) := by
        cases path with
        | nil =>
            rw [start]
            exact requirementsMet_of_start (by decide) (by decide)
        | cons d path =>
            rw [start]
            exact requirementsMet_of_start (by decide) (by simp)
      rcases lineMeaning_headerLine host 18 header with ⟨_, meant⟩ | ⟨notMet, _⟩
      · exact meant
      · exact absurd met notMet
  | true =>
      rw [isReported, if_pos rfl] at shape
      have solid : Solid ('/' :: path) := ⟨'/', path, rfl, by decide⟩
      obtain ⟨rest, start⟩ := changedLine_start long solid plainSum plainPkg
      have slash : (changedLine properties).head? = some '/' := by
        rw [shape, start]
        rfl
      obtain ⟨kept, lost⟩ := length_lineParts_changedLine long solid (shape ▸ plain)
      rw [← shape] at kept lost
      have count : (properties.map Str.strip).length = 18 := by
        rw [shape]
        simp [long]
      refine ⟨by simp, fun _ apart => ?_, fun _ together => ?_⟩
      · rw [lineMeaning_of_slash slash, kept apart, if_pos count]
      · rw [lineMeaning_of_slash slash, lost together]
        rfl

/-- The value lists a report of these entries is meant to pass. -/
def passedProperties (entries : List AIDEEntry) (propertyLists : List (List Str)) :
    List (List Str) :=
  (entries.zip propertyLists).filterMap fun row =>
    if row.1.reported then some (row.2.map Str.strip) else none

theorem meaning_entries_iff (host : Host) {packageName : Str → Except GeneratorError Str}
    {entries : List AIDEEntry} {propertyLists : List (List Str)}
    (rows : List.Forall₂ (fun entry properties =>
      entry.getAideChangedProperties packageName = .ok properties) entries propertyLists)
    (absolute : ∀ entry ∈ entries, entry.properties.name.head? = some '/')
    (plain : ∀ properties ∈ propertyLists, ∀ property ∈ properties, PlainText property) :
    meaning host 18 (propertyLists.map changedLine) =
        (passedProperties entries propertyLists, true) ↔
      ∀ row ∈ entries.zip propertyLists, row.1.reported = true → ColumnsKept row.2 := by
  induction rows with
  | nil => simp [meaning, passedProperties]
  | @cons entry properties entries propertyLists computed rows inductionHypothesis =>
      have later := inductionHypothesis
        (fun other member => absolute other (List.mem_cons_of_mem _ member))
        (fun other member => plain other (List.mem_cons_of_mem _ member))
      obtain ⟨comment, kept, lost⟩ := lineMeaning_entry host computed
        (absolute entry List.mem_cons_self) (plain properties List.mem_cons_self)
      have passed : passedProperties (entry :: entries) (properties :: propertyLists) =
          (if entry.reported then [properties.map Str.strip] else []) ++
            passedProperties entries propertyLists := by
        rw [passedProperties, List.zip_cons_cons, List.filterMap_cons]
        cases entry.reported <;> rfl
      rw [List.map_cons, meaning, List.zip_cons_cons, List.forall_mem_cons, passed, ← later]
      cases isReported : entry.reported with
      | false => simp [comment isReported]
      | true =>
          by_cases apart : ColumnsKept properties
          · rw [kept isReported apart]
            simp [apart, Prod.ext_iff]
          · rw [lost isReported apart]
            simp [apart]

/-- `changed.txt` of the entries is written, and it is read as the trimmed properties of
those that changed, in order. -/
def ChangedReadsBack (host : Host) (header : ReportHeader)
    (packageName : Str → Except GeneratorError Str) (entries : List AIDEEntry)
    (propertyLists : List (List Str)) : Prop :=
  ∃ lines, changedReport header packageName entries = .ok lines ∧
    ReadsAs host 18 lines (passedProperties entries propertyLists)

theorem readsAs_changedReport_iff (host : Host) (header : ReportHeader)
    {packageName : Str → Except GeneratorError Str} {entries : List AIDEEntry}
    {propertyLists : List (List Str)}
    (computed : entries.mapM (AIDEEntry.getAideChangedProperties packageName) = .ok propertyLists)
    (absolute : ∀ entry ∈ entries, entry.properties.name.head? = some '/')
    (plain : ∀ properties ∈ propertyLists, ∀ property ∈ properties, PlainText property) :
    ChangedReadsBack host header packageName entries propertyLists ↔
      HeaderMet host header ∧
        ∀ row ∈ entries.zip propertyLists, row.1.reported = true → ColumnsKept row.2 := by
  have rows := mapM_ok computed
  have written : changedReport header packageName entries =
      .ok (appendChangedEntriesHeader header ++ propertyLists.map changedLine) := by
    have lines : entries.mapM (appendChangedEntryToFile packageName) =
        .ok (propertyLists.map changedLine) := by
      clear computed absolute plain
      induction rows with
      | nil => rfl
      | cons here _ inductionHypothesis =>
          obtain ⟨front, sum, pkg, long, shape⟩ := AIDEEntry.getAideChangedProperties_ok here
          have count : ∀ values : List Str, values.length = 18 →
              ¬ values.length ≠ changedFilesHeaderNames.length := by
            intro values eighteen
            rw [eighteen]
            decide
          rw [List.mapM_cons, inductionHypothesis, appendChangedEntryToFile, here]
          simp only [bind, Except.bind]
          rw [if_neg (count _ (by rw [shape]; simp [long]))]
          rfl
    rw [changedReport, lines]
    rfl
  have single : ∀ line ∈ appendChangedEntriesHeader header ++ propertyLists.map changedLine,
      SingleLine line := by
    intro line member
    rcases List.mem_append.mp member with inHeader | inEntries
    · exact (headerLine_changedEntriesHeader header line inHeader).1
    · obtain ⟨properties, isList, rfl⟩ := List.mem_map.mp inEntries
      exact singleLine_changedLine (plain properties isList)
  have meant := @meaning_header_append_iff host 18 _ (propertyLists.map changedLine)
    (passedProperties entries propertyLists) (headerLine_changedEntriesHeader header)
  unfold ChangedReadsBack
  rw [written]
  simp only [Except.ok.injEq, exists_eq_left']
  rw [readsAs_iff single, meant, requirementsMet_changedEntriesHeader_iff,
    meaning_entries_iff host rows absolute plain]

/-! ## One system on both sides -/

/-- A machine of the system, distribution and architecture the server has. -/
def sameHost (header : ReportHeader) (lower : Str → Str) : Host :=
  ⟨header.system, header.distroName, header.machine, lower⟩

/-- On the same system changed.txt reads back exactly where its header requires what is
the case, and no changed entry lets its last two columns run together. -/
theorem changedReadsBack_iff (header : ReportHeader) (lower : Str → Str)
    {packageName : Str → Except GeneratorError Str} {entries : List AIDEEntry}
    {propertyLists : List (List Str)}
    (computed : entries.mapM (AIDEEntry.getAideChangedProperties packageName) = .ok propertyLists)
    (absolute : ∀ entry ∈ entries, entry.properties.name.head? = some '/')
    (plain : ∀ properties ∈ propertyLists, ∀ property ∈ properties, PlainText property) :
    ChangedReadsBack (sameHost header lower) header packageName entries propertyLists ↔
      HeaderMet (sameHost header lower) header ∧
        ∀ row ∈ entries.zip propertyLists, row.1.reported = true → ColumnsKept row.2 :=
  readsAs_changedReport_iff _ header computed absolute plain

/-! ## Fixtures -/

def asciiLower (s : Str) : Str := s.map Char.toLower

/-- A server with its databases below the directory. -/
def headerFixture (dbDir : Str) : ReportHeader where
  fromDbId := 3
  toDbId := 4
  clientDbPath := dbDir ++ "/aide.db.3/aide.db".toList
  aideReferenceDbPath := dbDir ++ "/aide.db.reference/aide.db".toList
  localCreationTime := "12:00:00".toList
  creationDate := "01.06.2018".toList
  utcCreationTime := "10:00:00".toList
  utcCreationDate := "01.06.2018".toList
  system := "Linux".toList
  distroName := "debian".toList
  machine := "x86_64".toList
  node := "server".toList
  pythonImplementation := "CPython".toList
  pythonVersion := "3.6.5".toList
  pythonCompiler := "GCC 7.3.0".toList
  title s :=
    match s with
    | [] => []
    | c :: rest => c.toUpper :: rest.map Char.toLower
  wordChars := ⟨fun c => c.isAlphanum || c == '_', Char.isDigit⟩
  plain := by decide

/-- A file whose mode changed. -/
def modeEntryFixture : AIDEEntry where
  properties := ⟨"/etc/passwd".toList, none, 7, 100600, 11, 8, 0, 0, 120, 5, 6, 1, none, none⟩
  prevProperties := ⟨"/etc/passwd".toList, none, 7, 100644, 11, 8, 0, 0, 120, 5, 6, 1, none, none⟩
  infoStr := "f.=.p............".toList
  ftype := .regularFile
  infoStr_length := by decide
  ftype_value := by decide

def unknownPackage : Str → Except GeneratorError Str := fun _ => .ok ['?']

/-- A directory of databases that is broken between two lines, so that the second starts
like a requirement. -/
theorem not_changedReadsBack_system_directory :
    (∀ c ∈ (headerFixture "/srv/aide-System:new".toList).aideReferenceDbPath ++
        (headerFixture "/srv/aide-System:new".toList).clientDbPath, Str.isSpace c = false) ∧
      ¬ ChangedReadsBack (sameHost (headerFixture "/srv/aide-System:new".toList) asciiLower)
        (headerFixture "/srv/aide-System:new".toList) unknownPackage [] [] := by
  refine ⟨by decide, fun reads => ?_⟩
  obtain ⟨met, _⟩ := (readsAs_changedReport_iff _ _ rfl (by simp) (by simp)).mp reads
  have line : "# System:new/aide.db.reference/aide.db' AIDE database and the old configuration".toList ∈
      descriptionLines (headerFixture "/srv/aide-System:new".toList)
        (changedDescription (headerFixture "/srv/aide-System:new".toList)) := by
    decide +kernel
  have differs := met.description _ line _ systemStr_mem
    "new/aide.db.reference/aide.db' AIDE database and the old configuration".toList
    ⟨[' '], [], by decide, by decide, by decide⟩
  revert differs
  decide

/-- What is written for the file. -/
def modePropertiesFixture : List Str :=
  ["/etc/passwd", "None", "f.=.p............", "7", "f", "=", "120 (=)", "8 (.)", "100600 (100644)",
    "0 (.)", "0 (.)", "5 (.)", "6 (.)", "11 (.)", "1 (.)", "None (.)", "None (.)", "?"].map
    String.toList

theorem changedReadsBack_iff_changed_mode :
    ChangedReadsBack (sameHost (headerFixture "/var/lib/aide".toList) asciiLower)
        (headerFixture "/var/lib/aide".toList) unknownPackage [modeEntryFixture]
        [modePropertiesFixture] ↔
      HeaderMet (sameHost (headerFixture "/var/lib/aide".toList) asciiLower)
          (headerFixture "/var/lib/aide".toList) ∧
        ∀ row ∈ [modeEntryFixture].zip [modePropertiesFixture], row.1.reported = true →
          ColumnsKept row.2 :=
  changedReadsBack_iff _ asciiLower (by decide) (by decide) (by decide)

end Myscm.Client
