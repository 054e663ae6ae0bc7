import Myscm.Server.AideDbParser

/-!
Owns what an AIDE database gives for the paths that are looked up in it.

Owns: the errors that the reader raises and those it does not see coming; rows that
the reader refuses, passes or stumbles over; databases that stop the reader, serve a
set of paths, or provide all that listed entries need; the entries of one type.

Does not own: the order of the look-ups.
-/

namespace Myscm.Server

open Myscm.Library

namespace ReadError

/-- The errors that the reader raises for results it refuses. -/
def Guarded : ReadError → Prop
  | .aideCheckParser _ | .aideDatabaseFileParser _ | .aideProperties _ => True
  | _ => False

/-- The errors of which the reader makes one for results it refuses. -/
def Refusal (failure : ReadError) : Prop := failure.Guarded ∨ failure = .stopIteration

/-- The errors that the reader does not see coming. -/
def Stray (failure : ReadError) : Prop := ¬ failure.Refusal

end ReadError

theorem stray_valueError : ReadError.valueError.Stray := by
  rintro (guarded | isStop)
  · exact guarded
  · cases isStop

theorem stray_indexError : ReadError.indexError.Stray := by
  rintro (guarded | isStop)
  · exact guarded
  · cases isStop

theorem stray_keyError : ReadError.keyError.Stray := by
  rintro (guarded | isStop)
  · exact guarded
  · cases isStop

theorem stray_aideEntry (message : Str) : (ReadError.aideEntry message).Stray := by
  rintro (guarded | isStop)
  · exact guarded
  · cases isStop

/-! ## Values and info strings -/

section Values

private theorem bind_valueError {α β : Type} {x : Except ReadError α} {f : α → Except ReadError β}
    (first : ∀ failure, x = .error failure → failure = .valueError)
    (second : ∀ value failure, f value = .error failure → failure = .valueError) :
    ∀ failure, (x >>= f) = .error failure → failure = .valueError := by
  intro failure failed
  cases x with
  | error earlier => exact first failure (by rw [Except.error.inj failed])
  | ok value => exact second value failure failed

private theorem orValueError_error {α : Type} (value : Option α) :
    ∀ failure, orValueError value = .error failure → failure = .valueError := by
  intro failure failed
  cases value with
  | none => exact (Except.error.inj failed).symm
  | some value => cases failed

private theorem convertToHexFromBase64_error (val : Str) :
    ∀ failure, AIDEProperties.convertToHexFromBase64 val = .error failure →
      failure = .valueError := by
  unfold AIDEProperties.convertToHexFromBase64
  split
  · exact bind_valueError (orValueError_error _) (fun _ _ failed => by cases failed)
  · intro failure failed
    cases failed

/-- Values that cannot be converted raise `ValueError`. -/
theorem ofRow_error {values : RowValues} :
    ∀ failure, AIDEProperties.ofRow values = .error failure → failure = .valueError := by
  unfold AIDEProperties.ofRow
  iterate 10 refine bind_valueError (orValueError_error _) fun _ => ?_
  refine bind_valueError (convertToHexFromBase64_error _) fun _ => ?_
  refine bind_valueError (convertToHexFromBase64_error _) fun _ => ?_
  intro failure failed
  cases failed

/-- Values that can be converted. -/
def Converts (values : RowValues) : Prop :=
  ∃ properties, AIDEProperties.ofRow values = .ok properties

/-- An info string of full length that starts with a file type. -/
def ValidInfo (infoStr : Str) : Prop :=
  infoStr.length = aideInfoStrPattern.length ∧ ∃ ftype : FileType, infoStr.head? = some ftype.value

theorem ofValue?_value (ftype : FileType) : FileType.ofValue? ftype.value = some ftype := by
  cases ftype <;> rfl

/-- An entry is made of a valid info string, and of no other. -/
theorem make_cases (properties : AIDEProperties) (infoStr : Str) (type : EntryType) :
    (∃ entry, ReadEntry.make properties infoStr type = .ok entry ∧ entry.prevProperties = none ∧
        ValidInfo infoStr) ∨
      ∃ failure, ReadEntry.make properties infoStr type = .error failure ∧ failure.Stray ∧
        ¬ ValidInfo infoStr := by
  unfold ReadEntry.make
  split
  · rename_i full
    split
    · rename_i unknown
      refine .inr ⟨_, rfl, stray_valueError, ?_⟩
      rintro ⟨_, ftype, isHead⟩
      rw [isHead] at unknown
      rw [Option.bind_some, ofValue?_value] at unknown
      cases unknown
    · rename_i ftype found
      refine .inl ⟨_, rfl, rfl, full, ftype, ?_⟩
      obtain ⟨c, isHead, ofValue⟩ := Option.bind_eq_some_iff.mp found
      have sameValue : ftype.value = c := by simpa using List.find?_some ofValue
      rw [isHead, sameValue]
  · rename_i short
    exact .inr ⟨_, rfl, stray_aideEntry _, fun valid => short valid.1⟩

end Values

namespace AIDEDatabaseFileParser

variable (parser : AIDEDatabaseFileParser)

/-! ## Rows -/

section Rows

variable (requestedPaths : List Str) (columns : Dict Str Nat)

/-- The path of a row. -/
def rowPath (line : Str) : Option Str := (Str.splitOnce line).head?.map Str.unquote

/-- A row that the reader refuses: it is blank, or it is requested and has another number of
values than there are columns. -/
def Unfit (line : Str) : Prop :=
  rowPath line = none ∨
    (∃ path ∈ requestedPaths, rowPath line = some path) ∧
      (Str.words line).length ≠ columns.items.length

/-- A row that is read, or left out since it is not requested. -/
def Passes (line : Str) : Prop :=
  ¬ Unfit requestedPaths columns line ∧
    ∀ path ∈ requestedPaths, rowPath line = some path →
      ∃ values, rowValues columns (Str.words line) = .ok values

/-- The rows are refused: one of them behind rows that pass, or the last since it does not
close the database. -/
def RowsRefused (before : Option Str) (rows : List Str) : Prop :=
  ∃ front rest, rows = front ++ rest ∧ (∀ line ∈ front, Passes requestedPaths columns line) ∧
    ((∃ line later, rest = line :: later ∧ Unfit requestedPaths columns line) ∨
      rest = [] ∧ front.getLast?.or before ≠ some aideDbFileClosing)

/-- The rows all pass, and the last closes the database. -/
def RowsServed (before : Option Str) (rows : List Str) : Prop :=
  (∀ line ∈ rows, Passes requestedPaths columns line) ∧
    rows.getLast?.or before = some aideDbFileClosing

/-- The values of the last row of a path. -/
def rowOf (rows : List Str) (path : Str) : Option RowValues :=
  rows.reverse.findSome? fun line =>
    if rowPath line = some path then (rowValues columns (Str.words line)).toOption else none

variable {requestedPaths columns}

theorem not_refused_of_served {before : Option Str} {rows : List Str}
    (served : RowsServed requestedPaths columns before rows) :
    ¬ RowsRefused requestedPaths columns before rows := by
  rintro ⟨front, rest, split, _, ⟨line, later, isRest, unfit⟩ | ⟨empty, open'⟩⟩
  · exact (served.1 line (by simp [split, isRest])).1 unfit
  · rw [empty, List.append_nil] at split
    exact open' (split ▸ served.2)

theorem rowsRefused_cons_iff {before : Option Str} {line : Str} {rows : List Str}
    (passes : Passes requestedPaths columns line) :
    RowsRefused requestedPaths columns before (line :: rows) ↔
      RowsRefused requestedPaths columns (some line) rows := by
  have last : ∀ front : List Str,
      (line :: front).getLast?.or before = front.getLast?.or (some line) := by
    intro front
    cases front with
    | nil => rfl
    | cons other later =>
        rw [List.getLast?_cons_cons]
        cases found : (other :: later).getLast? with
        | none => simp at found
        | some _ => rfl
  constructor
  · rintro ⟨front, rest, split, pass, stop⟩
    cases front with
    | nil =>
        rcases stop with ⟨first, later, isRest, unfit⟩ | ⟨empty, _⟩
        · rw [List.nil_append, isRest] at split
          exact absurd ((List.cons.inj split).1 ▸ unfit) passes.1
        · rw [List.nil_append, empty] at split
          cases split
    | cons first front =>
        rw [List.cons_append, List.cons.injEq] at split
        refine ⟨front, rest, split.2, fun other member => pass other (by simp [member]), ?_⟩
        rw [← split.1, last] at stop
        exact stop
  · rintro ⟨front, rest, split, pass, stop⟩
    refine ⟨line :: front, rest, by rw [split, List.cons_append], ?_, ?_⟩
    · intro other member
      rcases List.mem_cons.mp member with rfl | later
      · exact passes
      · exact pass other later
    · rw [last]
      exact stop

theorem rowsServed_cons_iff {before : Option Str} {line : Str} {rows : List Str}
    (passes : Passes requestedPaths columns line) :
    RowsServed requestedPaths columns before (line :: rows) ↔
      RowsServed requestedPaths columns (some line) rows := by
  have last : (line :: rows).getLast?.or before = rows.getLast?.or (some line) := by
    cases rows with
    | nil => rfl
    | cons other later => cases found : (other :: later).getLast? <;> simp_all
  rw [RowsServed, RowsServed, last, List.forall_mem_cons]
  exact ⟨fun served => ⟨served.1.2, served.2⟩, fun served => ⟨⟨passes, served.1⟩, served.2⟩⟩

theorem rowOf_cons (line : Str) (rows : List Str) (path : Str) :
    rowOf columns (line :: rows) path =
      (rowOf columns rows path).or
        (if rowPath line = some path then (rowValues columns (Str.words line)).toOption
        else none) := by
  rw [rowOf, List.reverse_cons, List.findSome?_append]
  congr 1
  rw [List.findSome?_cons, List.findSome?_nil]
  split <;> simp_all

theorem rowValues_error {words : List Str} {failure : ReadError}
    (failed : rowValues columns words = .error failure) : failure = .indexError := by
  unfold rowValues at failed
  split at failed
  · cases failed
  · exact (Except.error.inj failed).symm

/-- Reading the rows ends in one of three ways. -/
theorem readRows_cases (d : Dict Str RowValues) (before : Option Str) (rows : List Str) :
    (∃ message, parser.readRows requestedPaths columns d before rows =
        .error (.aideDatabaseFileParser message) ∧
          RowsRefused requestedPaths columns before rows) ∨
      (parser.readRows requestedPaths columns d before rows = .error .indexError ∧
        ¬ RowsRefused requestedPaths columns before rows ∧
          ¬ RowsServed requestedPaths columns before rows) ∨
      ∃ dict, parser.readRows requestedPaths columns d before rows = .ok dict ∧
        RowsServed requestedPaths columns before rows ∧
          ∀ path, dict.get? path =
            (if path ∈ requestedPaths then rowOf columns rows path else none).or (d.get? path) := by
  induction rows generalizing d before with
  | nil =>
      rw [readRows]
      by_cases closed : before = some aideDbFileClosing
      · rw [if_neg (not_not.mpr closed)]
        exact .inr (.inr ⟨d, rfl, ⟨by simp, by simpa using closed⟩, fun path => by simp [rowOf]⟩)
      · rw [if_pos closed]
        exact .inl ⟨_, rfl, [], [], rfl, by simp, .inr ⟨rfl, by simpa using closed⟩⟩
  | cons line rows inductionHypothesis =>
      rw [readRows]
      cases split : Str.splitOnce line with
      | nil =>
          have unfit : Unfit requestedPaths columns line := .inl (by simp [rowPath, split])
          exact .inl ⟨_, rfl, [], line :: rows, rfl, by simp, .inl ⟨line, rows, rfl, unfit⟩⟩
      | cons word more =>
          have isPath : rowPath line = some (Str.unquote word) := by simp [rowPath, split]
          dsimp only
          by_cases requested : Str.unquote word ∈ requestedPaths
          · rw [if_neg (not_not.mpr requested)]
            by_cases count : (Str.words line).length = columns.items.length
            · rw [if_neg (not_not.mpr count)]
              have fit : ¬ Unfit requestedPaths columns line := by
                rintro (blank | ⟨_, other⟩)
                · rw [isPath] at blank
                  cases blank
                · exact other count
              cases values : rowValues columns (Str.words line) with
              | error failure =>
                  have stumbles : ¬ Passes requestedPaths columns line := by
                    rintro ⟨_, served⟩
                    obtain ⟨_, ok⟩ := served _ requested isPath
                    rw [values] at ok
                    cases ok
                  rw [rowValues_error values]
                  refine .inr (.inl ⟨rfl, ?_, fun served => stumbles (served.1 line (by simp))⟩)
                  rintro ⟨front, rest, isRows, pass, stop⟩
                  cases front with
                  | nil =>
                      rcases stop with ⟨first, later, isRest, unfit⟩ | ⟨empty, _⟩
                      · rw [List.nil_append, isRest] at isRows
                        exact fit ((List.cons.inj isRows).1 ▸ unfit)
                      · rw [List.nil_append, empty] at isRows
                        cases isRows
                  | cons first front =>
                      rw [List.cons_append, List.cons.injEq] at isRows
                      exact stumbles (isRows.1 ▸ pass first (by simp))
              | ok rowHas =>
                  have passes : Passes requestedPaths columns line :=
                    ⟨fit, fun path _ _ => ⟨rowHas, values⟩⟩
                  rw [rowsRefused_cons_iff passes, rowsServed_cons_iff passes]
                  rcases inductionHypothesis (d.set (Str.unquote word) rowHas) (some line) with
                    refused | stumbles | ⟨dict, read, served, found⟩
                  · exact .inl refused
                  · exact .inr (.inl stumbles)
                  · refine .inr (.inr ⟨dict, read, served, fun path => ?_⟩)
                    rw [found, Dict.get?_set, rowOf_cons, isPath]
                    by_cases same : path = Str.unquote word
                    · rw [same, if_pos rfl, if_pos requested, if_pos requested, if_pos rfl, values]
                      cases rowOf columns rows (Str.unquote word) <;> rfl
                    · cases rowOf columns rows path <;> simp [same, Ne.symm same]
            · rw [if_pos count]
              have unfit : Unfit requestedPaths columns line :=
                .inr ⟨⟨_, requested, isPath⟩, count⟩
              exact .inl ⟨_, rfl, [], line :: rows, rfl, by simp, .inl ⟨line, rows, rfl, unfit⟩⟩
          · rw [if_pos requested]
            have foreign : ∀ path ∈ requestedPaths, rowPath line ≠ some path := by
              intro path isRequested same
              rw [isPath, Option.some.injEq] at same
              exact requested (same ▸ isRequested)
            have passes : Passes requestedPaths columns line := by
              refine ⟨?_, fun path isRequested same => absurd same (foreign path isRequested)⟩
              rintro (blank | ⟨⟨path, isRequested, same⟩, _⟩)
              · rw [isPath] at blank
                cases blank
              · exact foreign path isRequested same
            rw [rowsRefused_cons_iff passes, rowsServed_cons_iff passes]
            rcases inductionHypothesis d (some line) with
              refused | stumbles | ⟨dict, read, served, found⟩
            · exact .inl refused
            · exact .inr (.inl stumbles)
            · refine .inr (.inr ⟨dict, read, served, fun path => ?_⟩)
              rw [found, rowOf_cons]
              by_cases isRequested : path ∈ requestedPaths
              · rw [if_neg (foreign path isRequested), Option.or_none]
              · rw [if_neg isRequested, if_neg isRequested]

end Rows

/-! ## Databases -/

/-- The reader refuses the database when it looks up the paths. -/
def Stops (requestedPaths : List Str) : Prop :=
  requestedPaths ≠ [] ∧
    (parser.dbFile = none ∨
      ∃ lines, parser.dbFile = some lines ∧
        ((∃ failure, parser.header lines = .error failure ∧ failure ≠ .indexError) ∨
          ∃ columns rows, parser.header lines = .ok (columns, rows) ∧
            RowsRefused requestedPaths columns none rows))

/-- The database is read to its end when the paths are looked up, or there are none. -/
def Serves (requestedPaths : List Str) : Prop :=
  requestedPaths = [] ∨
    ∃ lines columns rows, parser.dbFile = some lines ∧
      parser.header lines = .ok (columns, rows) ∧ RowsServed requestedPaths columns none rows

/-- What the database records of a path. -/
def row? (path : Str) : Option RowValues :=
  parser.dbFile.bind fun lines =>
    (parser.header lines).toOption.bind fun header => rowOf header.1 header.2 path

variable {parser}

theorem not_stops_of_serves {requestedPaths : List Str} (serves : parser.Serves requestedPaths) :
    ¬ parser.Stops requestedPaths := by
  rintro ⟨nonempty, stop⟩
  rcases serves with empty | ⟨lines, columns, rows, opened, isHeader, served⟩
  · exact nonempty empty
  · rcases stop with unopened | ⟨lines', opened', failed | ⟨columns', rows', isHeader', refused⟩⟩
    · rw [opened] at unopened
      cases unopened
    · obtain rfl := Option.some.inj (opened.symm.trans opened')
      obtain ⟨failure, isError, _⟩ := failed
      rw [isHeader] at isError
      cases isError
    · obtain rfl := Option.some.inj (opened.symm.trans opened')
      rw [isHeader, Except.ok.injEq, Prod.mk.injEq] at isHeader'
      obtain ⟨rfl, rfl⟩ := isHeader'
      exact not_refused_of_served served refused

private theorem searchNames_error {words lines : List Str} {failure : ReadError}
    (failed : searchNames words lines = .error failure) :
    failure.Refusal ∨ failure = .indexError := by
  induction lines generalizing words with
  | nil =>
      rw [searchNames] at failed
      split at failed
      · rw [← Except.error.inj failed]
        exact .inl (.inl trivial)
      · cases failed
  | cons line rest inductionHypothesis =>
      rw [searchNames] at failed
      split at failed
      · exact inductionHypothesis failed
      · split at failed
        · exact .inr (Except.error.inj failed).symm
        · exact inductionHypothesis failed
      · split at failed
        · cases failed
        · exact inductionHypothesis failed

/-- The opening lines of a database are refused, but for names that are missing. -/
theorem header_error {lines : List Str} {failure : ReadError}
    (failed : parser.header lines = .error failure) :
    failure.Refusal ∨ failure = .indexError := by
  unfold header at failed
  cases names : parser.getAllInfilePropertiesNames lines with
  | error earlier =>
      rw [names] at failed
      obtain rfl := Except.error.inj failed
      cases lines with
      | nil =>
          rw [← Except.error.inj names]
          exact .inl (.inr rfl)
      | cons line rest =>
          rw [getAllInfilePropertiesNames] at names
          split at names
          · rw [← Except.error.inj names]
            exact .inl (.inl trivial)
          · exact searchNames_error names
  | ok found =>
      rw [names] at failed
      obtain ⟨infilePropNames, rows⟩ := found
      simp only [bind, Except.bind, assertRequiredPropertiesPresent] at failed
      split at failed
      · rename_i missing
        split at missing
        · cases missing
        · rw [← Except.error.inj failed, ← Except.error.inj missing]
          exact .inl (.inl trivial)
      · cases failed

/-- Looking up paths ends in one of three ways. -/
theorem getFilesProperties_cases (requestedPaths : List Str) :
    (∃ failure, parser.getFilesProperties requestedPaths = .error failure ∧ failure.Refusal ∧
        parser.Stops requestedPaths) ∨
      (parser.getFilesProperties requestedPaths = .error .indexError ∧
        ¬ parser.Stops requestedPaths ∧ ¬ parser.Serves requestedPaths) ∨
      ∃ dict, parser.getFilesProperties requestedPaths = .ok dict ∧
        parser.Serves requestedPaths ∧
          ∀ path, dict.get? path = if path ∈ requestedPaths then parser.row? path else none := by
  unfold getFilesProperties
  by_cases empty : requestedPaths = []
  · rw [if_pos empty]
    exact .inr (.inr ⟨.empty, rfl, .inl empty, fun path => by simp [empty]⟩)
  · rw [if_neg empty]
    cases opened : parser.dbFile with
    | none => exact .inl ⟨_, rfl, .inl trivial, empty, .inl opened⟩
    | some lines =>
        cases isHeader : parser.header lines with
        | error failure =>
            dsimp only
            rw [isHeader]
            rcases header_error isHeader with refusal | isIndex
            · refine .inl ⟨failure, rfl, refusal, empty, .inr ⟨lines, opened, .inl
                ⟨failure, isHeader, ?_⟩⟩⟩
              rintro rfl
              rcases refusal with guarded | isStop
              · exact guarded
              · cases isStop
            · refine .inr (.inl ⟨by rw [isIndex]; rfl, ?_, ?_⟩)
              · rintro ⟨_, unopened | ⟨lines', opened', failed | ⟨_, _, isHeader', _⟩⟩⟩
                · rw [opened] at unopened
                  cases unopened
                · obtain rfl := Option.some.inj (opened.symm.trans opened')
                  obtain ⟨failure', isError, notIndex⟩ := failed
                  rw [isHeader, Except.error.injEq] at isError
                  exact notIndex (isError ▸ isIndex)
                · obtain rfl := Option.some.inj (opened.symm.trans opened')
                  rw [isHeader] at isHeader'
                  cases isHeader'
              · rintro (isEmpty | ⟨lines', _, _, opened', isHeader', _⟩)
                · exact empty isEmpty
                · obtain rfl := Option.some.inj (opened.symm.trans opened')
                  rw [isHeader] at isHeader'
                  cases isHeader'
        | ok found =>
            obtain ⟨columns, rows⟩ := found
            dsimp only
            rw [isHeader]
            have refusedIff : parser.Stops requestedPaths ↔
                RowsRefused requestedPaths columns none rows := by
              constructor
              · rintro ⟨_, unopened | ⟨lines', opened', failed | ⟨_, _, isHeader', refused⟩⟩⟩
                · rw [opened] at unopened
                  cases unopened
                · obtain rfl := Option.some.inj (opened.symm.trans opened')
                  obtain ⟨_, isError, _⟩ := failed
                  rw [isHeader] at isError
                  cases isError
                · obtain rfl := Option.some.inj (opened.symm.trans opened')
                  rw [isHeader, Except.ok.injEq, Prod.mk.injEq] at isHeader'
                  obtain ⟨rfl, rfl⟩ := isHeader'
                  exact refused
              · exact fun refused =>
                  ⟨empty, .inr ⟨lines, opened, .inr ⟨columns, rows, isHeader, refused⟩⟩⟩
            have servedIff : parser.Serves requestedPaths ↔
                RowsServed requestedPaths columns none rows := by
              constructor
              · rintro (isEmpty | ⟨lines', _, _, opened', isHeader', served⟩)
                · exact absurd isEmpty empty
                · obtain rfl := Option.some.inj (opened.symm.trans opened')
                  rw [isHeader, Except.ok.injEq, Prod.mk.injEq] at isHeader'
                  obtain ⟨rfl, rfl⟩ := isHeader'
                  exact served
              · exact fun served => .inr ⟨lines, columns, rows, opened, isHeader, served⟩
            rw [refusedIff, servedIff]
            rcases parser.readRows_cases .empty none rows with
              ⟨message, read, refused⟩ | stumbles | ⟨dict, read, served, found⟩
            · exact .inl ⟨_, read, .inl trivial, refused⟩
            · exact .inr (.inl stumbles)
            · refine .inr (.inr ⟨dict, read, served, fun path => ?_⟩)
              rw [found, Dict.get?_empty, Option.or_none, row?, opened]
              simp [isHeader, Except.toOption]

/-! ## Entries -/

/-- The listed paths have their values at hand, and the info strings are valid. -/
def Ready (values? : Str → Option RowValues) (simpleEntry : AIDESimpleEntry) : Prop :=
  (∃ values, values? simpleEntry.filePath = some values ∧ Converts values) ∧
    ValidInfo simpleEntry.aideInfoStr

theorem readEntry_cases (filesProperties : Dict Str RowValues) (type : EntryType)
    (simpleEntry : AIDESimpleEntry) :
    (∃ entry, readEntry filesProperties type simpleEntry = .ok entry ∧
        entry.prevProperties = none ∧ Ready filesProperties.get? simpleEntry) ∨
      ∃ failure, readEntry filesProperties type simpleEntry = .error failure ∧ failure.Stray ∧
        ¬ Ready filesProperties.get? simpleEntry := by
  unfold readEntry
  cases found : filesProperties.get? simpleEntry.filePath with
  | none =>
      refine .inr ⟨_, rfl, stray_keyError, ?_⟩
      rintro ⟨⟨values, isValues, _⟩, _⟩
      rw [found] at isValues
      cases isValues
  | some values =>
      dsimp only
      cases converted : AIDEProperties.ofRow values with
      | error failure =>
          refine .inr ⟨failure, rfl, ofRow_error failure converted ▸ stray_valueError, ?_⟩
          rintro ⟨⟨values', isValues, properties, isOk⟩, _⟩
          obtain rfl := Option.some.inj (found.symm.trans isValues)
          rw [converted] at isOk
          cases isOk
      | ok properties =>
          rcases make_cases properties simpleEntry.aideInfoStr type with
            ⟨entry, made, noPrev, valid⟩ | ⟨failure, failed, stray, invalid⟩
          · exact .inl ⟨entry, made, noPrev, ⟨values, found, properties, converted⟩, valid⟩
          · exact .inr ⟨failure, failed, stray, fun ready => invalid ready.2⟩

theorem readEntries_cases (filesProperties : Dict Str RowValues) (type : EntryType)
    (fileEntries : Dict Str ReadEntry) (simpleEntries : List AIDESimpleEntry)
    (distinct : (fileEntries.keys ++ simpleEntries.map AIDESimpleEntry.filePath).Nodup) :
    (∃ dict, readEntries filesProperties type fileEntries simpleEntries = .ok dict ∧
        (∀ simpleEntry ∈ simpleEntries, Ready filesProperties.get? simpleEntry) ∧
        dict.keys = fileEntries.keys ++ simpleEntries.map AIDESimpleEntry.filePath ∧
        ∀ path entry, dict.get? path = some entry →
          entry.prevProperties = none ∨ fileEntries.get? path = some entry) ∨
      ∃ failure, readEntries filesProperties type fileEntries simpleEntries = .error failure ∧
        failure.Stray ∧ ∃ simpleEntry ∈ simpleEntries, ¬ Ready filesProperties.get? simpleEntry := by
  induction simpleEntries generalizing fileEntries with
  | nil =>
      exact .inl ⟨fileEntries, rfl, by simp, by simp, fun path entry found => .inr found⟩
  | cons simpleEntry rest inductionHypothesis =>
      rw [readEntries]
      rcases readEntry_cases filesProperties type simpleEntry with
        ⟨entry, read, noPrev, ready⟩ | ⟨failure, failed, stray, unready⟩
      · rw [read]
        have later : (fileEntries.set simpleEntry.filePath entry).keys =
            fileEntries.keys ++ [simpleEntry.filePath] := by
          rw [Dict.keys_set, if_neg]
          intro member
          exact (List.nodup_append.mp distinct).2.2 _ member _ (by simp) rfl
        rcases inductionHypothesis (fileEntries.set simpleEntry.filePath entry)
            (by simpa [later] using distinct) with
          ⟨dict, readRest, readyRest, keys, prev⟩ | ⟨failure, failed, stray, other, inRest, unready⟩
        · refine .inl ⟨dict, readRest, ?_, by simp [keys, later], fun path found isFound => ?_⟩
          · rintro other member
            rcases List.mem_cons.mp member with rfl | later
            · exact ready
            · exact readyRest other later
          · rcases prev path found isFound with none' | earlier
            · exact .inl none'
            · rw [Dict.get?_set] at earlier
              split at earlier
              · exact .inl (Option.some.inj earlier ▸ noPrev)
              · exact .inr earlier
        · exact .inr ⟨failure, failed, stray, other, List.mem_cons_of_mem _ inRest, unready⟩
      · rw [failed]
        exact .inr ⟨failure, rfl, stray, simpleEntry, List.mem_cons_self, unready⟩

/-- Each entry stands under its own path. -/
def Keyed (listed : Dict Str AIDESimpleEntry) : Prop :=
  ∀ path simpleEntry, listed.get? path = some simpleEntry → simpleEntry.filePath = path

/-- The database is read to its end and has all that the listed entries need. -/
def Provides (parser : AIDEDatabaseFileParser) (listed : Dict Str AIDESimpleEntry) : Prop :=
  parser.Serves listed.keys ∧ ∀ simpleEntry ∈ listed.values, Ready parser.row? simpleEntry

theorem map_filePath {listed : Dict Str AIDESimpleEntry} (keyed : Keyed listed) :
    listed.values.map AIDESimpleEntry.filePath = listed.keys := by
  rw [Dict.values, Dict.keys, List.map_map]
  apply List.map_congr_left
  rintro ⟨path, simpleEntry⟩ member
  exact keyed path simpleEntry (Dict.get?_eq_some_iff.mpr member)

theorem ready_congr {values? values?' : Str → Option RowValues} {simpleEntry : AIDESimpleEntry}
    (same : values? simpleEntry.filePath = values?' simpleEntry.filePath) :
    Ready values? simpleEntry ↔ Ready values?' simpleEntry := by
  rw [Ready, Ready, same]

/-- The entries of a type are read in one of three ways. -/
theorem getFilesEntries_cases {listed : Dict Str AIDESimpleEntry} (keyed : Keyed listed)
    (type : EntryType) :
    (∃ failure, parser.getFilesEntries type listed = .error failure ∧ failure.Refusal ∧
        parser.Stops listed.keys) ∨
      (∃ failure, parser.getFilesEntries type listed = .error failure ∧ failure.Stray ∧
        ¬ parser.Stops listed.keys ∧ ¬ parser.Provides listed) ∨
      ∃ dict, parser.getFilesEntries type listed = .ok dict ∧ parser.Provides listed ∧
        dict.keys = listed.keys ∧
          ∀ path entry, dict.get? path = some entry → entry.prevProperties = none := by
  unfold getFilesEntries
  rcases @getFilesProperties_cases parser listed.keys with
    ⟨failure, failed, refusal, stops⟩ | ⟨failed, goesOn, unserved⟩ | ⟨properties, read, serves, found⟩
  · rw [failed]
    exact .inl ⟨failure, rfl, refusal, stops⟩
  · rw [failed]
    exact .inr (.inl ⟨_, rfl, stray_indexError, goesOn, fun provides => unserved provides.1⟩)
  · rw [read]
    have sameReady : ∀ simpleEntry ∈ listed.values,
        (Ready properties.get? simpleEntry ↔ Ready parser.row? simpleEntry) := by
      intro simpleEntry member
      apply ready_congr
      rw [found, if_pos]
      rw [← map_filePath keyed]
      exact List.mem_map_of_mem member
    dsimp only [bind, Except.bind]
    rcases readEntries_cases properties type .empty listed.values
        (by rw [Dict.keys_empty, List.nil_append, map_filePath keyed]; exact listed.nodup) with
      ⟨dict, readAll, ready, keys, prev⟩ | ⟨failure, failed, stray, simpleEntry, member, unready⟩
    · have sameKeys : dict.keys = listed.keys := by
        rw [keys, map_filePath keyed, Dict.keys_empty, List.nil_append]
      have count : listed.items.length = dict.items.length := by
        simpa [Dict.keys] using congrArg List.length sameKeys.symm
      rw [readAll]
      refine .inr (.inr ⟨dict, if_neg (not_not.mpr count), ⟨serves, fun simpleEntry member =>
        (sameReady simpleEntry member).mp (ready simpleEntry member)⟩, sameKeys, ?_⟩)
      intro path entry isEntry
      rcases prev path entry isEntry with noPrev | earlier
      · exact noPrev
      · rw [Dict.get?_empty] at earlier
        cases earlier
    · rw [failed]
      refine .inr (.inl ⟨failure, rfl, stray, not_stops_of_serves serves, fun provides => ?_⟩)
      exact unready ((sameReady simpleEntry member).mpr (provides.2 simpleEntry member))

end AIDEDatabaseFileParser

end Myscm.Server
