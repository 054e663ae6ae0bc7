import Myscm.Library.FileCalls
import Myscm.Server.DatabaseLookups

/-!
Owns the look-up of any set of properties in an AIDE database.

Owns: `get_files_properties` with the properties it is asked for; that without any it gives the
required ones; which requests a well-formed database serves.

Does not own: the conversion of values.
-/

namespace Myscm.Server

open Myscm.Library

namespace AIDEDatabaseFileParser

/-! ## Requests -/

/-- `_assert_requested_properties_present`. -/
def assertRequestedPropertiesPresent (requestedProperties infilePropNames : List Str) :
    Except ReadError Unit :=
  if requestedProperties.all fun propName => decide (propName ∈ infilePropNames) then
    .ok ()
  else
    .error (.aideDatabaseFileParser
      ("Some of the requested file's AIDE properties were not found - list of requested ".toList ++
        "properties: '".toList ++ List.intercalate "', '".toList requestedProperties ++
        "'; list of fetched properties: '".toList ++
        List.intercalate "', '".toList infilePropNames ++ ['\'']))

/-- The loop over the requested properties of a row. -/
def currentFileProperties (propColMapping : Dict Str Nat) (words : List Str)
    (properties : Dict Str Str) : List Str → Except ReadError (Dict Str Str)
  | [] => .ok properties
  | propName :: rest =>
      match propColMapping.get? propName with
      | none => .error .keyError
      | some propCol =>
          match words[propCol]? with
          | none => .error .indexError
          | some word =>
              currentFileProperties propColMapping words (properties.set propName word) rest

section Loop

variable {β : Type} (parser : AIDEDatabaseFileParser) (propColMapping : Dict Str Nat)
  (valuesOf : List Str → Except ReadError β) (requestedPaths : List Str)

/-- The loop of `_get_files_properties_values`, with the line before and what is made of the
words of a requested row. -/
def readRowsWith (filesProperties : Dict Str β) (before : Option Str) :
    List Str → Except ReadError (Dict Str β)
  | [] =>
      if before ≠ some aideDbFileClosing then
        .error (parser.unexpectedEnd "closing".toList aideDbFileClosing)
      else
        .ok filesProperties
  | line :: rest =>
      match Str.splitOnce line with
      | [] =>
          .error (.aideDatabaseFileParser
            ("Malformed '".toList ++ parser.aideDbPath ++
              "' AIDE database - unexpected empty line instead of line with file's ".toList ++
              "properties values".toList))
      | word :: _ =>
          if Str.unquote word ∉ requestedPaths then
            readRowsWith filesProperties (some line) rest
          else if (Str.words line).length ≠ propColMapping.items.length then
            .error (.aideDatabaseFileParser
              ("Malformed '".toList ++ parser.aideDbPath ++
                "' AIDE database file - unexpected number of properties (".toList ++
                Str.ofNat (Str.words line).length ++ " instead of ".toList ++
                Str.ofNat propColMapping.items.length ++ [')']))
          else do
            let values ← valuesOf (Str.words line)
            readRowsWith (filesProperties.set (Str.unquote word) values) (some line) rest

end Loop

/-- `requested_properties`, which are the required ones where there are none. -/
def effectiveProperties (requestedProperties : List Str) : List Str :=
  if requestedProperties = [] then requiredProperties.map PropertyType.value
  else requestedProperties

/-- `get_files_properties`, with the requested properties. -/
def getRequestedProperties (parser : AIDEDatabaseFileParser)
    (requestedPaths requestedProperties : List Str) :
    Except ReadError (Dict Str (Dict Str Str)) :=
  if requestedPaths = [] then
    .ok .empty
  else
    match parser.dbFile with
    | none =>
        .error (.aideDatabaseFileParser
          ("Failed to get files' AIDE properties. Unable to open AIDE database file '".toList ++
            parser.aideDbPath ++ ['\'']))
    | some lines => do
        let (infilePropNames, rows) ← parser.getAllInfilePropertiesNames lines
        assertRequiredPropertiesPresent infilePropNames
        assertRequestedPropertiesPresent (effectiveProperties requestedProperties) infilePropNames
        let propColMapping := enumerateColumns infilePropNames
        parser.readRowsWith propColMapping
          (fun words => currentFileProperties propColMapping (words.modifyHead Str.unquote) .empty
            (effectiveProperties requestedProperties))
          requestedPaths .empty none rows

/-! ## Properties of a row -/

section Cells

variable {propColMapping : Dict Str Nat} {words : List Str}

theorem currentFileProperties_ok {value : Str → Str} {propNames : List Str}
    (has : ∀ propName ∈ propNames,
      (propColMapping.get? propName).bind (words[·]?) = some (value propName))
    (properties : Dict Str Str) :
    currentFileProperties propColMapping words properties propNames =
      .ok (propNames.foldl (fun d propName => d.set propName (value propName)) properties) := by
  induction propNames generalizing properties with
  | nil => rfl
  | cons propName rest inductionHypothesis =>
      obtain ⟨propCol, isCol, isWord⟩ := Option.bind_eq_some_iff.mp (has propName List.mem_cons_self)
      rw [currentFileProperties, isCol]
      dsimp only
      rw [isWord]
      exact inductionHypothesis (fun other later => has other (List.mem_cons_of_mem _ later)) _

/-- A row that is too short for a requested property raises `IndexError`. -/
theorem currentFileProperties_short {propNames : List Str}
    (mapped : ∀ propName ∈ propNames, (propColMapping.get? propName).isSome = true)
    (short : ∃ propName ∈ propNames, (propColMapping.get? propName).bind (words[·]?) = none)
    (properties : Dict Str Str) :
    currentFileProperties propColMapping words properties propNames = .error .indexError := by
  induction propNames generalizing properties with
  | nil =>
      obtain ⟨_, member, _⟩ := short
      cases member
  | cons propName rest inductionHypothesis =>
      obtain ⟨propCol, isCol⟩ := Option.isSome_iff_exists.mp (mapped propName List.mem_cons_self)
      rw [currentFileProperties, isCol]
      dsimp only
      cases isWord : words[propCol]? with
      | none => rfl
      | some word =>
          refine inductionHypothesis
            (fun other later => mapped other (List.mem_cons_of_mem _ later)) ?_ _
          obtain ⟨other, member, missing⟩ := short
          rcases List.mem_cons.mp member with rfl | later
          · rw [isCol, Option.bind_some, isWord] at missing
            cases missing
          · exact ⟨other, later, missing⟩

end Cells

/-! ## The required properties -/

/-- The values that are looked up for the required properties. -/
def requiredValues (properties : Dict Str Str) : RowValues :=
  fun type => (properties.get? type.value).getD []

theorem value_injective : Function.Injective PropertyType.value := by
  intro left right same
  cases left <;> cases right <;> first | rfl | exact absurd same (by decide)

/-- With the required properties as columns, a row gives their values or is too short. -/
theorem rowValues_eq {columns : Dict Str Nat} (words : List Str)
    (mapped : ∀ type ∈ requiredProperties, (columns.get? type.value).isSome = true) :
    rowValues columns words =
      (currentFileProperties columns (words.modifyHead Str.unquote) .empty
        (requiredProperties.map PropertyType.value)).map requiredValues := by
  unfold rowValues
  by_cases whole : ∀ type ∈ requiredProperties, (value? columns words type).isSome = true
  · rw [if_pos (by simpa using whole)]
    have has : ∀ propName ∈ requiredProperties.map PropertyType.value,
        (columns.get? propName).bind ((words.modifyHead Str.unquote)[·]?) =
          some (((columns.get? propName).bind ((words.modifyHead Str.unquote)[·]?)).getD []) := by
      intro propName member
      obtain ⟨type, isType, rfl⟩ := List.mem_map.mp member
      obtain ⟨word, isWord⟩ := Option.isSome_iff_exists.mp (whole type isType)
      rw [value?] at isWord
      rw [isWord]
      rfl
    rw [currentFileProperties_ok has]
    refine congrArg Except.ok (funext fun type => ?_)
    have member : type.value ∈ requiredProperties.map PropertyType.value :=
      List.mem_map_of_mem (by cases type <;> decide)
    rw [requiredValues, Dict.get?_foldl_set_of, if_pos member]
    rfl
  · rw [if_neg (by simpa using whole)]
    push Not at whole
    obtain ⟨type, isType, missing⟩ := whole
    rw [currentFileProperties_short]
    · rfl
    · intro propName member
      obtain ⟨other, isOther, rfl⟩ := List.mem_map.mp member
      exact mapped other isOther
    · exact ⟨type.value, List.mem_map_of_mem isType, by simpa [value?] using missing⟩

theorem readRows_eq (parser : AIDEDatabaseFileParser) (requestedPaths : List Str)
    {columns : Dict Str Nat} {properties : List Str → Except ReadError (Dict Str Str)}
    (values : ∀ words, rowValues columns words = (properties words).map requiredValues)
    (d : Dict Str (Dict Str Str)) (before : Option Str) (rows : List Str) :
    parser.readRows requestedPaths columns (d.map requiredValues) before rows =
      (parser.readRowsWith columns properties requestedPaths d before rows).map
        (Dict.map requiredValues) := by
  induction rows generalizing d before with
  | nil =>
      rw [readRows, readRowsWith]
      split <;> rfl
  | cons line rest inductionHypothesis =>
      rw [readRows, readRowsWith]
      cases Str.splitOnce line with
      | nil => rfl
      | cons word more =>
          dsimp only
          by_cases requested : Str.unquote word ∉ requestedPaths
          · rw [if_pos requested, if_pos requested]
            exact inductionHypothesis d (some line)
          · rw [if_neg requested, if_neg requested]
            by_cases count : (Str.words line).length ≠ columns.items.length
            · rw [if_pos count, if_pos count]
              rfl
            · rw [if_neg count, if_neg count, values]
              cases properties (Str.words line) with
              | error failure => rfl
              | ok here =>
                  have later := inductionHypothesis (d.set (Str.unquote word) here) (some line)
                  rw [Dict.map_set] at later
                  exact later

/-- The columns of names have a place for each name. -/
theorem get?_enumerateColumns_isSome {infilePropNames : List Str} {propName : Str}
    (member : propName ∈ infilePropNames) :
    ((enumerateColumns infilePropNames).get? propName).isSome = true := by
  obtain ⟨column, found⟩ := List.mem_iff_getElem?.mp member
  rw [enumerateColumns, Dict.get?_ofPairs, Option.isSome_map, List.find?_isSome]
  exact ⟨(propName, column),
    List.mem_reverse.mpr (List.mem_zipIdx_iff_getElem?.mpr found), by simp⟩

/-- A look-up without requested properties is one of the required properties. -/
theorem getFilesProperties_eq (parser : AIDEDatabaseFileParser) (requestedPaths : List Str) :
    parser.getFilesProperties requestedPaths =
      (parser.getRequestedProperties requestedPaths []).map (Dict.map requiredValues) := by
  unfold getFilesProperties getRequestedProperties
  by_cases empty : requestedPaths = []
  · rw [if_pos empty, if_pos empty]
    rfl
  · rw [if_neg empty, if_neg empty]
    cases parser.dbFile with
    | none => rfl
    | some lines =>
        dsimp only
        rw [header]
        cases parser.getAllInfilePropertiesNames lines with
        | error failure => rfl
        | ok found =>
            obtain ⟨infilePropNames, rows⟩ := found
            cases required : assertRequiredPropertiesPresent infilePropNames with
            | error failure =>
                simp only [bind, Except.bind, required]
                rfl
            | ok passed =>
                have present : ∀ type ∈ requiredProperties, type.value ∈ infilePropNames := by
                  unfold assertRequiredPropertiesPresent at required
                  split at required
                  · rename_i all
                    simpa using all
                  · cases required
                have requested : assertRequestedPropertiesPresent (effectiveProperties [])
                    infilePropNames = .ok () := by
                  rw [assertRequestedPropertiesPresent, effectiveProperties, if_pos rfl, if_pos]
                  simpa using present
                simp only [bind, Except.bind, required, requested]
                exact readRows_eq parser requestedPaths
                  (fun words => rowValues_eq words fun type isType =>
                    get?_enumerateColumns_isSome (present type isType)) .empty none rows

/-! ## Well-formed databases -/

/-- The lines of a database with the columns of the given names. Its body is the rows and the
last line, whatever that is. -/
structure IsDatabase (lines names body : List Str) : Prop where
  opening : ∃ comments spec, lines = aideDbFileOpening :: (comments ++ spec :: body) ∧
    (∀ line ∈ comments, Str.startsWith line ['#'] = true) ∧
      Str.words spec = aideDbPropertiesOpening :: names
  distinct : names.Nodup
  nameFirst : names.head? = some PropertyType.name.value
  required : ∀ type ∈ requiredProperties, type.value ∈ names
  rows : ∀ row ∈ body.dropLast, (Str.words row).length = names.length

/-- The word of a row in the column of a property, the name decoded. -/
def wordIn (names : List Str) (row propName : Str) : Option Str :=
  ((Str.words row).modifyHead Str.unquote)[names.idxOf propName]?

/-- The last row of a path. -/
def lastRow? (rows : List Str) (path : Str) : Option Str :=
  (rows.filter fun row => rowPath row = some path).getLast?

section Header

theorem searchNames_comments {comments : List Str}
    (hash : ∀ line ∈ comments, Str.startsWith line ['#'] = true) (words rest : List Str) :
    ∃ before, searchNames words (comments ++ rest) = searchNames before rest := by
  induction comments generalizing words with
  | nil => exact ⟨words, rfl⟩
  | cons line comments inductionHypothesis =>
      have later := inductionHypothesis fun other member => hash other (List.mem_cons_of_mem _ member)
      obtain ⟨tail, rfl⟩ : ∃ tail, line = '#' :: tail := by
        obtain ⟨tail, isLine⟩ := List.isPrefixOf_iff_prefix.mp (hash line List.mem_cons_self)
        exact ⟨tail, isLine.symm⟩
      have isHash := @Str.words_trimmed '#' tail (by decide)
      have other : ('#' :: tail).takeWhile (fun c => !Str.isSpace c) ≠ aideDbPropertiesOpening := by
        rw [List.takeWhile_cons, if_pos (by decide)]
        intro same
        exact absurd (List.cons.inj same).1 (by decide)
      rw [List.cons_append, searchNames]
      rcases Str.splitOnce_of_words isHash with ⟨_, single⟩ | ⟨behind, two, _⟩
      · rw [single]
        dsimp only
        rw [if_neg other]
        exact later _
      · rw [two]
        dsimp only
        rw [if_neg other]
        exact later _

theorem searchNames_spec {spec : Str} {names : List Str}
    (isSpec : Str.words spec = aideDbPropertiesOpening :: names) (named : names ≠ [])
    (words body : List Str) : searchNames words (spec :: body) = .ok (names, body) := by
  rw [searchNames]
  rcases Str.splitOnce_of_words isSpec with ⟨noNames, _⟩ | ⟨behind, two, isNames⟩
  · exact absurd noNames named
  · rw [two]
    dsimp only
    rw [if_pos rfl, isNames]

theorem getAllInfilePropertiesNames_of_isDatabase {lines names body : List Str}
    (parser : AIDEDatabaseFileParser) (database : IsDatabase lines names body) :
    parser.getAllInfilePropertiesNames lines = .ok (names, body) := by
  obtain ⟨comments, spec, rfl, hash, isSpec⟩ := database.opening
  have named : names ≠ [] := by
    rintro rfl
    cases database.nameFirst
  rw [getAllInfilePropertiesNames, if_neg (not_not.mpr rfl)]
  obtain ⟨before, same⟩ := searchNames_comments hash [] (spec :: body)
  rw [same, searchNames_spec isSpec named]

end Header

section Rows

variable {β : Type} {parser : AIDEDatabaseFileParser} {propColMapping : Dict Str Nat}
  {valuesOf : List Str → Except ReadError β} {requestedPaths : List Str} {value : Str → β}

/-- What a row adds to the dictionary. -/
def recordRow (requestedPaths : List Str) (value : Str → β) (filesProperties : Dict Str β)
    (row : Str) : Dict Str β :=
  match rowPath row with
  | none => filesProperties
  | some path => if path ∈ requestedPaths then filesProperties.set path (value row) else filesProperties

theorem get?_foldl_recordRow (rows : List Str) (d : Dict Str β) (path : Str) :
    (rows.foldl (recordRow requestedPaths value) d).get? path =
      if path ∈ requestedPaths then ((lastRow? rows path).map value).or (d.get? path)
      else d.get? path := by
  induction rows using List.reverseRecOn with
  | nil => simp [lastRow?]
  | append_singleton front row inductionHypothesis =>
      rw [List.foldl_append, List.foldl_cons, List.foldl_nil, recordRow, lastRow?,
        List.filter_append]
      cases here : rowPath row with
      | none => simpa [List.filter_cons, here, lastRow?] using inductionHypothesis
      | some rowsPath =>
          dsimp only
          by_cases requested : rowsPath ∈ requestedPaths
          · rw [if_pos requested, Dict.get?_set]
            by_cases same : path = rowsPath
            · simp [same, requested, here]
            · rw [if_neg same, inductionHypothesis]
              simp [here, Ne.symm same, lastRow?]
          · rw [if_neg requested, inductionHypothesis]
            by_cases same : path = rowsPath
            · rw [same, if_neg requested, if_neg requested]
            · simp [here, Ne.symm same, lastRow?]

/-- A row with a word for each column. -/
structure Fits (propColMapping : Dict Str Nat) (valuesOf : List Str → Except ReadError β)
    (value : Str → β) (row : Str) : Prop where
  count : (Str.words row).length = propColMapping.items.length
  values : valuesOf (Str.words row) = .ok (value row)

theorem readRowsWith_cons {row : Str} (fits : Fits propColMapping valuesOf value row)
    (nonempty : Str.words row ≠ []) (d : Dict Str β) (before : Option Str) (rest : List Str) :
    parser.readRowsWith propColMapping valuesOf requestedPaths d before (row :: rest) =
      parser.readRowsWith propColMapping valuesOf requestedPaths
        (recordRow requestedPaths value d row) (some row) rest := by
  rw [readRowsWith, recordRow, rowPath]
  cases split : Str.splitOnce row with
  | nil =>
      have blank := Str.head?_splitOnce row
      rw [split] at blank
      exact absurd (List.head?_eq_none_iff.mp blank.symm) nonempty
  | cons word more =>
      dsimp only [List.head?_cons, Option.map_some]
      by_cases requested : Str.unquote word ∈ requestedPaths
      · rw [if_neg (not_not.mpr requested), if_neg (not_not.mpr fits.count), fits.values,
          if_pos requested]
        rfl
      · rw [if_pos requested, if_neg requested]

theorem readRowsWith_append {rows : List Str}
    (fit : ∀ row ∈ rows, Fits propColMapping valuesOf value row ∧ Str.words row ≠ [])
    (d : Dict Str β) (before : Option Str) (rest : List Str) :
    parser.readRowsWith propColMapping valuesOf requestedPaths d before (rows ++ rest) =
      parser.readRowsWith propColMapping valuesOf requestedPaths
        (rows.foldl (recordRow requestedPaths value) d) (rows.getLast?.or before) rest := by
  induction rows generalizing d before with
  | nil => rfl
  | cons row rows inductionHypothesis =>
      obtain ⟨fits, nonempty⟩ := fit row List.mem_cons_self
      rw [List.cons_append, readRowsWith_cons fits nonempty,
        inductionHypothesis fun other later => fit other (List.mem_cons_of_mem _ later)]
      cases rows with
      | nil => rfl
      | cons other rows =>
          rw [List.getLast?_cons_cons, List.foldl_cons]
          cases found : (other :: rows).getLast? with
          | none => simp at found
          | some _ => rfl

/-- A last line that does not close the database is refused. -/
theorem readRowsWith_unclosed {last : Str} (unclosed : last ≠ aideDbFileClosing)
    (served : (Str.words last).length = propColMapping.items.length →
      ∃ values, valuesOf (Str.words last) = .ok values)
    (d : Dict Str β) (before : Option Str) :
    ∃ message, parser.readRowsWith propColMapping valuesOf requestedPaths d before [last] =
      .error (.aideDatabaseFileParser message) := by
  have isOpen : some last ≠ some aideDbFileClosing := fun same => unclosed (Option.some.inj same)
  rw [readRowsWith]
  cases Str.splitOnce last with
  | nil => exact ⟨_, rfl⟩
  | cons word more =>
      dsimp only
      split
      · rw [readRowsWith, if_pos isOpen]
        exact ⟨_, rfl⟩
      · split
        · exact ⟨_, rfl⟩
        · rename_i count
          obtain ⟨values, isOk⟩ := served (not_not.mp count)
          have refused : ∃ message, parser.readRowsWith propColMapping valuesOf requestedPaths
              (d.set (Str.unquote word) values) (some last) [] =
                .error (.aideDatabaseFileParser message) := by
            rw [readRowsWith, if_pos isOpen]
            exact ⟨_, rfl⟩
          rw [isOk]
          exact refused

end Rows

/-! ## What a well-formed database gives -/

section Databases

variable {parser : AIDEDatabaseFileParser} {lines names body : List Str}
  {requestedPaths requestedProperties : List Str}

theorem get?_enumerateColumns {propName : Str} (distinct : names.Nodup)
    (member : propName ∈ names) :
    (enumerateColumns names).get? propName = some (names.idxOf propName) := by
  have firsts : names.zipIdx.map Prod.fst = names := List.zipIdx_map_fst 0 names
  refine Dict.get?_ofPairs_of_mem (firsts.symm ▸ distinct) ?_
  rw [List.mem_zipIdx_iff_getElem?]
  exact List.getElem?_idxOf member

theorem length_enumerateColumns (distinct : names.Nodup) :
    (enumerateColumns names).items.length = names.length := by
  have firsts : names.zipIdx.map Prod.fst = names := List.zipIdx_map_fst 0 names
  have sameKeys := Dict.keys_ofPairs (firsts.symm ▸ distinct)
  rw [firsts] at sameKeys
  simpa [Dict.keys, enumerateColumns] using congrArg List.length sameKeys

/-- The words of a row for the given properties. -/
def recorded (names requestedProperties : List Str) (row : Str) : Dict Str Str :=
  requestedProperties.foldl
    (fun properties propName => properties.set propName ((wordIn names row propName).getD [])) .empty

theorem wordIn_isSome {row propName : Str} (count : (Str.words row).length = names.length)
    (member : propName ∈ names) : (wordIn names row propName).isSome = true := by
  rw [wordIn, List.getElem?_eq_getElem]
  · rfl
  · rw [List.length_modifyHead, count]
    exact List.idxOf_lt_length_of_mem member

/-- What the loop over the rows makes of one of the right length. -/
theorem currentFileProperties_row {row : Str} (distinct : names.Nodup)
    (count : (Str.words row).length = names.length)
    (within : ∀ propName ∈ requestedProperties, propName ∈ names) :
    currentFileProperties (enumerateColumns names) ((Str.words row).modifyHead Str.unquote) .empty
      requestedProperties = .ok (recorded names requestedProperties row) := by
  refine currentFileProperties_ok (fun propName requested => ?_) .empty
  rw [get?_enumerateColumns distinct (within propName requested), Option.bind_some]
  obtain ⟨word, isWord⟩ :=
    Option.isSome_iff_exists.mp (wordIn_isSome count (within propName requested))
  rw [isWord, Option.getD_some]
  exact isWord

/-- A request leads to the loop over the rows. -/
theorem getRequestedProperties_eq (opened : parser.dbFile = some lines)
    (database : IsDatabase lines names body) (nonempty : requestedPaths ≠ [])
    (within : ∀ propName ∈ requestedProperties, propName ∈ names) :
    parser.getRequestedProperties requestedPaths requestedProperties =
      parser.readRowsWith (enumerateColumns names)
        (fun words => currentFileProperties (enumerateColumns names)
          (words.modifyHead Str.unquote) .empty (effectiveProperties requestedProperties))
        requestedPaths .empty none body := by
  have required : assertRequiredPropertiesPresent names = .ok () := by
    rw [assertRequiredPropertiesPresent, if_pos]
    simpa using database.required
  have requested : assertRequestedPropertiesPresent (effectiveProperties requestedProperties) names =
      .ok () := by
    rw [assertRequestedPropertiesPresent, if_pos]
    unfold effectiveProperties
    split
    · simpa using database.required
    · simpa using within
  rw [getRequestedProperties, if_neg nonempty, opened]
  dsimp only
  rw [getAllInfilePropertiesNames_of_isDatabase parser database]
  simp only [bind, Except.bind, required, requested]

/-- The rows of a request are looked up: the keys are the requested paths that a row decodes to,
and each has the words of its last row. -/
def GivesRows (parser : AIDEDatabaseFileParser)
    (names rows requestedPaths requestedProperties : List Str) : Prop :=
  ∃ found, parser.getRequestedProperties requestedPaths requestedProperties = .ok found ∧
    (∀ path, path ∈ found.keys ↔
      path ∈ requestedPaths ∧ ∃ row ∈ rows, rowPath row = some path) ∧
    ∀ path properties, found.get? path = some properties →
      ∃ row, lastRow? rows path = some row ∧
        ∀ propName ∈ requestedProperties, ∃ word,
          wordIn names row propName = some word ∧ properties.get? propName = some word

/-- A request gives the rows of a database that is closed, and an error of the parser's class
for one that is not. -/
def LooksUp (parser : AIDEDatabaseFileParser)
    (names body requestedPaths requestedProperties : List Str) : Prop :=
  (body.getLast? = some aideDbFileClosing →
    GivesRows parser names body.dropLast requestedPaths requestedProperties) ∧
  (body.getLast? ≠ some aideDbFileClosing →
    ∃ message, parser.getRequestedProperties requestedPaths requestedProperties =
      .error (.aideDatabaseFileParser message))

/-- The closing line as a path. -/
def closingPath : Str := "@@end_db".toList

theorem words_closing : Str.words aideDbFileClosing = [closingPath] := by decide

/-- The closing line is passed over, or it is refused as a row that is too short. -/
theorem readRowsWith_closing {β : Type} {valuesOf : List Str → Except ReadError β}
    {propColMapping : Dict Str Nat} (wide : propColMapping.items.length ≠ 1) (d : Dict Str β)
    (before : Option Str) :
    (closingPath ∉ requestedPaths →
      parser.readRowsWith propColMapping valuesOf requestedPaths d before [aideDbFileClosing] =
        .ok d) ∧
      (closingPath ∈ requestedPaths → ∃ message,
        parser.readRowsWith propColMapping valuesOf requestedPaths d before [aideDbFileClosing] =
          .error (.aideDatabaseFileParser message)) := by
  have single : Str.splitOnce aideDbFileClosing = [closingPath] := by decide
  have asPath : Str.unquote closingPath = closingPath := if_pos (by decide)
  rw [readRowsWith, single]
  dsimp only
  rw [asPath]
  constructor
  · intro free
    rw [if_pos free, readRowsWith, if_neg (not_not.mpr rfl)]
  · intro taken
    rw [if_neg (not_not.mpr taken), words_closing, List.length_singleton, if_pos (Ne.symm wide)]
    exact ⟨_, rfl⟩

theorem exists_of_lastRow? {rows : List Str} {path row : Str}
    (found : lastRow? rows path = some row) : row ∈ rows ∧ rowPath row = some path := by
  have member := List.mem_of_getLast? found
  rw [List.mem_filter] at member
  exact ⟨member.1, of_decide_eq_true member.2⟩

theorem lastRow?_isSome_iff {rows : List Str} {path : Str} :
    (lastRow? rows path).isSome = true ↔ ∃ row ∈ rows, rowPath row = some path := by
  constructor
  · intro isSome
    obtain ⟨row, found⟩ := Option.isSome_iff_exists.mp isSome
    exact ⟨row, exists_of_lastRow? found⟩
  · rintro ⟨row, member, isPath⟩
    rw [lastRow?, List.getLast?_isSome]
    exact List.ne_nil_of_mem (List.mem_filter.mpr ⟨member, decide_eq_true isPath⟩)

/-- The dictionary of the rows gives the rows. -/
theorem givesRows_of_ok {rows : List Str}
    (count : ∀ row ∈ rows, (Str.words row).length = names.length)
    (within : ∀ propName ∈ requestedProperties, propName ∈ names)
    (outcome : parser.getRequestedProperties requestedPaths requestedProperties =
      .ok (rows.foldl (recordRow requestedPaths
        (recorded names (effectiveProperties requestedProperties))) .empty)) :
    GivesRows parser names rows requestedPaths requestedProperties := by
  refine ⟨_, outcome, fun path => ?_, fun path properties found => ?_⟩
  · rw [Dict.mem_keys_iff, get?_foldl_recordRow, Dict.get?_empty, Option.or_none]
    by_cases requested : path ∈ requestedPaths
    · rw [if_pos requested, Option.isSome_map, lastRow?_isSome_iff]
      exact ⟨fun there => ⟨requested, there⟩, fun both => both.2⟩
    · rw [if_neg requested]
      exact ⟨fun isSome => absurd isSome (by simp), fun both => absurd both.1 requested⟩
  · rw [get?_foldl_recordRow, Dict.get?_empty, Option.or_none] at found
    split at found
    · obtain ⟨row, isLast, rfl⟩ := Option.map_eq_some_iff.mp found
      refine ⟨row, isLast, fun propName requested => ?_⟩
      have nonempty : requestedProperties ≠ [] := List.ne_nil_of_mem requested
      obtain ⟨word, isWord⟩ := Option.isSome_iff_exists.mp
        (wordIn_isSome (count row (exists_of_lastRow? isLast).1) (within propName requested))
      refine ⟨word, isWord, ?_⟩
      rw [recorded, effectiveProperties, if_neg nonempty, Dict.get?_foldl_set_of, if_pos requested,
        isWord, Option.getD_some]
    · cases found

/-- A request is served as long as it is not for the path that the closing line reads as. -/
theorem looksUp_iff (opened : parser.dbFile = some lines)
    (database : IsDatabase lines names body) (nonempty : requestedPaths ≠ [])
    (within : ∀ propName ∈ requestedProperties, propName ∈ names) :
    LooksUp parser names body requestedPaths requestedProperties ↔
      (body.getLast? = some aideDbFileClosing → closingPath ∉ requestedPaths) := by
  have withinAll : ∀ propName ∈ effectiveProperties requestedProperties, propName ∈ names := by
    unfold effectiveProperties
    split
    · simpa using database.required
    · exact within
  have width := length_enumerateColumns database.distinct
  have wide : (enumerateColumns names).items.length ≠ 1 := by
    intro one
    obtain ⟨single, rfl⟩ := List.length_eq_one_iff.mp (width.symm.trans one)
    have isName := List.mem_singleton.mp (database.required .name (by decide))
    have isLink := List.mem_singleton.mp (database.required .lname (by decide))
    exact absurd (isName.trans isLink.symm) (by decide)
  have fit : ∀ row ∈ body.dropLast, Fits (enumerateColumns names)
      (fun words => currentFileProperties (enumerateColumns names)
        (words.modifyHead Str.unquote) .empty (effectiveProperties requestedProperties))
      (recorded names (effectiveProperties requestedProperties)) row ∧ Str.words row ≠ [] := by
    intro row member
    have count := database.rows row member
    refine ⟨⟨count.trans width.symm, currentFileProperties_row database.distinct count withinAll⟩,
      fun blank => ?_⟩
    rw [blank] at count
    have named := List.length_pos_of_mem (database.required .name (by decide))
    rw [← count] at named
    cases named
  have outcome := getRequestedProperties_eq opened database nonempty within
  unfold LooksUp
  by_cases closed : body.getLast? = some aideDbFileClosing
  · have whole : body = body.dropLast ++ [aideDbFileClosing] :=
      (List.dropLast_append_getLast? _ closed).symm
    rw [whole, readRowsWith_append fit] at outcome
    obtain ⟨passed, refused⟩ := @readRowsWith_closing parser requestedPaths _ _ _ wide
      (body.dropLast.foldl (recordRow requestedPaths
        (recorded names (effectiveProperties requestedProperties))) .empty)
      (body.dropLast.getLast?.or none)
    constructor
    · rintro ⟨gives, _⟩ _ taken
      obtain ⟨_, isOk, _⟩ := gives closed
      obtain ⟨_, isError⟩ := refused taken
      rw [outcome, isError] at isOk
      cases isOk
    · intro free
      refine ⟨fun _ => ?_, fun isOpen => absurd closed isOpen⟩
      exact givesRows_of_ok database.rows within (outcome.trans (passed (free closed)))
  · refine ⟨fun _ isClosed => absurd isClosed closed, fun _ =>
      ⟨fun isClosed => absurd isClosed closed, fun _ => ?_⟩⟩
    cases last : body.getLast? with
    | none =>
        rw [List.getLast?_eq_none_iff.mp last, readRowsWith, if_pos (by decide)] at outcome
        exact ⟨_, outcome⟩
    | some line =>
        have unclosed : line ≠ aideDbFileClosing := fun same => closed (last.trans (congrArg some same))
        have whole : body = body.dropLast ++ [line] := (List.dropLast_append_getLast? _ last).symm
        rw [whole, readRowsWith_append fit] at outcome
        rw [outcome]
        refine readRowsWith_unclosed unclosed (fun count => ?_) _ _
        exact ⟨_, currentFileProperties_row database.distinct (count.trans width) withinAll⟩

end Databases

/-! ## A database of one file -/

def exampleSpec : Str :=
  "@@db_spec name lname attr perm inode bcount uid gid size mtime ctime lcount md5 sha1 \n".toList

def exampleRow : Str := "/a 0 1 100644 2 0 0 0 0 MQ== MQ== 1 0 0 \n".toList

def exampleNames : List Str := requiredProperties.map PropertyType.value

def exampleLines : List Str :=
  [aideDbFileOpening, "# a comment\n".toList, exampleSpec, exampleRow, aideDbFileClosing]

def exampleParser : AIDEDatabaseFileParser := ⟨[], some exampleLines⟩

theorem isDatabase_exampleLines :
    IsDatabase exampleLines exampleNames [exampleRow, aideDbFileClosing] where
  opening := ⟨["# a comment\n".toList], exampleSpec, rfl, by decide, by decide⟩
  distinct := by decide
  nameFirst := rfl
  required := by
    intro type member
    exact List.mem_map_of_mem member
  rows := by
    rintro row (_ | ⟨_, empty⟩)
    · decide
    · cases empty

theorem looksUp_iff_example :
    LooksUp exampleParser exampleNames [exampleRow, aideDbFileClosing] ["/a".toList]
        [PropertyType.size.value] ↔
      ([exampleRow, aideDbFileClosing].getLast? = some aideDbFileClosing →
        closingPath ∉ ["/a".toList]) :=
  looksUp_iff rfl isDatabase_exampleLines (by decide) (by decide)

/-- The closing line is read as a row, which is too short. -/
theorem not_looksUp_closingPath :
    ¬ ∀ (parser : AIDEDatabaseFileParser) (lines names body requestedPaths
        requestedProperties : List Str),
      parser.dbFile = some lines → IsDatabase lines names body → requestedPaths ≠ [] →
      (∀ propName ∈ requestedProperties, propName ∈ names) →
        LooksUp parser names body requestedPaths requestedProperties := by
  intro always
  obtain ⟨found, isOk, _⟩ := (always exampleParser exampleLines exampleNames _ [closingPath] []
    rfl isDatabase_exampleLines (by decide) (by simp)).1 rfl
  obtain ⟨message, isError⟩ : ∃ message, exampleParser.getRequestedProperties [closingPath] [] =
      .error (.aideDatabaseFileParser message) := by
    rw [getRequestedProperties_eq rfl isDatabase_exampleLines (by decide) (by simp)]
    have notRequested : Str.unquote "/a".toList ∉ [closingPath] := by decide
    have single : Str.splitOnce exampleRow =
        ["/a".toList, "0 1 100644 2 0 0 0 0 MQ== MQ== 1 0 0 \n".toList] := by decide
    rw [readRowsWith, single]
    dsimp only
    rw [if_pos notRequested]
    exact (readRowsWith_closing (by decide) _ _).2 List.mem_cons_self
  rw [isOk] at isError
  cases isError

end AIDEDatabaseFileParser

end Myscm.Server
