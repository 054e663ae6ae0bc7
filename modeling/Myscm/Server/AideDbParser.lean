import Myscm.Library.Decoders
import Myscm.Server.AideCheckParser

/-!
Owns the reading of AIDE databases and of the entries that a `--check` report
lists.

Owns: `AIDEProperties` of a row; `AIDEDatabaseFileParser`;
`AIDECheckParser.read_all_entries`.

Does not own: the sections of a report; texts that cannot be decoded.
-/

namespace Myscm.Server

open Myscm.Library

/-! ## Properties -/

/-- `REQUIRED_PROPERTIES`. -/
def requiredProperties : List PropertyType :=
  [.name, .lname, .attr, .perm, .inode, .bcount, .uid, .gid, .size, .mtime, .ctime, .lcount, .md5,
    .sha1]

/-- The values that a row has for the required properties. -/
abbrev RowValues : Type := PropertyType → Str

/-- A value, or `ValueError`. -/
def orValueError {α : Type} : Option α → Except ReadError α
  | some value => .ok value
  | none => .error .valueError

namespace AIDEProperties

/-- `_convert_to_none_if_zero`. -/
def convertToNoneIfZero (val : Str) : Option Str :=
  if val ≠ ['0'] then some val else none

/-- `_convert_to_hex_from_base64`. -/
def convertToHexFromBase64 (val : Str) : Except ReadError (Option Str) :=
  if val ≠ ['0'] then do
    let bytes ← orValueError (Base64.decode val)
    return some (bytesHex bytes)
  else
    return none

/-- `_convert_to_int_from_base64`. -/
def convertToIntFromBase64 (val : Str) : Except ReadError Int :=
  orValueError ((Base64.decode val).bind parseIntBytes)

/-- `AIDEProperties(properties)`. A row always has the required properties. -/
def ofRow (values : RowValues) : Except ReadError AIDEProperties := do
  let attr ← orValueError (Str.parseInt (values .attr))
  let perm ← orValueError (Str.parseInt (values .perm))
  let inode ← orValueError (Str.parseInt (values .inode))
  let bcount ← orValueError (Str.parseInt (values .bcount))
  let uid ← orValueError (Str.parseInt (values .uid))
  let gid ← orValueError (Str.parseInt (values .gid))
  let size ← orValueError (Str.parseInt (values .size))
  let mtime ← convertToIntFromBase64 (values .mtime)
  let ctime ← convertToIntFromBase64 (values .ctime)
  let lcount ← orValueError (Str.parseInt (values .lcount))
  let md5 ← convertToHexFromBase64 (values .md5)
  let sha1 ← convertToHexFromBase64 (values .sha1)
  return ⟨values .name, convertToNoneIfZero (values .lname), attr, perm, inode, bcount, uid, gid,
    size, mtime, ctime, lcount, md5, sha1⟩

end AIDEProperties

/-! ## Entries -/

/-- `FileType(value)`. -/
def FileType.ofValue? (c : Char) : Option FileType :=
  [FileType.regularFile, .directory, .symbolicLink, .characterDevice, .blockDevice, .fifo,
    .unixSocket, .solarisDoor, .solarisEventPort, .ftypeChanged, .unknown].find?
      fun type => type.value = c

/-- An `AIDEEntry` as the reader builds it. The previous properties of a changed file come
later. -/
structure ReadEntry where
  properties : AIDEProperties
  infoStr : Str
  ftype : FileType
  entryType : EntryType
  prevProperties : Option AIDEProperties
  infoStr_length : infoStr.length = aideInfoStrPattern.length
  ftype_value : infoStr.head? = some ftype.value

namespace ReadEntry

/-- `AIDEEntry(aide_properties, aide_info_str, entry_type)`. -/
def make (properties : AIDEProperties) (infoStr : Str) (type : EntryType) :
    Except ReadError ReadEntry :=
  if full : infoStr.length = aideInfoStrPattern.length then
    match found : infoStr.head?.bind FileType.ofValue? with
    | none => .error .valueError
    | some ftype =>
        .ok ⟨properties, infoStr, ftype, type, none, full, by
          obtain ⟨c, isHead, ofValue⟩ := Option.bind_eq_some_iff.mp found
          have sameValue : ftype.value = c := by simpa using List.find?_some ofValue
          rw [isHead, sameValue]⟩
  else
    .error (.aideEntry "Unexpected length of the AIDE changed properties info string".toList)

end ReadEntry

/-! ## Databases -/

/-- `AIDEDatabaseFileParser`, with the lines of its database where that can be opened. -/
structure AIDEDatabaseFileParser where
  aideDbPath : Str
  dbFile : Option (List Str)

namespace AIDEDatabaseFileParser

def aideDbFileOpening : Str := "@@begin_db\n".toList
def aideDbFileClosing : Str := "@@end_db\n".toList
def aideDbPropertiesOpening : Str := "@@db_spec".toList

variable (parser : AIDEDatabaseFileParser)

/-- The error of `_assert_expected_opening` and `_assert_expected_closing`. -/
def unexpectedEnd (what expected : Str) : ReadError :=
  .aideDatabaseFileParser
    ("AIDE database file '".toList ++ parser.aideDbPath ++
      "' is probably malformed since it doesn't have '".toList ++ expected ++
      "' valid ".toList ++ what)

/-- The loop of `_get_all_infile_properties_names`, with the words of the line before: the
names, and the lines left. Without the line of the names it ends at the last line. -/
def searchNames (words : List Str) : List Str → Except ReadError (List Str × List Str)
  | [] =>
      if words = [] then
        .error (.aideDatabaseFileParser
          ("Malformed AIDE database, '".toList ++ aideDbPropertiesOpening ++ "' not found".toList))
      else
        .ok (words, [])
  | line :: rest =>
      match Str.splitOnce line with
      | [] => searchNames [] rest
      | [word] =>
          if word = aideDbPropertiesOpening then .error .indexError else searchNames [word] rest
      | word :: names :: others =>
          if word = aideDbPropertiesOpening then
            .ok (Str.words names, rest)
          else
            searchNames (word :: names :: others) rest

/-- `_get_all_infile_properties_names`. -/
def getAllInfilePropertiesNames : List Str → Except ReadError (List Str × List Str)
  | [] => .error .stopIteration
  | line :: rest =>
      if line ≠ aideDbFileOpening then
        .error (parser.unexpectedEnd "opening".toList aideDbFileOpening)
      else
        searchNames [] rest

/-- `assert_required_properties_present`. The requested properties are the required ones. -/
def assertRequiredPropertiesPresent (infilePropNames : List Str) : Except ReadError Unit :=
  if requiredProperties.all fun type => decide (type.value ∈ infilePropNames) then
    .ok ()
  else
    .error (.aideProperties
      ("Some of the required file's AIDE properties were not found - list of fetched ".toList ++
        "properties: '".toList ++ List.intercalate "', '".toList infilePropNames ++
        "', list of required properties: '".toList ++
        List.intercalate "', '".toList (requiredProperties.map PropertyType.value) ++ ['\'']))

/-- `_enumerate_columns`. -/
def enumerateColumns (infilePropNames : List Str) : Dict Str Nat :=
  .ofPairs infilePropNames.zipIdx

/-- What the opening lines say: the columns, and the rows. -/
def header (lines : List Str) : Except ReadError (Dict Str Nat × List Str) := do
  let (infilePropNames, rows) ← parser.getAllInfilePropertiesNames lines
  assertRequiredPropertiesPresent infilePropNames
  return (enumerateColumns infilePropNames, rows)

/-- The value of a property in the words of a row, the first of them unquoted. -/
def value? (columns : Dict Str Nat) (words : List Str) (type : PropertyType) : Option Str :=
  (columns.get? type.value).bind fun column => (words.modifyHead Str.unquote)[column]?

/-- The requested properties of a row. -/
def rowValues (columns : Dict Str Nat) (words : List Str) : Except ReadError RowValues :=
  if requiredProperties.all fun type => (value? columns words type).isSome then
    .ok fun type => (value? columns words type).getD []
  else
    .error .indexError

/-- The loop of `_get_files_properties_values`, with the line before. -/
def readRows (requestedPaths : List Str) (columns : Dict Str Nat)
    (filesProperties : Dict Str RowValues) (before : Option Str) :
    List Str → Except ReadError (Dict Str RowValues)
  | [] =>
      if before ≠ some aideDbFileClosing then
        .error (parser.unexpectedEnd "closing".toList aideDbFileClosing)
      else
        .ok filesProperties
  | line :: rest =>
      match Str.splitOnce line with
      | [] =>
          .error (.aideDatabaseFileParser
            ("Malformed '".toList ++ parser.aideDbPath ++
              "' AIDE database - unexpected empty line instead of line with file's ".toList ++
              "properties values".toList))
      | word :: _ =>
          if Str.unquote word ∉ requestedPaths then
            readRows requestedPaths columns filesProperties (some line) rest
          else if (Str.words line).length ≠ columns.items.length then
            .error (.aideDatabaseFileParser
              ("Malformed '".toList ++ parser.aideDbPath ++
                "' AIDE database file - unexpected number of properties (".toList ++
                Str.ofNat (Str.words line).length ++ " instead of ".toList ++
                Str.ofNat columns.items.length ++ [')']))
          else do
            let values ← rowValues columns (Str.words line)
            readRows requestedPaths columns (filesProperties.set (Str.unquote word) values)
              (some line) rest

/-- `get_files_properties`. -/
def getFilesProperties (requestedPaths : List Str) : Except ReadError (Dict Str RowValues) :=
  if requestedPaths = [] then
    .ok .empty
  else
    match parser.dbFile with
    | none =>
        .error (.aideDatabaseFileParser
          ("Failed to get files' AIDE properties. Unable to open AIDE database file '".toList ++
            parser.aideDbPath ++ ['\'']))
    | some lines => do
        let (columns, rows) ← parser.header lines
        parser.readRows requestedPaths columns .empty none rows

/-- A turn of the loop of `get_files_entries`. -/
def readEntry (filesProperties : Dict Str RowValues) (type : EntryType)
    (simpleEntry : AIDESimpleEntry) : Except ReadError ReadEntry :=
  match filesProperties.get? simpleEntry.filePath with
  | none => .error .keyError
  | some values => do
      let properties ← AIDEProperties.ofRow values
      ReadEntry.make properties simpleEntry.aideInfoStr type

/-- The loop of `get_files_entries`. -/
def readEntries (filesProperties : Dict Str RowValues) (type : EntryType)
    (fileEntries : Dict Str ReadEntry) :
    List AIDESimpleEntry → Except ReadError (Dict Str ReadEntry)
  | [] => .ok fileEntries
  | simpleEntry :: rest => do
      let fileEntry ← readEntry filesProperties type simpleEntry
      readEntries filesProperties type (fileEntries.set simpleEntry.filePath fileEntry) rest

/-- `get_files_entries`. -/
def getFilesEntries (type : EntryType) (aideSimpleEntries : Dict Str AIDESimpleEntry) :
    Except ReadError (Dict Str ReadEntry) := do
  let filesProperties ← parser.getFilesProperties aideSimpleEntries.keys
  let fileEntries ← readEntries filesProperties type .empty aideSimpleEntries.values
  if aideSimpleEntries.items.length ≠ fileEntries.items.length then
    .error (.aideDatabaseFileParser
      ("Not all of the files listed in AIDE --check were found in '".toList ++
        parser.aideDbPath ++ "' AIDE database".toList))
  else
    return fileEntries

end AIDEDatabaseFileParser

/-! ## Reports with their databases -/

namespace AIDECheckParser

open AIDEDatabaseFileParser

/-- The loop of `_set_changed_properties_prev_values`. -/
def setPrevValues (changedEntries : Dict Str ReadEntry) :
    List (Str × RowValues) → Except ReadError (Dict Str ReadEntry)
  | [] => .ok changedEntries
  | (path, values) :: rest =>
      match changedEntries.get? path with
      | none =>
          .error (.aideCheckParser
            ("Can't find previous properties for changed file '".toList ++ path ++ ['\'']))
      | some entry => do
          let properties ← AIDEProperties.ofRow values
          setPrevValues (changedEntries.set path { entry with prevProperties := some properties })
            rest

/-- `_set_changed_properties_prev_values`. -/
def setChangedPropertiesPrevValues (client : AIDEDatabaseFileParser)
    (changedEntries : Dict Str ReadEntry) : Except ReadError (Dict Str ReadEntry) := do
  let oldProperties ← client.getFilesProperties changedEntries.keys
  setPrevValues changedEntries oldProperties.items

/-- `_read_all_entries`. -/
def readAllEntriesUnguarded (server client : AIDEDatabaseFileParser) (lines : List Str) :
    Except ReadError (AIDEEntries ReadEntry) := do
  let simple ← setAddedRemovedChangedEntries lines
  let added ← server.getFilesEntries .added simple.addedEntries
  let removed ← client.getFilesEntries .removed simple.removedEntries
  let changed ← server.getFilesEntries .changed simple.changedEntries
  let changed ← setChangedPropertiesPrevValues client changed
  return ⟨added, removed, changed⟩

/-- `read_all_entries`. -/
def readAllEntries (server client : AIDEDatabaseFileParser) (lines : List Str) :
    Except ReadError (AIDEEntries ReadEntry) :=
  match readAllEntriesUnguarded server client lines with
  | .error .stopIteration =>
      .error (.aideCheckParser
        "Unexpected end of AIDE --check output while parsing it".toList)
  | outcome => outcome

end AIDECheckParser

end Myscm.Server
