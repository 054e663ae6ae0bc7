import Myscm.Library.Dict
import Myscm.Library.Regex
import Myscm.Server.AideEntry

/-!
Owns the reading of the sections of an AIDE `--check` report.

Owns: `AIDECheckParser._set_added_removed_changed_entries` and the readers it
passes the lines of the report to; what a well-formed report is.

Does not own: AIDE databases.
-/

namespace Myscm.Server

open Myscm.Library

/-- The exceptions while the results of AIDE are read. -/
inductive ReadError where
  | aideCheckParser (message : Str)
  | aideDatabaseFileParser (message : Str)
  | aideProperties (message : Str)
  | aideEntry (message : Str)
  | stopIteration
  | keyError
  | valueError
  | indexError
  deriving DecidableEq

/-- `EntryType`. -/
inductive EntryType where
  | added
  | removed
  | changed
  deriving DecidableEq

/-- `AIDESimpleEntry`. -/
structure AIDESimpleEntry where
  aideInfoStr : Str
  filePath : Str
  deriving DecidableEq

/-- `AIDEEntries`. -/
structure AIDEEntries (α : Type) where
  addedEntries : Dict Str α
  removedEntries : Dict Str α
  changedEntries : Dict Str α

namespace AIDEEntries

variable {α : Type}

/-- `AIDEEntries()`. -/
def empty : AIDEEntries α := ⟨.empty, .empty, .empty⟩

/-- The entries of a type. -/
def of (entries : AIDEEntries α) : EntryType → Dict Str α
  | .added => entries.addedEntries
  | .removed => entries.removedEntries
  | .changed => entries.changedEntries

/-- `_set_added_entries`, `_set_removed_entries` and `_set_changed_entries`. -/
def setOf (entries : AIDEEntries α) (type : EntryType) (dict : Dict Str α) : AIDEEntries α :=
  match type with
  | .added => { entries with addedEntries := dict }
  | .removed => { entries with removedEntries := dict }
  | .changed => { entries with changedEntries := dict }

@[simp]
theorem of_empty (type : EntryType) : (empty : AIDEEntries α).of type = .empty := by
  cases type <;> rfl

theorem of_setOf (entries : AIDEEntries α) (type other : EntryType) (dict : Dict Str α) :
    (entries.setOf type dict).of other = if other = type then dict else entries.of other := by
  cases type <;> cases other <;> rfl

end AIDEEntries

namespace AIDECheckParser

def aideSeparator : Str := List.replicate 51 '-' ++ ['\n']
def filesAttrs : Str := "The attributes of the (uncompressed) database(s):\n".toList
def detailedInfo : Str := "Detailed information about changes:\n".toList

/-- `ADDED_ENTRIES`, `REMOVED_ENTRIES` and `CHANGED_ENTRIES`. -/
def title : EntryType → Str
  | .added => "Added entries:\n".toList
  | .removed => "Removed entries:\n".toList
  | .changed => "Changed entries:\n".toList

/-! ## Lines -/

/-- The regular expression of `_get_simple_aide_entry`. -/
def simpleEntryRegex : Regex :=
  .seq (.many 0 Str.isSpace) <| .seq (.group (.few (· ≠ '\n'))) <| .seq (.one (· = ':')) <|
    .seq (.many 0 Str.isSpace) <| .seq (.group (.many 0 (· ≠ '\n'))) (.many 0 Str.isSpace)

/-- `_get_simple_aide_entry`. -/
def getSimpleAideEntry (line : Str) : Except ReadError AIDESimpleEntry :=
  match simpleEntryRegex.fullmatch line with
  | some [fileInfo, filePath] => .ok ⟨fileInfo, filePath⟩
  | _ =>
      .error (.aideCheckParser
        ("AIDE output file entry unexpected format '".toList ++ line ++ ['\'']))

/-- The second loop of `_create_simple_entries_from_lines_up_to_new_line`. -/
def readUntilEmptyLine (d : Dict Str AIDESimpleEntry) :
    List Str → Except ReadError (Dict Str AIDESimpleEntry × List Str)
  | [] => .ok (d, [])
  | line :: rest =>
      if line ≠ ['\n'] then do
        let fileEntry ← getSimpleAideEntry line
        readUntilEmptyLine (d.set fileEntry.filePath fileEntry) rest
      else
        .ok (d, rest)

/-- `_create_simple_entries_from_lines_up_to_new_line`: the entries, and the lines left. -/
def createSimpleEntriesFromLinesUpToNewLine :
    List Str → Except ReadError (Dict Str AIDESimpleEntry × List Str)
  | [] => .ok (.empty, [])
  | line :: rest =>
      if line ≠ ['\n'] then do
        let fileEntry ← getSimpleAideEntry line
        readUntilEmptyLine (Dict.empty.set fileEntry.filePath fileEntry) rest
      else
        createSimpleEntriesFromLinesUpToNewLine rest

/-- The loop of `_read_to_line`. -/
def readToLineFrom (searchedLine : Str) (readLines : Nat) : List Str → Nat × List Str
  | [] => (0, [])
  | line :: rest =>
      if line = searchedLine then
        (readLines + 1, rest)
      else
        readToLineFrom searchedLine (readLines + 1) rest

/-- `_read_to_line`: the lines read, or zero, and the lines left. -/
def readToLine (searchedLine : Str) (lines : List Str) : Nat × List Str :=
  readToLineFrom searchedLine 0 lines

/-- `_read_assert_next_lines`: the lines left. -/
def readAssertNextLines : List Str → List Str → Except ReadError (List Str)
  | [], lines => .ok lines
  | _ :: _, [] => .error .stopIteration
  | expectedLine :: laterLines, line :: rest =>
      if line ≠ expectedLine then
        .error (.aideCheckParser
          ("Unexpected line '".toList ++ Str.strip line ++ "'. '".toList ++
            Str.strip expectedLine ++ "' line was expected".toList))
      else
        readAssertNextLines laterLines rest

/-! ## Sections -/

/-- `expected_entries_mapping`. -/
def expectedEntriesMapping : Dict Str EntryType :=
  .ofPairs [(title .added, .added), (title .removed, .removed), (title .changed, .changed)]

/-- The error about a line behind a separator. -/
def unexpectedLine (line : Str) : ReadError :=
  .aideCheckParser
    ("Unexpected line '".toList ++ Str.strip line ++
      "' after separator line in AIDE --check output".toList)

/-- The given number of turns of the loop of `_set_added_removed_changed_entries`. -/
def setEntriesTurns : Nat → Dict Str EntryType → AIDEEntries AIDESimpleEntry → List Str →
    Except ReadError (AIDEEntries AIDESimpleEntry)
  | 0, _, entries, _ => .ok entries
  | turns + 1, expected, entries, lines =>
      match readToLine aideSeparator lines with
      | (0, _) =>
          .error (.aideCheckParser
            "Expected 1st separator line not found in AIDE --check output".toList)
      | (_ + 1, []) => .error .stopIteration
      | (_ + 1, line :: rest) =>
          match expected.get? line with
          | some type => do
              let rest ← readAssertNextLines [aideSeparator] rest
              let (dict, rest) ← createSimpleEntriesFromLinesUpToNewLine rest
              setEntriesTurns turns (expected.erase line) (entries.setOf type dict) rest
          | none =>
              if line = filesAttrs ∨ line = detailedInfo then
                .ok entries
              else
                .error (unexpectedLine line)

/-- `_set_added_removed_changed_entries`. -/
def setAddedRemovedChangedEntries (lines : List Str) :
    Except ReadError (AIDEEntries AIDESimpleEntry) :=
  setEntriesTurns expectedEntriesMapping.items.length expectedEntriesMapping .empty lines

end AIDECheckParser

end Myscm.Server
