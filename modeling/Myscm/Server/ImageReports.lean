import Myscm.Library.TextWrap
import Myscm.Server.AideEntry

/-!
Owns the texts of added.txt, removed.txt and changed.txt as the server writes
them, line by line.

Owns: the header with the description and the system the image was made on; the
lines of added and removed entries; the columns of changed entries.

Does not own: which entries are listed, the archive, package managers, the
clock.
-/

namespace Myscm.Server

open Myscm.Library

/-- Characters that end a line or a column. -/
def isReportEnd (c : Char) : Bool := ['\x00', '\n', '\r'].contains c

/-- A text without the ends of lines and columns. -/
def PlainText (text : Str) : Prop := ∀ c ∈ text, isReportEnd c = false

instance (text : Str) : Decidable (PlainText text) :=
  inferInstanceAs (Decidable (∀ c ∈ text, isReportEnd c = false))

theorem PlainText.not_mem {text : Str} (plain : PlainText text) {c : Char}
    (isEnd : isReportEnd c = true) : c ∉ text := fun member => by
  rw [plain c member] at isEnd
  cases isEnd

/-- A path that AIDE reports: absolute, and read off one line. -/
structure EntryPath where
  text : Str
  absolute : text.head? = some '/'
  plain : PlainText text

/-- The name a package manager gives, read off one line. -/
structure PackageName where
  text : Str
  plain : PlainText text

/-- What the server knows of itself and of the databases it compares. `title` is
`str.title`. -/
structure ServerFacts where
  fromDbId : Int
  toDbId : Int
  clientDbPath : Str
  aideReferenceDbPath : Str
  localCreationTime : Str
  creationDate : Str
  utcCreationTime : Str
  utcCreationDate : Str
  system : Str
  distroName : Str
  machine : Str
  node : Str
  pythonImplementation : Str
  pythonVersion : Str
  pythonCompiler : Str
  title : Str → Str
  wordChars : WordChars

/-- What the header of a report says: every value fits on a line. -/
structure ReportHeader extends ServerFacts where
  plain : ∀ value ∈ [localCreationTime, creationDate, utcCreationTime, utcCreationDate, system,
    title distroName, machine, node, pythonImplementation, pythonVersion, pythonCompiler],
    PlainText value

/-- `PropertyHeader`: a column of changed.txt. Its formatter pads to `width` and puts
`tail` behind. -/
structure PropertyHeader where
  name : Str
  width : Nat
  tail : Str

namespace PropertyHeader

/-- `formatter.format(value)`. -/
def format (header : PropertyHeader) (value : Str) : Str :=
  Str.ljust header.width value ++ header.tail

/-- `get_name`. -/
def getName (header : PropertyHeader) : Str :=
  header.format header.name

end PropertyHeader

/-- `CHANGED_FILES_HEADER_NAMES`. -/
def changedFilesHeaderNames : List PropertyHeader :=
  [⟨'#' :: ' ' :: PropertyType.name.value, 50, []⟩,
    ⟨PropertyType.lname.value, 50, []⟩,
    ⟨"aide_info_str".toList, 24, [' ']⟩,
    ⟨"attr".toList, 18, []⟩,
    ⟨"ftype".toList, 10, []⟩,
    ⟨"size_change".toList, 16, []⟩,
    ⟨"size".toList, 25, []⟩,
    ⟨PropertyType.bcount.value, 25, []⟩,
    ⟨PropertyType.perm.value, 25, []⟩,
    ⟨PropertyType.uid.value, 25, []⟩,
    ⟨PropertyType.gid.value, 25, []⟩,
    ⟨PropertyType.mtime.value, 30, []⟩,
    ⟨PropertyType.ctime.value, 30, []⟩,
    ⟨PropertyType.inode.value, 25, []⟩,
    ⟨PropertyType.lcount.value, 12, []⟩,
    ⟨PropertyType.md5.value, 73, []⟩,
    ⟨PropertyType.sha1.value, 100, []⟩,
    ⟨"package".toList, 25, []⟩]

namespace SystemImageGenerator

/-! ## Headers -/

section Headers

variable (header : ReportHeader)

/-- The pairs of `_append_sys_info_header`. -/
def sysInfo : List (Str × Str) :=
  [("From database version".toList, Str.ofInt header.fromDbId),
    ("To database version".toList, Str.ofInt header.toDbId),
    ("Local creation time".toList, header.localCreationTime),
    ("Creation date".toList, header.creationDate),
    ("UTC creation time".toList, header.utcCreationTime),
    ("UTC creation date".toList, header.utcCreationDate),
    (systemStr, header.system),
    (linuxDistroStr, header.title header.distroName),
    (cpuArchitectureStr, header.machine),
    ("Hostname".toList, header.node),
    ("Python implementation".toList, header.pythonImplementation),
    ("Python version".toList, header.pythonVersion),
    ("Python compiler".toList, header.pythonCompiler)]

/-- What is written for a value that is unknown. -/
def knownValue (value : Str) : Str :=
  if value ≠ [] then value else ['?']

/-- A line of `sysInfo`. -/
def sysInfoLine (key value : Str) : Str :=
  '#' :: ' ' :: (Str.ljust 24 key ++ ':' :: ' ' :: knownValue value)

/-- The lines of `textwrap.fill`. No line at all is an empty text. -/
def descriptionLines (desc : Str) : List Str :=
  match TextWrap.wrap header.wordChars 80 ['#', ' '] desc with
  | [] => [[]]
  | lines => lines

/-- `_append_sys_info_header`. -/
def appendSysInfoHeader (title desc : Str) : List Str :=
  ['#' :: ' ' :: title, ['#']] ++ descriptionLines header desc ++ [['#']] ++
    (sysInfo header).map (fun info => sysInfoLine info.1 info.2) ++ [[], []]

/-- The column titles of added.txt and removed.txt. -/
def entriesTitleLine : Str :=
  Str.ljust 100 "# name".toList ++ "package".toList

/-- The description in added.txt. -/
def addedDescription : Str :=
  "This file lists files added to the myscm-srv system since '".toList ++ header.clientDbPath ++
    "' state. Detection of the added files is possible thanks to the ".toList ++
    "AIDE --check and --compare options. Current state of the system ".toList ++
    "is always stored in '".toList ++ header.aideReferenceDbPath ++
    "' AIDE database file. This is result of the comparison of those two files.".toList

/-- `_append_added_entries_header`. -/
def appendAddedEntriesHeader : List Str :=
  appendSysInfoHeader header "ADDED FILES REPORT".toList (addedDescription header) ++
    [entriesTitleLine, []]

/-- The description in removed.txt. -/
def removedDescription : Str :=
  "This file lists files removed from the myscm-srv system since '".toList ++
    header.clientDbPath ++
    "' state. Detection of the removed files is possible thanks ".toList ++
    "to the AIDE --check and --compare options. Current state of the ".toList ++
    "system is stored in '".toList ++ header.aideReferenceDbPath ++
    "' AIDE database file. This is result of the comparison of those two files.".toList

/-- `_append_removed_entries_header`. -/
def appendRemovedEntriesHeader : List Str :=
  appendSysInfoHeader header "REMOVED FILES REPORT".toList (removedDescription header) ++
    [entriesTitleLine, []]

/-- The description in changed.txt. -/
def changedDescription : Str :=
  "This file lists changes between current newest state of the ".toList ++
    "configuration of the myscm-srv machine described in '".toList ++
    header.aideReferenceDbPath ++
    "' AIDE database and the old configuration '".toList ++ header.clientDbPath ++
    "' that corresponds to the ".toList ++
    "client's system state which is considered to be out-of-date. ".toList ++
    "This file is sent to the client along with other files within ".toList ++
    "system image since myscm-cli needs to know which properties of ".toList ++
    "its files needs to be updated and how they should be altered. ".toList ++
    "Lines with leading '#' character are ignored. Values in ".toList ++
    "brackets next to the property values correspond to the previous ".toList ++
    "value of the file's property or to the AIDE info-character (eg. ".toList ++
    "'.' or ' ') if property was not altered (see aide.conf(5) ".toList ++
    "manual to learn more). Columns below are null separated.".toList

/-- The column titles of changed.txt. -/
def changedTitleLine : Str :=
  (changedFilesHeaderNames.dropLast.flatMap PropertyHeader.getName) ++
    Str.rstrip ((changedFilesHeaderNames.getLast?.map PropertyHeader.getName).getD [])

/-- `_append_changed_entries_header`. -/
def appendChangedEntriesHeader : List Str :=
  appendSysInfoHeader header "MODIFIED FILES REPORT".toList (changedDescription header) ++
    [changedTitleLine, []]

end Headers

/-! ## Entries -/

/-- `_append_entry_line`. -/
def appendEntryLine (path pkgName : Str) : Str :=
  Str.ljust 100 (path ++ ['\x00']) ++ pkgName

/-- The columns of a changed entry, each closed by a zero character and padded. -/
def changedColumns (properties : List Str) : Str :=
  (List.zipWith (fun property (header : PropertyHeader) => header.format (property ++ ['\x00']))
    properties changedFilesHeaderNames).flatten

/-- The line written for the properties of a changed entry. -/
def changedLine (properties : List Str) : Str :=
  Str.rstripChars ['\x00'] (Str.strip (changedColumns properties))

/-- `_append_changed_entry_to_file`. -/
def appendChangedEntryToFile (packageName : Str → Except GeneratorError Str)
    (entry : AIDEEntry) : Except GeneratorError Str := do
  let properties ← entry.getAideChangedProperties packageName
  if properties.length ≠ changedFilesHeaderNames.length then
    .error (.sysImgGenerator
      ("Malformed changed files header (".toList ++ Str.ofNat properties.length ++
        " != ".toList ++ Str.ofNat changedFilesHeaderNames.length ++ ")".toList))
  else
    return changedLine properties

/-- `changed.txt` of the given entries. -/
def changedReport (header : ReportHeader) (packageName : Str → Except GeneratorError Str)
    (entries : List AIDEEntry) : Except GeneratorError (List Str) := do
  let lines ← entries.mapM (appendChangedEntryToFile packageName)
  return appendChangedEntriesHeader header ++ lines

end SystemImageGenerator

end Myscm.Server
