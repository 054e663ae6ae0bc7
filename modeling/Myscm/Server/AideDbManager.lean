import Myscm.Common.VersionFile
import Myscm.Library.Directory
import Myscm.Server.Config
import Myscm.Server.ImageFormat

/-!
Owns the manager of the AIDE database directories `aide.db.current`,
`aide.db.new` and `aide.db.X`: the rotation after a scan and the check of the
recorded version against the directories.

Owns: the server state the manager works on; every step of
`replace_old_aide_db_with_new_one`; `get_recent_aide_db_version` with its
listing, sort and gap report; forming an image name.

Does not own: running AIDE, copying tracked files, logging.
-/

namespace Myscm.Server

open Myscm.Library Myscm.Common

/-- An entry of a scan directory: a database file, or a subdirectory by the
names in it. -/
inductive Item (δ : Type) where
  | file (content : δ)
  | dir (names : List Str)
  deriving DecidableEq

/-- An entry of the directory that holds the scans. -/
inductive Entry (δ : Type) where
  | file (content : δ)
  | dir (items : Directory (Item δ))
  deriving DecidableEq

instance {δ : Type} : FileNode (Item δ) where
  isDirectory
    | .file _ => false
    | .dir _ => true
  isEmptyDirectory
    | .file _ => false
    | .dir names => names.isEmpty

instance {δ : Type} : FileNode (Entry δ) where
  isDirectory
    | .file _ => false
    | .dir _ => true
  isEmptyDirectory
    | .file _ => false
    | .dir items => items.keys = ∅

/-- The directory of the scans and the file `db_ver_file`. -/
structure ServerState (δ : Type) where
  aideOldDbDir : Directory (Entry δ)
  dbVerFile : Option Str

/-- The exceptions of the server modules modelled here, with their messages. -/
inductive ServerError where
  | versionFile (error : VersionFileError)
  | aideDatabasesManager (message : Str)
  | systemImageGenerator (message : Str)
  | scanner (message : Str)
  deriving DecidableEq

variable {δ : Type}

namespace ServerState

/-- `os.path.isdir` of an entry. -/
def isdir (s : ServerState δ) (name : Str) : Bool :=
  match s.aideOldDbDir.lookup name with
  | some (.dir _) => true
  | _ => false

/-- `os.path.isfile` of a file inside an entry. -/
def isfileIn (s : ServerState δ) (dir name : Str) : Bool :=
  match s.aideOldDbDir.lookup dir with
  | some (.dir items) =>
      match items.lookup name with
      | some (.file _) => true
      | _ => false
  | _ => false

/-- `os.replace` of an entry of the scan directory. -/
def replaceEntry (a b : Str) (s : ServerState δ) : Option (ServerState δ) :=
  (s.aideOldDbDir.replace a b).map fun directory => { s with aideOldDbDir := directory }

/-- `os.replace` of a file inside an entry. -/
def replaceIn (dir a b : Str) (s : ServerState δ) : Option (ServerState δ) :=
  match s.aideOldDbDir.lookup dir with
  | some (.dir items) =>
      (items.replace a b).map fun renamed =>
        { s with aideOldDbDir := s.aideOldDbDir.insert dir (.dir renamed) }
  | _ => none

end ServerState

/-- `MySCMDatabaseVersionFile.DB_VER_STARTING_VALUE`. -/
def dbVerStartingValue : Int := -1

namespace MySCMDatabaseVersionFile

/-- `MySCMDatabaseVersionFile.parse`: the errors of the base class under messages
that name the file. -/
def parse (path : Str) (content : Option Str) : Except VersionFileError Int :=
  let seeScan := " (see --scan option)".toList
  match VersionFile.parse dbVerStartingValue content with
  | .ok ver => .ok ver
  | .error (.emptyFile _) =>
      .error (.versionFile ("'".toList ++ path ++
        "' is empty, but it should contain integer number specifying version of the ".toList ++
          "recently generated mySCM AIDE database".toList ++ seeScan))
  | .error (.tooManyLines _) =>
      .error (.versionFile ("'".toList ++ path ++
        "' has too many lines. It is expected to have single line with version of the ".toList ++
          "recently generated mySCM AIDE database".toList ++ seeScan))
  | .error (.notInteger _ value) =>
      .error (.versionFile ("First and only line of the '".toList ++ path ++
        "' file is supposed to be integer corresponding to recently generated mySCM AIDE ".toList ++
          "database version. Read value: '".toList ++ value ++ "'".toList ++ seeScan))
  | .error (.outOfAllowedRange _ value) =>
      .error (.versionFile ("Integer ".toList ++ Str.ofInt value ++ " read from ".toList ++
        path ++ " file that should contain integer number corresponding to the recently ".toList ++
          "generated mySCM AIDE database".toList ++ seeScan))
  | .error (.versionFile _) =>
      .error (.versionFile ("Failed to parse '".toList ++ path ++
        "'. Check if this file exists and has sufficient read permissions".toList))

/-- `increment()` of the database version file. -/
def increment (config : ServerConfig) : Prog (ServerState δ) ServerError Unit := do
  let oldVer ← Prog.tryReads fun s =>
    (parse config.recentlyGenDbVerPath s.dbVerFile).mapError .versionFile
  VersionFile.setValue (fun text s => .ok { s with dbVerFile := some text }) (oldVer + 1)

theorem parse_ofInt {path : Str} {i : Int} (allowed : -1 ≤ i) :
    parse path (some (Str.ofInt i)) = .ok i := by
  simp [parse, VersionFile.parse_ofInt (show dbVerStartingValue ≤ i from allowed)]

theorem startingValue_le_of_parse {path : Str} {content : Option Str} {ver : Int}
    (parsed : parse path content = .ok ver) : -1 ≤ ver := by
  unfold parse at parsed
  cases result : VersionFile.parse dbVerStartingValue content with
  | ok value =>
      rw [result] at parsed
      cases parsed
      exact VersionFile.startingValue_le_of_parse result
  | error failure =>
      rw [result] at parsed
      cases failure <;> cases parsed

theorem parse_empty (path : Str) : ∃ failure, parse path (some []) = .error failure :=
  ⟨_, by simp only [parse, VersionFile.parse_empty]; rfl⟩

end MySCMDatabaseVersionFile

namespace AIDEDatabasesManager

/-! ## The recorded version -/

/-- `numbers.sort()`: the list is sorted in place, and the call itself returns
`None`. -/
def sort (numbers : List Nat) : List Nat × Option (List Nat) :=
  (numbers.mergeSort, none)

/-- `_get_aide_db_ver_list`. -/
def getAideDbVerList (config : ServerConfig) (s : ServerState δ) : List Nat :=
  s.aideOldDbDir.listdir.filterMap fun fname =>
    match config.aideOldDbFnameRegex.fullmatch fname with
    | some (digits :: _) => some (Str.digitsValue 10 digits)
    | _ => none

/-- The loop of `_get_missing_aide_db_files_ranges` over neighbouring numbers. -/
def missingBetween : List Nat → List Str
  | a :: b :: rest =>
      let here :=
        if a + 1 < b then
          if b - a = 2 then [Str.ofNat (a + 1)]
          else [Str.ofNat (a + 1) ++ '-' :: Str.ofNat (b - 1)]
        else
          []
      here ++ missingBetween (b :: rest)
  | _ => []

/-- `_get_missing_aide_db_files_ranges`: none stands for `None`. -/
def getMissingAideDbFilesRanges : Option (List Nat) → Option (List Str)
  | none => none
  | some [] => none
  | some (first :: rest) =>
      let front :=
        if 0 < first then
          if first = 1 then ["0".toList] else ["0-".toList ++ Str.ofNat (first - 1)]
        else
          []
      some (front ++ missingBetween (first :: rest))

/-- `versions[-1] if versions else -1`. -/
def dbVerFromDir (versions : Option (List Nat)) : Int :=
  match versions with
  | none => -1
  | some numbers => (numbers.getLast?.map fun num => (num : Int)).getD (-1)

/-- `get_recent_aide_db_version`. A version file that cannot be parsed counts
as version -1. -/
def getRecentAideDbVersion (config : ServerConfig) (s : ServerState δ) :
    Except ServerError Int :=
  let fromFile :=
    match MySCMDatabaseVersionFile.parse config.recentlyGenDbVerPath s.dbVerFile with
    | .ok ver => ver
    | .error _ => -1
  let versions := (sort (getAideDbVerList config s)).2
  let fromDir := dbVerFromDir versions
  if fromFile < fromDir then
    .error (.aideDatabasesManager
      ("Recently generated AIDE database version read from '".toList ++
        config.recentlyGenDbVerPath ++ "' is ".toList ++ Str.ofInt fromFile ++
        ", but there was found database file with version number ".toList ++
        Str.ofInt fromDir))
  else
    .ok fromFile

/-! ## The rotation -/

/-- `_rename`: an `OSError` becomes an error of the manager. -/
def rename (action : ServerState δ → Option (ServerState δ)) (fromPath toPath : Str) :
    Prog (ServerState δ) ServerError Unit :=
  Prog.step fun s =>
    match action s with
    | some renamed => .ok renamed
    | none =>
        .error (.aideDatabasesManager
          ("Unable to rename '".toList ++ fromPath ++ "' to '".toList ++ toPath ++ "'".toList))

/-- `_rename_aide_reference_db_file_to_old`. -/
def renameAideReferenceDbFileToOld (config : ServerConfig) (num : Int) :
    Prog (ServerState δ) ServerError Unit :=
  rename
    (ServerState.replaceIn config.aideReferenceDbDirname config.aideReferenceDbFname
      (config.aideOldDbFname num))
    config.aideReferenceDbPath
    (ServerConfig.joinName config.aideReferenceDbDir (config.aideOldDbFname num))

/-- `_rename_aide_reference_db_dir_to_old`. -/
def renameAideReferenceDbDirToOld (config : ServerConfig) (num : Int) :
    Prog (ServerState δ) ServerError Unit :=
  rename
    (ServerState.replaceEntry config.aideReferenceDbDirname (config.aideOldDbFname num))
    config.aideReferenceDbDir (config.aideOldDbSubdir num)

/-- `_rename_aide_new_db_file_to_reference_file`. -/
def renameAideNewDbFileToReferenceFile (config : ServerConfig) :
    Prog (ServerState δ) ServerError Unit :=
  rename
    (ServerState.replaceIn config.aideOutDbDirname config.aideOutDbFname
      config.aideReferenceDbFname)
    config.aideOutDbPath
    (ServerConfig.joinName config.aideOutDbDir config.aideReferenceDbFname)

/-- `_rename_aide_new_db_dir_to_reference_dir`. -/
def renameAideNewDbDirToReferenceDir (config : ServerConfig) :
    Prog (ServerState δ) ServerError Unit :=
  rename (ServerState.replaceEntry config.aideOutDbDirname config.aideReferenceDbDirname)
    config.aideOutDbDir config.aideReferenceDbDir

/-- The branch of the rotation that moves an existing reference database away. -/
def moveReferenceDbToOld (config : ServerConfig) : Prog (ServerState δ) ServerError Unit := do
  let num ← Prog.tryReads (getRecentAideDbVersion config)
  renameAideReferenceDbFileToOld config num
  renameAideReferenceDbDirToOld config num

/-- The part of the rotation that installs the new database and counts it. -/
def installNewDb (config : ServerConfig) : Prog (ServerState δ) ServerError Unit := do
  renameAideNewDbFileToReferenceFile config
  renameAideNewDbDirToReferenceDir config
  MySCMDatabaseVersionFile.increment config

/-- `replace_old_aide_db_with_new_one`. -/
def replaceOldAideDbWithNewOne (config : ServerConfig) :
    Prog (ServerState δ) ServerError Unit := do
  let exist ← Prog.reads fun s => s.isdir config.aideReferenceDbDirname
  if exist then
    moveReferenceDbToOld config
  installNewDb config

end AIDEDatabasesManager

namespace Scanner

/-- `_create_tmp_out_dir_if_doesnt_exist` and then `aide --init`, which writes
the database of the present system into the out directory. -/
def createNewDb (config : ServerConfig) (database : δ) (s : ServerState δ) :
    Except ServerError (ServerState δ) :=
  let write (items : Directory (Item δ)) : Except ServerError (ServerState δ) :=
    match items.lookup config.aideOutDbFname with
    | some (.dir _) =>
        .error (.scanner
          ("Make sure that `database[_out|_new]` variables provided in AIDE configuration ".toList ++
            "'".toList ++ config.aideConfigPath ++ "' are valid".toList))
    | _ =>
        .ok { s with
          aideOldDbDir :=
            s.aideOldDbDir.insert config.aideOutDbDirname
              (.dir (items.insert config.aideOutDbFname (.file database))) }
  match s.aideOldDbDir.lookup config.aideOutDbDirname with
  | none => write ∅
  | some (.dir items) => write items
  | some (.file _) =>
      .error (.scanner
        ("Unable to create temporary directory '\x7b\x7d' for storing result of the AIDE ".toList ++
          "--init call".toList))

/-- `COPIED_FILES_DIRNAME`. -/
def copiedFilesDirname : Str := "COPIED".toList

/-- `_copy_selected_tracked_dirs`: `COPIED` is created in the new reference
directory and filled with files called `names`. -/
def copySelectedTrackedDirs (config : ServerConfig) (names : List Str) (s : ServerState δ) :
    Except ServerError (ServerState δ) :=
  let failed := .error (.scanner
    ("Failed to copy files that were specified in AIDE '".toList ++ config.aideConfigPath ++
      "' configuration to be copied to myscm-srv --scan result".toList))
  match s.aideOldDbDir.lookup config.aideReferenceDbDirname with
  | some (.dir items) =>
      match items.lookup copiedFilesDirname with
      | none =>
          .ok { s with
            aideOldDbDir :=
              s.aideOldDbDir.insert config.aideReferenceDbDirname
                (.dir (items.insert copiedFilesDirname (.dir names))) }
      | some _ => failed
  | _ => failed

end Scanner

namespace SystemImageGenerator

/-- `_get_client_db_path`. -/
def getClientDbPath (config : ServerConfig) (s : ServerState δ) (clientDbVersion : Int) :
    Except ServerError Str :=
  if clientDbVersion < 0 then
    .error (.systemImageGenerator
      ("Client's AIDE database version is expected to be non-negative integer (current ".toList ++
        "value: '".toList ++ Str.ofInt clientDbVersion ++ "')".toList))
  else
    let clientDbPath := config.aideOldDbPath clientDbVersion
    let fname := config.aideOldDbFname clientDbVersion
    if s.isfileIn fname fname then
      .ok clientDbPath
    else
      .error (.systemImageGenerator
        ("Unrecognized client's AIDE database version '".toList ++
          Str.ofInt clientDbVersion ++ "'. File '".toList ++ clientDbPath ++
          "' doesn't exist. Run --list-db option to list all available AIDE databases ".toList ++
            "created so far".toList))

/-- The two database versions of an image, as `SystemImageGenerator.__init__`
sets them for the option `--gen-img genImg`. -/
def init (config : ServerConfig) (genImg : Int) (s : ServerState δ) :
    Except ServerError (Int × Int) := do
  let toDbId ← AIDEDatabasesManager.getRecentAideDbVersion config s
  let _ ← getClientDbPath config s genImg
  return (genImg, toDbId)

/-- The name of the image file that the generator can form in a state. -/
def imgFname (config : ServerConfig) (genImg : Int) (s : ServerState δ) :
    Except ServerError Str := do
  let ids ← init config genImg s
  return myscmImgFileName ids.1 ids.2

end SystemImageGenerator

end Myscm.Server
