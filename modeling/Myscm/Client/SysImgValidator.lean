import Myscm.Client.Archive

/-!
Owns `SysImgValidator`: the checks of the three reports of an image against the
archive and the local file system.

Owns: every check with its message, what `force_apply` forgives, the counts of
report lines.

Does not own: log messages.
-/

namespace Myscm.Client

open Myscm.Library Myscm.Server

/-- What the validator is given from outside: the local machine and the hash
functions as hexadecimal digests. -/
structure ValidatorEnv where
  host : Host
  md5 : List UInt8 → Str
  sha1 : List UInt8 → Str

/-- The counts of value lines in the three reports. -/
structure ReportCounts where
  addedEntries : Nat
  changedEntries : Nat
  removedEntries : Nat
  deriving DecidableEq

/-- A text between apostrophes. -/
def quoted (s : Str) : Str := '\'' :: (s ++ ['\''])

namespace SysImgValidator

def md5sumLen : Nat := 32
def sha1sumLen : Nat := 40

/-- The outcome of a check that `force_apply` turns into a warning. -/
def refuse (forceApply : Bool) (message : Str) : Except ClientError Unit :=
  if forceApply then .ok () else .error (.sysImgValidator message)

/-! ## A line of added.txt -/

section Lines

variable (forceApply : Bool) (imgName : Str)

/-- `_assert_added_file_not_on_local_system`. -/
def assertAddedFileNotOnLocalSystem (fs : Fs) (path : Str) : Except ClientError Unit :=
  if fs.pathExists path then
    refuse forceApply
      (quoted path ++ " was about to be added during applying ".toList ++ quoted imgName ++
        " myscm-img but it already exists in the local filesystem.".toList)
  else
    .ok ()

/-- `os.path.join(IN_ARCHIVE_ADDED_DIR_NAME, path.lstrip("/"))`, and so for CHANGED. -/
def intarPath (dirName path : Str) : Str :=
  Str.joinPath dirName (Str.lstripChars ['/'] path)

/-- `_assert_added_file_in_sys_img_added_files`. -/
def assertAddedFileInSysImgAddedFiles (archive : Archive) (path : Str) :
    Except ClientError Unit :=
  let addedDir := SystemImageGenerator.inArchiveAddedDirName
  match archive.getmember (intarPath addedDir path) with
  | some _ => .ok ()
  | none =>
      .error (.sysImgValidator
        ("File ".toList ++ quoted (intarPath addedDir path) ++
          " is supposed to be present in mySCM system image ".toList ++ quoted imgName ++
          " in ".toList ++ quoted addedDir ++
          " directory but was not found (info read from added files report)".toList))

/-- `_assert_added_line_valid`. -/
def assertAddedLineValid (archive : Archive) (fs : Fs) (values : List Str) :
    Except ClientError Unit := do
  let addedFilePath := values.getD 0 []
  assertAddedFileNotOnLocalSystem forceApply imgName fs addedFilePath
  assertAddedFileInSysImgAddedFiles imgName archive addedFilePath

/-! ## A line of changed.txt -/

/-- `_get_expected_val_from_property_string`: the new value where the old one is
marked as unchanged. -/
def getExpectedValFromPropertyString (valStr path : Str) : Except ClientError Str := do
  let (newVal, oldVal) ← getNewOldPropertyFromString valStr path
  return if oldVal = ['.'] ∨ oldVal = ['='] then newVal else oldVal

/-- `_assert_changed_file_exists_on_local_filesystem`. -/
def assertChangedFileExistsOnLocalFilesystem (fs : Fs) (path : Str) : Except ClientError Unit :=
  if fs.pathExists path then
    .ok ()
  else
    .error (.sysImgValidator
      (quoted path ++ " was about to be changed during applying ".toList ++ quoted imgName ++
        " myscm-img but it doesn't exist in the local filesystem.".toList))

/-- `_assert_changed_file_in_sys_img_changed_files`. -/
def assertChangedFileInSysImgChangedFiles (archive : Archive) (path : Str) :
    Except ClientError Unit :=
  let changedDir := SystemImageGenerator.inArchiveChangedDirName
  let origPath := intarPath changedDir path
  let diffPath := origPath ++ SystemImageGenerator.patchExt
  if (archive.getmember origPath).isSome ∨ (archive.getmember diffPath).isSome then
    .ok ()
  else
    .error (.sysImgValidator
      ("File ".toList ++ quoted origPath ++ " or its patch ".toList ++ quoted diffPath ++
        " is supposed to be present in mySCM system image ".toList ++ quoted imgName ++
        " in ".toList ++ quoted changedDir ++
        " directory but was not found (info read from added files report)".toList))

/-- The validator of a file type character, with the name of the type. None is an
unknown character. No file of a local system is a Solaris door or event port. -/
def ftypeValidator (fs : Fs) (path : Str) (fileStat : Node) (ftypeChar : Str) :
    Option (Bool × Str) :=
  let isKind (holds : Bool) (name : String) := some (holds, name.toList)
  if ftypeChar = [FileType.regularFile.value] then
    isKind (fs.isfile path) "REGULAR_FILE"
  else if ftypeChar = [FileType.directory.value] then
    isKind (fs.isdir path) "DIRECTORY"
  else if ftypeChar = [FileType.symbolicLink.value] then
    isKind (fs.islink path) "SYMBOLIC_LINK"
  else if ftypeChar = [FileType.characterDevice.value] then
    isKind (fileStat.typeBits = 0o20000) "CHARACTER_DEVICE"
  else if ftypeChar = [FileType.blockDevice.value] then
    isKind (fileStat.typeBits = 0o60000) "BLOCK_DEVICE"
  else if ftypeChar = [FileType.fifo.value] then
    isKind (fileStat.typeBits = 0o10000) "FIFO"
  else if ftypeChar = [FileType.unixSocket.value] then
    isKind (fileStat.typeBits = 0o140000) "UNIX_SOCKET"
  else if ftypeChar = [FileType.solarisDoor.value] then
    isKind false "SOLARIS_DOOR"
  else if ftypeChar = [FileType.solarisEventPort.value] then
    isKind false "SOLARIS_EVENT_PORT"
  else
    none

/-- `_assert_changed_ftype_valid`. -/
def assertChangedFtypeValid (fs : Fs) (path ftypeChar : Str) (fileStat : Node) :
    Except ClientError Unit :=
  match ftypeValidator fs path fileStat ftypeChar with
  | none =>
      .error (.sysImgValidator
        ("Unknown file type of ".toList ++ quoted path ++ " indentified by ".toList ++
          quoted ftypeChar ++
          " character read from mySCM system's image changed files report".toList))
  | some (true, _) => .ok ()
  | some (false, name) =>
      refuse forceApply
        ("File ".toList ++ quoted path ++
          " was declared in system's mySCM image changed files report as a ".toList ++
          quoted name ++ " but it isn't".toList)

/-- `_get_hash_from_property_string`. -/
def getHashFromPropertyString (hashStr path : Str) (checksumLen : Nat) :
    Except ClientError Str := do
  let checksum ← getExpectedValFromPropertyString hashStr path
  if checksum.length ≠ checksumLen then
    .error (.sysImgValidator
      ("Hash string ".toList ++ quoted hashStr ++ " read from changed report for ".toList ++
        quoted path ++ " is malformed".toList))
  else
    return checksum

/-- `_assert_file_checksum_valid`. -/
def assertFileChecksumValid (fs : Fs) (path hashName hashStr : Str) (hashLen : Nat)
    (checksumFun : List UInt8 → Str) : Except ClientError Unit := do
  let expectedChecksum ← getHashFromPropertyString hashStr path hashLen
  let computedChecksum ←
    match fs.readFile path with
    | some content => .ok (checksumFun content)
    | none =>
        .error (.sysImgValidator
          ("Failed to compute hash of the ".toList ++ quoted path ++ " file".toList))
  if computedChecksum ≠ expectedChecksum then
    refuse forceApply
      (hashName ++ " checksum of the ".toList ++ quoted path ++ " file is ".toList ++
        quoted computedChecksum ++ " instead of expected ".toList ++ quoted expectedChecksum ++
        " (read from mySCM system's image file)".toList)
  else
    .ok ()

/-- `_assert_changed_file_size_valid`. -/
def assertChangedFileSizeValid (path fileSizeStr : Str) (fileStat : Node) :
    Except ClientError Unit := do
  let expectedVal ← getExpectedValFromPropertyString fileSizeStr path
  match Str.parseInt expectedVal with
  | none =>
      .error (.sysImgValidator
        ("Previous ".toList ++ quoted path ++
          " file size is not integer as it supposed to be (has value: ".toList ++
          quoted expectedVal ++ ")".toList))
  | some expectedFileSize =>
      if (fileStat.stSize : Int) ≠ expectedFileSize then
        refuse forceApply
          ("File size of the ".toList ++ quoted path ++ " file is ".toList ++
            quoted (Str.ofNat fileStat.stSize) ++ " instead of expected ".toList ++
            quoted (Str.ofInt expectedFileSize) ++
            " (read from mySCM system's image file)".toList)
      else
        .ok ()

/-- `_assert_changed_perm_valid`: the octal mode, type bits included. -/
def assertChangedPermValid (path permStr : Str) (fileStat : Node) : Except ClientError Unit := do
  let localPerm := Str.octal fileStat.stMode
  let expectedPerm ← getExpectedValFromPropertyString permStr path
  if localPerm ≠ expectedPerm then
    refuse forceApply
      ("Permissions of the ".toList ++ quoted path ++ " file are ".toList ++ localPerm ++
        " instead of ".toList ++ expectedPerm ++
        " as they supposed to be (read from mySCM system's image file)".toList)
  else
    .ok ()

/-- `_assert_changed_int_valid`. A text that is no integer differs from every value. -/
def assertChangedIntValid (path : Str) (localVal : Nat) (valStr name : Str) (noexcept : Bool) :
    Except ClientError Unit := do
  let expectedVal ← getExpectedValFromPropertyString valStr path
  match Str.parseInt expectedVal with
  | none =>
      refuse forceApply
        (name ++ " of the ".toList ++ quoted path ++
          " file is not integer as it supposed to be (is: ".toList ++ quoted expectedVal ++
          ")".toList)
      refuse noexcept
        (name ++ " of the ".toList ++ quoted path ++ " file is ".toList ++
          quoted (Str.ofNat localVal) ++ " instead of expected ".toList ++ quoted expectedVal ++
          " (read from mySCM system's image file)".toList)
  | some expected =>
      if (localVal : Int) ≠ expected then
        refuse noexcept
          (name ++ " of the ".toList ++ quoted path ++ " file is ".toList ++
            quoted (Str.ofNat localVal) ++ " instead of expected ".toList ++
            quoted (Str.ofInt expected) ++ " (read from mySCM system's image file)".toList)
      else
        .ok ()

/-- `_assert_changed_uid_valid`. -/
def assertChangedUidValid (path uidStr : Str) (fileStat : Node) : Except ClientError Unit :=
  assertChangedIntValid forceApply path fileStat.uid uidStr "UID".toList forceApply

/-- `_assert_changed_gid_valid`. -/
def assertChangedGidValid (path gidStr : Str) (fileStat : Node) : Except ClientError Unit :=
  assertChangedIntValid forceApply path fileStat.gid gidStr "GID".toList forceApply

/-- `_assert_changed_lcount_valid`. -/
def assertChangedLcountValid (path lcountStr : Str) (fileStat : Node) :
    Except ClientError Unit :=
  assertChangedIntValid forceApply path fileStat.nlink lcountStr "lcount".toList forceApply

variable (env : ValidatorEnv)

/-- The checks `_assert_changed_line_valid` makes of a regular file alone. -/
def assertRegularFileValid (archive : Archive) (fs : Fs) (values : List Str) (fileStat : Node) :
    Except ClientError Unit := do
  let path := values.getD 0 []
  let sha1sumStr := values.getD 16 []
  assertFileChecksumValid forceApply fs path "MD5".toList (values.getD 15 []) md5sumLen env.md5
  assertFileChecksumValid forceApply fs path "SHA1".toList sha1sumStr sha1sumLen env.sha1
  assertChangedFileSizeValid forceApply path (values.getD 6 []) fileStat
  let (newSha1sum, oldSha1sum) ← getNewOldPropertyFromString sha1sumStr path
  let fileContentChanged := oldSha1sum ≠ newSha1sum ∧ oldSha1sum ≠ ['.']
  if fileContentChanged then
    assertChangedFileInSysImgChangedFiles imgName archive path
  else
    .ok ()

/-- `_assert_changed_line_valid`. -/
def assertChangedLineValid (archive : Archive) (fs : Fs) (values : List Str) :
    Except ClientError Unit := do
  let path := values.getD 0 []
  assertChangedFileExistsOnLocalFilesystem imgName fs path
  match fs.stat path with
  | none => .error .os
  | some fileStat => do
      let ftypeChar := values.getD 4 []
      assertChangedFtypeValid forceApply fs path ftypeChar fileStat
      if ftypeChar = [FileType.regularFile.value] then
        assertRegularFileValid forceApply imgName env archive fs values fileStat
      else
        .ok ()
      assertChangedPermValid forceApply path (values.getD 8 []) fileStat
      assertChangedUidValid forceApply path (values.getD 9 []) fileStat
      assertChangedGidValid forceApply path (values.getD 10 []) fileStat
      assertChangedLcountValid forceApply path (values.getD 14 []) fileStat

end Lines

/-! ## The three reports -/

section Reports

variable (forceApply : Bool) (imgName : Str) (env : ValidatorEnv)

/-- `_assert_file_present_in_sys_img`. -/
def assertFilePresentInSysImg (archive : Archive) (path : Str) : Except ClientError Unit :=
  match archive.getmember path with
  | some _ => .ok ()
  | none =>
      refuse forceApply
        ("Missing ".toList ++ quoted path ++ " file in ".toList ++ quoted imgName ++
          " mySCM system image".toList)

/-- `_assert_summary_valid`. A member that has no file raises on `with`. -/
def assertSummaryValid (archive : Archive) (path : Str) (valCount : Nat)
    (fn : Fs → List Str → Except ClientError Unit) : Prog Fs ClientError (Nat × Nat) := do
  Prog.tryReads fun _ => assertFilePresentInSysImg forceApply imgName archive path
  match archive.extractfile path with
  | none => Prog.raise (if (archive.getmember path).isNone then .key else .attribute)
  | some bytes =>
      runFunForEachReportLine env.host valCount ⟨path, imgName⟩
        (fun _ values => Prog.tryReads fun fs => fn fs values) (binaryLines bytes)

/-- `_assert_valid_sys_img`. `_assert_removed_line_valid` only warns. -/
def assertValidSysImg (archive : Archive) : Prog Fs ClientError ReportCounts := do
  let added ← assertSummaryValid forceApply imgName env archive
    SystemImageGenerator.addedFilesFname 2 (assertAddedLineValid forceApply imgName archive)
  let changed ← assertSummaryValid forceApply imgName env archive
    SystemImageGenerator.changedFilesFname propertiesCount
    (assertChangedLineValid forceApply imgName env archive)
  let removed ← assertSummaryValid forceApply imgName env archive
    SystemImageGenerator.removedFilesFname 2 fun _ _ => .ok ()
  return ⟨added.2, changed.2, removed.2⟩

/-- The error of `assert_sys_img_valid`. -/
def failedToValidate (imgName : Str) : ClientError :=
  .sysImgValidator ("Failed to validate ".toList ++ quoted imgName ++ " system image".toList)

/-- `assert_sys_img_valid`. -/
def assertSysImgValid (archive : Archive) : Prog Fs ClientError ReportCounts :=
  Prog.handle (assertValidSysImg forceApply imgName env archive) fun _ =>
    Prog.raise (failedToValidate imgName)

/-! ## Validation only reads -/

theorem quiet_assertSummaryValid (archive : Archive) (path : Str) (valCount : Nat)
    (fn : Fs → List Str → Except ClientError Unit) :
    Prog.Quiet (assertSummaryValid forceApply imgName env archive path valCount fn) := by
  refine Prog.quiet_andThen (Prog.quiet_tryReads _) fun _ => ?_
  split
  · exact Prog.quiet_raise _
  · exact quiet_runFunForEachReportLine env.host valCount _
      (fun _ _ => Prog.quiet_tryReads _) _

theorem quiet_assertSysImgValid (archive : Archive) :
    Prog.Quiet (assertSysImgValid forceApply imgName env archive) := by
  refine Prog.quiet_handle ?_ fun _ => Prog.quiet_raise _
  refine Prog.quiet_andThen (quiet_assertSummaryValid _ _ _ _ _ _ _) fun _ => ?_
  refine Prog.quiet_andThen (quiet_assertSummaryValid _ _ _ _ _ _ _) fun _ => ?_
  refine Prog.quiet_andThen (quiet_assertSummaryValid _ _ _ _ _ _ _) fun _ => ?_
  exact Prog.quiet_ret _

end Reports

end SysImgValidator

end Myscm.Client
