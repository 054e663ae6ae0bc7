import Myscm.Client.SysImgManager
import Myscm.Client.SysImgValidator
import Myscm.Client.TemplateFile

/-!
Owns `SysImgExtractor`: extracting an image, and applying its added, changed
and removed files to the local file system.

Owns: `_extract_sys_img`; the three phases with their loops and steps;
`apply_sys_img` as a whole.

Does not own: log messages; the progress bar but for the error it raises when it
is moved past its end; `diff_match_patch`, which is given.
-/

namespace Myscm.Client

open Myscm.Library Myscm.Server

/-- What a run is given from outside. `openTar` reads an archive from bytes, none
where that raises; `applyPatch` is `patch_fromText` and `patch_apply`, none where
the patch text is malformed. -/
structure ClientEnv extends ValidatorEnv where
  openTar : List UInt8 → Option Archive
  applyPatch : Str → Str → Option Str
  vars : TemplateVars
  umask : Nat

namespace SysImgExtractor

/-- `bar.update(bar.value + 1)` behind `value` earlier updates. -/
def barUpdate (maxValue value : Nat) : Prog Fs ClientError Unit :=
  if value + 1 ≤ maxValue then Prog.ret () else Prog.raise .value

section Options

variable (env : ClientEnv) (options : ClientOptions)

/-- A step that a dry run leaves out. -/
def unlessDryRun (program : Prog Fs ClientError Unit) : Prog Fs ClientError Unit :=
  if options.dryRun then Prog.ret () else program

/-! ## Extraction -/

/-- Where an image is extracted to. The name of an open archive is the absolute
path of its file, and its end is stripped of the characters of the extension. -/
def extractDir (imgName : Str) : Str :=
  Str.joinPath options.sysImgExtractDir
    (Str.rstripChars SystemImageGenerator.myscmImgExt imgName)

/-- `_extract_sys_img`. -/
def extractSysImg (imgName : Str) (archive : Archive) : Prog Fs ClientError Str := do
  let dir := extractDir options imgName
  let there ← Prog.reads (Fs.pathExists · dir)
  if there then
    if options.forceApply then
      rmtree .os dir
    else
      Prog.raise (.sysImgExtractor
        ("Directory '".toList ++ dir ++
          "' already exists - it may be caused if last system upgrade has failed or ".toList ++
          "was interrupred.".toList))
  else
    Prog.ret ()
  extractall env.umask archive dir
  return dir

/-! ## Added files -/

/-- `_remove_empty_dirs`. -/
def removeEmptyDirs (src : Str) : Prog Fs ClientError Unit :=
  unlessDryRun options
    (osWalkUp
      (fun path => Prog.handle (removedirs .os path) fun _ => Prog.ret ()) pathMax src)

/-- `_move_and_replace_template`. -/
def moveAndReplaceTemplate (srcFile dstFile : Str) : Prog Fs ClientError Unit :=
  unlessDryRun options
    (if Str.endsWith srcFile SystemImageGenerator.templatePathExt then do
      TemplateFile.replacePlaceholdersWithValues env.vars env.umask srcFile
        (dstFile.take (dstFile.length - SystemImageGenerator.templatePathExt.length))
      sys .os (Fs.remove srcFile)
    else
      sys .os (Fs.move srcFile dstFile))

/-- The directory of the target tree is made with owner and mode of its source. -/
def createDstDir (srcDir dstDir : Str) : Prog Fs ClientError Unit := do
  makedirs .os (masked env.umask 0o777) true dstDir
  let fstat ← Prog.tryReads fun fs =>
    match fs.stat srcDir with
    | some node => .ok node
    | none => .error .os
  sys .os (Fs.setOwner true fstat.uid fstat.gid dstDir)
  sys .os (Fs.setMode fstat.mode dstDir)

/-- A link to a directory is moved, unless something that is no link is there. -/
def moveSymdir (srcSymdir dstSymdir : Str) : Prog Fs ClientError Unit := do
  let link ← Prog.reads (Fs.islink · srcSymdir)
  let free ← Prog.reads fun fs => fs.islink dstSymdir || !fs.pathExists dstSymdir
  if link && free then
    unlessDryRun options (sys .os (Fs.move srcSymdir dstSymdir))
  else
    Prog.ret ()

/-- The path in the target tree of a directory of the source tree:
`realpath(src_dir.replace(src, "/", 1))`. -/
def dstDirOf (src srcDir : Str) (fs : Fs) : Str :=
  Path.text (fs.realpath ('/' :: srcDir.drop src.length))

/-- `_movetree` makes the directory of the target tree where it is missing. -/
def ensureDstDir (srcDir dstDir : Str) : Prog Fs ClientError Unit := do
  let there ← Prog.reads (Fs.pathExists · dstDir)
  if there then Prog.ret () else unlessDryRun options (createDstDir env srcDir dstDir)

/-- One turn of the loop over directories; `count` is where the progress bar stands. -/
def moveDirEntry (total : Nat) (srcDir dstDir : Str) (count : Nat) (name : Str) :
    Prog Fs ClientError Nat := do
  moveSymdir options (Str.joinPath srcDir name) (Str.joinPath dstDir name)
  barUpdate total count
  return count + 1

/-- One turn of the loop over files. -/
def moveFileEntry (total : Nat) (srcDir dstDir : Str) (count : Nat) (name : Str) :
    Prog Fs ClientError Nat := do
  moveAndReplaceTemplate env options (Str.joinPath srcDir name) (Str.joinPath dstDir name)
  barUpdate total count
  return count + 1

/-- What `_movetree` does with one directory of the source tree. -/
def moveDirContent (src : Str) (total count : Nat) (srcDir : Str) (dirs files : List Str) :
    Prog Fs ClientError Nat := do
  let dstDir ← Prog.reads (dstDirOf src srcDir)
  ensureDstDir env options srcDir dstDir
  let count ← Prog.foldOver (moveDirEntry options total srcDir dstDir) count dirs
  Prog.foldOver (moveFileEntry env options total srcDir dstDir) count files

/-- The entries `_movetree` counts for the progress bar. -/
def countEntries (src : Str) : Prog Fs ClientError Nat :=
  osWalk (fun count _ dirs files => Prog.ret (count + (dirs.length + files.length))) pathMax 0 src

/-- `_movetree` into the root directory. -/
def movetree (src : Str) : Prog Fs ClientError Unit := do
  let total ← countEntries src
  let _ ← osWalk (moveDirContent env options src total) pathMax 0 src
  removeEmptyDirs options src

/-- A report of the extracted image, read in text mode. -/
def forEachReportLine (dir imgName : Str) (fname : Str) (n : Nat)
    (callback : Nat → List Str → Prog Fs ClientError Unit) : Prog Fs ClientError Unit := do
  let path := Str.joinPath dir fname
  let bytes ← Prog.tryReads fun fs =>
    match fs.readFile path with
    | some bytes => .ok bytes
    | none => .error .os
  let _ ← runFunForEachReportLine env.host n ⟨path, imgName⟩ callback (textLines bytes)
  return ()

/-- `_apply_added_files`. The packages of the added files are only logged. -/
def applyAddedFiles (dir imgName : Str) (counts : ReportCounts) : Prog Fs ClientError Unit := do
  movetree env options (Str.joinPath dir SystemImageGenerator.inArchiveAddedDirName)
  forEachReportLine env dir imgName SystemImageGenerator.addedFilesFname 2
    fun calls _ => barUpdate counts.addedEntries calls

/-! ## Changed files -/

/-- `_apply_patch_for_file`: the patched text is written over the old one, which
is then cut off. -/
def applyPatchForFile (path patchPath : Str) : Prog Fs ClientError Unit :=
  unlessDryRun options do
    let patchText ← Prog.tryReads (readText patchPath)
    let textToPatch ← Prog.tryReads (readText path)
    match env.applyPatch patchText textToPatch with
    | none => Prog.raise .value
    | some patchedText => do
        sys .os (Fs.overwrite (Utf8.encode patchedText) path)
        sys .os (Fs.setContent (Utf8.encode patchedText) path)

/-- `_move_changed_file`. -/
def moveChangedFile (src dst : Str) : Prog Fs ClientError Unit :=
  unlessDryRun options (sys .os (Fs.move src dst))

/-- Where the image holds the new file, and the patch. -/
def origPathOf (dir path : Str) : Str :=
  Str.joinPath (Str.joinPath dir SystemImageGenerator.inArchiveChangedDirName)
    (Str.lstripChars ['/'] path)

def diffPathOf (dir path : Str) : Str :=
  origPathOf dir path ++ SystemImageGenerator.patchExt

/-- `_apply_changed_file`. The patch is removed in a dry run, too. -/
def applyChangedFile (dir path : Str) : Prog Fs ClientError Unit := do
  let origPath := Str.joinPath (Str.joinPath dir SystemImageGenerator.inArchiveChangedDirName)
    (Str.lstripChars ['/'] path)
  let diffPath := origPath ++ SystemImageGenerator.patchExt
  let patched ← Prog.reads (Fs.isfile · diffPath)
  if patched then do
    applyPatchForFile env options path diffPath
    sys .os (Fs.remove diffPath)
  else do
    let there ← Prog.reads (Fs.isfile · path)
    if there then moveChangedFile options origPath path else Prog.ret ()

/-- `_change_file_permissions`. -/
def changeFilePermissions (newPerm oldPerm path : Str) : Prog Fs ClientError Unit :=
  if oldPerm ≠ ['.'] then
    match Str.parseOctal newPerm with
    | none => Prog.raise .value
    | some mode => unlessDryRun options (sys .os (Fs.chmod mode path))
  else
    Prog.ret ()

/-- `int(uid)` of `_change_file_uid_gid`: `-1` where the id is not to be changed. -/
def ownerArg (newId oldId : Str) : Option Int :=
  if oldId ≠ ['.'] then Str.parseInt newId else some (-1)

/-- `_change_file_uid_gid`: every failure is only logged. -/
def changeFileUidGid (newUid oldUid newGid oldGid path : Str) : Prog Fs ClientError Unit :=
  match ownerArg newUid oldUid, ownerArg newGid oldGid with
  | some uid, some gid =>
      unlessDryRun options
        (Prog.handle (sys .os (Fs.chown false uid gid path)) fun _ => Prog.ret ())
  | _, _ => Prog.ret ()

/-- The content part of `_changed_files_per_line_fun`. -/
def changeContent (dir : Str) (values : List Str) : Prog Fs ClientError Unit :=
  let sizeWasChanged := values.getD 5 [] = ['>'] ∨ values.getD 5 [] = ['<']
  if values.getD 4 [] = [FileType.regularFile.value] ∧ sizeWasChanged then
    applyChangedFile env options dir (values.getD 0 [])
  else
    Prog.ret ()

/-- The attribute part of `_changed_files_per_line_fun`. -/
def changeAttributes (values : List Str) : Prog Fs ClientError Unit := do
  let path := values.getD 0 []
  let (newPerm, oldPerm) ←
    Prog.tryReads fun _ => getNewOldPropertyFromString (values.getD 8 []) path
  changeFilePermissions options newPerm oldPerm path
  let (newUid, oldUid) ←
    Prog.tryReads fun _ => getNewOldPropertyFromString (values.getD 9 []) path
  let (newGid, oldGid) ←
    Prog.tryReads fun _ => getNewOldPropertyFromString (values.getD 10 []) path
  changeFileUidGid options newUid oldUid newGid oldGid path

/-- `_changed_files_per_line_fun`. -/
def changedFilesPerLineFun (dir : Str) (counts : ReportCounts) (calls : Nat)
    (values : List Str) : Prog Fs ClientError Unit := do
  changeContent env options dir values
  changeAttributes options values
  barUpdate counts.changedEntries calls

/-- `_apply_changed_files`. -/
def applyChangedFiles (dir imgName : Str) (counts : ReportCounts) : Prog Fs ClientError Unit := do
  forEachReportLine env dir imgName SystemImageGenerator.changedFilesFname propertiesCount
    (changedFilesPerLineFun env options dir counts)
  removeEmptyDirs options (Str.joinPath dir SystemImageGenerator.inArchiveChangedDirName)

/-! ## Removed files -/

/-- `_removed_files_per_line_fun`. -/
def removedFilesPerLineFun (counts : ReportCounts) (calls : Nat) (values : List Str) :
    Prog Fs ClientError Unit := do
  unlessDryRun options (sys .os (Fs.remove (values.getD 0 [])))
  barUpdate counts.removedEntries calls

/-- `_apply_removed_files`. -/
def applyRemovedFiles (dir imgName : Str) (counts : ReportCounts) : Prog Fs ClientError Unit :=
  forEachReportLine env dir imgName SystemImageGenerator.removedFilesFname 2
    (removedFilesPerLineFun options counts)

/-! ## The whole application -/

/-- The three phases behind the extraction. -/
def applyPhases (dir imgName : Str) (counts : ReportCounts) : Prog Fs ClientError Unit := do
  applyAddedFiles env options dir imgName counts
  applyChangedFiles env options dir imgName counts
  applyRemovedFiles env options dir imgName counts

/-- The open archive at a path: its absolute name and its members. A file that is
no archive leaves `sys_img_f` unbound, which the handler of `apply_sys_img` runs
into. -/
def openSysImg (sysImgPath : Str) : Prog Fs ClientError (Str × Archive) :=
  Prog.tryReads fun fs =>
    match (fs.readFile sysImgPath).bind env.openTar with
    | some archive => .ok (Str.abspath fs.cwd sysImgPath, archive)
    | none => .error .unboundLocal

/-- The body of the `try` of `apply_sys_img`, behind the opening of the archive. -/
def validateExtractApply (imgName : Str) (archive : Archive) : Prog Fs ClientError Str := do
  let counts ← SysImgValidator.assertSysImgValid options.forceApply imgName env.toValidatorEnv
    archive
  let dir ← extractSysImg env options imgName archive
  applyPhases env options dir imgName counts
  return dir

/-- The error the handlers of `apply_sys_img` end with. -/
def failedToApply (imgName : Str) : ClientError → ClientError
  | .sysImgExtractor message => .sysImgExtractor message
  | _ => .sysImgExtractor ("Failed to apply '".toList ++ imgName ++ "' mySCM system image".toList)

/-- `apply_sys_img`. -/
def applySysImg : Prog Fs ClientError Unit := do
  let sysImgPath ← SysImgManager.getSysImgPath env.umask options
  let sysImgVer ← Prog.tryReads fun _ => SysImgManager.getTargetSysImgVerFromFname sysImgPath
  let (imgName, archive) ← openSysImg env sysImgPath
  let dir ← Prog.handle (validateExtractApply env options imgName archive) fun failure =>
    Prog.raise (failedToApply imgName failure)
  unlessDryRun options
    (SysImgManager.updateCurrentSystemStateVersion env.umask options sysImgVer)
  rmtreeIgnoringErrors .os dir

end Options

end SysImgExtractor

end Myscm.Client
