import Myscm.Client.SysImgExtractor
import Myscm.Library.Completion

/-!
Owns the question whether an image the validator accepts is applied to its end.

Owns: what each phase of the application needs of the file system and of the
extracted reports; that the phases end exactly where they find it.

Does not own: what the phases leave behind.
-/

namespace Myscm.Client

open Myscm.Library Myscm.Server

namespace SysImgExtractor

section Readiness

variable (env : ClientEnv) (options : ClientOptions)

/-! ## What one step needs -/

/-- A directory that is missing can be made with those above it, and source and
target are there afterwards. -/
def EnsureDstDirReady (srcDir dstDir : Str) (fs : Fs) : Prop :=
  fs.pathExists dstDir = false → options.dryRun = false →
    Fs.MakedirsReady ClientError.os (masked env.umask 0o777) true (Str.isAbs dstDir)
        ((dstDir.splitOn '/').filter (· ≠ [])).reverse fs ∧
      ∀ middle,
        Prog.Ends (makedirs ClientError.os (masked env.umask 0o777) true dstDir) fs () middle →
          middle.pathExists srcDir = true ∧ middle.pathExists dstDir = true

/-- A link to a directory that is moved can be moved. -/
def MoveSymdirReady (srcSymdir dstSymdir : Str) (fs : Fs) : Prop :=
  fs.islink srcSymdir = true → (fs.islink dstSymdir = true ∨ fs.pathExists dstSymdir = false) →
    options.dryRun = false → Fs.Movable srcSymdir dstSymdir fs

/-- A template is UTF-8 text, and its output is a regular file or may be one; any
other file can be moved. -/
def MoveAndReplaceTemplateReady (srcFile dstFile : Str) (fs : Fs) : Prop :=
  options.dryRun = false →
    if Str.endsWith srcFile SystemImageGenerator.templatePathExt = true then
      ∃ bytes, fs.readFile srcFile = some bytes ∧ (Utf8.decode bytes).isSome = true ∧
        Fs.TakesContent
          (dstFile.take (dstFile.length - SystemImageGenerator.templatePathExt.length)) fs
    else
      Fs.Movable srcFile dstFile fs

/-- The patch and the file are text, and the patch is well-formed. -/
def PatchReady (path patchPath : Str) (fs : Fs) : Prop :=
  options.dryRun = false →
    ∃ patchText textToPatch, readText patchPath fs = .ok patchText ∧
      readText path fs = .ok textToPatch ∧ (env.applyPatch patchText textToPatch).isSome = true

/-- A patch can be applied; without one, a regular file is replaced by a file that
was extracted. -/
def ChangedFileReady (dir path : Str) (fs : Fs) : Prop :=
  let origPath := Str.joinPath (Str.joinPath dir SystemImageGenerator.inArchiveChangedDirName)
    (Str.lstripChars ['/'] path)
  let diffPath := origPath ++ SystemImageGenerator.patchExt
  if fs.isfile diffPath = true then
    PatchReady env options path diffPath fs
  else
    fs.isfile path = true → options.dryRun = false → Fs.HoldsFile origPath fs

/-- The content of an entry whose content is changed can be. -/
def ContentReady (dir : Str) (values : List Str) (fs : Fs) : Prop :=
  values.getD 4 [] = [FileType.regularFile.value] →
    (values.getD 5 [] = ['>'] ∨ values.getD 5 [] = ['<']) →
      ChangedFileReady env options dir (values.getD 0 []) fs

/-- A mode to be set is an octal C `int`, for a path that is there. -/
def PermissionsReady (newPerm oldPerm path : Str) (fs : Fs) : Prop :=
  oldPerm ≠ ['.'] → ∃ mode, Str.parseOctal newPerm = some mode ∧
    (options.dryRun = false → -2 ^ 31 ≤ mode ∧ mode < 2 ^ 31 ∧ fs.pathExists path = true)

/-- Permissions, owner and group are pairs of words, and the mode can be set. -/
def AttributesReady (values : List Str) (fs : Fs) : Prop :=
  let path := values.getD 0 []
  (∃ perm, getNewOldPropertyFromString (values.getD 8 []) path = .ok perm ∧
      PermissionsReady options perm.1 perm.2 path fs) ∧
    (∃ uid, getNewOldPropertyFromString (values.getD 9 []) path = .ok uid) ∧
    ∃ gid, getNewOldPropertyFromString (values.getD 10 []) path = .ok gid

/-! ## What a report line needs -/

/-- A changed entry is ready: first its content, then its attributes. -/
def ChangedLineReady (dir : Str) (counts : ReportCounts) (calls : Nat) (values : List Str)
    (fs : Fs) : Prop :=
  ContentReady env options dir values fs ∧
    ∀ middle, Prog.Ends (changeContent env options dir values) fs () middle →
      AttributesReady options values middle ∧ calls + 1 ≤ counts.changedEntries

/-- A removed entry is ready: a file stands there that is no directory. -/
def RemovedLineReady (counts : ReportCounts) (calls : Nat) (values : List Str) (fs : Fs) : Prop :=
  (options.dryRun = false → Fs.HoldsFile (values.getD 0 []) fs) ∧
    calls + 1 ≤ counts.removedEntries

/-- A report was extracted, reads to its end as text, and each of its entries is
ready in the state the entries before it leave. -/
def ReportReady (dir imgName fname : Str) (n : Nat)
    (callback : Nat → List Str → Prog Fs ClientError Unit)
    (lineReady : Nat → List Str → Fs → Prop) (fs : Fs) : Prop :=
  ∃ bytes, fs.readFile (Str.joinPath dir fname) = some bytes ∧
    Prog.EachReady (fun call => callback call.2 call.1) (fun call => lineReady call.2 call.1)
      ((readReport env.host n ⟨Str.joinPath dir fname, imgName⟩ 0 0 (textLines bytes)).1.zipIdx)
      fs ∧
    ∃ totals, (readReport env.host n ⟨Str.joinPath dir fname, imgName⟩ 0 0
      (textLines bytes)).2 = .ok totals

/-! ## What a phase needs -/

/-- The directories and files of one directory of the source tree can be moved,
and are no more than were counted. -/
def MoveDirReady (src : Str) (total count : Nat) (srcDir : Str) (dirs files : List Str)
    (fs : Fs) : Prop :=
  let dstDir := dstDirOf src srcDir fs
  EnsureDstDirReady env options srcDir dstDir fs ∧
    ∀ behindCreate, Prog.Ends (ensureDstDir env options srcDir dstDir) fs () behindCreate →
      Prog.FoldReady (moveDirEntry options total srcDir dstDir)
        (fun count name middle =>
          MoveSymdirReady options (Str.joinPath srcDir name) (Str.joinPath dstDir name) middle ∧
            count + 1 ≤ total)
        count dirs behindCreate ∧
      ∀ next behindDirs,
        Prog.Ends (Prog.foldOver (moveDirEntry options total srcDir dstDir) count dirs) behindCreate
            next behindDirs →
          Prog.FoldReady (moveFileEntry env options total srcDir dstDir)
            (fun count name middle =>
              MoveAndReplaceTemplateReady options (Str.joinPath srcDir name)
                  (Str.joinPath dstDir name) middle ∧
                count + 1 ≤ total)
            next files behindDirs

/-- The added files can be moved, and their report reads. -/
def AddedReady (dir imgName : Str) (counts : ReportCounts) (fs : Fs) : Prop :=
  let src := Str.joinPath dir SystemImageGenerator.inArchiveAddedDirName
  (∀ total middle, Prog.Ends (countEntries src) fs total middle →
      Fs.WalkReady (moveDirContent env options src total) (MoveDirReady env options src total)
        pathMax 0 src middle) ∧
    ∀ middle, Prog.Ends (movetree env options src) fs () middle →
      ReportReady env dir imgName SystemImageGenerator.addedFilesFname 2
        (fun calls _ => barUpdate counts.addedEntries calls)
        (fun calls _ _ => calls + 1 ≤ counts.addedEntries) middle

/-- The three phases are ready, each in the state the one before leaves. -/
def PhasesReady (dir imgName : Str) (counts : ReportCounts) (fs : Fs) : Prop :=
  AddedReady env options dir imgName counts fs ∧
    ∀ behindAdded, Prog.Ends (applyAddedFiles env options dir imgName counts) fs () behindAdded →
      ReportReady env dir imgName SystemImageGenerator.changedFilesFname propertiesCount
        (changedFilesPerLineFun env options dir counts)
        (ChangedLineReady env options dir counts) behindAdded ∧
      ∀ behindChanged,
        Prog.Ends (applyChangedFiles env options dir imgName counts) behindAdded () behindChanged →
          ReportReady env dir imgName SystemImageGenerator.removedFilesFname 2
            (removedFilesPerLineFun options counts) (RemovedLineReady options counts) behindChanged

end Readiness

variable {env : ClientEnv} {options : ClientOptions}

/-! ## Steps -/

theorem completes_unlessDryRun_iff (program : Prog Fs ClientError Unit) (fs : Fs) :
    Prog.Completes (unlessDryRun options program) fs ↔
      (options.dryRun = false → Prog.Completes program fs) := by
  unfold unlessDryRun
  cases options.dryRun with
  | true => simp
  | false => simp

theorem completes_barUpdate_iff (maxValue value : Nat) (fs : Fs) :
    Prog.Completes (barUpdate maxValue value) fs ↔ value + 1 ≤ maxValue := by
  unfold barUpdate
  split
  · rename_i room
    simp [room]
  · rename_i full
    simp [full]

theorem isfile_of_readFile {path : Str} {fs : Fs} {bytes : List UInt8}
    (read : fs.readFile path = some bytes) : fs.isfile path = true := by
  obtain ⟨node, found, content⟩ := Option.bind_eq_some_iff.mp read
  simp [Fs.isfile, found, Node.isRegular, content]

theorem isfile_of_readText {path text : Str} {fs : Fs} (read : readText path fs = .ok text) :
    fs.isfile path = true := by
  unfold readText at read
  cases bytes : fs.readFile path with
  | none => simp [bytes] at read
  | some content => exact isfile_of_readFile bytes

theorem completes_createDstDir_iff (srcDir dstDir : Str) (fs : Fs) :
    Prog.Completes (createDstDir env srcDir dstDir) fs ↔
      Fs.MakedirsReady ClientError.os (masked env.umask 0o777) true (Str.isAbs dstDir)
          ((dstDir.splitOn '/').filter (· ≠ [])).reverse fs ∧
        ∀ middle,
          Prog.Ends (makedirs ClientError.os (masked env.umask 0o777) true dstDir) fs () middle →
            middle.pathExists srcDir = true ∧ middle.pathExists dstDir = true := by
  have attributes (middle : Fs) (fstat : Node) :
      Prog.Completes
          (Prog.andThen (sys ClientError.os (Fs.setOwner true fstat.uid fstat.gid dstDir)) fun _ =>
            sys ClientError.os (Fs.setMode fstat.mode dstDir)) middle ↔
        middle.pathExists dstDir = true := by
    rw [Prog.completes_andThen_unit_iff, Fs.completes_sys_iff, Fs.setOwner_isSome_iff]
    refine and_iff_left_of_imp fun there next ends => ?_
    rw [Fs.completes_sys_iff, Fs.setMode_isSome_iff]
    exact (Fs.grown_of_setOwner ((Fs.ends_sys_iff _ _ _ _).mp ends)).pathExists there
  unfold createDstDir
  rw [Prog.bind_eq, Prog.completes_andThen_unit_iff, makedirs, Fs.completes_makedirsPieces_iff]
  refine and_congr_right fun _ => forall_congr' fun middle => imp_congr_right fun _ => ?_
  simp only [Prog.bind_eq, Prog.completes_tryReads_andThen_iff, attributes]
  cases found : middle.stat srcDir with
  | none => simp [Fs.pathExists, found]
  | some node => simp [Fs.pathExists, found]

theorem completes_ensureDstDir_iff (srcDir dstDir : Str) (fs : Fs) :
    Prog.Completes (ensureDstDir env options srcDir dstDir) fs ↔
      EnsureDstDirReady env options srcDir dstDir fs := by
  unfold ensureDstDir EnsureDstDirReady
  rw [Prog.bind_eq, Prog.completes_reads_andThen_iff]
  cases fs.pathExists dstDir with
  | true => simp
  | false => simp [completes_unlessDryRun_iff, completes_createDstDir_iff]

theorem completes_moveSymdir_iff (srcSymdir dstSymdir : Str) (fs : Fs) :
    Prog.Completes (moveSymdir options srcSymdir dstSymdir) fs ↔
      MoveSymdirReady options srcSymdir dstSymdir fs := by
  unfold moveSymdir MoveSymdirReady
  simp only [Prog.bind_eq, Prog.completes_reads_andThen_iff]
  rw [← Fs.move_isSome_iff, ← Fs.completes_sys_iff ClientError.os]
  cases fs.islink srcSymdir with
  | false => simp
  | true =>
      by_cases free : fs.islink dstSymdir = true ∨ fs.pathExists dstSymdir = false
      · have flag : (fs.islink dstSymdir || !fs.pathExists dstSymdir) = true := by simpa using free
        simp [flag, free, completes_unlessDryRun_iff]
      · have flag : (fs.islink dstSymdir || !fs.pathExists dstSymdir) = false := by simpa using free
        simp [flag, free]

theorem completes_replacePlaceholdersWithValues_iff (srcFile outFile : Str) (fs : Fs) :
    Prog.Completes
        (TemplateFile.replacePlaceholdersWithValues env.vars env.umask srcFile outFile) fs ↔
      ∃ bytes, fs.readFile srcFile = some bytes ∧ (Utf8.decode bytes).isSome = true ∧
        Fs.TakesContent outFile fs := by
  unfold TemplateFile.replacePlaceholdersWithValues
  rw [Prog.bind_eq, Prog.completes_tryReads_andThen_iff]
  cases read : fs.readFile srcFile with
  | none => simp
  | some bytes =>
      simp only [Except.ok.injEq, exists_eq_left', Option.some.injEq]
      rw [Prog.bind_eq, Prog.completes_andThen_unit_iff, Fs.completes_sys_iff,
        Fs.openTruncating_isSome_iff, and_comm]
      refine and_congr_left fun takes => ?_
      have opens := (Fs.openTruncating_isSome_iff (masked env.umask 0o666) outFile fs).mpr takes
      obtain ⟨opened, opens⟩ := Option.isSome_iff_exists.mp opens
      cases Utf8.decode bytes with
      | none => simpa using ⟨opened, (Fs.ends_sys_iff _ _ _ _).mpr opens⟩
      | some text =>
          refine iff_of_true ?_ rfl
          intro middle ends
          rw [Fs.completes_sys_iff, Fs.setContent_isSome_iff]
          exact Fs.isfile_of_openTruncating ((Fs.ends_sys_iff _ _ _ _).mp ends)

/-- What the replacement writes leaves every node in place. -/
theorem grown_of_replacePlaceholders {srcFile outFile : Str} {fs next : Fs}
    (ends : Prog.Ends
      (TemplateFile.replacePlaceholdersWithValues env.vars env.umask srcFile outFile) fs () next) :
    Fs.Grown fs next := by
  obtain ⟨bytes, _, read, ends⟩ := (Prog.ends_andThen_iff _ _ _ _ _).mp ends
  obtain ⟨_, rfl⟩ := (Prog.ends_tryReads_iff _ _ _ _).mp read
  obtain ⟨_, middle, opened, ends⟩ := (Prog.ends_andThen_iff _ _ _ _ _).mp ends
  have first := Fs.grown_of_openTruncating ((Fs.ends_sys_iff _ _ _ _).mp opened)
  cases decoded : Utf8.decode bytes with
  | none => simp [decoded] at ends
  | some text =>
      simp only [decoded] at ends
      exact first.trans (Fs.grown_of_setContent ((Fs.ends_sys_iff _ _ _ _).mp ends))

theorem completes_moveAndReplaceTemplate_iff (srcFile dstFile : Str) (fs : Fs) :
    Prog.Completes (moveAndReplaceTemplate env options srcFile dstFile) fs ↔
      MoveAndReplaceTemplateReady options srcFile dstFile fs := by
  unfold moveAndReplaceTemplate MoveAndReplaceTemplateReady
  rw [completes_unlessDryRun_iff]
  refine imp_congr_right fun _ => ?_
  split
  · rw [← @completes_replacePlaceholdersWithValues_iff env, Prog.bind_eq,
      Prog.completes_andThen_unit_iff]
    refine and_iff_left_of_imp fun completes middle ends => ?_
    obtain ⟨bytes, read, _⟩ := (completes_replacePlaceholdersWithValues_iff _ _ fs).mp completes
    rw [Fs.completes_sys_iff, Fs.remove_isSome_iff]
    exact (grown_of_replacePlaceholders ends).holdsFile
      (Fs.holdsFile_of_isfile (isfile_of_readFile read))
  · rw [Fs.completes_sys_iff, Fs.move_isSome_iff]

/-- A turn of a loop over entries is the move of the entry, then the progress bar. -/
theorem completes_entry_iff (move : Prog Fs ClientError Unit) (total count : Nat) (fs : Fs) :
    Prog.Completes
        (Prog.andThen move fun _ => Prog.andThen (barUpdate total count) fun _ =>
          Prog.ret (count + 1)) fs ↔
      Prog.Completes move fs ∧ count + 1 ≤ total := by
  apply Prog.completes_andThen_of_const
  intro middle
  rw [Prog.completes_andThen_unit_iff, completes_barUpdate_iff]
  simp

theorem completes_moveDirContent_iff (src : Str) (total count : Nat) (srcDir : Str)
    (dirs files : List Str) (fs : Fs) :
    Prog.Completes (moveDirContent env options src total count srcDir dirs files) fs ↔
      MoveDirReady env options src total count srcDir dirs files fs := by
  have dirEntry (dstDir : Str) (count : Nat) (name : Str) (middle : Fs) :
      Prog.Completes (moveDirEntry options total srcDir dstDir count name) middle ↔
        MoveSymdirReady options (Str.joinPath srcDir name) (Str.joinPath dstDir name) middle ∧
          count + 1 ≤ total := by
    rw [← completes_moveSymdir_iff]
    exact completes_entry_iff _ total count middle
  have fileEntry (dstDir : Str) (count : Nat) (name : Str) (middle : Fs) :
      Prog.Completes (moveFileEntry env options total srcDir dstDir count name) middle ↔
        MoveAndReplaceTemplateReady options (Str.joinPath srcDir name) (Str.joinPath dstDir name)
            middle ∧
          count + 1 ≤ total := by
    rw [← @completes_moveAndReplaceTemplate_iff env]
    exact completes_entry_iff _ total count middle
  unfold moveDirContent MoveDirReady
  simp only [Prog.bind_eq, Prog.completes_reads_andThen_iff]
  rw [Prog.completes_andThen_unit_iff, completes_ensureDstDir_iff]
  refine and_congr_right fun _ => forall_congr' fun middle => imp_congr_right fun _ => ?_
  rw [Prog.completes_andThen_iff, Prog.completes_foldOver_iff (dirEntry _)]
  simp only [Prog.completes_foldOver_iff (fileEntry _)]

theorem completes_removeEmptyDirs (src : Str) (fs : Fs) :
    Prog.Completes (removeEmptyDirs options src) fs := by
  unfold removeEmptyDirs
  rw [completes_unlessDryRun_iff]
  intro _
  apply Fs.completes_osWalkUp
  intro top start
  rw [Prog.completes_handle_iff]
  simp

theorem completes_movetree_iff (src : Str) (fs : Fs) :
    Prog.Completes (movetree env options src) fs ↔
      ∀ total middle, Prog.Ends (countEntries src) fs total middle →
        Fs.WalkReady (moveDirContent env options src total) (MoveDirReady env options src total)
          pathMax 0 src middle := by
  have counts : Prog.Completes (countEntries src) fs :=
    Fs.completes_osWalk _ (fun _ _ _ _ _ => Prog.completes_ret _ _) _ _ _ fs
  unfold movetree
  rw [Prog.bind_eq, Prog.completes_andThen_iff, and_iff_right counts]
  refine forall_congr' fun total => forall_congr' fun middle => imp_congr_right fun _ => ?_
  rw [← Fs.completes_osWalk_iff _ _ (completes_moveDirContent_iff src total), Prog.bind_eq,
    Prog.completes_andThen_iff]
  exact and_iff_left fun _ behind _ => completes_removeEmptyDirs src behind

/-! ## Changed files -/

theorem completes_applyPatchForFile_iff (path patchPath : Str) (fs : Fs) :
    Prog.Completes (applyPatchForFile env options path patchPath) fs ↔
      PatchReady env options path patchPath fs := by
  unfold applyPatchForFile PatchReady
  rw [completes_unlessDryRun_iff]
  refine imp_congr_right fun _ => ?_
  simp only [Prog.bind_eq, Prog.completes_tryReads_andThen_iff, ← exists_and_left]
  refine exists_congr fun patchText => exists_congr fun textToPatch =>
    and_congr_right fun _ => and_congr_right fun read => ?_
  cases env.applyPatch patchText textToPatch with
  | none => simp
  | some patchedText =>
      refine iff_of_true ?_ rfl
      rw [Prog.completes_andThen_unit_iff, Fs.completes_sys_iff, Fs.overwrite_isSome_iff]
      refine ⟨isfile_of_readText read, fun middle ends => ?_⟩
      rw [Fs.completes_sys_iff, Fs.setContent_isSome_iff]
      exact Fs.isfile_of_overwrite ((Fs.ends_sys_iff _ _ _ _).mp ends)

/-- A patched file system is the old one with other bytes in one file. -/
theorem grown_of_applyPatchForFile {path patchPath : Str} {fs next : Fs}
    (ends : Prog.Ends (applyPatchForFile env options path patchPath) fs () next) :
    Fs.Grown fs next := by
  unfold applyPatchForFile unlessDryRun at ends
  split at ends
  · obtain ⟨_, rfl⟩ := (Prog.ends_ret_iff _ _ _ _).mp ends
    exact Fs.Grown.refl fs
  · obtain ⟨patchText, _, read, ends⟩ := (Prog.ends_andThen_iff _ _ _ _ _).mp ends
    obtain ⟨_, rfl⟩ := (Prog.ends_tryReads_iff _ _ _ _).mp read
    obtain ⟨textToPatch, _, readOld, ends⟩ := (Prog.ends_andThen_iff _ _ _ _ _).mp ends
    obtain ⟨_, rfl⟩ := (Prog.ends_tryReads_iff _ _ _ _).mp readOld
    cases patched : env.applyPatch patchText textToPatch with
    | none => simp [patched] at ends
    | some patchedText =>
        simp only [patched] at ends
        obtain ⟨_, middle, written, ends⟩ := (Prog.ends_andThen_iff _ _ _ _ _).mp ends
        have first := Fs.grown_of_overwrite ((Fs.ends_sys_iff _ _ _ _).mp written)
        exact first.trans (Fs.grown_of_setContent ((Fs.ends_sys_iff _ _ _ _).mp ends))

theorem completes_applyChangedFile_iff (dir path : Str) (fs : Fs) :
    Prog.Completes (applyChangedFile env options dir path) fs ↔
      ChangedFileReady env options dir path fs := by
  unfold applyChangedFile moveChangedFile ChangedFileReady
  dsimp only
  rw [Prog.bind_eq, Prog.completes_reads_andThen_iff]
  split
  · rename_i patched
    rw [Prog.bind_eq, Prog.completes_andThen_unit_iff, completes_applyPatchForFile_iff]
    refine and_iff_left_of_imp fun _ middle ends => ?_
    rw [Fs.completes_sys_iff, Fs.remove_isSome_iff]
    exact (grown_of_applyPatchForFile ends).holdsFile (Fs.holdsFile_of_isfile patched)
  · rw [Prog.bind_eq, Prog.completes_reads_andThen_iff]
    split
    · rename_i regular
      rw [completes_unlessDryRun_iff, Fs.completes_sys_iff, Fs.move_isSome_iff,
        Fs.movable_over_isfile regular]
      simp [regular]
    · rename_i missing
      simp [missing]

theorem completes_changeContent_iff (dir : Str) (values : List Str) (fs : Fs) :
    Prog.Completes (changeContent env options dir values) fs ↔
      ContentReady env options dir values fs := by
  unfold changeContent ContentReady
  dsimp only
  split
  · rename_i content
    rw [completes_applyChangedFile_iff]
    simp only [content.1, content.2, forall_const]
  · rename_i noContent
    refine iff_of_true (Prog.completes_ret _ _) fun regular mark => ?_
    exact absurd ⟨regular, mark⟩ noContent

theorem completes_changeFilePermissions_iff (newPerm oldPerm path : Str) (fs : Fs) :
    Prog.Completes (changeFilePermissions options newPerm oldPerm path) fs ↔
      PermissionsReady options newPerm oldPerm path fs := by
  unfold changeFilePermissions PermissionsReady
  split
  · rename_i changed
    cases Str.parseOctal newPerm with
    | none => simp [changed]
    | some mode =>
        simp only [completes_unlessDryRun_iff, Fs.completes_sys_iff, ne_eq, changed,
          not_false_eq_true, Option.some.injEq, exists_eq_left', forall_const]
        refine imp_congr_right fun _ => ?_
        unfold Fs.chmod
        split
        · rename_i range
          rw [Fs.setMode_isSome_iff, and_iff_right range.1, and_iff_right range.2]
        · rename_i outside
          refine iff_of_false (by simp) fun inside => ?_
          exact outside ⟨inside.1, inside.2.1⟩
  · rename_i unchanged
    simp [unchanged]

theorem completes_changeFileUidGid (newUid oldUid newGid oldGid path : Str) (fs : Fs) :
    Prog.Completes (changeFileUidGid options newUid oldUid newGid oldGid path) fs := by
  unfold changeFileUidGid
  split
  · rw [completes_unlessDryRun_iff]
    intro _
    rw [Prog.completes_handle_iff]
    simp
  · simp

theorem completes_changeAttributes_iff (values : List Str) (fs : Fs) :
    Prog.Completes (changeAttributes options values) fs ↔ AttributesReady options values fs := by
  unfold changeAttributes AttributesReady
  dsimp only
  rw [Prog.bind_eq, Prog.completes_tryReads_andThen_iff, ← exists_and_right]
  refine exists_congr fun perm => ?_
  rw [and_assoc]
  refine and_congr_right fun _ => ?_
  rw [Prog.bind_eq, ← completes_changeFilePermissions_iff]
  apply Prog.completes_andThen_of_const
  intro middle
  simp only [Prog.bind_eq, Prog.completes_tryReads_andThen_iff, completes_changeFileUidGid,
    and_true, exists_and_right]

/-! ## Lines, reports and phases -/

theorem completes_changedFilesPerLineFun_iff (dir : Str) (counts : ReportCounts) (calls : Nat)
    (values : List Str) (fs : Fs) :
    Prog.Completes (changedFilesPerLineFun env options dir counts calls values) fs ↔
      ChangedLineReady env options dir counts calls values fs := by
  unfold changedFilesPerLineFun ChangedLineReady
  rw [Prog.bind_eq, Prog.completes_andThen_unit_iff, completes_changeContent_iff]
  refine and_congr_right fun _ => forall_congr' fun middle => imp_congr_right fun _ => ?_
  rw [Prog.bind_eq, Prog.completes_andThen_of_const (completes_barUpdate_iff _ _),
    completes_changeAttributes_iff]

theorem completes_removedFilesPerLineFun_iff (counts : ReportCounts) (calls : Nat)
    (values : List Str) (fs : Fs) :
    Prog.Completes (removedFilesPerLineFun options counts calls values) fs ↔
      RemovedLineReady options counts calls values fs := by
  unfold removedFilesPerLineFun RemovedLineReady
  rw [Prog.bind_eq, Prog.completes_andThen_of_const (completes_barUpdate_iff _ _),
    completes_unlessDryRun_iff, Fs.completes_sys_iff, Fs.remove_isSome_iff]

theorem completes_forEachReportLine_iff {callback : Nat → List Str → Prog Fs ClientError Unit}
    {lineReady : Nat → List Str → Fs → Prop}
    (completesLine : ∀ calls values fs,
      Prog.Completes (callback calls values) fs ↔ lineReady calls values fs)
    (dir imgName fname : Str) (n : Nat) (fs : Fs) :
    Prog.Completes (forEachReportLine env dir imgName fname n callback) fs ↔
      ReportReady env dir imgName fname n callback lineReady fs := by
  unfold forEachReportLine ReportReady
  dsimp only
  rw [Prog.bind_eq, Prog.completes_tryReads_andThen_iff]
  cases read : fs.readFile (Str.joinPath dir fname) with
  | none => simp
  | some bytes =>
      simp only [Except.ok.injEq, exists_eq_left', Option.some.injEq]
      rw [Prog.bind_eq, runFunForEachReportLine, reportLoop_eq, Prog.andThen_assoc]
      generalize readReport env.host n ⟨Str.joinPath dir fname, imgName⟩ 0 0 (textLines bytes) =
        report
      have ending (middle : Fs) :
          Prog.Completes
              (Prog.andThen (Prog.tryReads fun _ => report.2) fun _ => (pure () : Prog _ _ _))
              middle ↔
            ∃ totals, report.2 = .ok totals := by
        simp
      rw [Prog.completes_andThen_of_const ending,
        Prog.completes_forEach_iff fun call start => completesLine call.2 call.1 start]

/-- A report is followed to its end where the loop over its value lists is, and it reads. -/
theorem ends_forEachReportLine_iff {callback : Nat → List Str → Prog Fs ClientError Unit}
    {dir imgName fname : Str} {n : Nat} {fs finish : Fs} :
    Prog.Ends (forEachReportLine env dir imgName fname n callback) fs () finish ↔
      ∃ bytes, fs.readFile (Str.joinPath dir fname) = some bytes ∧
        Prog.Ends (Prog.forEach (fun call => callback call.2 call.1)
          (readReport env.host n ⟨Str.joinPath dir fname, imgName⟩ 0 0 (textLines bytes)).1.zipIdx)
          fs () finish ∧
        (readReport env.host n ⟨Str.joinPath dir fname, imgName⟩ 0 0
          (textLines bytes)).2.isOk = true := by
  unfold forEachReportLine
  dsimp only
  rw [Prog.bind_eq, Prog.ends_andThen_iff]
  constructor
  · rintro ⟨bytes, _, read, ends⟩
    obtain ⟨found, rfl⟩ := (Prog.ends_tryReads_iff _ _ _ _).mp read
    obtain ⟨totals, middle, loop, ended⟩ := (Prog.ends_andThen_iff _ _ _ _ _).mp ends
    obtain ⟨_, rfl⟩ := (Prog.ends_ret_iff _ _ _ _).mp ended
    rw [runFunForEachReportLine, reportLoop_eq] at loop
    obtain ⟨_, _, calls, report⟩ := (Prog.ends_andThen_iff _ _ _ _ _).mp loop
    obtain ⟨whole, rfl⟩ := (Prog.ends_tryReads_iff _ _ _ _).mp report
    cases here : fs.readFile (Str.joinPath dir fname) with
    | none =>
        rw [here] at found
        cases found
    | some content =>
        rw [here] at found
        obtain rfl := Except.ok.inj found
        exact ⟨content, rfl, calls, by rw [whole]; rfl⟩
  · rintro ⟨bytes, found, calls, whole⟩
    refine ⟨bytes, fs, (Prog.ends_tryReads_iff _ _ _ _).mpr ⟨by rw [found], rfl⟩, ?_⟩
    cases ending : (readReport env.host n ⟨Str.joinPath dir fname, imgName⟩ 0 0
        (textLines bytes)).2 with
    | error failure =>
        rw [ending] at whole
        cases whole
    | ok totals =>
        refine (Prog.ends_andThen_iff _ _ _ _ _).mpr ⟨totals, finish, ?_, by simp⟩
        rw [runFunForEachReportLine, reportLoop_eq, Prog.ends_andThen_iff]
        exact ⟨(), finish, calls, (Prog.ends_tryReads_iff _ _ _ _).mpr ⟨ending, rfl⟩⟩

theorem completes_applyAddedFiles_iff (dir imgName : Str) (counts : ReportCounts) (fs : Fs) :
    Prog.Completes (applyAddedFiles env options dir imgName counts) fs ↔
      AddedReady env options dir imgName counts fs := by
  unfold applyAddedFiles AddedReady
  rw [Prog.bind_eq, Prog.completes_andThen_unit_iff, completes_movetree_iff]
  simp only [completes_forEachReportLine_iff fun calls _ => completes_barUpdate_iff _ calls]

theorem completes_applyChangedFiles_iff (dir imgName : Str) (counts : ReportCounts) (fs : Fs) :
    Prog.Completes (applyChangedFiles env options dir imgName counts) fs ↔
      ReportReady env dir imgName SystemImageGenerator.changedFilesFname propertiesCount
        (changedFilesPerLineFun env options dir counts)
        (ChangedLineReady env options dir counts) fs := by
  unfold applyChangedFiles
  rw [Prog.bind_eq, Prog.completes_andThen_unit_iff,
    completes_forEachReportLine_iff (completes_changedFilesPerLineFun_iff dir counts)]
  exact and_iff_left fun middle _ => completes_removeEmptyDirs _ middle

theorem completes_applyPhases_iff (dir imgName : Str) (counts : ReportCounts) (fs : Fs) :
    Prog.Completes (applyPhases env options dir imgName counts) fs ↔
      PhasesReady env options dir imgName counts fs := by
  unfold applyPhases PhasesReady
  rw [Prog.bind_eq, Prog.completes_andThen_unit_iff, completes_applyAddedFiles_iff]
  refine and_congr_right fun _ => forall_congr' fun behindAdded => imp_congr_right fun _ => ?_
  rw [Prog.bind_eq, Prog.completes_andThen_unit_iff, completes_applyChangedFiles_iff]
  refine and_congr_right fun _ => forall_congr' fun behindChanged => imp_congr_right fun _ => ?_
  exact completes_forEachReportLine_iff (completes_removedFilesPerLineFun_iff counts) _ _ _ _ _

/-! ## Is validation sufficient? -/

/-- An image that validation accepts without `--force` is applied to its end, once
it is extracted. -/
def ValidationSuffices (env : ClientEnv) (options : ClientOptions) (imgName : Str)
    (archive : Archive) (s : Fs) : Prop :=
  options.forceApply = false → ∀ counts dir extracted,
    Prog.Ends (SysImgValidator.assertSysImgValid options.forceApply imgName env.toValidatorEnv
      archive) s counts s →
    Prog.Ends (extractSysImg env options imgName archive) s dir extracted →
      Prog.Completes (applyPhases env options dir imgName counts) extracted

/-- A client with an empty directory `/d`. -/
def directoryClient : Fs :=
  Fs.ofNodes [(["d".toList], ⟨.directory, 0o755, 0, 0, 2⟩)]

/-- The image removes `/d`. -/
def directoryRemoval : Archive :=
  [⟨SystemImageGenerator.addedFilesFname, .reg [], 0o644, 0, 0⟩,
    ⟨SystemImageGenerator.removedFilesFname, .reg (Utf8.encode "/d\x00?\n".toList), 0o644, 0, 0⟩,
    ⟨SystemImageGenerator.changedFilesFname, .reg [], 0o644, 0, 0⟩]

def directoryEnv : ClientEnv where
  host := ⟨[], [], [], id⟩
  md5 _ := []
  sha1 _ := []
  openTar _ := some directoryRemoval
  applyPatch _ text := some text
  vars := ⟨[], [], [], [], [], fun _ => none, id⟩
  umask := 0o22

def directoryOptions : ClientOptions where
  forceApply := false
  dryRun := false
  sysImgExtractDir := "/e".toList
  sysImgDownloadDir := "/i".toList
  sslCertPublicKeyPath := "/k".toList
  recentSysImgVerPath := "/v".toList
  applyImg := 1

/-- The state behind the extraction of the image. -/
def directoryExtracted : Fs :=
  (extractSysImg directoryEnv directoryOptions "/i/new.tar.gz".toList directoryRemoval
    directoryClient).final directoryClient

end SysImgExtractor

end Myscm.Client
