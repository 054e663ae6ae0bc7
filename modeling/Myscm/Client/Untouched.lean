import Myscm.Client.DryRun
import Myscm.Library.EmptyDirs

/-!
Owns the question which paths an application changes beside those its image lists.

Owns: the paths an application may change; what each step of the phases needs so that it
changes no other; that a run whose steps all find it changes no other.

Does not own: what stands at the changed paths behind the run; the recording of the version.
-/

namespace Myscm.Client

open Myscm.Library Myscm.Library.Fs Myscm.Server

namespace SysImgExtractor

section Property

variable (env : ClientEnv) (options : ClientOptions) (imgName : Str) (archive : Archive) (s : Fs)

/-- A line of a report of the image is for the path. -/
def ListedIn (fname : Str) (n : Nat) (path : Path) : Prop :=
  ∃ bytes, archive.extractfile fname = some bytes ∧
    ∃ values ∈ (readReport env.host n ⟨fname, imgName⟩ 0 0 (binaryLines bytes)).1,
      values.getD 0 [] = Path.text path

/-- The image has a template for the path. -/
def TemplateTarget (path : Path) : Prop :=
  ∃ info ∈ archive, info.name = SystemImageGenerator.inArchiveAddedDirName ++ Path.text path ++
    SystemImageGenerator.templatePathExt

/-- The paths an application may change: those where nothing was, those that the image lists
as changed or removed, the targets of its templates, and the directory it is extracted to. -/
def MayChange (path : Path) : Prop :=
  s.node path = none ∨
    ListedIn env imgName archive SystemImageGenerator.changedFilesFname propertiesCount path ∨
    ListedIn env imgName archive SystemImageGenerator.removedFilesFname 2 path ∨
    TemplateTarget archive path ∨
    ∃ root, s.locate true (extractDir options imgName) = some root ∧ root <+: path

/-- All other paths are as they were. -/
def Untouched (state : Fs) : Prop :=
  SameBut (MayChange env options imgName archive s) s state

end Property

section Conditions

variable (env : ClientEnv) (options : ClientOptions) (allowed : Path → Prop)

/-! ## What one step needs -/

/-- A directory that is made for a missing one stands at an allowed place. -/
def EnsureDstDirWithin (dstDir : Str) (fs : Fs) : Prop :=
  fs.pathExists dstDir = false → ∀ middle,
    Prog.Ends (makedirs ClientError.os (masked env.umask 0o777) true dstDir) fs () middle →
      LeadsTo allowed true dstDir middle

/-- A link to a directory is moved between allowed places, if it is. -/
def MoveSymdirWithin (srcSymdir dstSymdir : Str) (fs : Fs) : Prop :=
  fs.islink srcSymdir = true → (fs.islink dstSymdir = true ∨ fs.pathExists dstSymdir = false) →
    MovesWithin allowed srcSymdir dstSymdir fs

/-- The output of a template and the template are allowed places, and so are both ends of the
move of any other file. -/
def MoveAndReplaceTemplateWithin (srcFile dstFile : Str) (fs : Fs) : Prop :=
  if Str.endsWith srcFile SystemImageGenerator.templatePathExt = true then
    LeadsTo allowed true
        (dstFile.take (dstFile.length - SystemImageGenerator.templatePathExt.length)) fs ∧
      ∀ middle,
        Prog.Ends (TemplateFile.replacePlaceholdersWithValues env.vars env.umask srcFile
          (dstFile.take (dstFile.length - SystemImageGenerator.templatePathExt.length))) fs ()
            middle →
          LeadsTo allowed false srcFile middle
  else
    MovesWithin allowed srcFile dstFile fs

/-- The extraction directory is found without passing it, it holds a file, and the tree in it
whose empty directories are removed is no link. -/
structure EmptyDirsWithin (root : Path) (dir treeName : Str) (fs : Fs) : Prop where
  inside : ∀ path, root <+: path → allowed path
  lead : Leads fs dir root
  file : ∃ file, (fs.node (root ++ [file])).isSome = true ∧ fs.isDirAt (root ++ [file]) = false
  clear : Clear fs root [treeName]

/-- A patch and the file it is for are allowed places; without a patch, a regular file is
replaced by a move between such. -/
def ChangedFileWithin (dir path : Str) (fs : Fs) : Prop :=
  if fs.isfile (diffPathOf dir path) = true then
    LeadsTo allowed true path fs ∧ LeadsTo allowed false (diffPathOf dir path) fs
  else
    fs.isfile path = true → MovesWithin allowed (origPathOf dir path) path fs

/-- The content of an entry whose content is changed is at an allowed place. -/
def ContentWithin (dir : Str) (values : List Str) (fs : Fs) : Prop :=
  values.getD 4 [] = [FileType.regularFile.value] →
    (values.getD 5 [] = ['>'] ∨ values.getD 5 [] = ['<']) →
      ChangedFileWithin allowed dir (values.getD 0 []) fs

/-- Where a mode is set, a link is followed; where owner and group are set, none is. -/
def AttributesWithin (values : List Str) (fs : Fs) : Prop :=
  let path := values.getD 0 []
  ∀ perm, getNewOldPropertyFromString (values.getD 8 []) path = .ok perm →
    (perm.2 ≠ ['.'] → LeadsTo allowed true path fs) ∧
      ∀ middle, Prog.Ends (changeFilePermissions options perm.1 perm.2 path) fs () middle →
        ∀ uid gid, getNewOldPropertyFromString (values.getD 9 []) path = .ok uid →
          getNewOldPropertyFromString (values.getD 10 []) path = .ok gid →
            (ownerArg uid.1 uid.2).isSome = true → (ownerArg gid.1 gid.2).isSome = true →
              LeadsTo allowed false path middle

/-! ## What a report line needs -/

/-- A changed entry: first its content, then its attributes. -/
def ChangedLineWithin (dir : Str) (values : List Str) (fs : Fs) : Prop :=
  ContentWithin allowed dir values fs ∧
    ∀ middle, Prog.Ends (changeContent env options dir values) fs () middle →
      AttributesWithin options allowed values middle

/-- Each line of a report, in the state that the lines before it leave. -/
def ReportWithin (dir imgName fname : Str) (n : Nat)
    (callback : Nat → List Str → Prog Fs ClientError Unit) (lineWithin : List Str → Fs → Prop)
    (fs : Fs) : Prop :=
  ∀ bytes, fs.readFile (Str.joinPath dir fname) = some bytes →
    Prog.EachReady (fun call => callback call.2 call.1) (fun call => lineWithin call.1)
      ((readReport env.host n ⟨Str.joinPath dir fname, imgName⟩ 0 0 (textLines bytes)).1.zipIdx) fs

/-! ## What a phase needs -/

/-- The directories and files of one directory of the source tree. -/
def MoveDirWithin (src : Str) (total count : Nat) (srcDir : Str) (dirs files : List Str)
    (fs : Fs) : Prop :=
  let dstDir := dstDirOf src srcDir fs
  EnsureDstDirWithin env allowed dstDir fs ∧
    ∀ behindCreate, Prog.Ends (ensureDstDir env options srcDir dstDir) fs () behindCreate →
      Prog.FoldReady (moveDirEntry options total srcDir dstDir)
        (fun _ name middle =>
          MoveSymdirWithin allowed (Str.joinPath srcDir name) (Str.joinPath dstDir name) middle)
        count dirs behindCreate ∧
      ∀ next behindDirs,
        Prog.Ends (Prog.foldOver (moveDirEntry options total srcDir dstDir) count dirs) behindCreate
            next behindDirs →
          Prog.FoldReady (moveFileEntry env options total srcDir dstDir)
            (fun _ name middle =>
              MoveAndReplaceTemplateWithin env allowed (Str.joinPath srcDir name)
                (Str.joinPath dstDir name) middle)
            next files behindDirs

/-- The walk over the added tree. -/
def MovetreeWithin (dir : Str) (fs : Fs) : Prop :=
  let src := Str.joinPath dir SystemImageGenerator.inArchiveAddedDirName
  ∀ total middle, Prog.Ends (countEntries src) fs total middle →
    Fs.WalkReady (moveDirContent env options src total)
      (MoveDirWithin env options allowed src total) pathMax 0 src middle

/-- The removal of the empty directories behind that walk. -/
def ClearingWithin (root : Path) (dir : Str) (fs : Fs) : Prop :=
  let src := Str.joinPath dir SystemImageGenerator.inArchiveAddedDirName
  ∀ total middle count behindWalk, Prog.Ends (countEntries src) fs total middle →
    Prog.Ends (osWalk (moveDirContent env options src total) pathMax 0 src) middle count
        behindWalk →
      EmptyDirsWithin allowed root dir SystemImageGenerator.inArchiveAddedDirName behindWalk

/-- The three phases, each in the state the one before leaves. -/
def PhasesWithin (root : Path) (dir imgName : Str) (counts : ReportCounts) (fs : Fs) : Prop :=
  MovetreeWithin env options allowed dir fs ∧ ClearingWithin env options allowed root dir fs ∧
    ∀ behindAdded, Prog.Ends (applyAddedFiles env options dir imgName counts) fs () behindAdded →
      ReportWithin env dir imgName SystemImageGenerator.changedFilesFname propertiesCount
          (changedFilesPerLineFun env options dir counts)
          (ChangedLineWithin env options allowed dir) behindAdded ∧
        (∀ behindLines,
          Prog.Ends (forEachReportLine env dir imgName SystemImageGenerator.changedFilesFname
            propertiesCount (changedFilesPerLineFun env options dir counts)) behindAdded ()
              behindLines →
            EmptyDirsWithin allowed root dir SystemImageGenerator.inArchiveChangedDirName
              behindLines) ∧
        ∀ behindChanged,
          Prog.Ends (applyChangedFiles env options dir imgName counts) behindAdded ()
              behindChanged →
            ReportWithin env dir imgName SystemImageGenerator.removedFilesFname 2
              (removedFilesPerLineFun options counts)
              (fun values fs => LeadsTo allowed false (values.getD 0 []) fs) behindChanged

/-- The image stays below its directory when it is extracted, and each step of the phases
behind it is at a place that may change. -/
def StepsWithin (imgName : Str) (archive : Archive) (s : Fs) : Prop :=
  ∃ root, Site options s imgName archive root ∧
    ∀ counts extracted,
      Prog.Ends (SysImgValidator.assertSysImgValid options.forceApply imgName env.toValidatorEnv
        archive) s counts s →
      Prog.Ends (extractSysImg env options imgName archive) s (extractDir options imgName)
        extracted →
      PhasesWithin env options (MayChange env options imgName archive s) root
        (extractDir options imgName) imgName counts extracted

end Conditions

variable {env : ClientEnv} {options : ClientOptions} {allowed : Path → Prop} {start fs : Fs}

/-! ## Steps -/

theorem keeps_unlessDryRun {keep : Fs → Prop} {program : Prog Fs ClientError Unit}
    (keeps : Prog.Keeps keep program fs) : Prog.Keeps keep (unlessDryRun options program) fs := by
  unfold unlessDryRun
  split
  · exact (Prog.quiet_ret ()).keeps fs
  · exact keeps

section Steps

variable (same : SameBut allowed start fs)
include same

theorem keeps_move {src dst : Str} (within : MovesWithin allowed src dst fs) :
    Prog.Keeps (SameBut allowed start) (sys ClientError.os (Fs.move src dst)) fs :=
  Fs.keeps_sys fun _ moved => same.of_move within moved

theorem keeps_remove {path : Str} (leads : LeadsTo allowed false path fs) :
    Prog.Keeps (SameBut allowed start) (sys ClientError.os (Fs.remove path)) fs :=
  same.keeps_sys leads fun _ => touches_of_remove

theorem keeps_createDstDir (there : ∀ path, ¬ allowed path → (start.node path).isSome = true)
    {srcDir dstDir : Str}
    (made : ∀ middle,
      Prog.Ends (makedirs ClientError.os (masked env.umask 0o777) true dstDir) fs () middle →
        LeadsTo allowed true dstDir middle) :
    Prog.Keeps (SameBut allowed start) (createDstDir env srcDir dstDir) fs := by
  apply Prog.keeps_andThen same ((always_makedirs there _ _ _).keeps same)
  intro _ middle ends sameMiddle
  apply Prog.keeps_andThen sameMiddle ((Prog.quiet_tryReads _).keeps middle)
  intro fstat middle' read _
  obtain ⟨_, rfl⟩ := (Prog.ends_tryReads_iff _ _ _ _).mp read
  have leads := made middle ends
  apply Prog.keeps_andThen sameMiddle
  · exact sameMiddle.keeps_sys leads fun _ => touches_of_setOwner
  · intro _ owned ownerEnds sameOwned
    have shape := (Fs.grown_of_setOwner ((Fs.ends_sys_iff _ _ _ _).mp ownerEnds)).toSameShape
    exact sameOwned.keeps_sys (leads.congr shape) fun _ => touches_of_setMode

theorem keeps_ensureDstDir (there : ∀ path, ¬ allowed path → (start.node path).isSome = true)
    {srcDir dstDir : Str} (within : EnsureDstDirWithin env allowed dstDir fs) :
    Prog.Keeps (SameBut allowed start) (ensureDstDir env options srcDir dstDir) fs := by
  apply Prog.keeps_andThen same ((Prog.quiet_reads _).keeps fs)
  intro isThere middle read _
  obtain ⟨isRead, rfl⟩ := (Prog.ends_reads_iff _ _ _ _).mp read
  cases isThere with
  | true => exact (Prog.quiet_ret ()).keeps fs
  | false =>
      apply keeps_unlessDryRun
      exact keeps_createDstDir same there (within isRead)

theorem keeps_moveSymdir {srcSymdir dstSymdir : Str}
    (within : MoveSymdirWithin allowed srcSymdir dstSymdir fs) :
    Prog.Keeps (SameBut allowed start) (moveSymdir options srcSymdir dstSymdir) fs := by
  unfold moveSymdir
  simp only [Prog.bind_eq]
  rw [Prog.Keeps, Prog.reads_andThen, Prog.reads_andThen]
  split
  · rename_i free
    rw [Bool.and_eq_true, Bool.or_eq_true, Bool.not_eq_true'] at free
    exact keeps_unlessDryRun (keeps_move same (within free.1 free.2))
  · exact (Prog.quiet_ret ()).keeps fs

theorem keeps_replacePlaceholders {srcFile outFile : Str}
    (leads : LeadsTo allowed true outFile fs) :
    Prog.Keeps (SameBut allowed start)
      (TemplateFile.replacePlaceholdersWithValues env.vars env.umask srcFile outFile) fs := by
  apply Prog.keeps_andThen same ((Prog.quiet_tryReads _).keeps fs)
  intro bytes middle read _
  obtain ⟨_, rfl⟩ := (Prog.ends_tryReads_iff _ _ _ _).mp read
  apply Prog.keeps_andThen same
  · exact same.keeps_sys leads fun _ => touches_of_openTruncating
  intro _ opened openEnds sameOpened
  have shape := (Fs.grown_of_openTruncating ((Fs.ends_sys_iff _ _ _ _).mp openEnds)).toSameShape
  split
  · exact (Prog.quiet_raise _).keeps opened
  · exact sameOpened.keeps_sys (leads.congr shape) fun _ => touches_of_setContent

theorem keeps_moveAndReplaceTemplate {srcFile dstFile : Str}
    (within : MoveAndReplaceTemplateWithin env allowed srcFile dstFile fs) :
    Prog.Keeps (SameBut allowed start) (moveAndReplaceTemplate env options srcFile dstFile) fs := by
  unfold moveAndReplaceTemplate
  unfold MoveAndReplaceTemplateWithin at within
  apply keeps_unlessDryRun
  split
  · rename_i template
    rw [if_pos template] at within
    apply Prog.keeps_andThen same (keeps_replacePlaceholders same within.1)
    intro _ middle ends sameMiddle
    exact keeps_remove sameMiddle (within.2 middle ends)
  · rename_i other
    rw [if_neg other] at within
    exact keeps_move same within

theorem keeps_applyPatchForFile {path patchPath : Str} (leads : LeadsTo allowed true path fs) :
    Prog.Keeps (SameBut allowed start) (applyPatchForFile env options path patchPath) fs := by
  apply keeps_unlessDryRun
  apply Prog.keeps_andThen same ((Prog.quiet_tryReads _).keeps fs)
  intro patchText middle read _
  obtain ⟨_, rfl⟩ := (Prog.ends_tryReads_iff _ _ _ _).mp read
  apply Prog.keeps_andThen same ((Prog.quiet_tryReads _).keeps fs)
  intro textToPatch middle readOld _
  obtain ⟨_, rfl⟩ := (Prog.ends_tryReads_iff _ _ _ _).mp readOld
  split
  · exact (Prog.quiet_raise _).keeps fs
  · apply Prog.keeps_andThen same
    · exact same.keeps_sys leads fun _ => touches_of_overwrite
    · intro _ written ends sameWritten
      have shape := (Fs.grown_of_overwrite ((Fs.ends_sys_iff _ _ _ _).mp ends)).toSameShape
      exact sameWritten.keeps_sys (leads.congr shape) fun _ => touches_of_setContent

theorem keeps_applyChangedFile {dir path : Str} (within : ChangedFileWithin allowed dir path fs) :
    Prog.Keeps (SameBut allowed start) (applyChangedFile env options dir path) fs := by
  unfold ChangedFileWithin at within
  rw [Prog.Keeps, applyChangedFile_run]
  split
  · rename_i patched
    rw [if_pos patched] at within
    apply Prog.keeps_andThen same (keeps_applyPatchForFile same within.1)
    intro _ middle ends sameMiddle
    exact keeps_remove sameMiddle (within.2.congr (grown_of_applyPatchForFile ends).toSameShape)
  · rename_i noPatch
    rw [if_neg noPatch] at within
    rw [Prog.reads_andThen]
    split
    · rename_i regular
      exact keeps_unlessDryRun (keeps_move same (within regular))
    · exact (Prog.quiet_ret ()).keeps fs

theorem keeps_changeContent {dir : Str} {values : List Str}
    (within : ContentWithin allowed dir values fs) :
    Prog.Keeps (SameBut allowed start) (changeContent env options dir values) fs := by
  unfold changeContent
  dsimp only
  split
  · rename_i content
    exact keeps_applyChangedFile same (within content.1 content.2)
  · exact (Prog.quiet_ret ()).keeps fs

theorem keeps_changeFilePermissions {newPerm oldPerm path : Str}
    (leads : oldPerm ≠ ['.'] → LeadsTo allowed true path fs) :
    Prog.Keeps (SameBut allowed start) (changeFilePermissions options newPerm oldPerm path) fs := by
  unfold changeFilePermissions
  split
  · rename_i changed
    split
    · exact (Prog.quiet_raise _).keeps fs
    · apply keeps_unlessDryRun
      exact same.keeps_sys (leads changed) fun _ => touches_of_chmod
  · exact (Prog.quiet_ret ()).keeps fs

theorem keeps_changeFileUidGid {newUid oldUid newGid oldGid path : Str}
    (leads : (ownerArg newUid oldUid).isSome = true → (ownerArg newGid oldGid).isSome = true →
      LeadsTo allowed false path fs) :
    Prog.Keeps (SameBut allowed start)
      (changeFileUidGid options newUid oldUid newGid oldGid path) fs := by
  unfold changeFileUidGid
  split
  · rename_i uid gid isUid isGid
    have here := leads (by rw [isUid]; rfl) (by rw [isGid]; rfl)
    apply keeps_unlessDryRun
    apply Prog.keeps_handle same
    · exact same.keeps_sys here fun _ => touches_of_chown
    · exact fun _ => Prog.always_ret _ _
  · exact (Prog.quiet_ret ()).keeps fs

theorem keeps_changeAttributes {values : List Str}
    (within : AttributesWithin options allowed values fs) :
    Prog.Keeps (SameBut allowed start) (changeAttributes options values) fs := by
  apply Prog.keeps_andThen same ((Prog.quiet_tryReads _).keeps fs)
  intro perm middle permRead _
  obtain ⟨isPerm, rfl⟩ := (Prog.ends_tryReads_iff _ _ _ _).mp permRead
  obtain ⟨modeLeads, ownerLeads⟩ := within perm isPerm
  apply Prog.keeps_andThen same (keeps_changeFilePermissions same modeLeads)
  intro _ behind ends sameBehind
  apply Prog.keeps_andThen sameBehind ((Prog.quiet_tryReads _).keeps behind)
  intro uid middle uidRead _
  obtain ⟨isUid, rfl⟩ := (Prog.ends_tryReads_iff _ _ _ _).mp uidRead
  apply Prog.keeps_andThen sameBehind ((Prog.quiet_tryReads _).keeps behind)
  intro gid middle gidRead _
  obtain ⟨isGid, rfl⟩ := (Prog.ends_tryReads_iff _ _ _ _).mp gidRead
  exact keeps_changeFileUidGid sameBehind (ownerLeads behind ends uid gid isUid isGid)

theorem keeps_changedFilesPerLineFun {dir : Str} {values : List Str}
    (within : ChangedLineWithin env options allowed dir values fs) (counts : ReportCounts)
    (calls : Nat) :
    Prog.Keeps (SameBut allowed start)
      (changedFilesPerLineFun env options dir counts calls values) fs := by
  apply Prog.keeps_andThen same (keeps_changeContent same within.1)
  intro _ middle ends sameMiddle
  apply Prog.keeps_andThen sameMiddle (keeps_changeAttributes sameMiddle (within.2 middle ends))
  exact fun _ behind _ _ => (quiet_barUpdate _ _).keeps behind

theorem keeps_removedFilesPerLineFun {values : List Str}
    (leads : LeadsTo allowed false (values.getD 0 []) fs) (counts : ReportCounts) (calls : Nat) :
    Prog.Keeps (SameBut allowed start) (removedFilesPerLineFun options counts calls values) fs := by
  apply Prog.keeps_andThen same (keeps_unlessDryRun (keeps_remove same leads))
  exact fun _ behind _ _ => (quiet_barUpdate _ _).keeps behind

theorem keeps_removeEmptyDirs {root : Path} {dir treeName : Str} (isName : IsName treeName)
    (within : EmptyDirsWithin allowed root dir treeName fs) :
    Prog.Keeps (SameBut allowed start) (removeEmptyDirs options (Str.joinPath dir treeName)) fs := by
  obtain ⟨file, present, isFile⟩ := within.file
  have join : Str.joinPath dir treeName = textBelow dir [treeName] := by
    have none : textBelow dir [] = dir := by rw [textBelow, List.intercalate_nil, Str.behind_nil]
    have joined := @joinPath_textBelow dir [] treeName within.lead.isOpen within.lead.ne_nil
      (by simp) isName
    rwa [none] at joined
  have named : ∀ name ∈ [treeName], IsName name := by simpa using isName
  have erased : Prog.Keeps (DirsErased root fs)
      (osWalkUp (fun path => Prog.handle (removedirs ClientError.os path) fun _ => Prog.ret ())
        pathMax (textBelow dir [treeName])) fs :=
    keeps_osWalkUp_removedirs within.lead present isFile pathMax named (by simp) within.clear
      (DirsErased.refl root fs)
  rw [join]
  apply keeps_unlessDryRun
  intro state member path forbidden
  rw [← same path forbidden]
  exact (erased state member).outside.node path fun inside => forbidden (within.inside path inside)

end Steps

/-! ## Phases -/

section Phases

variable (same : SameBut allowed start fs)
include same

theorem keeps_forEachReportLine {dir imgName fname : Str} {n : Nat}
    {callback : Nat → List Str → Prog Fs ClientError Unit} {lineWithin : List Str → Fs → Prop}
    (keepsLine : ∀ calls values fs, SameBut allowed start fs → lineWithin values fs →
      Prog.Keeps (SameBut allowed start) (callback calls values) fs)
    (within : ReportWithin env dir imgName fname n callback lineWithin fs) :
    Prog.Keeps (SameBut allowed start) (forEachReportLine env dir imgName fname n callback) fs := by
  rw [Prog.Keeps, states_forEachReportLine]
  cases read : fs.readFile (Str.joinPath dir fname) with
  | none => exact fun state member => by cases member
  | some bytes =>
      apply Prog.keeps_forEach _ _ same (within bytes read)
      exact fun call here sameHere ready => keepsLine call.2 call.1 here sameHere ready

theorem keeps_moveDirContent (there : ∀ path, ¬ allowed path → (start.node path).isSome = true)
    {src srcDir : Str} {total count : Nat} {dirs files : List Str}
    (within : MoveDirWithin env options allowed src total count srcDir dirs files fs) :
    Prog.Keeps (SameBut allowed start)
      (moveDirContent env options src total count srcDir dirs files) fs := by
  -- Both loops move an entry, then the progress bar.
  have entry {move : Prog Fs ClientError Unit} {here : Fs} (sameHere : SameBut allowed start here)
      (keeps : Prog.Keeps (SameBut allowed start) move here) (count : Nat) :
      Prog.Keeps (SameBut allowed start)
        (Prog.andThen move fun _ => Prog.andThen (barUpdate total count) fun _ =>
          Prog.ret (count + 1)) here := by
    apply Prog.keeps_andThen sameHere keeps
    intro _ behind _ _
    exact (Prog.quiet_andThen (quiet_barUpdate _ _) fun _ => Prog.quiet_ret _).keeps behind
  obtain ⟨ensured, entries⟩ := within
  unfold moveDirContent
  rw [Prog.Keeps, Prog.bind_eq, Prog.reads_andThen]
  apply Prog.keeps_andThen same (keeps_ensureDstDir same there ensured)
  intro _ behindCreate created sameCreate
  obtain ⟨dirsReady, filesReady⟩ := entries behindCreate created
  apply Prog.keeps_andThen sameCreate
  · apply Prog.keeps_foldOver _ count dirs sameCreate dirsReady
    exact fun count name here sameHere ready =>
      entry sameHere (keeps_moveSymdir sameHere ready) count
  · intro next behindDirs ended sameDirs
    apply Prog.keeps_foldOver _ next files sameDirs (filesReady next behindDirs ended)
    exact fun count name here sameHere ready =>
      entry sameHere (keeps_moveAndReplaceTemplate sameHere ready) count

theorem keeps_movetree (there : ∀ path, ¬ allowed path → (start.node path).isSome = true)
    {dir : Str} (within : MovetreeWithin env options allowed dir fs)
    (clears : ∀ total middle count behindWalk,
      Prog.Ends (countEntries (Str.joinPath dir SystemImageGenerator.inArchiveAddedDirName)) fs total
          middle →
        Prog.Ends
          (osWalk (moveDirContent env options
            (Str.joinPath dir SystemImageGenerator.inArchiveAddedDirName) total) pathMax 0
            (Str.joinPath dir SystemImageGenerator.inArchiveAddedDirName)) middle count behindWalk →
          SameBut allowed start behindWalk →
            Prog.Keeps (SameBut allowed start)
              (removeEmptyDirs options (Str.joinPath dir SystemImageGenerator.inArchiveAddedDirName))
              behindWalk) :
    Prog.Keeps (SameBut allowed start)
      (movetree env options (Str.joinPath dir SystemImageGenerator.inArchiveAddedDirName)) fs := by
  have counting : Prog.Quiet
      (countEntries (Str.joinPath dir SystemImageGenerator.inArchiveAddedDirName)) :=
    quiet_osWalk (fun _ _ _ _ => Prog.quiet_ret _) _ _ _
  apply Prog.keeps_andThen same (counting.keeps fs)
  intro total middle counted sameMiddle
  apply Prog.keeps_andThen sameMiddle
  · apply keeps_osWalk _ pathMax 0 _ sameMiddle (within total middle counted)
    exact fun count top dirs files here sameHere ready => keeps_moveDirContent sameHere there ready
  · intro count behindWalk walked sameWalk
    exact clears total middle count behindWalk counted walked sameWalk

theorem keeps_applyPhases (there : ∀ path, ¬ allowed path → (start.node path).isSome = true)
    {root : Path} {dir imgName : Str} {counts : ReportCounts}
    (within : PhasesWithin env options allowed root dir imgName counts fs) :
    Prog.Keeps (SameBut allowed start) (applyPhases env options dir imgName counts) fs := by
  obtain ⟨added, cleared, later⟩ := within
  apply Prog.keeps_andThen same
  · apply Prog.keeps_andThen same
    · apply keeps_movetree same there added
      intro total middle count behindWalk counted walked sameWalk
      apply keeps_removeEmptyDirs sameWalk (by decide)
      exact cleared total middle count behindWalk counted walked
    · intro _ behind _ _
      exact (quiet_forEachReportLine fun _ _ => quiet_barUpdate _ _).keeps behind
  · intro _ behindAdded addedEnds sameAdded
    obtain ⟨changed, empty, removed⟩ := later behindAdded addedEnds
    apply Prog.keeps_andThen sameAdded
    · apply Prog.keeps_andThen sameAdded
      · apply keeps_forEachReportLine sameAdded _ changed
        exact fun calls values here sameHere ready =>
          keeps_changedFilesPerLineFun sameHere ready counts calls
      · intro _ behindLines linesEnd sameLines
        exact keeps_removeEmptyDirs sameLines (by decide) (empty behindLines linesEnd)
    · intro _ behindChanged changedEnds sameChanged
      apply keeps_forEachReportLine sameChanged _ (removed behindChanged changedEnds)
      exact fun calls values here sameHere ready =>
        keeps_removedFilesPerLineFun sameHere ready counts calls

end Phases

/-! ## The whole application -/

/-- A client with a directory `/i` and a link `/l` to nothing. -/
def danglingClient : Fs :=
  Fs.ofNodes
    [(["i".toList], ⟨.directory, 0o755, 0, 0, 2⟩),
      (["l".toList], ⟨.symlink "gone".toList, 0o777, 0, 0, 1⟩)]

/-- The image adds a file `/l`. -/
def linkAddition : Archive :=
  [⟨"ADDED".toList, .dir, 0o755, 0, 0⟩, ⟨"ADDED/l".toList, .reg [7], 0o644, 0, 0⟩,
    ⟨SystemImageGenerator.addedFilesFname, .reg (Utf8.encode "/l\x00?\n".toList), 0o644, 0, 0⟩,
    ⟨SystemImageGenerator.removedFilesFname, .reg [], 0o644, 0, 0⟩,
    ⟨SystemImageGenerator.changedFilesFname, .reg [], 0o644, 0, 0⟩]

/-- A client with a directory `/i` and a file `/d`. -/
def untouchedClient : Fs :=
  Fs.ofNodes
    [(["i".toList], ⟨.directory, 0o755, 0, 0, 2⟩),
      (["d".toList], ⟨.regular [1], 0o644, 0, 0, 1⟩)]

/-- The state behind the extraction of an image that removes `/d`. -/
def untouchedExtracted : Fs :=
  (extractSysImg directoryEnv directoryOptions "/i/new.tar.gz".toList directoryRemoval
    untouchedClient).final untouchedClient

theorem untouchedSite : Site directoryOptions untouchedClient "/i/new.tar.gz".toList directoryRemoval
    ["i".toList, "new".toList] where
  lead := ⟨untouchedClient, SameOutside.refl _ _, by decide, by decide⟩
  noLink := by decide
  tame := directoryRemoval_tame

theorem untouchedMayChange : MayChange directoryEnv directoryOptions "/i/new.tar.gz".toList
    directoryRemoval untouchedClient ["d".toList] := by
  right
  right
  left
  refine ⟨Utf8.encode "/d\x00?\n".toList, by decide, ["/d".toList, ['?']], ?_, rfl⟩
  decide

/-- Such an image finds what it needs on this client. -/
theorem untouchedStepsWithin :
    StepsWithin directoryEnv directoryOptions "/i/new.tar.gz".toList directoryRemoval
      untouchedClient := by
  refine ⟨_, untouchedSite, fun counts extracted valid extracts => ?_⟩
  have sameOutside := extracts.kept (SameOutside.refl _ _)
    (sameOutside_extractSysImg untouchedSite.lead untouchedSite.noLink untouchedSite.tame)
  obtain rfl : untouchedExtracted = extracted := extracts.2
  have accepts : (SysImgValidator.assertSysImgValid directoryOptions.forceApply
      "/i/new.tar.gz".toList directoryEnv.toValidatorEnv directoryRemoval untouchedClient).ending =
        .ok ⟨0, 0, 1⟩ := by
    decide +kernel
  obtain rfl := Except.ok.inj (accepts.symm.trans valid.1)
  have empty {treeName : Str} (noLink : untouchedExtracted.targetAt ["i".toList, "new".toList, treeName]
      = none) : EmptyDirsWithin (MayChange directoryEnv directoryOptions "/i/new.tar.gz".toList
        directoryRemoval untouchedClient) ["i".toList, "new".toList]
        (extractDir directoryOptions "/i/new.tar.gz".toList) treeName untouchedExtracted := by
    constructor
    · intro path inside
      exact .inr (.inr (.inr (.inr ⟨_, by decide, inside⟩)))
    · exact untouchedSite.lead.congr sameOutside
    · exact ⟨SystemImageGenerator.removedFilesFname, by decide +kernel, by decide +kernel⟩
    · intro front isFront
      rcases List.prefix_concat_iff.mp (show front <+: [] ++ [treeName] from isFront) with
        whole | shorter
      · rw [whole]
        exact noLink
      · rw [List.prefix_nil.mp shorter]
        decide +kernel
  refine ⟨?_, ?_, ?_⟩
  · intro total middle counted
    obtain rfl := counted.eq_of_no_states (by decide +kernel)
    exact walkReady_of_not_listed (by decide +kernel) _ _
  · intro total middle count behindWalk counted walked
    obtain rfl := counted.eq_of_no_states (by decide +kernel)
    have entries : (countEntries (Str.joinPath (extractDir directoryOptions "/i/new.tar.gz".toList)
        SystemImageGenerator.inArchiveAddedDirName) untouchedExtracted).ending = .ok 0 := by
      decide +kernel
    obtain rfl := Except.ok.inj (entries.symm.trans counted.1)
    obtain rfl := walked.eq_of_no_states (by decide +kernel)
    exact empty (by decide +kernel)
  · intro behindAdded added
    obtain rfl := added.eq_of_no_states (by decide +kernel)
    refine ⟨fun bytes read => ?_, fun behindLines lines => ?_, fun behindChanged changed => ?_⟩
    · have isEmpty : untouchedExtracted.readFile
          (Str.joinPath (extractDir directoryOptions "/i/new.tar.gz".toList)
            SystemImageGenerator.changedFilesFname) = some [] := by
        decide +kernel
      obtain rfl := Option.some.inj (isEmpty.symm.trans read)
      trivial
    · obtain rfl := lines.eq_of_no_states (by decide +kernel)
      exact empty (by decide +kernel)
    · obtain rfl := changed.eq_of_no_states (by decide +kernel)
      intro bytes read
      have content : untouchedExtracted.readFile
          (Str.joinPath (extractDir directoryOptions "/i/new.tar.gz".toList)
            SystemImageGenerator.removedFilesFname) = some (Utf8.encode "/d\x00?\n".toList) := by
        decide +kernel
      have lines : (readReport directoryEnv.host 2
          ⟨Str.joinPath (extractDir directoryOptions "/i/new.tar.gz".toList)
            SystemImageGenerator.removedFilesFname, "/i/new.tar.gz".toList⟩ 0 0
          (textLines (Utf8.encode "/d\x00?\n".toList))).1 = [["/d".toList, ['?']]] := by
        decide
      obtain rfl := Option.some.inj (content.symm.trans read)
      rw [lines]
      refine ⟨fun place located => ?_, fun _ _ => trivial⟩
      have isPlace : untouchedExtracted.locate false "/d".toList = some ["d".toList] := by
        decide +kernel
      obtain rfl := Option.some.inj (isPlace.symm.trans located)
      exact untouchedMayChange

end SysImgExtractor

end Myscm.Client
