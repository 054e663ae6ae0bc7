import Myscm.Client.ExtractionSite
import Myscm.Client.UnsignedImages

/-!
Owns the question what a dry run changes outside the directory that an image is extracted
to.

Owns: which steps a dry run makes; the one that can lie outside, the removal of a patch;
when every state of the run has all other nodes and the version file as they were.

Does not own: an application without `--dry-run`.
-/

namespace Myscm.Client

open Myscm.Library Myscm.Library.Fs Myscm.Server SysImgExtractor

section Property

variable (env : ClientEnv) (options : ClientOptions)

/-- No path but those of the extraction directory differs, and the version file is the same. -/
def Unharmed (before after : Fs) : Prop :=
  (∀ path,
    (∀ current root,
      MySCMImgVersionFile.recordedVersion options.recentSysImgVerPath before = .ok current →
      before.locate true (extractDir options (openImgName options before current)) = some root →
        ¬ root <+: path) →
      after.node path = before.node path) ∧
    after.stat options.recentSysImgVerPath = before.stat options.recentSysImgVerPath

/-- The patch of an entry whose content is changed lies below `root`, if it is a file. -/
def PatchInside (root : Path) (dir : Str) (values : List Str) (fs : Fs) : Prop :=
  (values.getD 4 [] = [FileType.regularFile.value] ∧
      (values.getD 5 [] = ['>'] ∨ values.getD 5 [] = ['<'])) →
    fs.isfile (diffPathOf dir (values.getD 0 [])) = true →
      ∀ place, fs.locate false (diffPathOf dir (values.getD 0 [])) = some place → root <+: place

/-- The patches of all entries that are come to lie below `root`, each in the state that the
entries before it leave. -/
def PatchesInside (root : Path) (dir imgName : Str) (counts : ReportCounts) (fs : Fs) : Prop :=
  ∀ bytes, fs.readFile (Str.joinPath dir SystemImageGenerator.changedFilesFname) = some bytes →
    Prog.EachReady
      (fun call : List Str × Nat =>
        changedFilesPerLineFun env options dir counts call.2 call.1)
      (fun call => PatchInside root dir call.1)
      ((readReport env.host propertiesCount
        ⟨Str.joinPath dir SystemImageGenerator.changedFilesFname, imgName⟩ 0 0
        (textLines bytes)).1.zipIdx) fs

/-- The directory that the image is extracted to has one above it and is no link, and the
names of the image stay below it. -/
structure Site (s : Fs) (imgName : Str) (archive : Archive) (root : Path) : Prop where
  lead : Leads s (extractDir options imgName) root
  noLink : s.targetAt root = none
  tame : archive.Tame

/-- Every image that is opened is refused before it is extracted, or it stays below its
directory: the version file is found without it, and so are no patches. -/
def Harmless (s : Fs) : Prop :=
  ∀ current archive, Opens env options s current archive →
    (∀ counts, ¬ Prog.Ends
      (SysImgValidator.assertSysImgValid options.forceApply (openImgName options s current)
        env.toValidatorEnv archive) s counts s) ∨
    (options.forceApply = false ∧
      s.pathExists (extractDir options (openImgName options s current)) = true) ∨
    ∃ root, Site options s (openImgName options s current) archive root ∧
      (SysImgExtractor.Refused options s root ∨
        LeadsPast s options.recentSysImgVerPath root ∧
        ∀ counts extracted,
          Prog.Ends (SysImgValidator.assertSysImgValid options.forceApply
            (openImgName options s current) env.toValidatorEnv archive) s counts s →
          Prog.Ends (extractSysImg env options (openImgName options s current) archive) s
            (extractDir options (openImgName options s current)) extracted →
          Prog.Completes (applyAddedFiles env options
            (extractDir options (openImgName options s current)) (openImgName options s current)
            counts) extracted →
          PatchesInside env options root (extractDir options (openImgName options s current))
            (openImgName options s current) counts extracted)

end Property

variable {env : ClientEnv} {options : ClientOptions}

/-! ## Steps that are left out -/

section Quiet

variable (dry : options.dryRun = true)
include dry

theorem unlessDryRun_of_dryRun (program : Prog Fs ClientError Unit) :
    unlessDryRun options program = Prog.ret () := by
  rw [unlessDryRun, dry, if_pos rfl]

theorem quiet_unlessDryRun (program : Prog Fs ClientError Unit) :
    Prog.Quiet (unlessDryRun options program) := by
  rw [unlessDryRun_of_dryRun dry]
  exact Prog.quiet_ret ()

omit dry in
theorem quiet_barUpdate (maxValue value : Nat) : Prog.Quiet (barUpdate maxValue value) := by
  unfold barUpdate
  split
  · exact Prog.quiet_ret ()
  · exact Prog.quiet_raise _

theorem quiet_moveDirContent (src : Str) (total count : Nat) (srcDir : Str)
    (dirs files : List Str) :
    Prog.Quiet (moveDirContent env options src total count srcDir dirs files) := by
  have entry (move : Prog Fs ClientError Unit) (quiet : Prog.Quiet move) (count : Nat) :
      Prog.Quiet (Prog.andThen move fun _ => Prog.andThen (barUpdate total count) fun _ =>
        Prog.ret (count + 1)) :=
    Prog.quiet_andThen quiet fun _ => Prog.quiet_andThen (quiet_barUpdate _ _) fun _ =>
      Prog.quiet_ret _
  refine Prog.quiet_andThen (Prog.quiet_reads _) fun dstDir => ?_
  refine Prog.quiet_andThen ?_ fun _ => ?_
  · refine Prog.quiet_andThen (Prog.quiet_reads _) fun there => ?_
    split
    · exact Prog.quiet_ret ()
    · exact quiet_unlessDryRun dry _
  refine Prog.quiet_andThen (Prog.quiet_foldOver (fun count name => entry _ ?_ count) _ _)
    fun count => Prog.quiet_foldOver (fun count name => entry _ ?_ count) _ _
  · refine Prog.quiet_andThen (Prog.quiet_reads _) fun link => ?_
    refine Prog.quiet_andThen (Prog.quiet_reads _) fun free => ?_
    split
    · exact quiet_unlessDryRun dry _
    · exact Prog.quiet_ret ()
  · exact quiet_unlessDryRun dry _

theorem quiet_movetree (src : Str) : Prog.Quiet (movetree env options src) := by
  refine Prog.quiet_andThen (quiet_osWalk (fun _ _ _ _ => Prog.quiet_ret _) _ _ _) fun total => ?_
  refine Prog.quiet_andThen (quiet_osWalk (quiet_moveDirContent dry src total) _ _ _) fun _ => ?_
  exact quiet_unlessDryRun dry _

omit dry in
theorem quiet_forEachReportLine {dir imgName fname : Str} {n : Nat}
    {callback : Nat → List Str → Prog Fs ClientError Unit}
    (quiet : ∀ calls values, Prog.Quiet (callback calls values)) :
    Prog.Quiet (forEachReportLine env dir imgName fname n callback) :=
  Prog.quiet_andThen (Prog.quiet_tryReads _) fun _ =>
    Prog.quiet_andThen (quiet_runFunForEachReportLine _ _ _ quiet _) fun _ => Prog.quiet_ret _

theorem quiet_applyAddedFiles (dir imgName : Str) (counts : ReportCounts) :
    Prog.Quiet (applyAddedFiles env options dir imgName counts) :=
  Prog.quiet_andThen (quiet_movetree dry _) fun _ =>
    quiet_forEachReportLine fun _ _ => quiet_barUpdate _ _

theorem quiet_applyRemovedFiles (dir imgName : Str) (counts : ReportCounts) :
    Prog.Quiet (applyRemovedFiles env options dir imgName counts) :=
  quiet_forEachReportLine fun _ _ =>
    Prog.quiet_andThen (quiet_unlessDryRun dry _) fun _ => quiet_barUpdate _ _

theorem quiet_changeFilePermissions (newPerm oldPerm path : Str) :
    Prog.Quiet (changeFilePermissions options newPerm oldPerm path) := by
  unfold changeFilePermissions
  split
  · split
    · exact Prog.quiet_raise _
    · exact quiet_unlessDryRun dry _
  · exact Prog.quiet_ret ()

theorem quiet_changeFileUidGid (newUid oldUid newGid oldGid path : Str) :
    Prog.Quiet (changeFileUidGid options newUid oldUid newGid oldGid path) := by
  unfold changeFileUidGid
  split
  · exact quiet_unlessDryRun dry _
  · exact Prog.quiet_ret ()

theorem quiet_changeAttributes (values : List Str) :
    Prog.Quiet (changeAttributes options values) :=
  Prog.quiet_andThen (Prog.quiet_tryReads _) fun _ =>
    Prog.quiet_andThen (quiet_changeFilePermissions dry _ _ _) fun _ =>
      Prog.quiet_andThen (Prog.quiet_tryReads _) fun _ =>
        Prog.quiet_andThen (Prog.quiet_tryReads _) fun _ => quiet_changeFileUidGid dry _ _ _ _ _

/-! ## The step that is made -/

omit dry in
theorem applyChangedFile_run (dir path : Str) (fs : Fs) :
    applyChangedFile env options dir path fs =
      (if fs.isfile (diffPathOf dir path) = true then
        Prog.andThen (applyPatchForFile env options path (diffPathOf dir path)) fun _ =>
          sys ClientError.os (Fs.remove (diffPathOf dir path))
      else
        Prog.andThen (Prog.reads (Fs.isfile · path)) fun there =>
          if there = true then
            moveChangedFile options (origPathOf dir path) path
          else Prog.ret ()) fs := rfl

/-- The one step for a changed entry is the removal of its patch. -/
theorem states_changedFilesPerLineFun (dir : Str) (counts : ReportCounts) (calls : Nat)
    (values : List Str) (fs : Fs) :
    (changedFilesPerLineFun env options dir counts calls values fs).states =
      if (values.getD 4 [] = [FileType.regularFile.value] ∧
          (values.getD 5 [] = ['>'] ∨ values.getD 5 [] = ['<'])) ∧
        fs.isfile (diffPathOf dir (values.getD 0 [])) = true then
        (sys ClientError.os (Fs.remove (diffPathOf dir (values.getD 0 []))) fs).states
      else [] := by
  refine (Prog.states_andThen_of_quiet (fun _ =>
    Prog.quiet_andThen (quiet_changeAttributes dry values) fun _ => quiet_barUpdate _ _) fs).trans ?_
  unfold changeContent
  split
  · rename_i content
    rw [applyChangedFile_run]
    split
    · rename_i patched
      rw [if_pos ⟨content, patched⟩, applyPatchForFile, unlessDryRun_of_dryRun dry,
        Prog.ret_andThen]
    · rename_i missing
      rw [if_neg (fun both => missing both.2), Prog.reads_andThen]
      split
      · exact quiet_unlessDryRun dry _ fs
      · rfl
  · rename_i noContent
    rw [if_neg fun both => noContent both.1]
    rfl

end Quiet

/-! ## The three phases -/

/-- The steps of a pass over a report are those of the loop over its value lists. -/
theorem states_forEachReportLine (dir imgName fname : Str) (n : Nat)
    (callback : Nat → List Str → Prog Fs ClientError Unit) (fs : Fs) :
    (forEachReportLine env dir imgName fname n callback fs).states =
      match fs.readFile (Str.joinPath dir fname) with
      | none => []
      | some bytes =>
          (Prog.forEach (fun call => callback call.2 call.1)
            ((readReport env.host n ⟨Str.joinPath dir fname, imgName⟩ 0 0
              (textLines bytes)).1.zipIdx) fs).states := by
  rw [forEachReportLine, Prog.bind_eq, Prog.states_andThen_of_nil rfl, Prog.tryReads_run]
  cases read : fs.readFile (Str.joinPath dir fname) with
  | none => rfl
  | some bytes =>
      refine (Prog.states_andThen_of_quiet (fun _ => Prog.quiet_ret _) fs).trans ?_
      rw [runFunForEachReportLine, reportLoop_eq]
      exact Prog.states_andThen_of_quiet (fun _ => Prog.quiet_tryReads _) fs

section Phases

variable {root : Path} {s fs : Fs} (dry : options.dryRun = true)
include dry

/-- Nothing but what lies below `root` differs. -/
def NodesOutside (root : Path) (s fs : Fs) : Prop :=
  ∀ path, ¬ root <+: path → fs.node path = s.node path

/-- An entry leaves all outside as it is just where its patch, if any, lies inside. -/
theorem kept_changedFilesPerLineFun_iff (dir : Str) (counts : ReportCounts) (calls : Nat)
    (values : List Str) (kept : NodesOutside root s fs) :
    (∀ state ∈ (changedFilesPerLineFun env options dir counts calls values fs).states,
        NodesOutside root s state) ↔
      PatchInside root dir values fs := by
  rw [states_changedFilesPerLineFun dry]
  split
  · rename_i removal
    obtain ⟨next, removed⟩ := Option.isSome_iff_exists.mp
      ((remove_isSome_iff _ fs).mpr (holdsFile_of_isfile removal.2))
    obtain ⟨place, located, erased⟩ := Option.bind_eq_some_iff.mp removed
    have erased : fs.eraseAt place = some next := by
      split at erased
      · cases erased
      · exact erased
    have states : (sys ClientError.os (Fs.remove (diffPathOf dir (values.getD 0 []))) fs).states =
        [next] := by
      rw [sys, Prog.step_ok (by rw [removed]; rfl)]
    rw [states]
    constructor
    · intro keeps content patched other isPlace
      obtain rfl : place = other := Option.some.inj (located.symm.trans isPlace)
      by_contra outside
      have gone := keeps next List.mem_cons_self place outside
      rw [node_of_eraseAt erased, if_pos rfl, ← kept place outside] at gone
      rw [eraseAt, ← gone] at erased
      cases erased
    · intro inside state member path outside
      rw [List.mem_singleton.mp member, node_of_eraseAt erased, if_neg, kept path outside]
      rintro rfl
      exact outside (inside removal.1 removal.2 path located)
  · rename_i noRemoval
    refine iff_of_true (fun state member => by cases member) fun content patched => ?_
    exact absurd ⟨content, patched⟩ noRemoval

/-- The phases leave all outside as it is just where the patches they come to lie inside. -/
theorem kept_applyPhases_iff (dir imgName : Str) (counts : ReportCounts)
    (kept : NodesOutside root s fs) :
    (∀ state ∈ (applyPhases env options dir imgName counts fs).states,
        NodesOutside root s state) ↔
      (Prog.Completes (applyAddedFiles env options dir imgName counts) fs →
        PatchesInside env options root dir imgName counts fs) := by
  have quiet := @quiet_applyAddedFiles env _ dry dir imgName counts
  rw [applyPhases, Prog.bind_eq, Prog.states_andThen_of_nil (quiet fs)]
  cases ending : (applyAddedFiles env options dir imgName counts fs).ending with
  | error failure =>
      refine iff_of_true (fun state member => by cases member) ?_
      rintro ⟨_, _, ends⟩
      rw [ends.1] at ending
      cases ending
  | ok value =>
      have completes : Prog.Completes (applyAddedFiles env options dir imgName counts) fs :=
        ⟨value, _, ending, rfl⟩
      have changed : (Prog.andThen (applyChangedFiles env options dir imgName counts)
          (fun _ => applyRemovedFiles env options dir imgName counts) fs).states =
            (applyChangedFiles env options dir imgName counts fs).states :=
        Prog.states_andThen_of_quiet (fun _ => quiet_applyRemovedFiles dry dir imgName counts) fs
      have reported : (applyChangedFiles env options dir imgName counts fs).states =
          (forEachReportLine env dir imgName SystemImageGenerator.changedFilesFname propertiesCount
            (changedFilesPerLineFun env options dir counts) fs).states :=
        Prog.states_andThen_of_quiet (fun _ => quiet_unlessDryRun dry _) fs
      show (∀ state ∈ (Prog.andThen (applyChangedFiles env options dir imgName counts)
          (fun _ => applyRemovedFiles env options dir imgName counts) fs).states, _) ↔ _
      rw [changed, reported, states_forEachReportLine, PatchesInside]
      simp only [completes, forall_const]
      cases fs.readFile (Str.joinPath dir SystemImageGenerator.changedFilesFname) with
      | none => simp
      | some bytes =>
          simp only [Option.some.injEq, forall_eq']
          exact Prog.kept_forEach_iff (fun (call : List Str × Nat) _ =>
            kept_changedFilesPerLineFun_iff dry dir counts call.2 call.1) _ kept

/-- In a dry run the phases keep what every removal of a file keeps. -/
theorem always_applyPhases {keep : Fs → Prop}
    (removal : ∀ text, Prog.Always keep (sys ClientError.os (Fs.remove text))) (dir imgName : Str)
    (counts : ReportCounts) : Prog.Always keep (applyPhases env options dir imgName counts) := by
  have line (calls : Nat) (values : List Str) :
      Prog.Always keep (changedFilesPerLineFun env options dir counts calls values) := by
    intro start kept state member
    rw [states_changedFilesPerLineFun dry] at member
    split at member
    · exact removal _ start kept state member
    · cases member
  have report : Prog.Always keep (forEachReportLine env dir imgName
      SystemImageGenerator.changedFilesFname propertiesCount
        (changedFilesPerLineFun env options dir counts)) := by
    intro start kept state member
    rw [states_forEachReportLine] at member
    split at member
    · cases member
    · exact Prog.always_forEach _ (fun call _ => line call.2 call.1) start kept state member
  exact Prog.always_andThen (quiet_applyAddedFiles dry dir imgName counts).always fun _ =>
    Prog.always_andThen
      (Prog.always_andThen report fun _ => (quiet_unlessDryRun dry _).always) fun _ =>
        (quiet_applyRemovedFiles dry dir imgName counts).always

end Phases

/-! ## The whole run -/

theorem Archive.Tame.root_free {archive : Archive} (tame : archive.Tame) :
    [] ∉ archive.linkPlaces := by
  cases archive with
  | nil => exact List.not_mem_nil
  | cons info rest => exact tame.passes info List.mem_cons_self [] List.nil_prefix

/-- Below `root` alone there are differences, and no link stands there. -/
def Spotless (root : Path) (s fs : Fs) : Prop :=
  SameOutside root s fs ∧ fs.targetAt root = none

section Whole

variable {s : Fs} {imgName : Str} {archive : Archive} {root : Path}
  (site : Site options s imgName archive root)
include site

theorem spotless_clearDir {there : Bool} :
    ∀ state ∈ (clearDir options imgName there s).states, Spotless root s state := by
  intro state member
  refine ⟨sameOutside_clearDir site.lead site.noLink state member, ?_⟩
  unfold clearDir at member
  split at member
  · split at member
    · exact targetAt_rmtree site.lead site.noLink state member
    · cases member
  · cases member

theorem spotless_extractSysImg :
    ∀ state ∈ (extractSysImg env options imgName archive s).states, Spotless root s state := by
  intro state member
  refine ⟨sameOutside_extractSysImg site.lead site.noLink site.tame state member, ?_⟩
  rw [extractSysImg_run] at member
  rcases Prog.mem_states_andThen_cases member with early | ⟨_, middle, cleared, late⟩
  · exact (spotless_clearDir site state early).2
  · have extraction := Prog.always_andThen (@keeps_extractall env.umask _ _ _ _ site.lead site.tame)
      fun _ => Prog.always_ret _ (extractDir options imgName)
    have contained :=
      extraction middle (contained_of_clearDir site.lead site.noLink cleared) state late
    have clear : Clear state root [] := contained.clear fun front isFront => by
      rw [List.prefix_nil.mp isFront]
      exact site.tame.root_free
    exact clear.noLink

omit site in
theorem Spotless.refl (noLink : s.targetAt root = none) : Spotless root s s :=
  ⟨SameOutside.refl root s, noLink⟩

/-- What is found at the version file is the same in a spotless state. -/
theorem unharmed_of_spotless {current : Int}
    (isfile : s.isfile options.recentSysImgVerPath = true)
    (recorded : MySCMImgVersionFile.recordedVersion options.recentSysImgVerPath s = .ok current)
    (isName : imgName = openImgName options s current)
    (past : LeadsPast s options.recentSysImgVerPath root) {state : Fs}
    (spotless : Spotless root s state) : Unharmed options s state := by
  constructor
  · intro path outside
    refine spotless.1.node path (outside current root recorded ?_)
    rw [← isName]
    exact site.lead.locate site.noLink true
  · refine past.stat_eq ?_ spotless.1 spotless.2
    cases found : s.stat options.recentSysImgVerPath with
    | none => simp [Fs.isfile, found] at isfile
    | some node => rfl

variable (dry : options.dryRun = true)
include dry

theorem spotless_validateExtractApply
    (patches : ∀ counts extracted,
      Prog.Ends (SysImgValidator.assertSysImgValid options.forceApply imgName env.toValidatorEnv
        archive) s counts s →
      Prog.Ends (extractSysImg env options imgName archive) s (extractDir options imgName)
        extracted →
      Prog.Completes (applyAddedFiles env options (extractDir options imgName) imgName counts)
        extracted →
      PatchesInside env options root (extractDir options imgName) imgName counts extracted) :
    ∀ state ∈ (validateExtractApply env options imgName archive s).states,
      Spotless root s state := by
  intro state member
  have quiet := SysImgValidator.quiet_assertSysImgValid options.forceApply imgName
    env.toValidatorEnv archive
  rcases Prog.mem_states_andThen_cases member with early | ⟨counts, middle, valid, late⟩
  · rw [quiet s] at early
    cases early
  obtain rfl : s = middle := (quiet.final s).symm.trans valid.2
  rcases Prog.mem_states_andThen_cases late with early | ⟨dir, extracted, extracts, later⟩
  · exact spotless_extractSysImg site state early
  have start := extracts.kept (Spotless.refl site.noLink) (spotless_extractSysImg site)
  obtain ⟨rfl, _⟩ := contained_of_extractSysImg site.lead site.noLink site.tame extracts
  rcases Prog.mem_states_andThen_cases later with inPhases | ⟨_, _, _, none⟩
  swap
  · cases none
  have nodes := (kept_applyPhases_iff dry _ imgName counts start.1.node).mpr
    (patches counts extracted valid extracts) state inPhases
  have removal (text : Str) : Prog.Always
      (fun fs : Fs => fs.cwd = s.cwd ∧ fs.targetAt root = none)
      (sys ClientError.os (Fs.remove text)) :=
    always_sys fun fs next kept removed => by
      obtain ⟨_, _, touches⟩ := touches_of_remove removed
      exact ⟨touches.cwd.trans kept.1, touches.free kept.2⟩
  have rest := always_applyPhases dry removal (extractDir options imgName) imgName counts extracted
    ⟨start.1.cwd, start.2⟩ state inPhases
  exact ⟨⟨rest.1, nodes⟩, rest.2⟩

omit site dry in
/-- Where the application ends, it gives the directory of the image. -/
theorem dir_of_validateExtractApply {dir : Str} {finish : Fs}
    (ends : Prog.Ends (validateExtractApply env options imgName archive) s dir finish) :
    dir = extractDir options imgName := by
  obtain ⟨counts, middle, _, rest⟩ := (Prog.ends_andThen_iff _ _ _ _ _).mp ends
  obtain ⟨extracted, last, extracts, rest⟩ := (Prog.ends_andThen_iff _ _ _ _ _).mp rest
  obtain ⟨_, _, _, returned⟩ := (Prog.ends_andThen_iff _ _ _ _ _).mp rest
  obtain ⟨isDir, _⟩ := (Prog.ends_ret_iff _ _ _ _).mp returned
  rw [← isDir]
  rw [Prog.Ends, extractSysImg_run] at extracts
  obtain ⟨_, _, _, rest⟩ := (Prog.ends_andThen_iff _ _ _ _ _).mp extracts
  obtain ⟨_, _, _, returned⟩ := (Prog.ends_andThen_iff _ _ _ _ _).mp rest
  exact ((Prog.ends_ret_iff _ _ _ _).mp returned).1.symm

theorem spotless_applyOpened
    (spotless : ∀ state ∈ (validateExtractApply env options imgName archive s).states,
      Spotless root s state) :
    ∀ state ∈ (applyOpened env options imgName archive s).states, Spotless root s state := by
  intro state member
  rcases Prog.mem_states_andThen_cases member with early | ⟨dir, middle, applied, late⟩
  · rw [Prog.handle_raise_run] at early
    exact spotless state early
  have applied := (Prog.ends_handle_raise_iff _ _ _ _ _).mp applied
  have start := applied.kept (Spotless.refl site.noLink) spotless
  obtain rfl := dir_of_validateExtractApply applied
  rw [unlessDryRun_of_dryRun dry, Prog.ret_andThen, rmtreeIgnoringErrors,
    Prog.states_handle_of_quiet fun _ => Prog.quiet_ret ()] at late
  have lead := site.lead.congr start.1
  exact ⟨start.1.trans (sameOutside_rmtree lead start.2 state late),
    targetAt_rmtree lead start.2 state late⟩

end Whole

section Main

variable {s : Fs} (isfile : s.isfile options.recentSysImgVerPath = true)

/-- An image that cannot be opened, or is refused, does no harm. -/
theorem unharmed_of_no_states (none : (applySysImg env options s).states = []) :
    ∀ state ∈ (applySysImg env options s).states, Unharmed options s state := by
  rw [none]
  exact fun state member => by cases member

/-- The states of the body of the `try` are states of the run. -/
theorem mem_states_applySysImg {current : Int} {archive : Archive}
    (isfile : s.isfile options.recentSysImgVerPath = true)
    (opens : Opens env options s current archive) {state : Fs}
    (member : state ∈ (validateExtractApply env options (openImgName options s current) archive
      s).states) : state ∈ (applySysImg env options s).states := by
  rw [applySysImg_of_opens isfile opens]
  exact Prog.mem_states_andThen_left (Prog.mem_states_handle member)

theorem mem_states_of_extraction {imgName : Str} {archive : Archive} {counts : ReportCounts}
    (valid : Prog.Ends (SysImgValidator.assertSysImgValid options.forceApply imgName
      env.toValidatorEnv archive) s counts s) {state : Fs}
    (member : state ∈ (extractSysImg env options imgName archive s).states) :
    state ∈ (validateExtractApply env options imgName archive s).states := by
  refine Prog.mem_states_andThen_right valid ?_
  rw [Prog.bind_eq]
  exact Prog.mem_states_andThen_left member

theorem mem_states_of_phases {imgName dir : Str} {archive : Archive} {counts : ReportCounts}
    {extracted : Fs}
    (valid : Prog.Ends (SysImgValidator.assertSysImgValid options.forceApply imgName
      env.toValidatorEnv archive) s counts s)
    (extracts : Prog.Ends (extractSysImg env options imgName archive) s dir extracted) {state : Fs}
    (member : state ∈ (applyPhases env options dir imgName counts extracted).states) :
    state ∈ (validateExtractApply env options imgName archive s).states := by
  refine Prog.mem_states_andThen_right valid (Prog.mem_states_andThen_right extracts ?_)
  rw [Prog.bind_eq]
  exact Prog.mem_states_andThen_left member

/-- A directory in the way is removed before the extraction, where it is. -/
theorem exists_missing_root {imgName : Str} {archive : Archive} {root : Path}
    (site : Site options s imgName archive root)
    (free : ¬ SysImgExtractor.Refused options s root) :
    s.node root = none ∨
      ∃ state ∈ (extractSysImg env options imgName archive s).states, state.node root = none := by
  cases found : s.node root with
  | none => exact .inl rfl
  | some node =>
      have present : (s.node root).isSome = true := by rw [found]; rfl
      have force : options.forceApply = true := by
        by_contra noForce
        exact free ⟨present, .inl (by simpa using noForce)⟩
      have isDir : s.isDirAt root = true := by
        by_contra notDir
        exact free ⟨present, .inr (by simpa using notDir)⟩
      obtain ⟨finish, ends⟩ := @ends_rmtree _ ClientError.os _ _ _ site.lead site.noLink isDir
        site.lead.root_ne_nil
      have gone := node_of_rmtree site.lead site.noLink ends
      refine .inr ⟨finish, ?_, gone⟩
      rw [extractSysImg_run, pathExists_extractDir site.lead site.noLink, found, Option.isSome_some]
      apply Prog.mem_states_andThen_left
      rw [clearDir, if_pos rfl, if_pos force]
      refine ends.mem.resolve_left ?_
      rintro rfl
      rw [found] at gone
      cases gone

include isfile

variable (dry : options.dryRun = true)
include dry

/-- Where every state of the run is unharmed, an image that is not refused stays below its
directory. -/
theorem harmless_of_unharmed
    (sites : ∀ current archive, Opens env options s current archive →
      ∃ root, Site options s (openImgName options s current) archive root)
    (unharmed : ∀ state ∈ (applySysImg env options s).states, Unharmed options s state) :
    Harmless env options s := by
  intro current archive opens
  by_cases invalid : ∀ counts, ¬ Prog.Ends
      (SysImgValidator.assertSysImgValid options.forceApply (openImgName options s current)
        env.toValidatorEnv archive) s counts s
  · exact .inl invalid
  obtain ⟨root, site⟩ := sites current archive opens
  refine .inr (.inr ⟨root, site, ?_⟩)
  by_cases refused : SysImgExtractor.Refused options s root
  · exact .inl refused
  have nodesOutside {state : Fs} (member : state ∈ (validateExtractApply env options
      (openImgName options s current) archive s).states) : NodesOutside root s state := by
    intro path outside
    refine (unharmed state (mem_states_applySysImg isfile opens member)).1 path ?_
    intro other place recorded located isBelow
    obtain rfl := Except.ok.inj (opens.recorded.symm.trans recorded)
    rw [site.lead.locate site.noLink true] at located
    obtain rfl := Option.some.inj located
    exact outside isBelow
  refine .inr ⟨?_, fun counts extracted valid extracts completes => ?_⟩
  · rcases @exists_missing_root env _ _ _ _ _ site refused with missing | ⟨state, inRun, missing⟩
    · exact ⟨s, SameOutside.refl root s, missing, rfl⟩
    · obtain ⟨counts, valid⟩ := not_forall_not.mp invalid
      have spotless := spotless_extractSysImg site state inRun
      have same := (unharmed state (mem_states_applySysImg isfile opens
        (mem_states_of_extraction valid inRun))).2
      exact ⟨state, spotless.1.symm, missing, same⟩
  · have start := extracts.kept (Spotless.refl site.noLink) (spotless_extractSysImg site)
    refine (kept_applyPhases_iff dry _ _ counts start.1.node).mp (fun state inPhases => ?_) completes
    exact nodesOutside (mem_states_of_phases valid extracts inPhases)

theorem unharmed_of_harmless (harmless : Harmless env options s) :
    ∀ state ∈ (applySysImg env options s).states, Unharmed options s state := by
  by_cases opened : ∃ current archive, Opens env options s current archive
  · obtain ⟨current, archive, opens⟩ := opened
    have run := applySysImg_of_opens isfile opens
    have stopped (stops : Stops (validateExtractApply env options (openImgName options s current)
        archive) s) : (applySysImg env options s).states = [] := by
      rw [run]
      exact (stops_applyOpened stops).1
    rcases harmless current archive opens with
      invalid | ⟨notForced, there⟩ | ⟨root, site, refused | ⟨past, patches⟩⟩
    · exact unharmed_of_no_states (stopped (stops_validateExtractApply (.inl invalid)))
    · exact unharmed_of_no_states
        (stopped (stops_validateExtractApply (.inr (stops_extractSysImg notForced there))))
    · exact unharmed_of_no_states
        (stopped (stops_validateExtractApply (.inr
          ⟨states_of_refused site.lead site.noLink refused,
            not_ends_of_refused site.lead site.noLink refused⟩)))
    · have spotless := spotless_applyOpened site dry (spotless_validateExtractApply site dry patches)
      rw [run]
      exact fun state member =>
        unharmed_of_spotless site isfile opens.recorded rfl past (spotless state member)
  · exact unharmed_of_no_states (applySysImg_of_not_opens isfile
      fun current archive opens => opened ⟨current, archive, opens⟩)

end Main

/-! ## A patch beside the directory -/

/-- A client in version 0 with an image, a file `/f` and a file beside the image. -/
def patchClient : Fs :=
  Fs.ofNodes
    [(["v".toList], ⟨.regular (Utf8.encode ['0']), 0o644, 0, 0, 1⟩),
      (["f".toList], ⟨.regular [], 0o644, 0, 0, 1⟩),
      (["i".toList], ⟨.directory, 0o755, 0, 0, 2⟩),
      (["i".toList, "myscm-img.0.1.tar.gz".toList], ⟨.regular [1], 0o644, 0, 0, 1⟩),
      (["i".toList, "f.myscmsrv-patch".toList], ⟨.regular [5], 0o644, 0, 0, 1⟩)]

/-- A line for `/f` by another name, with a mark for a larger size and the present values. -/
def patchValues : List Str :=
  ["/../../f", "None", "f>.=.p............", "7", "f", ">", "0 (.)", "8 (.)", "100644 (.)",
    "0 (.)", "0 (.)", "5 (.)", "6 (.)", "11 (.)", "1 (.)"].map String.toList ++
    [List.replicate 32 '0' ++ " (.)".toList, List.replicate 40 '0' ++ " (.)".toList, ['?']]

/-- The image changes that file. -/
def patchImage : Archive :=
  [⟨"CHANGED/x".toList, .reg [7], 0o644, 0, 0⟩,
    ⟨SystemImageGenerator.addedFilesFname, .reg [], 0o644, 0, 0⟩,
    ⟨SystemImageGenerator.removedFilesFname, .reg [], 0o644, 0, 0⟩,
    ⟨SystemImageGenerator.changedFilesFname,
      .reg (Utf8.encode (['\x00'].intercalate patchValues ++ ['\n'])), 0o644, 0, 0⟩]

/-- A machine on which every archive reads as `patchImage`, and every file has one hash. -/
def patchEnv : ClientEnv where
  host := ⟨[], [], [], id⟩
  md5 _ := List.replicate 32 '0'
  sha1 _ := List.replicate 40 '0'
  openTar _ := some patchImage
  applyPatch _ text := some text
  vars := ⟨[], [], [], [], [], fun _ => none, id⟩
  umask := 0o22

def dryOptions : ClientOptions where
  forceApply := false
  dryRun := true
  sysImgExtractDir := "/e".toList
  sysImgDownloadDir := "/i".toList
  sslCertPublicKeyPath := "/k".toList
  recentSysImgVerPath := "/v".toList
  applyImg := 1

end Myscm.Client
