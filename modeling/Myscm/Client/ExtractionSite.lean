import Myscm.Client.Acceptance
import Myscm.Client.ApplyReadiness
import Myscm.Client.Confinement

/-!
Owns the directory an image is extracted to, beside the one that is configured.

Owns: `SysImgExtractDir` as a place; when all that an extraction changes lies strictly
inside of it.

Does not own: what is done with the extracted image.
-/

namespace Myscm.Client

open Myscm.Library Myscm.Library.Fs Myscm.Server

namespace SysImgExtractor

variable {env : ClientEnv} {options : ClientOptions} {imgName : Str} {archive : Archive} {root : Path}
  {start : Fs}

/-- An absolute name is not joined to `SysImgExtractDir`: stripped, it is the directory. -/
theorem extractDir_of_isAbs (absolute : Str.isAbs imgName = true) :
    extractDir options imgName = Str.rstripChars SystemImageGenerator.myscmImgExt imgName := by
  obtain ⟨rest, rfl⟩ : ∃ rest, imgName = ['/'] ++ rest := by
    obtain ⟨rest, isRest⟩ := List.isPrefixOf_iff_prefix.mp absolute
    exact ⟨rest, isRest.symm⟩
  have stripped : Str.rstripChars SystemImageGenerator.myscmImgExt (['/'] ++ rest) =
      ['/'] ++ Str.rstripChars SystemImageGenerator.myscmImgExt rest :=
    Str.rstripChars_append (by decide) rest
  have isAbs (tail : Str) : Str.isAbs (['/'] ++ tail) = true := rfl
  rw [extractDir, stripped, Str.joinPath, isAbs, if_pos rfl]

/-- The path lies strictly inside `SysImgExtractDir`. -/
def InExtractDir (options : ClientOptions) (fs : Fs) (path : Path) : Prop :=
  ∃ dir, fs.locate true options.sysImgExtractDir = some dir ∧ dir <+: path ∧ dir ≠ path

theorem InExtractDir.below {path : Path} (inside : InExtractDir options start path) {other : Path}
    (isBelow : path <+: other) : InExtractDir options start other := by
  obtain ⟨dir, located, isPrefix, proper⟩ := inside
  refine ⟨dir, located, isPrefix.trans isBelow, ?_⟩
  rintro rfl
  exact proper (isPrefix.eq_of_length (Nat.le_antisymm isPrefix.length_le isBelow.length_le))

/-- Something is in the way that the extraction does not remove. -/
def Refused (options : ClientOptions) (fs : Fs) (root : Path) : Prop :=
  (fs.node root).isSome = true ∧ (options.forceApply = false ∨ fs.isDirAt root = false)

section

variable (lead : Leads start (extractDir options imgName) root)
  (noLink : start.targetAt root = none)
include lead noLink

theorem states_of_refused (refused : Refused options start root) :
    (extractSysImg env options imgName archive start).states = [] := by
  obtain ⟨present, inTheWay⟩ := refused
  have failed : (clearDir options imgName true start).states = [] ∧
      ∃ failure, (clearDir options imgName true start).ending = .error failure := by
    cases force : options.forceApply with
    | false => simp [clearDir, force]
    | true =>
        have notDir := inTheWay.resolve_left (by simp [force])
        have ran := @rmtree_run _ ClientError.os _ _ _ lead noLink
        rw [notDir, if_neg (by simp)] at ran
        simp [clearDir, force, ran]
  obtain ⟨noStates, failure, ending⟩ := failed
  rw [extractSysImg_run, pathExists_extractDir lead noLink, present, Prog.states_andThen_of_nil noStates,
    ending]

/-- What is in the way stays there, so nothing is extracted. -/
theorem not_ends_of_refused (refused : Refused options start root) (dir : Str) (finish : Fs) :
    ¬ Prog.Ends (extractSysImg env options imgName archive) start dir finish := by
  intro ends
  have none := @states_of_refused env _ _ archive _ _ lead noLink refused
  rw [Prog.Ends, extractSysImg_run] at ends
  rw [extractSysImg_run] at none
  obtain ⟨_, middle, cleared, _⟩ := (Prog.ends_andThen_iff _ _ _ _ _).mp ends
  have same : start = middle := cleared.kept rfl fun state member =>
    absurd (Prog.mem_states_andThen_left member) (List.eq_nil_iff_forall_not_mem.mp none state)
  have missing := missing_of_clearDir lead noLink cleared
  have present := refused.1
  rw [← same] at missing
  rw [missing] at present
  cases present

omit noLink in
/-- The first member of an archive that has a name makes the directory. -/
theorem exists_root_of_extractall {info : TarInfo} {rest : Archive} (tame : Archive.Tame (info :: rest))
    (named : info.name ≠ []) (missing : start.node root = none) :
    ∃ state ∈ (extractall env.umask (info :: rest) (extractDir options imgName) start).states,
      (state.node root).isSome = true := by
  have relative := tame.relative info List.mem_cons_self
  have joined := Str.joinPath_of_open lead.isOpen lead.ne_nil relative
  have stripped := Str.rstripChars_ne_nil relative named
  obtain ⟨above, isDirname, _, _⟩ := Str.dirname_behind lead.isOpen lead.ne_nil stripped
  obtain ⟨state, made, present⟩ := @exists_root_of_makedirs _ ClientError.os _ _ _ lead missing
    (masked env.umask 0o777) false above
  have upperdirs :
      state ∈ (makeUpperdirs env.umask (Str.rstripChars ['/']
        (Str.joinPath (extractDir options imgName) info.name)) start).states := by
    have absent := pathExists_behind_of_missing lead missing above
    have text := Str.behind_ne_nil lead.ne_nil above
    rw [joined, Str.rstripChars_behind lead.isOpen, makeUpperdirs, isDirname, Prog.bind_eq,
      Prog.reads_andThen, absent, if_pos (by simpa using text)]
    exact made
  have first (setAttrs : Bool) :
      state ∈ (extractMember env.umask (info :: rest) (extractDir options imgName)
        ((info :: rest).length + 1) info (Str.joinPath (extractDir options imgName) info.name)
          setAttrs start).states := by
    rw [extractMember_succ]
    exact Prog.mem_states_andThen_left upperdirs
  refine ⟨state, ?_, present⟩
  exact Prog.mem_states_andThen_left (Prog.mem_states_andThen_left (first _))

/-- Where nothing is in the way, the directory is made or removed. -/
theorem exists_changed_root (tame : archive.Tame) (nonempty : archive ≠ [])
    (named : ∀ info ∈ archive, info.name ≠ []) (free : ¬ Refused options start root) :
    ∃ state ∈ (extractSysImg env options imgName archive start).states,
      state.node root ≠ start.node root := by
  rw [extractSysImg_run, pathExists_extractDir lead noLink]
  cases found : start.node root with
  | none =>
      obtain ⟨info, rest, rfl⟩ := List.exists_cons_of_ne_nil nonempty
      obtain ⟨state, made, present⟩ := @exists_root_of_extractall env _ _ _ _ lead _ _ tame
        (named info List.mem_cons_self) found
      refine ⟨state, ?_, Option.ne_none_iff_isSome.mpr present⟩
      rw [clearDir, Option.isSome_none, if_neg (by decide), Prog.ret_andThen]
      exact Prog.mem_states_andThen_left made
  | some node =>
      have present : (start.node root).isSome = true := by rw [found]; rfl
      obtain ⟨force, isDir⟩ : options.forceApply = true ∧ start.isDirAt root = true := by
        constructor
        · by_contra noForce
          exact free ⟨present, .inl (by simpa using noForce)⟩
        · by_contra notDir
          exact free ⟨present, .inr (by simpa using notDir)⟩
      obtain ⟨finish, ends⟩ := @ends_rmtree _ ClientError.os _ _ _ lead noLink isDir
        lead.root_ne_nil
      have gone := node_of_rmtree lead noLink ends
      have inRun : finish ∈ (rmtree ClientError.os (extractDir options imgName) start).states := by
        rcases List.mem_cons.mp (Prog.final_mem (rmtree ClientError.os (extractDir options imgName)
          start) start) with here | later
        · rw [ends.2] at here
          rw [here, found] at gone
          cases gone
        · rwa [ends.2] at later
      refine ⟨finish, Prog.mem_states_andThen_left ?_, by simp [gone]⟩
      rw [clearDir, Option.isSome_some, if_pos rfl, if_pos force]
      exact inRun

end

/-- An accepted archive has members. -/
theorem ne_nil_of_accepted {counts : ReportCounts}
    (accepted : Prog.Ends
      (SysImgValidator.assertSysImgValid options.forceApply imgName env.toValidatorEnv archive) start
        counts start) : archive ≠ [] := by
  rintro rfl
  obtain ⟨_, found, _⟩ := (SysImgValidator.accepted_of_ends accepted).2.added.bytes
  cases found

/-- A client with directories `/e` and `/i`. -/
def siteClient : Fs :=
  Fs.ofNodes
    [(["e".toList], ⟨.directory, 0o755, 0, 0, 2⟩), (["i".toList], ⟨.directory, 0o755, 0, 0, 2⟩)]

theorem directoryRemoval_tame : directoryRemoval.Tame :=
  Archive.tame_of_no_links (by decide) (by decide) (by decide) fun info member linkname => by
    have regular : ∀ info ∈ directoryRemoval, ∃ content, info.type = .reg content := by
      simp [directoryRemoval]
    obtain ⟨content, isReg⟩ := regular info member
    simp [isReg]

end SysImgExtractor

end Myscm.Client
