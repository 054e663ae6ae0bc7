import Myscm.Client.UnsignedImages
import Myscm.Library.Completion

/-!
Owns what runs of `myscm-cli` make of the recorded version.

Owns: a run of a command up to the version file, and what it does behind that; runs that
return, raise or are cut off; histories of runs; the version over a history whose other
steps spare the version file.

Does not own: the download, which is arbitrary.
-/

namespace Myscm.Client

open Myscm.Library Myscm.Server SysImgExtractor

/-! ## An application up to the version file -/

section Application

variable (env : ClientEnv) (options : ClientOptions)

/-- `apply_sys_img` up to the version file: the version of the image and the directory it
was extracted to. -/
def applyUnrecorded : Prog Fs ClientError (Int × Str) := do
  let sysImgPath ← SysImgManager.getSysImgPath env.umask options
  let sysImgVer ← Prog.tryReads fun _ => SysImgManager.getTargetSysImgVerFromFname sysImgPath
  let (imgName, archive) ← openSysImg env sysImgPath
  let dir ← Prog.handle (validateExtractApply env options imgName archive) fun failure =>
    Prog.raise (failedToApply imgName failure)
  return (sysImgVer, dir)

/-- The end of `apply_sys_img`. -/
def recordVersion (sysImgVer : Int) (dir : Str) : Prog Fs ClientError Unit := do
  unlessDryRun options
    (SysImgManager.updateCurrentSystemStateVersion env.umask options sysImgVer)
  rmtreeIgnoringErrors .os dir

theorem applySysImg_eq :
    applySysImg env options =
      Prog.andThen (applyUnrecorded env options) fun done =>
        recordVersion env options done.1 done.2 := by
  simp only [applySysImg, applyUnrecorded, recordVersion, Prog.bind_eq, Prog.pure_eq,
    Prog.andThen_assoc, Prog.ret_andThen]

/-- An image that is applied leads from the recorded version to the one that is to be
recorded. -/
theorem applyUnrecorded_ends {start middle : Fs} {ver : Int} {dir : Str}
    (ends : Prog.Ends (applyUnrecorded env options) start (ver, dir) middle) :
    ∃ current chosen,
      MySCMImgVersionFile.recordedVersion options.recentSysImgVerPath start = .ok current ∧
        current < ver ∧ ver = options.applyImg ∧
          Prog.Ends (SysImgManager.getSysImgPath env.umask options) start
            (SysImgManager.imagePath options current) chosen := by
  obtain ⟨path, chosen, chosenEnds, ends⟩ := (Prog.ends_andThen_iff _ _ _ _ _).mp ends
  obtain ⟨current, recorded, newer, rfl⟩ := SysImgManager.getSysImgPath_ends _ _ chosenEnds
  obtain ⟨parsed, _, version, ends⟩ := (Prog.ends_andThen_iff _ _ _ _ _).mp ends
  obtain ⟨image, _, _, ends⟩ := (Prog.ends_andThen_iff _ _ _ _ _).mp ends
  obtain ⟨_, _, _, returned⟩ := (Prog.ends_andThen_iff _ _ _ _ _).mp ends
  obtain ⟨same, _⟩ := (Prog.ends_ret_iff _ _ _ _).mp returned
  obtain ⟨rfl, _⟩ := Prod.mk.inj same
  have target := SysImgManager.version_of_imagePath recorded newer
    ((Prog.ends_tryReads_iff _ _ _ _).mp version).1
  exact ⟨current, chosen, recorded, target ▸ newer, target, chosenEnds⟩

end Application

/-! ## The version file is written whole or not at all -/

theorem takesContent_of_isfile {s : Str} {fs : Fs} (regular : fs.isfile s = true) :
    Fs.TakesContent s fs := by
  unfold Fs.isfile Fs.stat at regular
  cases located : fs.locate true s with
  | none => simp [located] at regular
  | some path =>
      rw [located, Option.bind_some, Option.any_eq_true] at regular
      obtain ⟨node, found, isRegular⟩ := regular
      refine ⟨path, located, fun other isOther => ?_⟩
      rw [found, Option.mem_some_iff] at isOther
      rwa [← isOther]

theorem setValue_run (umask : Nat) (path : Str) (val : Int) (fs : Fs) :
    (∃ failure, MySCMImgVersionFile.setValue umask path val fs = ⟨[], .error failure⟩) ∨
      ∃ finish, Prog.Ends (MySCMImgVersionFile.setValue umask path val) fs () finish := by
  cases emptied : MySCMImgVersionFile.store umask path [] fs with
  | error failure =>
      left
      exact ⟨failure, Prog.andThen_error (Prog.step_error emptied)⟩
  | ok middle =>
      right
      have isfile : middle.isfile path = true := by
        unfold MySCMImgVersionFile.store at emptied
        split at emptied
        · rename_i next written
          obtain rfl := Except.ok.inj emptied
          obtain ⟨_, _, set⟩ := Option.bind_eq_some_iff.mp written
          exact (Fs.isfile_iff_readFile _ _).mpr ⟨_, Fs.readFile_of_setContent set⟩
        · cases emptied
      obtain ⟨opened, isOpened⟩ := Option.isSome_iff_exists.mp
        ((Fs.openTruncating_isSome_iff (masked umask 0o666) path middle).mpr
          (takesContent_of_isfile isfile))
      obtain ⟨finish, isFinish⟩ := Option.isSome_iff_exists.mp
        ((Fs.setContent_isSome_iff (Utf8.encode (Str.ofInt val)) path opened).mpr
          (Fs.isfile_of_openTruncating isOpened))
      refine ⟨finish, (Prog.ends_andThen_iff _ _ _ _ _).mpr ⟨(), middle, ?_, ?_⟩⟩
      · exact (Prog.ends_step_iff _ _ _).mpr emptied
      · rw [Prog.ends_step_iff, MySCMImgVersionFile.store, isOpened, Option.bind_some, isFinish]

/-! ## Runs -/

/-- A run of `myscm-cli` as it is called: no command is `--update`. -/
structure Invocation where
  env : ClientEnv
  options : ClientOptions
  update : Prog Fs ClientError (Option Str)
  command : Option Command

namespace Invocation

variable (run : Invocation)

/-- What the run does. -/
def program : Prog Fs ClientError Unit :=
  match run.command with
  | some command => main run.env run.options run.update command
  | none => do
      let _ ← run.update
      return ()

/-- What the run does up to the version file. None is a run without an application. -/
def unrecorded : Prog Fs ClientError (Option (Int × Str)) :=
  match run.command with
  | none => do
      let _ ← run.update
      return none
  | some (.applyImg ver) => do
      let done ← applyUnrecorded run.env { run.options with applyImg := ver }
      return some done
  | some (.upgradeSysImg requested) => do
      match ← run.update with
      | none => Prog.ret none
      | some sysImgPath => do
          let ver ← Prog.tryReads fun _ => upgradeVersion requested sysImgPath
          let done ← applyUnrecorded run.env { run.options with applyImg := ver }
          return some done

/-- What the run does behind that. -/
def record : Option (Int × Str) → Prog Fs ClientError Unit
  | none => Prog.ret ()
  | some (ver, dir) => recordVersion run.env run.options ver dir

theorem program_eq : run.program = Prog.andThen run.unrecorded run.record := by
  unfold program unrecorded
  cases run.command with
  | none => simp only [Prog.bind_eq, Prog.pure_eq, Prog.andThen_assoc, Prog.ret_andThen]; rfl
  | some command =>
      cases command with
      | applyImg ver =>
          simp only [main, applySysImg_eq, Prog.bind_eq, Prog.pure_eq, Prog.andThen_assoc,
            Prog.ret_andThen]
          rfl
      | upgradeSysImg requested =>
          simp only [main, Prog.bind_eq, Prog.andThen_assoc]
          congr 1
          funext downloaded
          cases downloaded with
          | none => simp only [Prog.ret_andThen]; rfl
          | some sysImgPath =>
              simp only [applySysImg_eq, Prog.pure_eq, Prog.andThen_assoc, Prog.ret_andThen]
              rfl

/-- A run leaves the state in which it returns or raises, or one in which it is cut off
before it writes the version file. -/
inductive Leaves (start : Fs) : Fs → Prop
  | whole : Leaves start ((run.program start).final start)
  | cutOff {state : Fs} (reached : state ∈ start :: (run.unrecorded start).states) :
      Leaves start state

/-- What the version file holds. -/
def version (fs : Fs) : Except ClientError Int :=
  MySCMImgVersionFile.readVersion run.options.recentSysImgVerPath fs

/-- Nothing but the recording of a version touches the version file: not the download, the
extraction and the application, and not the removal of the extracted image. -/
structure SparesVersion (start : Fs) : Prop where
  applying : ∀ state ∈ (run.unrecorded start).states, run.version state = run.version start
  cleaning : ∀ ver dir middle recorded,
    Prog.Ends run.unrecorded start (some (ver, dir)) middle →
      Prog.Ends (unlessDryRun run.options
        (SysImgManager.updateCurrentSystemStateVersion run.env.umask run.options ver)) middle ()
        recorded →
      ∀ state ∈ (rmtreeIgnoringErrors ClientError.os dir recorded).states,
        run.version state = run.version recorded

/-- The run applies the image `myscm-img.v.w.tar.gz` of the download directory. -/
def Applies (start : Fs) (v w : Int) : Prop :=
  ∃ command s applied chosen, run.command = some command ∧
    applicationStart run.options run.update start command = some (s, applied) ∧
      applied.applyImg = w ∧
        Prog.Ends (SysImgManager.getSysImgPath run.env.umask applied) s
          (Str.joinPath run.options.sysImgDownloadDir (SystemImageGenerator.myscmImgFileName v w))
          chosen

/-- The recorded version did not decrease, and changed only where an application without
`--dry-run` ended, which applied the image from the former version to the new one. -/
def Disciplined (start finish : Fs) : Prop :=
  ∃ v w, run.version start = .ok v ∧ run.version finish = .ok w ∧ v ≤ w ∧
    (v ≠ w → run.options.dryRun = false ∧ Prog.Ends run.program start () finish ∧
      run.Applies start v w)

variable {run}

/-- A run that applies an image starts to do so in one of its states. -/
theorem unrecorded_ends {start middle : Fs} {ver : Int} {dir : Str}
    (ends : Prog.Ends run.unrecorded start (some (ver, dir)) middle) :
    ∃ command s applied, run.command = some command ∧
      applicationStart run.options run.update start command = some (s, applied) ∧
        s ∈ start :: (run.unrecorded start).states ∧
          applied = { run.options with applyImg := applied.applyImg } ∧
            Prog.Ends (applyUnrecorded run.env applied) s (ver, dir) middle := by
  unfold unrecorded at ends ⊢
  cases isCommand : run.command with
  | none =>
      rw [isCommand] at ends
      obtain ⟨_, _, _, returned⟩ := (Prog.ends_andThen_iff _ _ _ _ _).mp ends
      cases ((Prog.ends_ret_iff _ _ _ _).mp returned).1
  | some command =>
      rw [isCommand] at ends
      cases command with
      | applyImg requested =>
          obtain ⟨done, _, applied, returned⟩ := (Prog.ends_andThen_iff _ _ _ _ _).mp ends
          obtain ⟨same, rfl⟩ := (Prog.ends_ret_iff _ _ _ _).mp returned
          obtain rfl := Option.some.inj same
          exact ⟨_, start, _, rfl, rfl, List.mem_cons_self, rfl, applied⟩
      | upgradeSysImg requested =>
          obtain ⟨downloaded, s, updated, ends⟩ := (Prog.ends_andThen_iff _ _ _ _ _).mp ends
          cases downloaded with
          | none => cases ((Prog.ends_ret_iff _ _ _ _).mp ends).1
          | some sysImgPath =>
              obtain ⟨target, _, parsed, ends⟩ := (Prog.ends_andThen_iff _ _ _ _ _).mp ends
              obtain ⟨isTarget, rfl⟩ := (Prog.ends_tryReads_iff _ _ _ _).mp parsed
              obtain ⟨done, _, applied, returned⟩ := (Prog.ends_andThen_iff _ _ _ _ _).mp ends
              obtain ⟨same, rfl⟩ := (Prog.ends_ret_iff _ _ _ _).mp returned
              obtain rfl := Option.some.inj same
              have version : upgradeVersion requested sysImgPath = .ok target := isTarget
              refine ⟨_, _, { run.options with applyImg := target }, rfl, ?_, ?_, rfl, applied⟩
              · simp only [applicationStart, updated.1, updated.2, version, Except.toOption,
                  Option.map_some]
              · have reached := Prog.final_mem (run.update start) start
                rw [updated.2] at reached
                rcases List.mem_cons.mp reached with here | later
                · rw [here]
                  exact List.mem_cons_self
                · exact List.mem_cons_of_mem _ (Prog.mem_states_andThen_left later)

theorem SparesVersion.reached {start state : Fs} (spares : run.SparesVersion start)
    (member : state ∈ start :: (run.unrecorded start).states) :
    run.version state = run.version start := by
  rcases List.mem_cons.mp member with rfl | later
  · rfl
  · exact spares.applying state later

theorem recordedVersion_of_version {fs : Fs} {v : Int} (held : run.version fs = .ok v) :
    MySCMImgVersionFile.recordedVersion run.options.recentSysImgVerPath fs = .ok v := by
  have isfile : fs.isfile run.options.recentSysImgVerPath = true := by
    rw [Fs.isfile_iff_readFile]
    unfold version MySCMImgVersionFile.readVersion at held
    cases read : fs.readFile run.options.recentSysImgVerPath with
    | some bytes => exact ⟨bytes, rfl⟩
    | none =>
        rw [read] at held
        cases held
  rw [MySCMImgVersionFile.recordedVersion, if_pos isfile]
  exact held

/-- An application whose other steps spare the version file leads from the version in it to
the one that is recorded. -/
theorem applies_of_unrecorded {start middle : Fs} {ver v : Int} {dir : Str}
    (spares : run.SparesVersion start) (held : run.version start = .ok v)
    (ends : Prog.Ends run.unrecorded start (some (ver, dir)) middle) :
    v < ver ∧ run.Applies start v ver := by
  obtain ⟨command, s, applied, isCommand, starts, member, same, applying⟩ := unrecorded_ends ends
  obtain ⟨current, chosen, recorded, newer, target, chosenEnds⟩ := applyUnrecorded_ends _ _ applying
  have heldThere := recordedVersion_of_version ((spares.reached member).trans held)
  rw [same, heldThere] at recorded
  obtain rfl := Except.ok.inj recorded
  refine ⟨newer, command, s, applied, chosen, isCommand, starts, target.symm, ?_⟩
  rw [SysImgManager.imagePath, ← target] at chosenEnds
  rw [same] at chosenEnds ⊢
  exact chosenEnds

/-- What the end of a run leaves in the version file, where nothing was recorded. -/
theorem disciplined_of_same {start finish : Fs} {v : Int} (held : run.version start = .ok v)
    (same : run.version finish = run.version start) : run.Disciplined start finish :=
  ⟨v, v, held, same.trans held, Int.le_refl v, fun differ => absurd rfl differ⟩

theorem version_behind_cleaning {dir : Str} {recorded : Fs}
    (spares : ∀ state ∈ (rmtreeIgnoringErrors ClientError.os dir recorded).states,
      run.version state = run.version recorded) :
    run.version ((rmtreeIgnoringErrors ClientError.os dir recorded).final recorded) =
      run.version recorded := by
  rcases List.mem_cons.mp (Prog.final_mem (rmtreeIgnoringErrors ClientError.os dir recorded)
    recorded) with here | later
  · rw [here]
  · exact spares _ later

theorem ends_rmtreeIgnoringErrors (dir : Str) (fs : Fs) :
    Prog.Ends (rmtreeIgnoringErrors ClientError.os dir) fs ()
      ((rmtreeIgnoringErrors ClientError.os dir fs).final fs) := by
  refine ⟨?_, rfl⟩
  unfold rmtreeIgnoringErrors Prog.handle
  cases ending : (rmtree ClientError.os dir fs).ending with
  | ok _ => simp only [ending]
  | error _ => simp only [ending]; rfl

/-- The version is recorded whole or not at all, and the extracted image removed. -/
theorem disciplined_of_recorded {start middle : Fs} {ver v : Int} {dir : Str}
    (spares : run.SparesVersion start) (held : run.version start = .ok v)
    (ends : Prog.Ends run.unrecorded start (some (ver, dir)) middle)
    (behind : run.version middle = run.version start) :
    run.Disciplined start ((run.record (some (ver, dir)) middle).final middle) := by
  obtain ⟨newer, applies⟩ := applies_of_unrecorded spares held ends
  have isRecord : run.record (some (ver, dir)) =
      Prog.andThen (unlessDryRun run.options
        (SysImgManager.updateCurrentSystemStateVersion run.env.umask run.options ver))
        fun _ => rmtreeIgnoringErrors .os dir := rfl
  rw [isRecord]
  cases dry : run.options.dryRun with
  | true =>
      have left : Prog.Ends (unlessDryRun run.options
          (SysImgManager.updateCurrentSystemStateVersion run.env.umask run.options ver)) middle ()
          middle := by
        rw [unlessDryRun, if_pos dry]
        exact ⟨rfl, rfl⟩
      rw [Prog.final_andThen left]
      exact disciplined_of_same held
        ((version_behind_cleaning (spares.cleaning _ _ _ _ ends left)).trans behind)
  | false =>
      rcases setValue_run run.env.umask run.options.recentSysImgVerPath ver middle with
        ⟨failure, raised⟩ | ⟨recorded, stored⟩
      · have kept : unlessDryRun run.options
            (SysImgManager.updateCurrentSystemStateVersion run.env.umask run.options ver) middle =
              ⟨[], .error (SysImgManager.failedToUpdate run.options.recentSysImgVerPath)⟩ := by
          simp only [unlessDryRun, dry, Bool.false_eq_true, if_false,
            SysImgManager.updateCurrentSystemStateVersion]
          rw [Prog.handle_raise_run _
            (fun _ => SysImgManager.failedToUpdate run.options.recentSysImgVerPath), raised]
          rfl
        rw [Prog.andThen_error kept]
        exact disciplined_of_same held behind
      · have left : Prog.Ends (unlessDryRun run.options
            (SysImgManager.updateCurrentSystemStateVersion run.env.umask run.options ver)) middle ()
            recorded := by
          simpa [unlessDryRun, dry, SysImgManager.updateCurrentSystemStateVersion,
            Prog.ends_handle_iff] using stored
        have allowed : 0 ≤ ver := by
          have nonneg := MySCMImgVersionFile.startingValue_le_of_readVersion held
          omega
        have isVer : run.version recorded = .ok ver :=
          MySCMImgVersionFile.readVersion_of_setValue run.env.umask allowed stored
        rw [Prog.final_andThen left]
        refine ⟨v, ver, held,
          (version_behind_cleaning (spares.cleaning _ _ _ _ ends left)).trans isVer,
          Int.le_of_lt newer, fun _ => ⟨dry, ?_, applies⟩⟩
        rw [program_eq, Prog.ends_andThen_iff]
        refine ⟨_, middle, ends, ?_⟩
        rw [isRecord, Prog.ends_andThen_iff]
        exact ⟨(), recorded, left, ends_rmtreeIgnoringErrors dir recorded⟩

/-- A run whose other steps spare the version file is disciplined, however it ends. -/
theorem disciplined_of_leaves {start finish : Fs} {v : Int} (spares : run.SparesVersion start)
    (held : run.version start = .ok v) (leaves : run.Leaves start finish) :
    run.Disciplined start finish := by
  cases leaves with
  | cutOff reached => exact disciplined_of_same held (spares.reached reached)
  | whole =>
      have behind := spares.reached (Prog.final_mem (run.unrecorded start) start)
      cases ending : (run.unrecorded start).ending with
      | error failure =>
          rw [program_eq, Prog.final_andThen_error ending]
          exact disciplined_of_same held behind
      | ok done =>
          obtain ⟨middle, ends⟩ : ∃ middle, Prog.Ends run.unrecorded start done middle :=
            ⟨_, ending, rfl⟩
          rw [ends.2] at behind
          rw [program_eq, Prog.final_andThen ends]
          cases done with
          | none => exact disciplined_of_same held behind
          | some done =>
              obtain ⟨ver, dir⟩ := done
              exact disciplined_of_recorded spares held ends behind

end Invocation

/-! ## Histories -/

/-- Runs one after another, each with the states before and behind it. -/
inductive History (path : Str) : Fs → List (Invocation × Fs × Fs) → Fs → Prop
  | nil (fs : Fs) : History path fs [] fs
  | cons {run : Invocation} {start middle finish : Fs} {later : List (Invocation × Fs × Fs)}
      (here : run.options.recentSysImgVerPath = path) (leaves : run.Leaves start middle)
      (rest : History path middle later finish) :
      History path start ((run, start, middle) :: later) finish

/-- The image removes `/v`, and then the directory `/d`, which raises. -/
def versionRemoval : Archive :=
  [⟨SystemImageGenerator.addedFilesFname, .reg [], 0o644, 0, 0⟩,
    ⟨SystemImageGenerator.removedFilesFname, .reg (Utf8.encode "/v\x00?\n/d\x00?\n".toList), 0o644,
      0, 0⟩,
    ⟨SystemImageGenerator.changedFilesFname, .reg [], 0o644, 0, 0⟩]

/-- A client in version 1 with the image `myscm-img.1.2.tar.gz`. -/
def versionClient : Fs :=
  Fs.ofNodes
    [(["v".toList], ⟨.regular (Utf8.encode ['1']), 0o644, 0, 0, 1⟩),
      (["d".toList], ⟨.directory, 0o755, 0, 0, 2⟩),
      (["d".toList, "myscm-img.1.2.tar.gz".toList], ⟨.regular [1], 0o644, 0, 0, 1⟩)]

def versionRun : Invocation where
  env := { unsignedEnv with openTar := fun _ => some versionRemoval }
  options := unsignedOptions
  update := Prog.ret none
  command := some (.applyImg 2)

/-- The state in which the run raises. -/
def versionFinish : Fs := (versionRun.program versionClient).final versionClient

def advancingRun : Invocation where
  env := unsignedEnv
  options := unsignedOptions
  update := Prog.ret none
  command := some (.applyImg 1)

def advancingFinish : Fs := (advancingRun.program unsignedClient).final unsignedClient

/-- The state in front of the recording, and the one behind it. -/
def advancingMiddle : Fs := (advancingRun.unrecorded unsignedClient).final unsignedClient

def advancingRecorded : Fs :=
  (SysImgManager.updateCurrentSystemStateVersion unsignedEnv.umask unsignedOptions 1
    advancingMiddle).final advancingMiddle

/-- The run applies the image, records its version, and spares the version file. -/
theorem advancing_states :
    (advancingRun.unrecorded unsignedClient).ending =
        .ok (some (1, "/d/myscm-img.0.1".toList)) ∧
      (SysImgManager.updateCurrentSystemStateVersion unsignedEnv.umask unsignedOptions 1
        advancingMiddle).ending = .ok () ∧
        (∀ state ∈ (advancingRun.unrecorded unsignedClient).states,
          advancingRun.version state = advancingRun.version unsignedClient) ∧
          ∀ state ∈ (rmtreeIgnoringErrors ClientError.os "/d/myscm-img.0.1".toList
              advancingRecorded).states,
            advancingRun.version state = advancingRun.version advancingRecorded := by
  decide +kernel

theorem advancing_ends :
    Prog.Ends advancingRun.unrecorded unsignedClient (some (1, "/d/myscm-img.0.1".toList))
      advancingMiddle :=
  ⟨advancing_states.1, rfl⟩

theorem advancing_records :
    Prog.Ends (unlessDryRun advancingRun.options
      (SysImgManager.updateCurrentSystemStateVersion advancingRun.env.umask advancingRun.options 1))
      advancingMiddle () advancingRecorded := by
  have wet : advancingRun.options.dryRun = false := rfl
  rw [unlessDryRun, wet, if_neg Bool.false_ne_true]
  exact ⟨advancing_states.2.1, rfl⟩

theorem advancingRun_spares : advancingRun.SparesVersion unsignedClient where
  applying := advancing_states.2.2.1
  cleaning := by
    intro ver dir middle recorded ends records
    obtain ⟨same, isMiddle⟩ := ends.unique advancing_ends
    obtain ⟨isVer, isDir⟩ := Prod.mk.inj (Option.some.inj same)
    rw [isVer, isMiddle] at records
    obtain ⟨_, isRecorded⟩ := records.unique advancing_records
    rw [isDir, isRecorded]
    exact advancing_states.2.2.2

end Myscm.Client
