import Myscm.Client.Main
import Myscm.Library.Completion

/-!
Owns the question what `myscm-cli` applies without a verified signature.

Owns: where a command starts to apply an image; the property that nothing
outside the extraction directory changes without a valid signature; when the
code has it.

Does not own: OpenSSL and the download, both arbitrary.
-/

namespace Myscm.Client

open Myscm.Library Myscm.Server SysImgExtractor

section Property

variable (env : ClientEnv) (options : ClientOptions) (update : Prog Fs ClientError (Option Str))
  (openssl : Str → List UInt8 → List UInt8 → Option Bool)

/-- The state in which a command starts to apply an image, and the options it
does so with; none where it ends before. -/
def applicationStart (start : Fs) : Command → Option (Fs × ClientOptions)
  | .applyImg ver => some (start, { options with applyImg := ver })
  | .upgradeSysImg requested =>
      match (update start).ending with
      | .ok (some sysImgPath) =>
          (upgradeVersion requested sysImgPath).toOption.map fun ver =>
            ((update start).final start, { options with applyImg := ver })
      | _ => none

/-- The states of the download before that. -/
def downloadStates (start : Fs) : Command → List Fs
  | .applyImg _ => []
  | .upgradeSysImg _ => (update start).states

/-- The states of the application of an image. -/
def applicationStates (start : Fs) (command : Command) : List Fs :=
  (main env options update command start).states.drop
    (downloadStates update start command).length

/-- `ssl_verify` returns true for the image to be applied, with the configured key. -/
def Signed (s : Fs) : Prop :=
  ∃ current, MySCMImgVersionFile.recordedVersion options.recentSysImgVerPath s = .ok current ∧
    SignatureManager.sslVerify openssl (SysImgManager.imagePath options current)
      (SysImgManager.imagePath options current ++ SignatureManager.signatureExt)
      options.sslCertPublicKeyPath s = .ok true

/-- The name of the open image, and the directory it is extracted to. -/
def openImgName (s : Fs) (current : Int) : Str :=
  Str.abspath s.cwd (SysImgManager.imagePath options current)

/-- No path outside the extraction directory differs, and the recorded version is
not above the former one. -/
def Spared (before after : Fs) : Prop :=
  ∀ current,
    MySCMImgVersionFile.recordedVersion options.recentSysImgVerPath before = .ok current →
      (∀ path, ¬ before.realpath (extractDir options (openImgName options before current)) <+: path →
        after.node path = before.node path) ∧
      ∀ newer, MySCMImgVersionFile.readVersion options.recentSysImgVerPath after = .ok newer →
        newer ≤ current

/-- Nothing unsigned is applied in a run of the command. -/
def NothingUnsignedApplied (start : Fs) (command : Command) : Prop :=
  ∀ s applied, applicationStart options update start command = some (s, applied) →
    Signed applied openssl s ∨
      ∀ state ∈ applicationStates env options update start command, Spared applied s state

/-- The image is refused before anything is applied: the version file is there,
and it is corrupt, or the version is not newer, or there is no such image, or it
is no archive, or the validator refuses it, or the directory it would be
extracted to is left from an earlier run and `--force` is off. -/
def Refused (s : Fs) : Prop :=
  s.isfile options.recentSysImgVerPath = true ∧
    ∀ current,
      MySCMImgVersionFile.recordedVersion options.recentSysImgVerPath s = .ok current →
      current < options.applyImg →
      ∀ archive, (s.readFile (SysImgManager.imagePath options current)).bind env.openTar =
          some archive →
        (∀ counts, ¬ Prog.Ends
          (SysImgValidator.assertSysImgValid options.forceApply (openImgName options s current)
            env.toValidatorEnv archive) s counts s) ∨
        (options.forceApply = false ∧
          s.pathExists (extractDir options (openImgName options s current)) = true)

end Property

variable {env : ClientEnv} {options : ClientOptions}

/-- A run of a command is its download, then the application of the image. -/
theorem applicationStates_eq (update : Prog Fs ClientError (Option Str)) (start : Fs)
    (command : Command) :
    applicationStates env options update start command =
      match applicationStart options update start command with
      | some (s, applied) => (applySysImg env applied s).states
      | none => [] := by
  cases command with
  | applyImg ver => simp [applicationStates, applicationStart, downloadStates, main]
  | upgradeSysImg requested =>
      unfold applicationStates applicationStart downloadStates main
      cases ran : update start with
      | mk states ending =>
          cases ending with
          | error failure => simp [Prog.andThen, ran]
          | ok downloaded =>
              cases downloaded with
              | none => simp [Prog.andThen, ran]
              | some sysImgPath =>
                  cases version : upgradeVersion requested sysImgPath with
                  | error failure => simp [Prog.andThen, ran, version, Except.toOption]
                  | ok ver => simp [Prog.andThen, ran, version, Except.toOption, Run.final]

/-- A command that ends has applied the image it started to apply. -/
theorem applySysImg_ends_of_main {update : Prog Fs ClientError (Option Str)} {start finish s : Fs}
    {command : Command} {applied : ClientOptions}
    (starts : applicationStart options update start command = some (s, applied))
    (ends : Prog.Ends (main env options update command) start () finish) :
    Prog.Ends (applySysImg env applied) s () finish := by
  cases command with
  | applyImg ver =>
      obtain ⟨rfl, rfl⟩ := Prod.mk.inj (Option.some.inj starts)
      exact ends
  | upgradeSysImg requested =>
      obtain ⟨downloaded, middle, updated, rest⟩ := (Prog.ends_andThen_iff _ _ _ _ _).mp ends
      unfold applicationStart at starts
      rw [updated.1, updated.2] at starts
      cases downloaded with
      | none => cases starts
      | some sysImgPath =>
          obtain ⟨ver, _, version, rest⟩ := (Prog.ends_andThen_iff _ _ _ _ _).mp rest
          obtain ⟨computed, rfl⟩ := (Prog.ends_tryReads_iff _ _ _ _).mp version
          have version : upgradeVersion requested sysImgPath = .ok ver := computed
          simp only [version] at starts
          obtain ⟨rfl, rfl⟩ := Prod.mk.inj (Option.some.inj starts)
          exact rest

theorem dryRun_of_applicationStart {update : Prog Fs ClientError (Option Str)} {start s : Fs}
    {command : Command} {applied : ClientOptions}
    (starts : applicationStart options update start command = some (s, applied)) :
    applied.dryRun = options.dryRun := by
  cases command with
  | applyImg ver =>
      obtain ⟨rfl, rfl⟩ := Prod.mk.inj (Option.some.inj starts)
      rfl
  | upgradeSysImg requested =>
      simp only [applicationStart] at starts
      split at starts
      · obtain ⟨ver, _, here⟩ := Option.map_eq_some_iff.mp starts
        obtain ⟨_, rfl⟩ := Prod.mk.inj here
        rfl
      · cases starts

/-! ## The image that is opened -/

/-- The image is newer than the recorded version, and an archive. -/
structure Opens (env : ClientEnv) (options : ClientOptions) (s : Fs) (current : Int)
    (archive : Archive) : Prop where
  recorded : MySCMImgVersionFile.recordedVersion options.recentSysImgVerPath s = .ok current
  newer : current < options.applyImg
  read : (s.readFile (SysImgManager.imagePath options current)).bind env.openTar = some archive

/-- What `apply_sys_img` does with an image that it has opened. -/
def applyOpened (env : ClientEnv) (options : ClientOptions) (imgName : Str) (archive : Archive) :
    Prog Fs ClientError Unit :=
  Prog.andThen
    (Prog.handle (validateExtractApply env options imgName archive) fun failure =>
      Prog.raise (failedToApply imgName failure))
    fun dir =>
      Prog.andThen
        (unlessDryRun options
          (SysImgManager.updateCurrentSystemStateVersion env.umask options options.applyImg))
        fun _ => rmtreeIgnoringErrors .os dir

section Opening

variable {s : Fs} (isfile : s.isfile options.recentSysImgVerPath = true)
include isfile

theorem readVersion_of_recorded {current : Int}
    (recorded : MySCMImgVersionFile.recordedVersion options.recentSysImgVerPath s = .ok current) :
    MySCMImgVersionFile.readVersion options.recentSysImgVerPath s = .ok current := by
  rwa [MySCMImgVersionFile.recordedVersion, if_pos isfile] at recorded

theorem applySysImg_of_opens {current : Int} {archive : Archive}
    (opens : Opens env options s current archive) :
    applySysImg env options s =
      applyOpened env options (openImgName options s current) archive s := by
  obtain ⟨bytes, read, isTar⟩ := Option.bind_eq_some_iff.mp opens.read
  have image : s.isfile (SysImgManager.imagePath options current) = true :=
    (Fs.isfile_iff_readFile _ _).mpr ⟨bytes, read⟩
  have version := MySCMImgVersionFile.getVersion_of_isfile env.umask isfile
  rw [readVersion_of_recorded isfile opens.recorded] at version
  have chosen : SysImgManager.getSysImgPath env.umask options s =
      ⟨[], .ok (SysImgManager.imagePath options current)⟩ := by
    have newer : ¬ current ≥ options.applyImg := Int.not_le.mpr opens.newer
    rw [SysImgManager.getSysImgPath, Prog.bind_eq, Prog.andThen_of_run version, if_neg newer]
    simp [image]
  have target : (Prog.tryReads fun _ : Fs => SysImgManager.getTargetSysImgVerFromFname
      (SysImgManager.imagePath options current)) s = ⟨[], .ok options.applyImg⟩ := by
    rw [Prog.tryReads_run, SysImgManager.version_of_recorded opens.recorded opens.newer]
  have opened : openSysImg env (SysImgManager.imagePath options current) s =
      ⟨[], .ok (openImgName options s current, archive)⟩ := by
    rw [openSysImg, Prog.tryReads_run, opens.read]
    rfl
  rw [applySysImg, Prog.bind_eq, Prog.andThen_of_run chosen, Prog.bind_eq,
    Prog.andThen_of_run target, Prog.bind_eq, Prog.andThen_of_run opened]
  rfl

/-- Without an image that can be opened, nothing is done. -/
theorem applySysImg_of_not_opens (none : ∀ current archive, ¬ Opens env options s current archive) :
    (applySysImg env options s).states = [] := by
  obtain ⟨noStep, _⟩ := SysImgManager.getSysImgPath_of_isfile env.umask options isfile
  rw [applySysImg, Prog.bind_eq, Prog.states_andThen_of_nil noStep]
  cases chosen : (SysImgManager.getSysImgPath env.umask options s).ending with
  | error failure => rfl
  | ok path =>
      have chosenEnds : Prog.Ends (SysImgManager.getSysImgPath env.umask options) s path s :=
        ⟨chosen, by simp [Run.final, noStep]⟩
      obtain ⟨current, recorded, newer, rfl⟩ := SysImgManager.getSysImgPath_ends _ _ chosenEnds
      dsimp only
      rw [Prog.bind_eq, Prog.states_andThen_of_nil rfl]
      split
      · rfl
      · rw [Prog.bind_eq, Prog.states_andThen_of_nil rfl]
        split
        · rfl
        · rename_i image opened
          simp only [openSysImg, Prog.tryReads_run] at opened
          split at opened
          · rename_i archive found
            exact absurd ⟨recorded, newer, found⟩ (none current archive)
          · cases opened

end Opening

/-! ## An image that is refused -/

/-- The program makes no step and raises. -/
def Stops {α : Type} (program : Prog Fs ClientError α) (s : Fs) : Prop :=
  (program s).states = [] ∧ ∀ value finish, ¬ Prog.Ends program s value finish

theorem Stops.andThen {α β : Type} {first : Prog Fs ClientError α} {s : Fs} (stops : Stops first s)
    (next : α → Prog Fs ClientError β) : Stops (Prog.andThen first next) s := by
  constructor
  · refine List.eq_nil_iff_forall_not_mem.mpr fun state member => ?_
    rcases Prog.mem_states_andThen_cases member with early | ⟨value, middle, ends, _⟩
    · rw [stops.1] at early
      cases early
    · exact stops.2 value middle ends
  · intro value finish ends
    obtain ⟨first, middle, endsFirst, _⟩ := (Prog.ends_andThen_iff _ _ _ _ _).mp ends
    exact stops.2 first middle endsFirst

/-- Behind a validator that refuses, and an extraction that does not begin, nothing is done. -/
theorem stops_validateExtractApply {s : Fs} {imgName : Str} {archive : Archive}
    (stops : (∀ counts, ¬ Prog.Ends
        (SysImgValidator.assertSysImgValid options.forceApply imgName env.toValidatorEnv archive)
        s counts s) ∨
      Stops (extractSysImg env options imgName archive) s) :
    Stops (validateExtractApply env options imgName archive) s := by
  have quiet := SysImgValidator.quiet_assertSysImgValid options.forceApply imgName
    env.toValidatorEnv archive
  have stopsHere {counts : ReportCounts} {middle : Fs}
      (ends : Prog.Ends (SysImgValidator.assertSysImgValid options.forceApply imgName
        env.toValidatorEnv archive) s counts middle) :
      Stops (extractSysImg env options imgName archive) middle := by
    obtain rfl : s = middle := (quiet.final s).symm.trans ends.2
    exact stops.resolve_left fun invalid => invalid counts ends
  constructor
  · refine List.eq_nil_iff_forall_not_mem.mpr fun state member => ?_
    rcases Prog.mem_states_andThen_cases member with early | ⟨counts, middle, valid, late⟩
    · rw [quiet s] at early
      cases early
    · rw [Prog.bind_eq, ((stopsHere valid).andThen _).1] at late
      cases late
  · intro dir finish ends
    obtain ⟨counts, middle, valid, rest⟩ := (Prog.ends_andThen_iff _ _ _ _ _).mp ends
    exact ((stopsHere valid).andThen _).2 _ _ rest

/-- A directory that is left over is not extracted to. -/
theorem stops_extractSysImg {s : Fs} {imgName : Str} {archive : Archive}
    (notForced : options.forceApply = false)
    (there : s.pathExists (extractDir options imgName) = true) :
    Stops (extractSysImg env options imgName archive) s := by
  have raised : extractSysImg env options imgName archive s =
      Prog.andThen (Prog.raise (.sysImgExtractor
        ("Directory '".toList ++ extractDir options imgName ++
          "' already exists - it may be caused if last system upgrade has failed or ".toList ++
          "was interrupred.".toList)))
        (fun _ : Unit => Prog.andThen (extractall env.umask archive (extractDir options imgName))
          fun _ => Prog.ret (extractDir options imgName)) s := by
    simp [extractSysImg, there, notForced]
  constructor
  · rw [raised]
    rfl
  · intro dir finish ends
    rw [Prog.Ends, raised] at ends
    cases ends.1

theorem stops_applyOpened {s : Fs} {imgName : Str} {archive : Archive}
    (stops : Stops (validateExtractApply env options imgName archive) s) :
    Stops (applyOpened env options imgName archive) s := by
  apply Stops.andThen
  constructor
  · rw [Prog.handle_raise_run]
    exact stops.1
  · intro dir finish ends
    exact stops.2 dir finish ((Prog.ends_handle_raise_iff _ _ _ _ _).mp ends)

theorem applySysImg_refused {s : Fs} (refused : Refused env options s) :
    (applySysImg env options s).states = [] := by
  obtain ⟨isfile, refused⟩ := refused
  by_cases opened : ∃ current archive, Opens env options s current archive
  · obtain ⟨current, archive, opens⟩ := opened
    rw [applySysImg_of_opens isfile opens]
    refine (stops_applyOpened (stops_validateExtractApply ?_)).1
    exact (refused current opens.recorded opens.newer archive opens.read).imp_right
      fun leftOver => stops_extractSysImg leftOver.1 leftOver.2
  · exact applySysImg_of_not_opens isfile fun current archive opens =>
      opened ⟨current, archive, opens⟩

/-! ## An image that is applied -/

/-- A run that ends has recorded the version of its image in one of its states. -/
theorem not_spared_of_ends {s finish : Fs} (wet : options.dryRun = false)
    (ends : Prog.Ends (applySysImg env options) s () finish) :
    ∃ state ∈ (applySysImg env options s).states, ¬ Spared options s state := by
  obtain ⟨path, s1, chosen, ends1⟩ := (Prog.ends_andThen_iff _ _ _ _ _).mp ends
  obtain ⟨current, recorded, newer, rfl⟩ := SysImgManager.getSysImgPath_ends _ _ chosen
  obtain ⟨ver, _, version, ends2⟩ := (Prog.ends_andThen_iff _ _ _ _ _).mp ends1
  obtain ⟨image, _, opened, ends3⟩ := (Prog.ends_andThen_iff _ _ _ _ _).mp ends2
  obtain ⟨dir, s4, applied, ends4⟩ := (Prog.ends_andThen_iff _ _ _ _ _).mp ends3
  obtain ⟨_, state, updated, _⟩ := (Prog.ends_andThen_iff _ _ _ _ _).mp ends4
  have currentNonneg := MySCMImgVersionFile.startingValue_le_of_recordedVersion recorded
  have target : ver = options.applyImg :=
    SysImgManager.version_of_imagePath recorded newer
      ((Prog.ends_tryReads_iff _ _ _ _).mp version).1
  subst target
  have stored : Prog.Ends (MySCMImgVersionFile.setValue env.umask options.recentSysImgVerPath
      options.applyImg) s4 () state := by
    simpa [unlessDryRun, wet, SysImgManager.updateCurrentSystemStateVersion,
      Prog.ends_handle_iff] using updated
  refine ⟨state, ?_, ?_⟩
  · apply Prog.mem_states_andThen_right chosen
    apply Prog.mem_states_andThen_right version
    apply Prog.mem_states_andThen_right opened
    apply Prog.mem_states_andThen_right applied
    apply Prog.mem_states_andThen_left
    simp only [unlessDryRun, wet, Bool.false_eq_true, if_false]
    exact Prog.mem_states_handle (MySCMImgVersionFile.mem_states_setValue env.umask stored)
  · intro spared
    have same := (spared current recorded).2 options.applyImg
      (MySCMImgVersionFile.readVersion_of_setValue env.umask (by omega) stored)
    omega

/-- Nothing unsigned is applied where the signature is valid or the image is
refused; and a command that applies an image to its end without `--dry-run` has
applied nothing unsigned only if the signature was valid. -/
theorem nothingUnsignedApplied_iff (env : ClientEnv) (options : ClientOptions)
    (update : Prog Fs ClientError (Option Str))
    (openssl : Str → List UInt8 → List UInt8 → Option Bool) (start : Fs) (command : Command) :
    ((∀ s applied, applicationStart options update start command = some (s, applied) →
        Signed applied openssl s ∨ Refused env applied s) →
      NothingUnsignedApplied env options update openssl start command) ∧
    (options.dryRun = false →
      (∃ finish, Prog.Ends (main env options update command) start () finish) →
      (NothingUnsignedApplied env options update openssl start command ↔
        ∀ s applied, applicationStart options update start command = some (s, applied) →
          Signed applied openssl s)) := by
  refine ⟨?_, ?_⟩
  · intro condition s applied starts
    rcases condition s applied starts with signed | refused
    · exact .inl signed
    · right
      intro state member
      rw [applicationStates_eq, starts] at member
      dsimp only at member
      rw [applySysImg_refused refused] at member
      cases member
  · rintro wet ⟨finish, ends⟩
    constructor
    · intro property s applied starts
      rcases property s applied starts with signed | spared
      · exact signed
      · obtain ⟨state, member, changed⟩ := not_spared_of_ends
          ((dryRun_of_applicationStart starts).trans wet) (applySysImg_ends_of_main starts ends)
        refine absurd (spared state ?_) changed
        rw [applicationStates_eq, starts]
        exact member
    · intro signed s applied starts
      exact .inl (signed s applied starts)

/-! ## An unsigned image that adds a file -/

/-- A client in version 0 with the image `myscm-img.0.1.tar.gz` and no signature. -/
def unsignedClient : Fs :=
  Fs.ofNodes
    [(["v".toList], ⟨.regular (Utf8.encode ['0']), 0o644, 0, 0, 1⟩),
      (["d".toList], ⟨.directory, 0o755, 0, 0, 2⟩),
      (["d".toList, "myscm-img.0.1.tar.gz".toList], ⟨.regular [1], 0o644, 0, 0, 1⟩)]

/-- The image adds the file `/x`. -/
def unsignedImage : Archive :=
  [⟨"ADDED/x".toList, .reg [7], 0o644, 0, 0⟩,
    ⟨SystemImageGenerator.addedFilesFname, .reg (Utf8.encode "/x\x00?\n".toList), 0o644, 0, 0⟩,
    ⟨SystemImageGenerator.removedFilesFname, .reg [], 0o644, 0, 0⟩,
    ⟨SystemImageGenerator.changedFilesFname, .reg [], 0o644, 0, 0⟩]

/-- A machine on which every archive reads as `unsignedImage`. -/
def unsignedEnv : ClientEnv where
  host := ⟨[], [], [], id⟩
  md5 _ := []
  sha1 _ := []
  openTar _ := some unsignedImage
  applyPatch _ text := some text
  vars := ⟨[], [], [], [], [], fun _ => none, id⟩
  umask := 0o22

def unsignedOptions : ClientOptions where
  forceApply := false
  dryRun := false
  sysImgExtractDir := "/e".toList
  sysImgDownloadDir := "/d".toList
  sslCertPublicKeyPath := "/k".toList
  recentSysImgVerPath := "/v".toList
  applyImg := 0

/-- The application of the image ends. -/
theorem unsigned_ends :
    Prog.Ends (main unsignedEnv unsignedOptions (Prog.ret none) (.applyImg 1)) unsignedClient ()
      ((main unsignedEnv unsignedOptions (Prog.ret none) (.applyImg 1) unsignedClient).final
        unsignedClient) := by
  have ends : (main unsignedEnv unsignedOptions (Prog.ret none) (.applyImg 1)
      unsignedClient).ending.isOk = true := by decide +kernel
  refine ⟨?_, rfl⟩
  cases ending : (main unsignedEnv unsignedOptions (Prog.ret none) (.applyImg 1)
      unsignedClient).ending with
  | error failure =>
      rw [ending] at ends
      cases ends
  | ok _ => rfl

/-- The theorem for the image without a signature: it is applied, so the signature decides. -/
theorem nothingUnsignedApplied_iff_unsigned_image :
    NothingUnsignedApplied unsignedEnv unsignedOptions (Prog.ret none) (fun _ _ _ => some false)
        unsignedClient (.applyImg 1) ↔
      ∀ s applied,
        applicationStart unsignedOptions (Prog.ret none) unsignedClient (.applyImg 1) =
            some (s, applied) →
          Signed applied (fun _ _ _ => some false) s :=
  (nothingUnsignedApplied_iff unsignedEnv unsignedOptions (Prog.ret none)
    (fun _ _ _ => some false) unsignedClient (.applyImg 1)).2 rfl ⟨_, unsigned_ends⟩

/-- The image is applied, and the version advanced, although no signature is valid. -/
theorem unsigned_image_applied :
    ¬ NothingUnsignedApplied unsignedEnv unsignedOptions (Prog.ret none)
      (fun _ _ _ => some false) unsignedClient (.applyImg 1) := by
  intro property
  rcases property _ _ rfl with ⟨current, _, verified⟩ | spared
  · unfold SignatureManager.sslVerify at verified
    split at verified
    · cases key : readText unsignedOptions.sslCertPublicKeyPath unsignedClient with
      | error failure => simp [key, bind, Except.bind] at verified
      | ok pem => simp [key, bind, Except.bind] at verified
    · cases verified
  · obtain ⟨state, member, changed⟩ := @not_spared_of_ends _
      { unsignedOptions with applyImg := 1 } _ _ rfl unsigned_ends
    refine absurd (spared state ?_) changed
    rw [applicationStates_eq]
    exact member

end Myscm.Client
