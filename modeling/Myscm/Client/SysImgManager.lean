import Myscm.Client.Archive

/-!
Owns the client's `SysImgManager`: which image is applied next, the version its
name gives, and the file that records the version applied last.

Owns: `MySCMImgVersionFile`; `get_sys_img_path`; the version out of a name;
`update_current_system_state_version`.

Does not own: printing and verifying images.
-/

namespace Myscm.Client

open Myscm.Library Myscm.Common Myscm.Server

/-- The options of `myscm-cli` that the application of an image reads. -/
structure ClientOptions where
  forceApply : Bool
  dryRun : Bool
  sysImgExtractDir : Str
  sysImgDownloadDir : Str
  sslCertPublicKeyPath : Str
  recentSysImgVerPath : Str
  applyImg : Int

namespace MySCMImgVersionFile

/-- `IMG_VER_STARTING_VALUE`. -/
def imgVerStartingValue : Int := 0

/-- `parse` of the file's text; none is a file that cannot be opened. -/
def parse (path : Str) (content : Option Str) : Except VersionFileError Int :=
  let seeApply := " (see --apply-img option)".toList
  match VersionFile.parse imgVerStartingValue content with
  | .ok ver => .ok ver
  | .error (.emptyFile _) =>
      .error (.versionFile ("'".toList ++ path ++
        "' is empty, but it should contain integer number specifying version of the ".toList ++
        "recently applied mySCM system image".toList ++ seeApply))
  | .error (.tooManyLines _) =>
      .error (.versionFile ("'".toList ++ path ++
        "' has too many lines. It is expected to have single line with version of the ".toList ++
        "recently applied mySCM system image".toList ++ seeApply))
  | .error (.notInteger _ value) =>
      .error (.versionFile ("First and only line of the '".toList ++ path ++
        "' file is supposed to be integer corresponding to recently applied mySCM ".toList ++
        "system image version. Read value: '".toList ++ value ++ "'".toList ++ seeApply))
  | .error (.outOfAllowedRange _ value) =>
      .error (.versionFile ("Integer ".toList ++ Str.ofInt value ++ " read from ".toList ++
        path ++ " file that should contain integer number corresponding to the ".toList ++
        "recently applied mySCM system image".toList ++ seeApply))
  | .error (.versionFile _) =>
      .error (.versionFile ("Failed to parse '".toList ++ path ++
        "'. Check if this file exists and has sufficient read permissions".toList))

variable (umask : Nat)

/-- Opening the version file for writing, and what is then in it. -/
def store (path text : Str) (fs : Fs) : Except ClientError Fs :=
  match (Fs.openTruncating (masked umask 0o666) path fs).bind
      (Fs.setContent (Utf8.encode text) path) with
  | some next => .ok next
  | none => .error (.versionFile (.versionFile "Failed to open file for writing".toList))

/-- `set_value`. -/
def setValue (path : Str) (val : Int) : Prog Fs ClientError Unit :=
  VersionFile.setValue (store umask path) val

/-- The version in the file, read without creating it. -/
def readVersion (path : Str) (fs : Fs) : Except ClientError Int :=
  match (fs.readFile path).map Utf8.decode with
  | some none => .error .unicodeDecode
  | some (some text) => (parse path (some text)).mapError .versionFile
  | none => (parse path none).mapError .versionFile

theorem parse_ofInt {path : Str} {i : Int} (allowed : 0 ≤ i) :
    parse path (some (Str.ofInt i)) = .ok i := by
  simp [parse, VersionFile.parse_ofInt (show imgVerStartingValue ≤ i from allowed)]

theorem startingValue_le_of_readVersion {path : Str} {fs : Fs} {ver : Int}
    (read : readVersion path fs = .ok ver) : 0 ≤ ver := by
  have parsed : ∃ content, VersionFile.parse imgVerStartingValue content = .ok ver := by
    unfold readVersion at read
    split at read
    · cases read
    · rename_i text _
      refine ⟨some text, ?_⟩
      unfold parse at read
      revert read
      cases VersionFile.parse imgVerStartingValue (some text) with
      | ok value => simp [Except.mapError]
      | error failure => cases failure <;> simp [Except.mapError]
    · cases read
  obtain ⟨content, parsed⟩ := parsed
  exact VersionFile.startingValue_le_of_parse parsed

/-- A version that was stored reads back. -/
theorem readVersion_of_setValue {path : Str} {val : Int} {start finish : Fs} (allowed : 0 ≤ val)
    (ends : Prog.Ends (setValue umask path val) start () finish) :
    readVersion path finish = .ok val := by
  obtain ⟨_, middle, _, stored⟩ := (Prog.ends_andThen_iff _ _ _ _ _).mp ends
  rw [Prog.ends_step_iff, store] at stored
  split at stored
  · rename_i next written
    obtain rfl := Except.ok.inj stored
    obtain ⟨_, _, set⟩ := Option.bind_eq_some_iff.mp written
    rw [readVersion, Fs.readFile_of_setContent set]
    simp [Utf8.decode_encode, parse_ofInt allowed, Except.mapError]
  · cases stored

theorem mem_states_setValue {path : Str} {val : Int} {start finish : Fs}
    (ends : Prog.Ends (setValue umask path val) start () finish) :
    finish ∈ (setValue umask path val start).states := by
  obtain ⟨_, middle, emptied, stored⟩ := (Prog.ends_andThen_iff _ _ _ _ _).mp ends
  exact Prog.mem_states_andThen_right emptied (Prog.mem_states_step stored)

/-- `get_version(create=True)`. -/
def getVersion (path : Str) : Prog Fs ClientError Int := do
  let exist ← Prog.reads (Fs.isfile · path)
  if exist then
    Prog.tryReads (readVersion path)
  else do
    setValue umask path imgVerStartingValue
    return imgVerStartingValue

/-- The version applied last, 0 where none is recorded. -/
def recordedVersion (path : Str) (fs : Fs) : Except ClientError Int :=
  if fs.isfile path then readVersion path fs else .ok imgVerStartingValue

theorem getVersion_of_isfile {path : Str} {fs : Fs} (isfile : fs.isfile path = true) :
    getVersion umask path fs = ⟨[], readVersion path fs⟩ := by
  simp [getVersion, isfile]

theorem recordedVersion_of_ends {path : Str} {start finish : Fs} {ver : Int}
    (ends : Prog.Ends (getVersion umask path) start ver finish) :
    recordedVersion path start = .ok ver := by
  obtain ⟨exist, _, reads, rest⟩ := (Prog.ends_andThen_iff _ _ _ _ _).mp ends
  obtain ⟨rfl, rfl⟩ := (Prog.ends_reads_iff _ _ _ _).mp reads
  unfold recordedVersion
  split at rest
  · rename_i isfile
    rw [if_pos isfile]
    exact ((Prog.ends_tryReads_iff _ _ _ _).mp rest).1
  · rename_i missing
    rw [if_neg missing]
    obtain ⟨_, _, _, returned⟩ := (Prog.ends_andThen_iff _ _ _ _ _).mp rest
    rw [((Prog.ends_ret_iff _ _ _ _).mp returned).1]

theorem startingValue_le_of_recordedVersion {path : Str} {fs : Fs} {ver : Int}
    (recorded : recordedVersion path fs = .ok ver) : 0 ≤ ver := by
  unfold recordedVersion at recorded
  split at recorded
  · exact startingValue_le_of_readVersion recorded
  · obtain rfl := Except.ok.inj recorded
    exact Int.le_refl 0

end MySCMImgVersionFile

namespace SysImgManager

variable (umask : Nat) (options : ClientOptions)

/-- The error of `get_sys_img_path` for a version that is not newer. -/
def notNewer (currentStateId sysImgVer : Int) : ClientError :=
  .sysImgManager
    ("Current state of the system (version ".toList ++ Str.ofInt currentStateId ++ ") is ".toList ++
      (if currentStateId > sysImgVer then "newer than".toList else "same as".toList) ++
      " and requested version of the system image (version ".toList ++ Str.ofInt sysImgVer ++
      ") thus no need to apply image.".toList)

/-- The error of `get_sys_img_path` for an image that is not there. -/
def noSuchImage (sysImgPath : Str) (sysImgVer : Int) : ClientError :=
  .sysImgManager
    ("'".toList ++ sysImgPath ++
      "' probably doesn't exist. Specify different target system image version ".toList ++
      "(specified version: ".toList ++ Str.ofInt sysImgVer ++ ").".toList)

/-- The path of the image that leads from version `currentStateId` to the requested one. -/
def imagePath (currentStateId : Int) : Str :=
  Str.joinPath options.sysImgDownloadDir
    (SystemImageGenerator.myscmImgFileName currentStateId options.applyImg)

/-- `get_sys_img_path`. -/
def getSysImgPath : Prog Fs ClientError Str := do
  let currentStateId ← MySCMImgVersionFile.getVersion umask options.recentSysImgVerPath
  if currentStateId ≥ options.applyImg then
    Prog.raise (notNewer currentStateId options.applyImg)
  else do
    let sysImgPath := imagePath options currentStateId
    let isfile ← Prog.reads (Fs.isfile · sysImgPath)
    if isfile then
      Prog.ret sysImgPath
    else
      Prog.raise (noSuchImage sysImgPath options.applyImg)

/-- The image that is applied leads from the recorded version to a newer one. -/
theorem getSysImgPath_ends {start middle : Fs} {path : Str}
    (ends : Prog.Ends (getSysImgPath umask options) start path middle) :
    ∃ current, MySCMImgVersionFile.recordedVersion options.recentSysImgVerPath start = .ok current ∧
      current < options.applyImg ∧ path = imagePath options current := by
  obtain ⟨current, between, recorded, rest⟩ := (Prog.ends_andThen_iff _ _ _ _ _).mp ends
  refine ⟨current, MySCMImgVersionFile.recordedVersion_of_ends umask recorded, ?_⟩
  split at rest
  · exact absurd rest (Prog.not_ends_raise _ _ _ _)
  · rename_i newer
    obtain ⟨isfile, _, reads, rest⟩ := (Prog.ends_andThen_iff _ _ _ _ _).mp rest
    split at rest
    · exact ⟨by omega, ((Prog.ends_ret_iff _ _ _ _).mp rest).1.symm⟩
    · exact absurd rest (Prog.not_ends_raise _ _ _ _)

/-- Where the version file is there, choosing an image only reads. -/
theorem getSysImgPath_of_isfile {fs : Fs}
    (isfile : fs.isfile options.recentSysImgVerPath = true) :
    (getSysImgPath umask options fs).states = [] ∧
      ∀ path, (getSysImgPath umask options fs).ending = .ok path → fs.isfile path = true := by
  have run := MySCMImgVersionFile.getVersion_of_isfile umask isfile
  simp only [getSysImgPath, Prog.bind_eq]
  cases recorded : MySCMImgVersionFile.readVersion options.recentSysImgVerPath fs with
  | error failure =>
      rw [recorded] at run
      rw [Prog.andThen_error run]
      exact ⟨rfl, fun _ ends => by cases ends⟩
  | ok current =>
      rw [recorded] at run
      simp only [Prog.andThen, run, Run.final, List.getLastD_nil]
      by_cases newer : current ≥ options.applyImg
      · simp [newer]
      · cases image : fs.isfile (imagePath options current) with
        | false => simp [newer, image]
        | true => simp [newer, image]

/-- `MYSCM_IMG_FILE_NAME_REGEX`. A dot of the name stands for any character but a
line feed. -/
def myscmImgFileNameRegex : Regex :=
  let literal (s : Str) (last : Regex) : Regex :=
    Regex.chars (s.map fun c d => if c = '.' then decide (d ≠ '\n') else decide (d = c)) last
  let digits := Regex.group (.many 1 fun c => (Str.decimalValue c).isSome)
  literal "myscm-img.".toList
    (.seq digits (.seq (.one (· ≠ '\n')) (.seq digits
      (literal SystemImageGenerator.myscmImgExt .empty))))

/-- `get_target_sys_img_ver_from_fname`. -/
def getTargetSysImgVerFromFname (fname : Str) : Except ClientError Int :=
  let name := Str.basename fname
  let corrupted : Except ClientError Int :=
    .error (.sysImgManager
      ("Given system image '".toList ++ name ++
        "' has unexpected format. mySCM system images need to have ".toList ++
        "'myscm-img.X.Y.tar.gz' format (X, Y are non negative integers).".toList))
  match myscmImgFileNameRegex.fullmatch name with
  | some [first, second] =>
      match Str.parseInt first, Str.parseInt second with
      | some _, some ver => .ok ver
      | _, _ => corrupted
  | _ => corrupted

private theorem ways_literal {s rest : Str} {last : Regex} (single : '\n' ∉ s) :
    (Regex.chars (s.map fun c d => if c = '.' then decide (d ≠ '\n') else decide (d = c))
      last).ways (s ++ rest) = last.ways rest := by
  apply Regex.ways_chars_append
  rw [List.forall₂_map_left_iff, List.forall₂_same]
  intro c member
  have notEnd : c ≠ '\n' := by
    rintro rfl
    exact single member
  by_cases dot : c = '.'
  · simp [dot]
  · simp [dot]

private theorem head?_ways_digits {rest : Str} (n : Nat)
    (stop : ∀ c ∈ rest.head?, (Str.decimalValue c).isSome = false) :
    ((Regex.group (.many 1 fun c => (Str.decimalValue c).isSome)).ways
      (Str.ofNat n ++ rest)).head? = some ([Str.ofNat n], rest) := by
  apply Regex.head?_ways_group_many Nat.length_toDigits_pos _ stop
  intro c member
  rw [Str.decimalValue_of_isDigit (@Str.toDigits_isDigit 10 n (by decide) (by decide) c member)]
  rfl

private theorem ways_literal_all {s : Str} (single : '\n' ∉ s) :
    (Regex.chars (s.map fun c d => if c = '.' then decide (d ≠ '\n') else decide (d = c))
      .empty).ways s = [([], [])] := by
  have whole := @ways_literal _ [] .empty single
  rwa [List.append_nil] at whole

/-- The expression finds both versions in the name of an image. -/
theorem fullmatch_myscmImgFileName (x y : Nat) :
    myscmImgFileNameRegex.fullmatch (SystemImageGenerator.myscmImgFileName x y) =
      some [Str.ofNat x, Str.ofNat y] := by
  have name : SystemImageGenerator.myscmImgFileName x y =
      "myscm-img.".toList ++ (Str.ofNat x ++ '.' :: (Str.ofNat y ++
        SystemImageGenerator.myscmImgExt)) := by
    unfold SystemImageGenerator.myscmImgFileName
    rw [Str.ofInt_natCast, Str.ofInt_natCast, List.append_assoc, List.append_assoc,
      List.cons_append]
  have second := Regex.head?_ways_seq
    (@head?_ways_digits SystemImageGenerator.myscmImgExt y (by decide))
    (congrArg List.head? (ways_literal_all
      (show '\n' ∉ SystemImageGenerator.myscmImgExt by decide)))
  have dot : ((Regex.one (decide <| · ≠ '\n')).ways
      ('.' :: (Str.ofNat y ++ SystemImageGenerator.myscmImgExt))).head? =
        some ([], Str.ofNat y ++ SystemImageGenerator.myscmImgExt) := by
    simp [Regex.ways_one]
  apply Regex.fullmatch_of_head?
  rw [name, myscmImgFileNameRegex, ways_literal (by decide)]
  exact Regex.head?_ways_seq (head?_ways_digits x (by rintro c ⟨⟩; decide))
    (Regex.head?_ways_seq dot second)

/-- The name of an image gives its target version. -/
theorem getTargetSysImgVerFromFname_myscmImgFileName (dir : Str) (x y : Nat) :
    getTargetSysImgVerFromFname (Str.joinPath dir (SystemImageGenerator.myscmImgFileName x y)) =
      .ok (y : Int) := by
  have noSlash : '/' ∉ SystemImageGenerator.myscmImgFileName x y := by
    have digits (n : Nat) : '/' ∉ Str.ofNat n := by
      intro member
      have := @Str.toDigits_isDigit 10 n (by decide) (by decide) '/' member
      revert this
      decide
    have front : '/' ∉ "myscm-img.".toList := by decide
    have back : '/' ∉ SystemImageGenerator.myscmImgExt := by decide
    unfold SystemImageGenerator.myscmImgFileName
    rw [Str.ofInt_natCast, Str.ofInt_natCast, List.mem_append, List.mem_append, List.mem_append,
      List.mem_cons]
    rintro (((inFront | inX) | (isDot | inY)) | inBack)
    · exact front inFront
    · exact digits x inX
    · exact absurd isDot (by decide)
    · exact digits y inY
    · exact back inBack
  have value (n : Nat) : Str.parseInt (Str.ofNat n) = some (n : Int) := Str.parseInt_ofNat n
  simp [getTargetSysImgVerFromFname, Str.basename_joinPath noSlash, fullmatch_myscmImgFileName,
    value]

/-- The name of an image that is applied gives the requested version. -/
theorem version_of_recorded {options : ClientOptions} {fs : Fs} {current : Int}
    (recorded : MySCMImgVersionFile.recordedVersion options.recentSysImgVerPath fs = .ok current)
    (newer : current < options.applyImg) :
    getTargetSysImgVerFromFname (imagePath options current) = .ok options.applyImg := by
  have nonneg := MySCMImgVersionFile.startingValue_le_of_recordedVersion recorded
  obtain ⟨x, isX⟩ := Int.eq_ofNat_of_zero_le nonneg
  obtain ⟨y, isY⟩ := Int.eq_ofNat_of_zero_le (show 0 ≤ options.applyImg by omega)
  rw [imagePath, isX, isY]
  exact getTargetSysImgVerFromFname_myscmImgFileName _ x y

theorem version_of_imagePath {options : ClientOptions} {fs : Fs} {current ver : Int}
    (recorded : MySCMImgVersionFile.recordedVersion options.recentSysImgVerPath fs = .ok current)
    (newer : current < options.applyImg)
    (parsed : getTargetSysImgVerFromFname (imagePath options current) = .ok ver) :
    ver = options.applyImg := by
  rw [version_of_recorded recorded newer] at parsed
  exact (Except.ok.inj parsed).symm

/-- The error of `update_current_system_state_version`. -/
def failedToUpdate (path : Str) : ClientError :=
  .sysImgManager ("Failed to update '".toList ++ path ++
    "' file holding version of the recently applied mySCM system image".toList)

/-- `update_current_system_state_version`. -/
def updateCurrentSystemStateVersion (sysImgVer : Int) : Prog Fs ClientError Unit :=
  Prog.handle (MySCMImgVersionFile.setValue umask options.recentSysImgVerPath sysImgVer) fun _ =>
    Prog.raise (failedToUpdate options.recentSysImgVerPath)

end SysImgManager

end Myscm.Client
