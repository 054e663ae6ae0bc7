import Myscm.Client.Parser
import Myscm.Library.TwoRuns

/-!
Owns the question whether the default configuration file has a say in a parse that was
given another one.

Owns: which options of the file and of the command line are looked up in the default
file; the exact condition under which its content does not matter.

Does not own: what the default file says.
-/

namespace Myscm.Client

open Myscm.Library Myscm.Common

/-- An error of `configparser`, also where `_parse` has renamed it. -/
def OfConfigParser (failure : ParserFailure) : Prop :=
  (∃ error, failure = .configparser error) ∨ ∃ path error, failure = .loading path error

/-- The bytes of a file that `configparser` does not read. -/
def headless : List UInt8 := [120]

section Options

variable (env : ParserEnv)

/-- The validator of an option of the file reads the default file: that of `PeersList` for a
list of hosts that resolve, and that of `UpdateSysImg` for a host. -/
def LooksUp (option : OptionName × RawValue) : Prop :=
  (option.1 = .peersList ∧ ∃ peersStr, option.2 = .str peersStr ∧
      ∀ host ∈ peersOf peersStr, env.hostResolves (.str host) = true) ∨
    (option.1 = .updateSysImg ∧ ∀ b, option.2 ≠ .bool b)

/-- The validator passes a value without the default file. -/
def Valid (option : OptionName × RawValue) : Prop :=
  ∃ value, assertValid env [] option.1 option.2 = .ok value

/-- An argument that is looked up: `--update HOST`. -/
def NamesHost (arg : CliArg) : Prop :=
  ∃ host, arg = .update (some host)

/-- `argparse` goes on behind the argument. -/
def GoesOn (arg : CliArg) : Prop :=
  ∃ change, takeArgument env [] arg = .ok change

/-- A parse gets as far as to read the default file, although another one is given: without
`--help` at `PeersList` or `UpdateSysImg` of the given file, and with it at `--update HOST`. -/
def Consulted (defaultPath : Str) (contents : Str → List UInt8) (args : List CliArg) : Prop :=
  ∃ path remaining, rootParse env defaultPath none args = .ok (some path, remaining) ∧
    if remaining.contains .help then
      FirstTells NamesHost (GoesOn env) remaining
    else
      ∃ options, fileOptions (contents path) = .ok options ∧
        FirstTells (LooksUp env) (Valid env) options

end Options

/-! ## Single validators -/

section Validators

variable {env : ParserEnv}

theorem not_ofConfigParser_own (message : Str) : ¬ OfConfigParser (.parser message) := by
  simp [OfConfigParser]

theorem unmarked_ownError {α : Type} (message : Str) :
    Unmarked OfConfigParser (.error (.parser message) : Except ParserFailure α) :=
  unmarked_error (not_ofConfigParser_own message)

theorem unmarked_assertThat (test : RawValue → Bool) (message : RawValue → Str) (value : RawValue) :
    Unmarked OfConfigParser (assertThat test message value) := by
  unfold assertThat
  split
  · exact unmarked_ok _
  · exact unmarked_ownError _

theorem readConfigFile_nil : readConfigFile [] = .ok ⟨.empty, .empty⟩ := rfl

theorem readConfigFile_headless :
    readConfigFile headless = .error (.configparser .missingSectionHeader) := by
  rw [readConfigFile, show Utf8.decode headless = some ['x'] from by decide]
  rfl

theorem unmarked_peersListToExtendedDict (hosts : List Str) :
    Unmarked OfConfigParser (peersListToExtendedDict env [] hosts) := by
  unfold peersListToExtendedDict
  rw [readConfigFile_nil]
  refine @unmarked_foldlM _ _ _ _ _ _ (fun peers host member => ?_) _
  have missing : ¬ host ∈ (⟨.empty, .empty⟩ : ConfigFile).sections.keys := List.not_mem_nil
  rw [if_neg missing]
  exact unmarked_ownError _

theorem unmarked_assertRespective (host : RawValue) :
    Unmarked OfConfigParser (assertRespectiveConfigSectionExist [] host) := by
  unfold assertRespectiveConfigSectionExist
  rw [readConfigFile_nil]
  cases host with
  | str name =>
      have missing : ¬ name ∈ (⟨.empty, .empty⟩ : ConfigFile).sections.keys := List.not_mem_nil
      dsimp only [bind, Except.bind]
      rw [if_neg missing]
      exact unmarked_ownError _
  | int n => exact unmarked_ownError _
  | bool b => exact unmarked_ownError _

/-- With an empty default file, no validator ends with an error of `configparser`. -/
theorem unmarked_assertValid (name : OptionName) (value : RawValue) :
    Unmarked OfConfigParser (assertValid env [] name value) := by
  cases name with
  | pidLockFilePath => exact (unmarked_assertThat _ _ _).map _
  | logConfigPath =>
      refine Unmarked.map _ ((unmarked_assertThat _ _ _).bind fun path => ?_)
      split
      · exact unmarked_ownError _
      · exact unmarked_ok _
  | verbose =>
      refine Unmarked.map _ ?_
      unfold assertVerbosityValid
      split
      · exact unmarked_ownError _
      · split
        · exact unmarked_ok _
        · exact unmarked_ownError _
  | sslCertPublicKeyPath => exact (unmarked_assertThat _ _ _).map _
  | verifyFile => exact (unmarked_assertThat _ _ _).map _
  | applyImg | upgradeSysImg =>
      refine Unmarked.map _ ?_
      unfold assertSysImgVerValid
      split
      · exact unmarked_error (by simp [OfConfigParser])
      · split
        · exact unmarked_ownError _
        · exact unmarked_ok _
  | updateSysImg =>
      refine Unmarked.map _ ?_
      unfold assertHostValid
      split
      · exact unmarked_ok _
      · exact (unmarked_assertRespective _).bind fun _ => unmarked_assertThat _ _ _
  | sslCertPath => exact (unmarked_assertThat _ _ _).map _
  | sysImgUpdateProtocol => exact (unmarked_assertThat _ _ _).map _
  | peersList =>
      show Unmarked _ (assertPeersListValid env [] value)
      unfold assertPeersListValid
      split
      · split
        · exact unmarked_ownError _
        · exact (unmarked_peersListToExtendedDict _).bind fun details => unmarked_ok _
      · exact unmarked_error (by simp [OfConfigParser])
  | verifySysImg =>
      refine Unmarked.map _ ((unmarked_assertThat _ _ _).bind fun path => ?_)
      split
      · exact unmarked_assertThat _ _ _
      · exact unmarked_error (by simp [OfConfigParser])
  | sysImgExtractDir | sysImgDownloadDir => exact (unmarked_assertThat _ _ _).map _
  | recentSysImgVerPath =>
      refine Unmarked.map _ ((unmarked_assertThat _ _ _).bind fun path => ?_)
      split
      · exact unmarked_error (by simp [OfConfigParser])
      · exact unmarked_ok _
  | configCheck | forceApply | listSysImg | dryRun | printSysImgVer => exact unmarked_ok _

/-- An option that is not looked up has one outcome for all default files. -/
theorem assertValid_eq_of_not_looksUp (option : OptionName × RawValue) (never : ¬ LooksUp env option)
    (default : List UInt8) :
    assertValid env default option.1 option.2 = assertValid env [] option.1 option.2 := by
  obtain ⟨name, value⟩ := option
  rw [LooksUp, not_or] at never
  cases name with
  | updateSysImg =>
      cases value with
      | bool b => rfl
      | str s => exact absurd ⟨rfl, fun b same => by cases same⟩ never.2
      | int n => exact absurd ⟨rfl, fun b same => by cases same⟩ never.2
  | peersList =>
      cases value with
      | str peersStr =>
          have unresolved : ∃ host ∈ peersOf peersStr, env.hostResolves (.str host) = false := by
            by_contra all
            refine never.1 ⟨rfl, peersStr, rfl, fun host member => ?_⟩
            by_contra fails
            exact all ⟨host, member, by simpa using fails⟩
          simp only [assertValid, assertPeersListValid]
          cases found : (peersOf peersStr).find? fun host => !env.hostResolves (.str host) with
          | some host => rfl
          | none =>
              obtain ⟨host, member, fails⟩ := unresolved
              have passes := List.find?_eq_none.mp found host member
              simp [fails] at passes
      | int n => rfl
      | bool b => rfl
  | _ => rfl

/-- An option that is looked up gives a default file away that cannot be read. -/
theorem tells_assertValid (option : OptionName × RawValue) (looks : LooksUp env option) :
    Tells OfConfigParser headless [] fun default => assertValid env default option.1 option.2 where
  fails := by
    refine ⟨.configparser .missingSectionHeader, ?_, .inl ⟨_, rfl⟩⟩
    obtain ⟨name, value⟩ := option
    rcases looks with ⟨rfl, peersStr, rfl, resolve⟩ | ⟨rfl, noBool⟩
    · have found : (peersOf peersStr).find? (fun host => !env.hostResolves (.str host)) = none := by
        rw [List.find?_eq_none]
        intro host member
        simp [resolve host member]
      simp only [assertValid, assertPeersListValid, found, peersListToExtendedDict,
        readConfigFile_headless]
      rfl
    · cases value with
      | bool b => exact absurd rfl (noBool b)
      | str s =>
          simp only [assertValid, assertHostValid, assertRespectiveConfigSectionExist,
            readConfigFile_headless]
          rfl
      | int n =>
          simp only [assertValid, assertHostValid, assertRespectiveConfigSectionExist,
            readConfigFile_headless]
          rfl
  passes := unmarked_assertValid option.1 option.2

/-- A `PeersList` that is not looked up is refused. -/
theorem looksUp_of_valid_peersList {value : RawValue} (valid : Valid env (.peersList, value)) :
    LooksUp env (.peersList, value) := by
  obtain ⟨result, passes⟩ := valid
  cases value with
  | int n => cases passes
  | bool b => cases passes
  | str peersStr =>
      refine .inl ⟨rfl, peersStr, rfl, fun host member => ?_⟩
      simp only [assertValid, assertPeersListValid] at passes
      cases found : (peersOf peersStr).find? fun host => !env.hostResolves (.str host) with
      | some host =>
          rw [found] at passes
          cases passes
      | none =>
          have resolves := List.find?_eq_none.mp found host member
          simpa using resolves

end Validators

/-! ## The options of the file -/

section File

variable {env : ParserEnv} {options : List (OptionName × RawValue)}

/-- An option with its validated value. -/
def validated (env : ParserEnv) (default : List UInt8) (option : OptionName × RawValue) :
    Except ParserFailure (OptionName × ConfigValue) := do
  let value ← assertValid env default option.1 option.2
  return (option.1, value)

theorem valid_eq_validated :
    Valid env = fun option => ∃ value, validated env [] option = .ok value := by
  funext option
  unfold Valid validated
  cases assertValid env [] option.1 option.2 with
  | error failure => simp [bind, Except.bind]
  | ok value => simp [bind, Except.bind, pure, Except.pure]

theorem validated_eq_of_not_looksUp (option : OptionName × RawValue) (never : ¬ LooksUp env option)
    (default : List UInt8) : validated env default option = validated env [] option := by
  rw [validated, validated, assertValid_eq_of_not_looksUp option never]

theorem tells_updateConfigFromOptions (first : FirstTells (LooksUp env) (Valid env) options) :
    Tells OfConfigParser headless [] fun default => updateConfigFromOptions env default options := by
  have ofLoop : Tells OfConfigParser headless [] fun default =>
      options.mapM (validated env default) := by
    refine tells_mapM validated_eq_of_not_looksUp (fun option looks => ?_) (fun option => ?_) ?_
    · exact (tells_assertValid option looks).bind fun value => unmarked_ok _
    · exact (unmarked_assertValid _ _).bind fun value => unmarked_ok _
    · rwa [← valid_eq_validated]
  exact ofLoop.bind fun values => unmarked_ok _

/-- A file whose options are not looked up is refused, whatever the default file. -/
theorem updateConfigFromOptions_eq_error (never : ¬ FirstTells (LooksUp env) (Valid env) options)
    (required : OptionName.peersList ∈ options.map Prod.fst) :
    ∃ failure, ∀ default, updateConfigFromOptions env default options = .error failure := by
  have same (default : List UInt8) : options.mapM (validated env default) =
      options.mapM (validated env []) := by
    refine mapM_eq_of_not_firstTells validated_eq_of_not_looksUp ?_ default
    rwa [← valid_eq_validated]
  cases computed : options.mapM (validated env []) with
  | error failure =>
      refine ⟨failure, fun default => ?_⟩
      show (options.mapM (validated env default) >>= _) = _
      rw [same, computed]
      rfl
  | ok values =>
      obtain ⟨⟨name, value⟩, member, rfl⟩ := List.mem_map.mp required
      have passes : ∀ option ∈ options, Valid env option := fun option isOption => by
        obtain ⟨result, _, passes⟩ := exists_mem_of_mapM_ok computed isOption
        rw [valid_eq_validated]
        exact ⟨result, passes⟩
      exact absurd (firstTells_of_mem passes member (looksUp_of_valid_peersList (passes _ member)))
        never

/-- `PeersList` is there where the options of a file are taken. -/
theorem peersList_mem_of_fileOptions {content : List UInt8}
    (taken : fileOptions content = .ok options) : OptionName.peersList ∈ options.map Prod.fst := by
  obtain ⟨file, _, taken⟩ := bind_ok taken
  obtain ⟨items, _, taken⟩ := bind_ok taken
  obtain ⟨recognized, _, taken⟩ := bind_ok taken
  obtain ⟨_, present, taken⟩ := bind_ok taken
  have isPresent : OptionName.peersList ∈ recognized.map Prod.fst := by
    unfold assertAllRequiredOptionsPresent at present
    split at present
    · cases present
    · rename_i none
      have here := List.find?_eq_none.mp none .peersList (by decide)
      simpa [OptionName.requiredInFile] using here
  obtain ⟨option, member, isPeersList⟩ := List.mem_map.mp isPresent
  obtain ⟨result, isResult, converted⟩ := exists_mem_of_mapM_ok taken member
  obtain ⟨value, _, pair⟩ := bind_ok converted
  obtain rfl := Except.ok.inj pair
  exact List.mem_map.mpr ⟨_, isResult, isPeersList⟩

end File

/-! ## The command line -/

section Argv

variable {env : ParserEnv}

theorem ofConfigParser_convert (failure : ParserFailure) :
    OfConfigParser failure.convert ↔ OfConfigParser failure := by
  cases failure <;> simp [ParserFailure.convert, OfConfigParser]

theorem ofConfigParser_nest (message : Str) (failure : ParserFailure) :
    OfConfigParser (failure.nest message) ↔ OfConfigParser failure := by
  cases failure <;> simp [ParserFailure.nest, OfConfigParser]

theorem ofConfigParser_load (configPath : Str) (failure : ParserFailure) :
    OfConfigParser (failure.load configPath) ↔ OfConfigParser failure := by
  cases failure <;> simp [ParserFailure.load, OfConfigParser]

theorem unmarked_convertArgument (name : OptionName) (value : Str) :
    Unmarked OfConfigParser (convertArgument env [] name value) :=
  (unmarked_assertValid name (.str value)).mapError ofConfigParser_convert

theorem unmarked_storeArgument (name : OptionName) (value : Str) :
    Unmarked OfConfigParser (storeArgument env [] name value) :=
  (unmarked_convertArgument name value).bind fun _ => unmarked_ok _

theorem unmarked_assertConfFileValid (path : Str) :
    Unmarked OfConfigParser ((assertConfFileValid env path).mapError ParserFailure.convert) := by
  refine Unmarked.mapError ofConfigParser_convert ?_
  unfold assertConfFileValid
  split
  · exact unmarked_ok _
  · exact unmarked_ownError _

theorem unmarked_takeArgument (arg : CliArg) :
    Unmarked OfConfigParser (takeArgument env [] arg) := by
  have exits (code : Nat) : Unmarked OfConfigParser
      (.error (.exit code) : Except ParserFailure (Option ConfigChange)) :=
    unmarked_error (by simp [OfConfigParser])
  cases arg with
  | help | version | refused => exact exits _
  | config path => exact (unmarked_assertConfFileValid path).map fun _ => none
  | applyImg ver => exact unmarked_storeArgument _ _
  | update host =>
      cases host with
      | none => exact unmarked_ok _
      | some host => exact unmarked_storeArgument _ _
  | upgrade ver =>
      cases ver with
      | none => exact unmarked_ok _
      | some ver => exact unmarked_storeArgument _ _
  | sslCert path | sslPubkey path | verifyImg path => exact unmarked_storeArgument _ _
  | protocol name =>
      rw [takeArgument]
      split
      · exact unmarked_ok _
      · exact exits _
  | verify signaturePath signedPath =>
      exact (unmarked_convertArgument _ _).bind fun _ =>
        (unmarked_convertArgument _ _).bind fun _ => unmarked_ok _
  | _ => exact unmarked_ok _

theorem convertArgument_eq {name : OptionName} (other : name ≠ .peersList ∧ name ≠ .updateSysImg)
    (value : Str) (default : List UInt8) :
    convertArgument env default name value = convertArgument env [] name value := by
  have never : ¬ LooksUp env (name, .str value) := by
    rintro (⟨isPeersList, _⟩ | ⟨isUpdate, _⟩)
    · exact other.1 isPeersList
    · exact other.2 isUpdate
  rw [convertArgument, convertArgument, assertValid_eq_of_not_looksUp _ never]

theorem takeArgument_eq_of_not_namesHost (arg : CliArg) (never : ¬ NamesHost arg)
    (default : List UInt8) : takeArgument env default arg = takeArgument env [] arg := by
  have stored {name : OptionName} (other : name ≠ .peersList ∧ name ≠ .updateSysImg) (value : Str) :
      storeArgument env default name value = storeArgument env [] name value := by
    rw [storeArgument, storeArgument, convertArgument_eq other]
  cases arg with
  | update host =>
      cases host with
      | none => rfl
      | some host => exact absurd ⟨host, rfl⟩ never
  | upgrade ver =>
      cases ver with
      | none => rfl
      | some ver => exact stored (by decide) ver
  | applyImg ver => exact stored (by decide) ver
  | sslCert path | sslPubkey path | verifyImg path => exact stored (by decide) path
  | verify signaturePath signedPath =>
      have verified := fun path => @convertArgument_eq env .verifyFile (by decide) path default
      simp only [takeArgument, verified]
  | _ => rfl

theorem tells_takeArgument (arg : CliArg) (names : NamesHost arg) :
    Tells OfConfigParser headless [] fun default => takeArgument env default arg := by
  obtain ⟨host, rfl⟩ := names
  have looks : LooksUp env (.updateSysImg, .str host) := .inr ⟨rfl, fun b same => by cases same⟩
  exact ((tells_assertValid _ looks).mapError ofConfigParser_convert).bind fun _ => unmarked_ok _

theorem unmarked_convertDefaults (defaultPath : Str) (config : Config) (args : List CliArg)
    (changes : List ConfigChange) :
    Unmarked OfConfigParser (convertDefaults env defaultPath [] config args changes) := by
  refine (unmarked_assertConfFileValid defaultPath).bind fun _ => ?_
  refine Unmarked.bind (unmarked_foldlM (fun config name _ => ?_) _) fun config => ?_
  · unfold convertDefault
    split
    · split
      · exact unmarked_ok _
      · exact (unmarked_convertArgument _ _).bind fun _ => unmarked_ok _
    · exact unmarked_ok _
  · split
    · exact unmarked_error (by simp [OfConfigParser])
    · exact unmarked_ok _

theorem unmarked_updateConfigFromArgv (defaultPath : Str) (config : Config) (args : List CliArg) :
    Unmarked OfConfigParser (updateConfigFromArgv env defaultPath [] config args) :=
  (unmarked_mapM fun arg _ => unmarked_takeArgument arg).bind fun _ =>
    unmarked_convertDefaults defaultPath config args _

/-- A command line tells that names a host where `argparse` comes to it. -/
theorem tells_updateConfigFromArgv {args : List CliArg} {defaultPath : Str} {config : Config}
    (first : FirstTells NamesHost (GoesOn env) args) :
    Tells OfConfigParser headless [] fun default =>
      updateConfigFromArgv env defaultPath default config args :=
  (tells_mapM takeArgument_eq_of_not_namesHost tells_takeArgument unmarked_takeArgument first).bind
    fun _ => unmarked_convertDefaults defaultPath config args _

/-- With `--help`, a command line that names no host before it ends in one way. -/
theorem updateConfigFromArgv_eq_error {args : List CliArg} {defaultPath : Str} {config : Config}
    (never : ¬ FirstTells NamesHost (GoesOn env) args) (help : .help ∈ args) :
    ∃ failure, ∀ default, updateConfigFromArgv env defaultPath default config args =
      .error failure := by
  have same := mapM_eq_of_not_firstTells takeArgument_eq_of_not_namesHost never
  cases computed : args.mapM (takeArgument env []) with
  | error failure =>
      refine ⟨failure, fun default => ?_⟩
      rw [updateConfigFromArgv, same, computed]
      rfl
  | ok taken =>
      obtain ⟨_, _, isHelp⟩ := exists_mem_of_mapM_ok computed help
      cases isHelp

end Argv

/-! ## The whole parse -/

section Parse

variable {env : ParserEnv} {ω : Type} {clientConfig : Config → Except Str ω} {defaultPath : Str}
  {contents : Str → List UInt8} {args : List CliArg}

theorem rootParse_isSome {config : Option Str} {root : Option Str × List CliArg}
    (given : config.isSome = true ∨ ∃ path, .config path ∈ args)
    (parsed : rootParse env defaultPath config args = .ok root) : root.1.isSome = true := by
  induction args generalizing config root with
  | nil =>
      obtain ⟨path, rfl⟩ := Option.isSome_iff_exists.mp
        (given.resolve_right fun ⟨path, member⟩ => absurd member List.not_mem_nil)
      obtain rfl := Except.ok.inj parsed
      rfl
  | cons arg rest inductionHypothesis =>
      cases arg with
      | version => cases parsed
      | config path =>
          obtain ⟨path, _, later⟩ := bind_ok parsed
          exact inductionHypothesis (.inl rfl) later
      | _ =>
          obtain ⟨root', later, result⟩ := bind_ok parsed
          obtain rfl := Except.ok.inj result
          have givenLater : config.isSome = true ∨ ∃ path, CliArg.config path ∈ rest :=
            given.imp_right fun ⟨path, member⟩ => ⟨path, by simpa using member⟩
          have found : root'.1.isSome = true := inductionHypothesis givenLater later
          exact found

theorem tells_parseRemaining {path : Str} {content : List UInt8} {remaining : List CliArg}
    (consulted : if remaining.contains .help then FirstTells NamesHost (GoesOn env) remaining
      else ∃ options, fileOptions content = .ok options ∧
        FirstTells (LooksUp env) (Valid env) options) :
    Tells OfConfigParser headless [] fun default =>
      parseRemaining env defaultPath default path content remaining := by
  unfold parseRemaining
  cases help : remaining.contains .help with
  | true =>
      rw [help, if_pos rfl] at consulted
      exact (tells_updateConfigFromArgv consulted).mapError (ofConfigParser_nest _)
  | false =>
      rw [help, if_neg Bool.false_ne_true] at consulted
      obtain ⟨options, taken, first⟩ := consulted
      have ofFile : Tells OfConfigParser headless [] fun default =>
          updateConfigFromFile env default content := by
        simp only [updateConfigFromFile, taken]
        exact tells_updateConfigFromOptions first
      exact (ofFile.mapError (ofConfigParser_nest _)).bind fun config =>
        (unmarked_updateConfigFromArgv _ _ _).mapError (ofConfigParser_nest _)

theorem parseRemaining_eq_error {path : Str} {content : List UInt8} {remaining : List CliArg}
    (never : ¬ if remaining.contains .help then FirstTells NamesHost (GoesOn env) remaining
      else ∃ options, fileOptions content = .ok options ∧
        FirstTells (LooksUp env) (Valid env) options) :
    ∃ failure, ∀ default,
      parseRemaining env defaultPath default path content remaining = .error failure := by
  unfold parseRemaining
  cases help : remaining.contains .help with
  | true =>
      rw [help, if_pos rfl] at never
      obtain ⟨failure, failed⟩ := @updateConfigFromArgv_eq_error env remaining defaultPath
        defaultConfig never (by simpa using help)
      refine ⟨failure.nest "Failed to parse command line options".toList, fun default => ?_⟩
      show (updateConfigFromArgv env defaultPath default defaultConfig remaining).mapError _ = _
      rw [failed]
      rfl
  | false =>
      rw [help, if_neg Bool.false_ne_true] at never
      have failed : ∃ failure, ∀ default,
          updateConfigFromFile env default content = .error failure := by
        cases taken : fileOptions content with
        | error failure => exact ⟨failure, fun default => by rw [updateConfigFromFile, taken]; rfl⟩
        | ok options =>
            obtain ⟨failure, failed⟩ := updateConfigFromOptions_eq_error
              (fun first => never ⟨options, taken, first⟩) (peersList_mem_of_fileOptions taken)
            exact ⟨failure, fun default => by rw [updateConfigFromFile, taken]; exact failed default⟩
      obtain ⟨failure, failed⟩ := failed
      exact ⟨_, fun default => by rw [failed]; rfl⟩

/-- A parse whose steps succeed. -/
theorem parse_of_steps {path : Str} {default : List UInt8} {remaining : List CliArg}
    {config options : Config}
    (isRoot : rootParse env defaultPath none args = .ok (some path, remaining))
    (noHelp : remaining.contains .help = false)
    (fromFile : updateConfigFromFile env default (contents path) = .ok config)
    (fromArgv : updateConfigFromArgv env defaultPath default config remaining = .ok options) :
    parse env clientConfig defaultPath contents default args =
      (clientConfig options).mapError .config := by
  have parsed : parseRemaining env defaultPath default path (contents path) remaining =
      .ok options := by
    rw [parseRemaining, noHelp, if_neg Bool.false_ne_true, fromFile]
    show (updateConfigFromArgv env defaultPath default config remaining).mapError
      (ParserFailure.nest _) = _
    rw [fromArgv]
    rfl
  rw [parse, isRoot]
  show (parseRemaining env defaultPath default path (contents path) remaining).mapError
    (ParserFailure.load path) >>= _ = _
  rw [parsed]
  rfl

/-- With a configuration file on the command line, the content of the default one does not
matter just where the parse ends before it would read it. -/
theorem parse_blind_iff (given : ∃ path, .config path ∈ args) :
    Blind (fun default => parse env clientConfig defaultPath contents default args) ↔
      ¬ Consulted env defaultPath contents args := by
  unfold parse
  cases parsed : rootParse env defaultPath none args with
  | error failure =>
      refine ⟨fun _ => ?_, fun _ => blind_of_const fun _ => rfl⟩
      rintro ⟨path, remaining, isRoot, _⟩
      rw [parsed] at isRoot
      cases isRoot
  | ok root =>
      obtain ⟨path, isPath⟩ := Option.isSome_iff_exists.mp (rootParse_isSome (.inr given) parsed)
      obtain ⟨config, remaining⟩ := root
      obtain rfl : config = some path := isPath
      constructor
      · rintro blind ⟨path', remaining', isRoot, consulted⟩
        rw [parsed] at isRoot
        obtain ⟨samePath, rfl⟩ := Prod.mk.inj (Except.ok.inj isRoot)
        obtain rfl := Option.some.inj samePath
        refine Tells.not_blind (?_ : Tells OfConfigParser headless [] _) blind
        refine ((tells_parseRemaining consulted).mapError (ofConfigParser_load _)).bind
          fun options => ?_
        cases clientConfig options with
        | ok value => exact unmarked_ok _
        | error message => exact unmarked_error (by simp [OfConfigParser])
      · intro never
        obtain ⟨failure, failed⟩ := @parseRemaining_eq_error env defaultPath path (contents path)
          remaining (fun consulted => never ⟨path, remaining, parsed, consulted⟩)
        refine blind_of_const fun default => (?_ : _ = Except.error (failure.load path))
        show ((parseRemaining env defaultPath default path (contents path) remaining).mapError
          (ParserFailure.load path) >>= _) = _
        rw [failed]
        rfl

end Parse

/-! ## A chosen file that names a peer -/

/-- A machine with the directory `/d` and any file, on which every host resolves. -/
def resolvingEnv : ParserEnv where
  stat value :=
    if value = .str "/d".toList then
      some ⟨.directory, 0o755, 0, 0, 2⟩
    else
      some ⟨.regular [], 0o644, 0, 0, 1⟩
  hostResolves _ := true
  yamlProblem _ := none
  versionProblem _ := none
  upper s := s

/-- The peers with their ports. -/
def peerPorts (options : Config) : Except Str (List (Str × Int)) :=
  match options .peersList with
  | .peers details => .ok (details.items.map fun peer => (peer.1, peer.2.port))
  | _ => .ok []

/-- The section of the peer `h`. -/
def peerSection (port : Str) : List Str :=
  ["[h]".toList, "Protocol=SFTP".toList, "Port=".toList ++ port, "Username=u".toList,
    "Password=p".toList, "RemoteDir=/r".toList]

/-- A whole configuration with the peer `h`, whose port is 1. -/
def chosenContent : List UInt8 :=
  Utf8.encode (unlines (["[myscm-cli]".toList, "SSLCertPublicKeyPath=/k".toList,
    "SSLCertPath=/s".toList, "SysImgUpdateProtocol=SFTP".toList, "PeersList=[h]".toList,
    "SysImgExtractDir=/d".toList, "SysImgDownloadDir=/d".toList,
    "RecentSysImgVerPath=/v".toList] ++ peerSection ['1']))

def chosenOptions : List (OptionName × RawValue) :=
  [(.sslCertPublicKeyPath, .str "/k".toList), (.sslCertPath, .str "/s".toList),
    (.sysImgUpdateProtocol, .str "SFTP".toList), (.peersList, .str "[h]".toList),
    (.sysImgExtractDir, .str "/d".toList), (.sysImgDownloadDir, .str "/d".toList),
    (.recentSysImgVerPath, .str "/v".toList)]

theorem fileOptions_chosenContent : fileOptions chosenContent = .ok chosenOptions := by
  rw [fileOptions, chosenContent, readConfigFile_encode]
  decide

theorem nodup_options : List.Nodup ["Protocol".toList, "Port".toList, "Username".toList,
    "Password".toList, "RemoteDir".toList] := by decide

/-- The peer's section as it is read. -/
def peerFile (port : Str) : ConfigFile where
  sections := ⟨[(['h'], ⟨[("Protocol".toList, "SFTP".toList), ("Port".toList, port),
    ("Username".toList, ['u']), ("Password".toList, ['p']), ("RemoteDir".toList, "/r".toList)],
    nodup_options⟩)], List.nodup_singleton _⟩
  defaults := .empty

def peerDetails (port : Int) : HostConnectionDetails :=
  ⟨['h'], "SFTP".toList, port, ['u'], some ['p'], none, none, "/r".toList⟩

/-- The configuration with the peer's port. -/
def chosenConfig (number : Int) : Config :=
  [(OptionName.sslCertPublicKeyPath, ConfigValue.raw (.str "/k".toList)),
    (.sslCertPath, .raw (.str "/s".toList)), (.sysImgUpdateProtocol, .raw (.str "SFTP".toList)),
    (.peersList, .peers ⟨[(['h'], peerDetails number)], List.nodup_singleton _⟩),
    (.sysImgExtractDir, .raw (.str "/d".toList)), (.sysImgDownloadDir, .raw (.str "/d".toList)),
    (.recentSysImgVerPath, .raw (.str "/v".toList))].foldl
      (fun config option => setConfig config option.1 option.2) defaultConfig

theorem updateConfigFromFile_chosenContent {default : List UInt8} {number : Int}
    (peers : assertValid resolvingEnv default .peersList (.str "[h]".toList) =
      .ok (.peers ⟨[(['h'], peerDetails number)], List.nodup_singleton _⟩)) :
    updateConfigFromFile resolvingEnv default chosenContent = .ok (chosenConfig number) := by
  rw [updateConfigFromFile, fileOptions_chosenContent]
  show updateConfigFromOptions resolvingEnv default chosenOptions = _
  rw [updateConfigFromOptions, chosenOptions]
  simp only [List.mapM_cons, List.mapM_nil]
  rw [peers]
  rfl

/-- A `PeersList` with one name is taken with the details of its section. -/
theorem assertValid_single_peer {default : List UInt8} {file : ConfigFile} {peersStr host : Str}
    {details : HostConnectionDetails} (listed : peersOf peersStr = [host])
    (read : readConfigFile default = .ok file) (isSection : host ∈ file.sections.keys)
    (connection : getHostConnectionDetails resolvingEnv file host = .ok details) :
    assertValid resolvingEnv default .peersList (.str peersStr) =
      .ok (.peers ⟨[(host, details)], List.nodup_singleton _⟩) := by
  have loop : peersListToExtendedDict resolvingEnv default [host] =
      .ok ⟨[(host, details)], List.nodup_singleton _⟩ := by
    rw [peersListToExtendedDict, read]
    dsimp only [bind, Except.bind]
    rw [List.foldlM_cons, if_pos isSection, connection]
    rfl
  show assertPeersListValid resolvingEnv default (.str peersStr) = _
  rw [assertPeersListValid, listed]
  show (peersListToExtendedDict resolvingEnv default [host] >>= _) = _
  rw [loop]
  rfl

/-- The parse gives the port of the peer in the default file. -/
theorem parse_chosenContent {default : List UInt8} {port : Str} {number : Int}
    (read : readConfigFile default = .ok (peerFile port))
    (details : getHostConnectionDetails resolvingEnv (peerFile port) ['h'] =
      .ok (peerDetails number)) :
    parse resolvingEnv peerPorts "/default".toList (fun _ => chosenContent) default
      [.config "/c".toList] = .ok [(['h'], number)] := by
  have peers := assertValid_single_peer (show peersOf "[h]".toList = [['h']] by decide) read
    (List.mem_singleton.mpr rfl) details
  obtain ⟨options, fromArgv, ports⟩ : ∃ options,
      updateConfigFromArgv resolvingEnv "/default".toList default (chosenConfig number) [] =
        .ok options ∧ peerPorts options = .ok [(['h'], number)] := ⟨_, rfl, rfl⟩
  have steps := @parse_of_steps resolvingEnv _ peerPorts "/default".toList
    (fun _ => chosenContent) [.config "/c".toList] "/c".toList default _ _ _ rfl rfl
    (updateConfigFromFile_chosenContent peers) fromArgv
  rw [steps, ports]
  rfl

/-- A chosen file without the section is refused, whatever the default file. -/
theorem parse_blind_empty :
    Blind fun default => parse resolvingEnv peerPorts "/default".toList (fun _ => []) default
      [.config "/c".toList] := by
  refine (parse_blind_iff ⟨_, List.mem_singleton.mpr rfl⟩).mpr ?_
  rintro ⟨path, remaining, isRoot, consulted⟩
  have noRemaining : remaining = [] := (congrArg Prod.snd (Except.ok.inj isRoot)).symm
  rw [noRemaining, List.contains_nil, if_neg Bool.false_ne_true] at consulted
  obtain ⟨options, taken, _⟩ := consulted
  cases taken

/-- Two default files give the chosen file two ports of one peer. -/
theorem parse_not_blind :
    ¬ Blind fun default => parse resolvingEnv peerPorts "/default".toList
      (fun _ => chosenContent) default [.config "/c".toList] := by
  intro blind
  have two := @parse_chosenContent (Utf8.encode (unlines (peerSection ['2']))) ['2'] 2
    (by rw [readConfigFile_encode]; decide) (by decide)
  have three := @parse_chosenContent (Utf8.encode (unlines (peerSection ['3']))) ['3'] 3
    (by rw [readConfigFile_encode]; decide) (by decide)
  have same := two.symm.trans ((blind _ _).trans three)
  cases same

end Myscm.Client
