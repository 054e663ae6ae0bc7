import Myscm.Common.Parser
import Myscm.Library.FileCalls
import Myscm.Server.ImageFormat

/-!
Owns the configuration parser of `myscm-cli`: its options with their validators, and
`parse` over the chosen configuration file and the command line.

Owns: `allowed_options` in order; which file each validator reads; the options of the file,
then those of the command line, and the defaults that `argparse` converts.

Does not own: the splitting of the command line into options, which is given; help texts.
-/

namespace Myscm.Client

open Myscm.Library Myscm.Common

/-- The names of `allowed_options`. -/
inductive OptionName where
  | pidLockFilePath
  | logConfigPath
  | verbose
  | configCheck
  | sslCertPublicKeyPath
  | verifyFile
  | applyImg
  | updateSysImg
  | upgradeSysImg
  | sslCertPath
  | sysImgUpdateProtocol
  | peersList
  | verifySysImg
  | forceApply
  | listSysImg
  | sysImgExtractDir
  | sysImgDownloadDir
  | recentSysImgVerPath
  | dryRun
  | printSysImgVer
  deriving DecidableEq

namespace OptionName

def value : OptionName → Str
  | .pidLockFilePath => "PIDLockFilePath".toList
  | .logConfigPath => "LogConfigPath".toList
  | .verbose => "Verbose".toList
  | .configCheck => "ConfigCheck".toList
  | .sslCertPublicKeyPath => "SSLCertPublicKeyPath".toList
  | .verifyFile => "VerifyFile".toList
  | .applyImg => "ApplyImg".toList
  | .updateSysImg => "UpdateSysImg".toList
  | .upgradeSysImg => "UpgradeSysImg".toList
  | .sslCertPath => "SSLCertPath".toList
  | .sysImgUpdateProtocol => "SysImgUpdateProtocol".toList
  | .peersList => "PeersList".toList
  | .verifySysImg => "VerifySysImg".toList
  | .forceApply => "ForceApply".toList
  | .listSysImg => "ListSysImg".toList
  | .sysImgExtractDir => "SysImgExtractDir".toList
  | .sysImgDownloadDir => "SysImgDownloadDir".toList
  | .recentSysImgVerPath => "RecentSysImgVerPath".toList
  | .dryRun => "DryRun".toList
  | .printSysImgVer => "PrintSysImgVer".toList

/-- The options in the order of `allowed_options`: the common ones, then the client's. -/
def all : List OptionName :=
  [.pidLockFilePath, .logConfigPath, .verbose, .configCheck, .sslCertPublicKeyPath, .verifyFile,
    .applyImg, .updateSysImg, .upgradeSysImg, .sslCertPath, .sysImgUpdateProtocol, .peersList,
    .verifySysImg, .forceApply, .listSysImg, .sysImgExtractDir, .sysImgDownloadDir,
    .recentSysImgVerPath, .dryRun, .printSysImgVer]

/-- The option of a name in the configuration file. -/
def ofKey (key : Str) : Option OptionName := all.find? fun name => name.value = key

/-- `required_in_file`. -/
def requiredInFile (name : OptionName) : Bool :=
  [.sslCertPublicKeyPath, .sslCertPath, .sysImgUpdateProtocol, .peersList, .sysImgExtractDir,
    .sysImgDownloadDir, .recentSysImgVerPath].contains name

/-- The options whose argument `argparse` converts by their validator. -/
def converted : List OptionName :=
  [.sslCertPublicKeyPath, .verifyFile, .applyImg, .updateSysImg, .upgradeSysImg, .sslCertPath,
    .verifySysImg]

end OptionName

/-- The entries of a peer in `options.peers_list`. -/
structure HostConnectionDetails where
  host : Str
  protocol : Str
  port : Int
  username : Str
  password : Option Str
  privateKey : Option Str
  privateKeyPass : Option Str
  remoteDir : Str
  deriving DecidableEq

/-- The value of an option. `emptyList` is the default of `PeersList`, and `paths` that of
`VerifyFile` and its two arguments. -/
inductive ConfigValue where
  | none
  | raw (value : RawValue)
  | paths (paths : Option (Str × Str))
  | emptyList
  | peers (details : Dict Str HostConnectionDetails)

/-- `self.config`. -/
abbrev Config := OptionName → ConfigValue

/-- `self.config` as the constructor leaves it. -/
def defaultConfig : Config
  | .pidLockFilePath => .raw (.str "/var/run/lock/myscm.pid".toList)
  | .logConfigPath => .raw (.str "/etc/myscm/log_config.yaml".toList)
  | .verbose => .raw (.int 0)
  | .sslCertPublicKeyPath => .none
  | .verifyFile => .paths Option.none
  | .applyImg => .none
  | .upgradeSysImg => .none
  | .sslCertPath => .raw (.str "/etc/ssl/private/myscm-cli.sig".toList)
  | .sysImgUpdateProtocol => .raw (.str "SFTP".toList)
  | .peersList => .emptyList
  | .verifySysImg => .none
  | .sysImgExtractDir => .raw (.str "/tmp".toList)
  | .sysImgDownloadDir => .raw (.str "/var/lib/myscm-cli/downloaded".toList)
  | .recentSysImgVerPath => .raw (.str "/var/myscm-cli/img_ver.myscm-cli".toList)
  | .configCheck | .updateSysImg | .forceApply | .listSysImg | .dryRun | .printSysImgVer =>
      .raw (.bool false)

/-- `CLI_SECTION_NAME`. -/
def cliSectionName : Str := "myscm-cli".toList

/-- `SysImgUpdater.SUPPORTED_PROTOCOLS`. -/
def supportedProtocols : List Str := ["SFTP".toList]

section Validators

variable (env : ParserEnv)

/-! ## The validators -/

/-- `_assert_choices_valid`. -/
def assertChoicesValid (value : RawValue) : Except ParserFailure RawValue :=
  assertThat (fun value => supportedProtocols.any fun protocol => value = .str protocol)
    (fun value => ['\''] ++ value.text ++ "' is not acceptabe for '".toList ++
      OptionName.sysImgUpdateProtocol.value ++
      "' option in configuration file. It must be one of the following values: '".toList ++
      "', '".toList.intercalate supportedProtocols ++ ['\'']) value

/-- `_assert_ssl_cert_path_valid`. -/
def assertSslCertPathValid (certPath : RawValue) : Except ParserFailure RawValue :=
  assertThat env.isfile (fun value => "Given SSL certificate file '".toList ++ value.text ++
    "' probably doesn't exist".toList) certPath

/-- `_assert_sys_img_to_verify_valid`. A number has no extension put behind it. -/
def assertSysImgToVerifyValid (sysImgPath : RawValue) : Except ParserFailure RawValue := do
  let path ← assertThat env.isfile
    (fun value => "Given mySCM system image file '".toList ++ value.text ++
      "' probably doesn't exist".toList) sysImgPath
  match path with
  | .str s =>
      assertThat (fun _ => env.isfile (.str (s ++ ".sig".toList)))
        (fun _ => "Given mySCM system image file '".toList ++ s ++
          "' doesn't have expected corresponding '".toList ++ s ++
          ".sig' certificate".toList) path
  | _ => .error .typeError

/-- `_assert_sys_img_extract_dir_valid` and `_assert_sys_img_download_dir_valid`. -/
def assertDirValid (name : OptionName) (dir : RawValue) : Except ParserFailure RawValue :=
  assertThat env.isdir (fun value => "Value '".toList ++ value.text ++
    "' assigned to variable '".toList ++ name.value ++ "' doesn't refer to directory".toList) dir

/-- `_assert_recent_img_ver_path_valid`. -/
def assertRecentImgVerPathValid (recentImgVerPath : RawValue) : Except ParserFailure RawValue := do
  let path ← assertThat env.isfile
    (fun value => "Given path '".toList ++ value.text ++
      "' of file holding version of recently applied mySCM system image doesn't exist".toList)
    recentImgVerPath
  match env.versionProblem path with
  | some message =>
      .error (.nested ("Parsing file '".toList ++ path.text ++ "' assigned to variable '".toList ++
        OptionName.recentSysImgVerPath.value ++ "' has failed".toList) (.parser message))
  | none => return path

/-! ## Peers -/

/-- `_get_variable_value`. -/
def getVariableValue (file : ConfigFile) (host name : Str) (required : Bool) :
    Except ParserFailure (Option Str) := do
  let value ← (file.getOption host name).mapError .configparser
  if required && (value.all List.isEmpty) then
    .error (.parser ("Section '".toList ++ host ++ "' doesn't have required '".toList ++ name ++
      "' variable".toList))
  else
    return value

/-- `_get_host_protocol`. -/
def getHostProtocol (file : ConfigFile) (host : Str) : Except ParserFailure Str := do
  let value ← getVariableValue file host "Protocol".toList true
  let protocol := env.upper (value.getD [])
  if supportedProtocols.contains protocol then
    return protocol
  else
    .error (.parser ("Protocol '".toList ++ protocol ++ "' is not supported".toList))

/-- `_get_host_port`. -/
def getHostPort (file : ConfigFile) (host : Str) : Except ParserFailure Int := do
  let value ← getVariableValue file host "Port".toList true
  let problem : ParserFailure := .parser
    ("Value assigned to 'Port' variable needs to be integer from ".toList ++
      "range 1 - 65535 (current value: '".toList ++ value.getD [] ++ "')".toList)
  match Str.parseInt (value.getD []) with
  | none => .error problem
  | some port => if 1 ≤ port ∧ port ≤ 65535 then return port else .error problem

/-- `_get_variable_fpath` of a variable that is not required. -/
def getVariableFpath (file : ConfigFile) (host name : Str) : Except ParserFailure (Option Str) := do
  let value ← getVariableValue file host name false
  match value with
  | none => return none
  | some path =>
      if path = [] || env.isfile (.str path) then
        return some path
      else
        .error (.parser ("File path '".toList ++ path ++
          "' referred in configuration file section '".toList ++ host ++ "' in '".toList ++
          name ++ "' variable doesn't exist".toList))

/-- `_get_host_connection_details`. -/
def getHostConnectionDetails (file : ConfigFile) (host : Str) :
    Except ParserFailure HostConnectionDetails := do
  let protocol ← getHostProtocol env file host
  let port ← getHostPort file host
  let username ← getVariableValue file host "Username".toList true
  let password ← getVariableValue file host "Password".toList false
  let privateKey ← getVariableFpath env file host "PrivateKey".toList
  let privateKeyPass ← getVariableValue file host "PrivateKeyPasswd".toList false
  let remoteDir ← getVariableValue file host "RemoteDir".toList true
  if password.all List.isEmpty && privateKey.all List.isEmpty then
    .error (.parser ("At least one of the 'Password', 'PrivateKey' variables must".toList ++
      "be set in '".toList ++ host ++ "' section".toList))
  else
    return ⟨host, protocol, port, username.getD [], password, privateKey, privateKeyPass,
      remoteDir.getD []⟩

/-- `_peers_list_to_extended_dict`, which reads the file of the constructor's path. -/
def peersListToExtendedDict (default : List UInt8) (peersList : List Str) :
    Except ParserFailure (Dict Str HostConnectionDetails) := do
  let file ← readConfigFile default
  peersList.foldlM (fun peers host =>
    if host ∈ file.sections.keys then do
      let details ← getHostConnectionDetails env file host
      return peers.set host details
    else
      .error (.parser ("Host '".toList ++ host ++
        "' referred in PeersList variable doesn't have ".toList ++
        "respective configuration section with connection details".toList))) .empty

/-- The names of a `PeersList`. -/
def peersOf (peersStr : Str) : List Str :=
  let inner := Str.rstripChars [']'] (Str.lstripChars ['['] peersStr)
  if inner = [] then [] else (inner.splitOn ',').map Str.strip

/-- `_assert_peers_list_valid`. -/
def assertPeersListValid (default : List UInt8) (peers : RawValue) :
    Except ParserFailure ConfigValue :=
  match peers with
  | .str peersStr =>
      match (peersOf peersStr).find? fun host => !env.hostResolves (.str host) with
      | some host =>
          .error (.parser ("One of the hostnames assigned to variable PeersList is ".toList ++
            "not valid (has value: '".toList ++ host ++ "')".toList))
      | none => do
          let details ← peersListToExtendedDict env default (peersOf peersStr)
          return .peers details
  | _ => .error .attributeError

/-- `_assert_respective_config_section_exist`, which reads the file of the constructor's
path. -/
def assertRespectiveConfigSectionExist (default : List UInt8) (host : RawValue) :
    Except ParserFailure Unit := do
  let file ← readConfigFile default
  match host with
  | .str name =>
      if name ∈ file.sections.keys then
        if (file.optionsOf cliSectionName).isNone then
          .error .keyError
        else do
          let peersList ← (file.getOption cliSectionName OptionName.peersList.value).mapError
            .configparser
          match peersList with
          | none => .error .typeError
          | some peersList =>
              if name <:+: peersList then
                return ()
              else
                .error (.parser ("Specified host '".toList ++ name ++
                  "' needs to be in 'PeersList' ".toList ++
                  "configuration file list to be able to use it".toList))
      else
        .error (.parser (missing host))
  | _ => .error (.parser (missing host))
where
  missing (host : RawValue) : Str :=
    "Connection details of the host '".toList ++ host.text ++
      "' are not specified in configuration file".toList

/-- `_assert_host_valid`. -/
def assertHostValid (default : List UInt8) (host : RawValue) : Except ParserFailure RawValue :=
  match host with
  | .bool b => .ok (.bool b)
  | host => do
      assertRespectiveConfigSectionExist default host
      assertThat env.hostResolves (fun value => "Not valid hostname '".toList ++ value.text ++ ['\''])
        host

/-- `assert_valid` of an option. Flags have no validator. -/
def assertValid (default : List UInt8) (name : OptionName) (value : RawValue) :
    Except ParserFailure ConfigValue :=
  match name with
  | .pidLockFilePath => .raw <$> assertPidPathValid env value
  | .logConfigPath => .raw <$> assertLogConfigPathValid env value
  | .verbose => .raw <$> assertVerbosityValid value
  | .sslCertPublicKeyPath => .raw <$> assertCertPubKeyPathValid env value
  | .verifyFile => .raw <$> assertSignatureFileValid env value
  | .applyImg | .upgradeSysImg => .raw <$> assertSysImgVerValid value
  | .updateSysImg => .raw <$> assertHostValid env default value
  | .sslCertPath => .raw <$> assertSslCertPathValid env value
  | .sysImgUpdateProtocol => .raw <$> assertChoicesValid value
  | .peersList => assertPeersListValid env default value
  | .verifySysImg => .raw <$> assertSysImgToVerifyValid env value
  | .sysImgExtractDir | .sysImgDownloadDir => .raw <$> assertDirValid env name value
  | .recentSysImgVerPath => .raw <$> assertRecentImgVerPathValid env value
  | .configCheck | .forceApply | .listSysImg | .dryRun | .printSysImgVer => .ok (.raw value)

end Validators

/-! ## The configuration file -/

/-- `_assert_no_unrecognized_file_options`. -/
def recognizedOptions (items : List (Str × Str)) : Except ParserFailure (List (OptionName × Str)) :=
  items.mapM fun item =>
    match OptionName.ofKey item.1 with
    | some name => .ok (name, item.2)
    | none => .error (.parser ("Unrecognized option '".toList ++ item.1 ++ ['\'']))

/-- `_assert_all_required_options_present`. -/
def assertAllRequiredOptionsPresent (options : List (OptionName × Str)) :
    Except ParserFailure Unit :=
  match OptionName.all.find? fun name =>
      name.requiredInFile && !(options.map Prod.fst).contains name with
  | some name =>
      .error (.parser ("Required option '".toList ++ name.value ++
        "' is not specified in configuration file".toList))
  | none => .ok ()

/-- The options of the section in the bytes of a configuration file, before they are
validated. -/
def fileOptions (content : List UInt8) : Except ParserFailure (List (OptionName × RawValue)) := do
  let file ← readConfigFile content
  let items ← (file.itemsOf cliSectionName).mapError .configparser
  let options ← recognizedOptions items
  assertAllRequiredOptionsPresent options
  options.mapM fun option => do
    let value ← convertStringValueToType option.2
    return (option.1, value)

section Parse

variable (env : ParserEnv)

/-- `config[name] = value`. -/
def setConfig (config : Config) (name : OptionName) (value : ConfigValue) : Config :=
  fun other => if other = name then value else config other

/-- `_assert_file_options_valid` and the update of `self.config`. -/
def updateConfigFromOptions (default : List UInt8) (options : List (OptionName × RawValue)) :
    Except ParserFailure Config := do
  let values ← options.mapM fun option => do
    let value ← assertValid env default option.1 option.2
    return (option.1, value)
  return values.foldl (fun config option => setConfig config option.1 option.2) defaultConfig

/-- `_update_config_from_file`. -/
def updateConfigFromFile (default content : List UInt8) : Except ParserFailure Config := do
  let options ← fileOptions content
  updateConfigFromOptions env default options

/-! ## The command line -/

/-- An option on the command line. `refused` is what `argparse` refuses when it comes to it,
`unrecognized` what it refuses at the end. -/
inductive CliArg where
  | help
  | version
  | config (path : Str)
  | applyImg (sysImgVer : Str)
  | update (host : Option Str)
  | upgrade (sysImgVer : Option Str)
  | sslCert (path : Str)
  | sslPubkey (path : Str)
  | protocol (name : Str)
  | verbose
  | configCheck
  | verify (signaturePath signedPath : Str)
  | verifyImg (path : Str)
  | force
  | list
  | dryRun
  | printVer
  | refused
  | unrecognized
  deriving DecidableEq

/-- `root_parser.parse_known_args`: the path of the configuration file, where none is the
default, and the other arguments. -/
def rootParse (defaultPath : Str) (config : Option Str) :
    List CliArg → Except ParserFailure (Option Str × List CliArg)
  | [] =>
      match config with
      | some path => .ok (some path, [])
      | none => (assertConfFileValid env defaultPath).map fun _ => (none, [])
  | .version :: _ => .error (.exit 0)
  | .config path :: rest => do
      let path ← assertConfFileValid env path
      rootParse defaultPath (some path) rest
  | arg :: rest => do
      let (config, remaining) ← rootParse defaultPath config rest
      return (config, arg :: remaining)

/-- A conversion of `argparse`. -/
def convertArgument (default : List UInt8) (name : OptionName) (value : Str) :
    Except ParserFailure ConfigValue :=
  (assertValid env default name (.str value)).mapError ParserFailure.convert

/-- An option with its new value, which may count on from the present one. -/
abbrev ConfigChange := OptionName × (ConfigValue → ConfigValue)

/-- The conversion of an argument that is stored. -/
def storeArgument (default : List UInt8) (name : OptionName) (value : Str) :
    Except ParserFailure (Option ConfigChange) := do
  let value ← convertArgument env default name value
  return some (name, fun _ => value)

/-- A constant that is stored. -/
def storeConst (name : OptionName) : Except ParserFailure (Option ConfigChange) :=
  .ok (some (name, fun _ => .raw (.bool true)))

/-- `_CountAction`. -/
def countOn : ConfigValue → ConfigValue
  | .raw (.int lvl) => .raw (.int (lvl + 1))
  | _ => .raw (.int 1)

/-- What `argparse` does for an argument: the option it changes, if any. -/
def takeArgument (default : List UInt8) : CliArg → Except ParserFailure (Option ConfigChange)
  | .help => .error (.exit 0)
  | .version => .error (.exit 0)
  | .config path => ((assertConfFileValid env path).mapError ParserFailure.convert).map fun _ => none
  | .applyImg ver => storeArgument env default .applyImg ver
  | .update none => storeConst .updateSysImg
  | .update (some host) => storeArgument env default .updateSysImg host
  | .upgrade none => storeConst .upgradeSysImg
  | .upgrade (some ver) => storeArgument env default .upgradeSysImg ver
  | .sslCert path => storeArgument env default .sslCertPath path
  | .sslPubkey path => storeArgument env default .sslCertPublicKeyPath path
  | .protocol name =>
      if supportedProtocols.contains name then
        .ok (some (.sysImgUpdateProtocol, fun _ => .raw (.str name)))
      else
        .error (.exit 2)
  | .verbose => .ok (some (.verbose, countOn))
  | .configCheck => storeConst .configCheck
  | .verify signaturePath signedPath => do
      let _ ← convertArgument env default .verifyFile signaturePath
      let _ ← convertArgument env default .verifyFile signedPath
      return some (.verifyFile, fun _ => .paths (some (signaturePath, signedPath)))
  | .verifyImg path => storeArgument env default .verifySysImg path
  | .force => storeConst .forceApply
  | .list => storeConst .listSysImg
  | .dryRun => storeConst .dryRun
  | .printVer => storeConst .printSysImgVer
  | .refused => .error (.exit 2)
  | .unrecognized => .ok none

/-- `self.config` with a change. -/
def changeConfig (config : Config) (change : ConfigChange) : Config :=
  setConfig config change.1 (change.2 (config change.1))

/-- The default of an option that was not seen: a string is converted. -/
def convertDefault (default : List UInt8) (seen : List OptionName) (config : Config)
    (name : OptionName) : Except ParserFailure Config :=
  match config name with
  | .raw (.str value) =>
      if seen.contains name then
        .ok config
      else do
        let value ← convertArgument env default name value
        return setConfig config name value
  | _ => .ok config

/-- `wrapper_parser.parse_args` behind the loop over the arguments, where `defaultPath` is the
default of `--config`. -/
def convertDefaults (defaultPath : Str) (default : List UInt8) (config : Config)
    (args : List CliArg) (changes : List ConfigChange) : Except ParserFailure Config := do
  let _ ← (assertConfFileValid env defaultPath).mapError ParserFailure.convert
  let config ← OptionName.converted.foldlM
    (convertDefault env default (changes.map Prod.fst)) (changes.foldl changeConfig config)
  if args.contains .unrecognized then
    .error (.exit 2)
  else
    return config

/-- `_update_config_from_argv`. -/
def updateConfigFromArgv (defaultPath : Str) (default : List UInt8) (config : Config)
    (args : List CliArg) : Except ParserFailure Config := do
  let taken ← args.mapM (takeArgument env default)
  convertDefaults env defaultPath default config args (taken.filterMap id)

/-! ## The parse -/

/-- The path and the content of the configuration file that counts. -/
def chosenFile (defaultPath : Str) (default : List UInt8) (contents : Str → List UInt8) :
    Option Str → Str × List UInt8
  | none => (defaultPath, default)
  | some path => (path, contents path)

/-- `__parse` behind the root parser. -/
def parseRemaining (defaultPath : Str) (default : List UInt8) (configPath : Str)
    (content : List UInt8) (remaining : List CliArg) : Except ParserFailure Config := do
  let config ←
    if remaining.contains .help then
      .ok defaultConfig
    else
      (updateConfigFromFile env default content).mapError
        (ParserFailure.nest ("Failed to parse '".toList ++ configPath ++
          "' configuration file".toList))
  (updateConfigFromArgv env defaultPath default config remaining).mapError
    (ParserFailure.nest "Failed to parse command line options".toList)

/-- `parse`. `contents` has what stands in the files that `--config` may name, and
`clientConfig` is the constructor of `ClientConfig` with the messages of its errors. -/
def parse {ω : Type} (clientConfig : Config → Except Str ω) (defaultPath : Str)
    (contents : Str → List UInt8) (default : List UInt8) (args : List CliArg) :
    Except ParserFailure ω := do
  let root ← rootParse env defaultPath none args
  let chosen := chosenFile defaultPath default contents root.1
  let options ← (parseRemaining env defaultPath default chosen.1 chosen.2 root.2).mapError
    (ParserFailure.load chosen.1)
  (clientConfig options).mapError .config

end Parse

end Myscm.Client
