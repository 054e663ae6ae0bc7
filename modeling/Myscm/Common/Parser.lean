import Myscm.Library.ConfigFile
import Myscm.Library.FileCalls
import Myscm.Library.Utf8

/-!
Owns the values and errors of the configuration parser, and the validators that client and
server share.

Owns: the failures of a parse with their messages; values of the configuration file and
their types; the validators of the common options.

Does not own: `argparse`, the host-name resolution, YAML and the files that options name,
whose answers are given.
-/

namespace Myscm.Common

open Myscm.Library

/-- What a parse can end with. `parser` is a `ParserError` or one of its subclasses, `nested`
one with another error inside, and `loading` the one that `_parse` raises. -/
inductive ParserFailure where
  | parser (message : Str)
  | nested (message : Str) (cause : ParserFailure)
  | loading (configPath : Str) (cause : IniError)
  | configparser (error : IniError)
  | config (message : Str)
  | unicodeDecode
  | typeError
  | keyError
  | attributeError
  | valueError
  | exit (code : Nat)
  deriving DecidableEq

/-- The messages of `ParserError`. -/
def ParserFailure.message : ParserFailure → Str
  | .parser message => message
  | .nested message _ => message
  | .loading configPath _ => "Loading configuration '".toList ++ configPath ++ "' failed".toList
  | .config message => message
  | _ => []

/-- `raise ParserError(m, e) from e` behind `except ParserError`, within `__parse`. -/
def ParserFailure.nest (message : Str) : ParserFailure → ParserFailure
  | .parser inner => .nested message (.parser inner)
  | .nested inner cause => .nested message (.nested inner cause)
  | other => other

/-- `_parse` behind `except configparser.Error`. -/
def ParserFailure.load (configPath : Str) : ParserFailure → ParserFailure
  | .configparser error => .loading configPath error
  | other => other

/-- What `argparse` makes of an error of a conversion: it prints a message and exits for a
`TypeError` and a `ValueError`. -/
def ParserFailure.convert : ParserFailure → ParserFailure
  | .typeError => .exit 2
  | .valueError => .exit 2
  | .unicodeDecode => .exit 2
  | other => other

/-- A value of the configuration file or of the command line. -/
inductive RawValue where
  | str (s : Str)
  | int (n : Int)
  | bool (b : Bool)
  deriving DecidableEq

/-- `"{}".format(value)`. -/
def RawValue.text : RawValue → Str
  | .str s => s
  | .int n => Str.ofInt n
  | .bool b => if b then "True".toList else "False".toList

/-- `int(value)`. -/
def RawValue.toInt : RawValue → Option Int
  | .str s => Str.parseInt s
  | .int n => some n
  | .bool b => some (if b then 1 else 0)

/-- Code points of digits that are no decimal digits, by their ranges. -/
def digitRanges : List (Nat × Nat) :=
  [(0xb2, 0xb3), (0xb9, 0xb9), (0x1369, 0x1371), (0x19da, 0x19da), (0x2070, 0x2070),
    (0x2074, 0x2079), (0x2080, 0x2089), (0x2460, 0x2468), (0x2474, 0x247c), (0x2488, 0x2490),
    (0x24ea, 0x24ea), (0x24f5, 0x24fd), (0x24ff, 0x24ff), (0x2776, 0x277e), (0x2780, 0x2788),
    (0x278a, 0x2792), (0x10a40, 0x10a43), (0x10e60, 0x10e68), (0x11052, 0x1105a),
    (0x1f100, 0x1f10a)]

/-- `s.isdigit()`. -/
def isdigit (s : Str) : Bool :=
  !s.isEmpty && s.all fun c =>
    (Str.decimalValue c).isSome ||
      digitRanges.any fun range => range.1 ≤ c.toNat && c.toNat ≤ range.2

/-- A turn of the loop of `_convert_string_values_to_types`. -/
def convertStringValueToType (val : Str) : Except ParserFailure RawValue :=
  if isdigit val then
    match Str.parseInt val with
    | some n => .ok (.int n)
    | none => .error .valueError
  else if val = "true".toList ∨ val = "on".toList then
    .ok (.bool true)
  else if val = "false".toList ∨ val = "off".toList then
    .ok (.bool false)
  else
    .ok (.str val)

/-- What the machine answers. `stat` takes a path or the number of a descriptor;
`hostResolves` is `check_if_host_valid`; `yamlProblem` and `versionProblem` are the messages
of a logging configuration and of a version file that cannot be parsed; `upper` is
`str.upper`. -/
structure ParserEnv where
  stat : RawValue → Option Node
  hostResolves : RawValue → Bool
  yamlProblem : RawValue → Option Str
  versionProblem : RawValue → Option Str
  upper : Str → Str

section Validators

variable (env : ParserEnv)

/-- `os.path.isfile`. -/
def ParserEnv.isfile (value : RawValue) : Bool :=
  (env.stat value).any Node.isRegular

/-- `os.path.isdir`. -/
def ParserEnv.isdir (value : RawValue) : Bool :=
  (env.stat value).any Node.isDirectory

/-- A validator that only takes what passes a test. -/
def assertThat (test : RawValue → Bool) (message : RawValue → Str) (value : RawValue) :
    Except ParserFailure RawValue :=
  if test value then .ok value else .error (.parser (message value))

/-- `_assert_pid_path_valid`. -/
def assertPidPathValid (pidFilePath : RawValue) : Except ParserFailure RawValue :=
  assertThat (fun value => (env.stat value).isNone)
    (fun value => "File path '".toList ++ value.text ++
      "' can't be used for PID lock file - file already exists".toList) pidFilePath

/-- `_assert_log_config_path_valid`. -/
def assertLogConfigPathValid (logFilePath : RawValue) : Except ParserFailure RawValue := do
  let path ← assertThat env.isfile
    (fun value => "Specified logging configuration '".toList ++ value.text ++
      "' doesn't exist".toList) logFilePath
  match env.yamlProblem path with
  | some message => .error (.parser message)
  | none => return path

def minVerbosityLvl : Int := 0

def maxVerbosityLvl : Int := 3

/-- `_assert_verbosity_valid`. -/
def assertVerbosityValid (verbosity : RawValue) : Except ParserFailure RawValue :=
  match verbosity.toInt with
  | none =>
      .error (.parser ("Given verbosity is not integer (given value: '".toList ++
        verbosity.text ++ "')".toList))
  | some lvl =>
      if minVerbosityLvl ≤ lvl ∧ lvl ≤ maxVerbosityLvl then
        .ok (.int lvl)
      else
        .error (.parser ("Verbosity must be an integer from range [".toList ++
          Str.ofInt minVerbosityLvl ++ ", ".toList ++ Str.ofInt maxVerbosityLvl ++
          "] (given value: ".toList ++ Str.ofInt lvl ++ ")".toList))

/-- `_assert_cert_pub_key_path_valid`. -/
def assertCertPubKeyPathValid (certPubKeyPath : RawValue) : Except ParserFailure RawValue :=
  assertThat env.isfile (fun value => "Given SSL certificate public key file '".toList ++
    value.text ++ "' probably doesn't exist".toList) certPubKeyPath

/-- `_assert_signature_file_valid`. -/
def assertSignatureFileValid (path : RawValue) : Except ParserFailure RawValue :=
  assertThat env.isfile (fun value => "Given file '".toList ++ value.text ++
    "' probably doesn't exist".toList) path

/-- `assert_sys_img_ver_valid`. What is no integer fails in the comparison with `None`. -/
def assertSysImgVerValid (sysImgVer : RawValue) : Except ParserFailure RawValue :=
  match sysImgVer.toInt with
  | none => .error .typeError
  | some ver =>
      if ver < 0 then
        .error (.parser ("Specified system image version '".toList ++ sysImgVer.text ++
          "' cannot be negative integer".toList))
      else
        .ok (.int ver)

/-- `_assert_conf_file_valid`. -/
def assertConfFileValid (configFilePath : Str) : Except ParserFailure Str :=
  if env.isfile (.str configFilePath) then
    .ok configFilePath
  else
    .error (.parser ("Specified configuration file '".toList ++ configFilePath ++
      "' doesn't exist".toList))

end Validators

/-- `parser.read` of the bytes of a file. -/
def readConfigFile (bytes : List UInt8) : Except ParserFailure ConfigFile :=
  match Utf8.decode bytes with
  | none => .error .unicodeDecode
  | some text => (ConfigFile.read (Str.universalNewlines text)).mapError .configparser

theorem readConfigFile_encode (text : Str) : readConfigFile (Utf8.encode text) =
    (ConfigFile.read (Str.universalNewlines text)).mapError .configparser := by
  rw [readConfigFile, Utf8.decode_encode]

end Myscm.Common
