import Myscm.Common.VersionFile
import Myscm.Library.Prog
import Myscm.Library.Regex
import Myscm.Library.Utf8
import Myscm.Server.ImageFormat

/-!
Owns reading the reports `added.txt`, `changed.txt` and `removed.txt`: the
loop both the validator and the extractor run over a report's lines.

Owns: `run_fun_for_each_report_line` with its errors; the system version check
on comments; property strings; the two ways of opening a report.

Does not own: what the callbacks do with the values.
-/

namespace Myscm.Client

open Myscm.Library Myscm.Server

/-- The exceptions of the client, with the messages of its own ones. -/
inductive ClientError where
  | sysImgValidator (message : Str)
  | sysImgExtractor (message : Str)
  | sysImgManager (message : Str)
  | signatureManager (message : Str)
  | versionFile (error : Common.VersionFileError)
  | unicodeDecode
  | unboundLocal
  | attribute
  | key
  | recursion
  | value
  | os
  deriving DecidableEq

/-- What the local machine says about itself. `lower` is `str.lower`. -/
structure Host where
  system : Str
  distroName : Str
  machine : Str
  lower : Str → Str

/-- The names of a report and of its image, as messages give them. -/
structure ReportName where
  report : Str
  image : Str

/-! ## Requirements on the local system -/

/-- `_get_value_from_comment`: the group of `\s*#\s*name\s*:\s*(.*)\s*`. -/
def getValueFromComment (name comment : Str) : Option Str :=
  let regex : Regex :=
    .seq (.many 0 Str.isSpace) <| .seq (.one (· = '#')) <| .seq (.many 0 Str.isSpace) <|
      Regex.chars (name.map fun c d => decide (d = c)) <|
        .seq (.many 0 Str.isSpace) <| .seq (.one (· = ':')) <| .seq (.many 0 Str.isSpace) <|
          .seq (.group (.many 0 (· ≠ '\n'))) (.many 0 Str.isSpace)
  (regex.fullmatch comment).bind List.head?

/-- `_assert_valid_system_version`. An empty requirement counts as none. -/
def assertValidSystemVersion (host : Host) (comment : Str) : Except ClientError Unit :=
  let expected (name : Str) : Option Str :=
    (getValueFromComment name comment).filter (· ≠ [])
  let check (name expectedVal localVal : Str) : Except ClientError Unit :=
    if host.lower localVal ≠ host.lower expectedVal then
      .error (.sysImgValidator
        ("Expected ".toList ++ name ++ " for given mySCM system image is '".toList ++
          expectedVal ++ "' (local is '".toList ++ localVal ++ "')".toList))
    else
      .ok ()
  match expected SystemImageGenerator.systemStr with
  | some system => check "system".toList system host.system
  | none =>
      match expected SystemImageGenerator.linuxDistroStr with
      | some distro => check "GNU/Linux distribution".toList distro host.distroName
      | none =>
          match expected SystemImageGenerator.cpuArchitectureStr with
          | some arch => check "CPU architecture".toList arch host.machine
          | none => .ok ()

/-! ## One line -/

/-- The values of a line: its parts between zero characters, trimmed. -/
def lineParts (line : Str) : List Str :=
  (line.splitOn '\x00').map Str.strip

/-- What the loop does with one line: nothing for comments and blank lines,
the values handed to the callback for others. -/
def lineValues (host : Host) (n : Nat) (name : ReportName) (lineNo : Nat) (l : Str) :
    Except ClientError (Option (List Str)) :=
  let line := Str.strip l
  if Str.startsWith line ['#'] then
    (assertValidSystemVersion host line).map fun _ => none
  else if line ≠ [] then
    let values := lineParts line
    if values.length ≠ n then
      .error (.sysImgValidator
        ("Corrupted line '".toList ++ Str.ofNat lineNo ++ "' in '".toList ++ name.report ++
          "' within '".toList ++ name.image ++ "' (expected ".toList ++ Str.ofNat n ++
          " value".toList ++ (if 1 < n then ['s'] else []) ++ " in line, but ".toList ++
          Str.ofNat values.length ++ " found: ".toList ++ line ++ ")".toList))
    else
      .ok (some values)
  else
    .ok none

/-! ## The loop -/

section Loop

variable (host : Host) (n : Nat) (name : ReportName)

/-- The loop of `run_fun_for_each_report_line` behind `lineNo` lines, `validLines`
of which held values. A line that is not UTF-8 is none. The callback is also
told how many calls went before, which is where a progress bar stands. -/
def reportLoop {σ : Type} (callback : Nat → List Str → Prog σ ClientError Unit) :
    Nat → Nat → List (Option Str) → Prog σ ClientError (Nat × Nat)
  | lineNo, validLines, [] => Prog.ret (lineNo, validLines)
  | _, _, none :: _ => Prog.raise .unicodeDecode
  | lineNo, validLines, some l :: rest =>
      match lineValues host n name (lineNo + 1) l with
      | .error failure => Prog.raise failure
      | .ok none => reportLoop callback (lineNo + 1) validLines rest
      | .ok (some values) => do
          callback validLines values
          reportLoop callback (lineNo + 1) (validLines + 1) rest

/-- `run_fun_for_each_report_line`. -/
def runFunForEachReportLine {σ : Type} (callback : Nat → List Str → Prog σ ClientError Unit)
    (lines : List (Option Str)) : Prog σ ClientError (Nat × Nat) :=
  reportLoop host n name callback 0 0 lines

/-- The value lists the loop hands on when no callback raises, and how it ends. -/
def readReport : Nat → Nat → List (Option Str) → List (List Str) × Except ClientError (Nat × Nat)
  | lineNo, validLines, [] => ([], .ok (lineNo, validLines))
  | _, _, none :: _ => ([], .error .unicodeDecode)
  | lineNo, validLines, some l :: rest =>
      match lineValues host n name (lineNo + 1) l with
      | .error failure => ([], .error failure)
      | .ok none => readReport (lineNo + 1) validLines rest
      | .ok (some values) =>
          let later := readReport (lineNo + 1) (validLines + 1) rest
          (values :: later.1, later.2)

/-- The loop is a loop over the value lists, then the end of the reading. -/
theorem reportLoop_eq {σ : Type} (callback : Nat → List Str → Prog σ ClientError Unit)
    (lineNo validLines : Nat) (lines : List (Option Str)) :
    reportLoop host n name callback lineNo validLines lines =
      Prog.andThen
        (Prog.forEach (fun call => callback call.2 call.1)
          ((readReport host n name lineNo validLines lines).1.zipIdx validLines))
        fun _ => Prog.tryReads fun _ => (readReport host n name lineNo validLines lines).2 := by
  induction lines generalizing lineNo validLines with
  | nil => simp [reportLoop, readReport, Prog.forEach]; rfl
  | cons line rest inductionHypothesis =>
      cases line with
      | none => simp [reportLoop, readReport, Prog.forEach]; rfl
      | some l =>
          cases result : lineValues host n name (lineNo + 1) l with
          | error failure => simp [reportLoop, readReport, result, Prog.forEach]; rfl
          | ok values =>
              cases values with
              | none => simp [reportLoop, readReport, result, inductionHypothesis]
              | some values =>
                  simp only [reportLoop, readReport, result, Prog.bind_eq,
                    inductionHypothesis, List.zipIdx_cons, Prog.forEach, Prog.andThen_assoc]

/-- A report is read without a step where its callback makes none. -/
theorem quiet_runFunForEachReportLine {σ : Type}
    {callback : Nat → List Str → Prog σ ClientError Unit}
    (quiet : ∀ calls values, Prog.Quiet (callback calls values)) (lines : List (Option Str)) :
    Prog.Quiet (runFunForEachReportLine host n name callback lines) := by
  rw [runFunForEachReportLine, reportLoop_eq]
  refine Prog.quiet_andThen (Prog.quiet_forEach ?_ _) fun _ => Prog.quiet_tryReads _
  exact fun call => quiet call.2 call.1

end Loop

/-! ## Opening a report -/

/-- The lines of an archive member: a binary stream iterates on line feeds, and
each line is decoded by itself. -/
def binaryLines (bytes : List UInt8) : List (Option Str) :=
  (splitLines 10 bytes).map Utf8.decode

/-- The lines of a file opened in text mode: decoded ahead, then split with
universal newlines. -/
def textLines (bytes : List UInt8) : List (Option Str) :=
  match Utf8.decode bytes with
  | some text => (splitLines '\n' (Str.universalNewlines text)).map some
  | none => [none]

/-! ## Property strings -/

/-- `get_new_old_property_from_string`. -/
def getNewOldPropertyFromString (propertyStr path : Str) : Except ClientError (Str × Str) :=
  match Str.words propertyStr with
  | [newVal, oldVal] => .ok (newVal, Str.rstripChars [')'] (Str.lstripChars ['('] oldVal))
  | _ =>
      .error (.sysImgValidator
        ("Property string '".toList ++ propertyStr ++ "' for file '".toList ++ path ++
          "' is malformed".toList))

end Myscm.Client
