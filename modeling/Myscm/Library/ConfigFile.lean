import Myscm.Library.Dict
import Myscm.Library.Lines

/-!
Owns Python's `configparser.ConfigParser` on the text of one file, with names that keep
their case.

Owns: sections, options and the lines of their values; the errors of reading;
interpolation; `sections`, `items` and `get`.

Does not own: opening a file, several files, defaults given to the parser.
-/

namespace Myscm.Library

/-- `configparser.Error`. -/
inductive IniError where
  | missingSectionHeader
  | duplicateSection (section_ : Str)
  | duplicateOption (section_ option : Str)
  | parsing
  | noSection (section_ : Str)
  | interpolationSyntax
  | interpolationMissingOption
  | interpolationDepth
  deriving DecidableEq

/-- `d.update(other)`. -/
def Dict.update {κ α : Type} [DecidableEq κ] (dict other : Dict κ α) : Dict κ α :=
  other.items.foldl (fun dict item => dict.set item.1 item.2) dict

/-- The options of a file, by section. -/
structure ConfigFile where
  sections : Dict Str (Dict Str Str)
  defaults : Dict Str Str
  deriving DecidableEq

namespace ConfigFile

def defaultSection : Str := "DEFAULT".toList

/-- The state of reading: the options with the lines of their values so far, the section and
the option that is being read, where no option is the empty name. `malformed` is an error that
is raised at the end. -/
structure Reading where
  sections : Dict Str (Dict Str (List Str))
  defaults : Dict Str (List Str)
  cursect : Option Str
  optname : Str
  indentLevel : Nat
  malformed : Bool

namespace Reading

def start : Reading := ⟨.empty, .empty, none, [], 0, false⟩

/-- The options of the section `name`. -/
def options (reading : Reading) (name : Str) : Dict Str (List Str) :=
  if name = defaultSection then reading.defaults
  else (reading.sections.get? name).getD .empty

/-- Set the lines of an option. -/
def setOption (reading : Reading) (name option : Str) (lines : List Str) : Reading :=
  if name = defaultSection then
    { reading with defaults := reading.defaults.set option lines }
  else
    { reading with sections :=
        reading.sections.set name ((reading.options name).set option lines) }

/-- One more line of the option that is being read. -/
def continueValue (reading : Reading) (line : Str) : Reading :=
  match reading.cursect with
  | none => reading
  | some name =>
      reading.setOption name reading.optname
        (((reading.options name).get? reading.optname).getD [] ++ [line])

end Reading

/-- `SECTCRE.match`: the name in square brackets at the start of a line. -/
def sectionHeader (value : Str) : Option Str :=
  match value with
  | '[' :: rest =>
      let header := rest.takeWhile (· ≠ ']')
      if header ≠ [] ∧ header.length < rest.length then some header else none
  | _ => none

/-- `_optcre.match`: what stands before the first delimiter, and behind it. -/
def optionLine (value : Str) : Option (Str × Str) :=
  match value.dropWhile fun c => c ≠ '=' && c ≠ ':' with
  | [] => none
  | _ :: behind =>
      some (Str.rstrip (value.takeWhile fun c => c ≠ '=' && c ≠ ':'), Str.strip behind)

/-- A line that is neither empty nor a comment nor the continuation of a value. -/
def readHeaderLine (reading : Reading) (value : Str) : Except IniError Reading :=
  match sectionHeader value with
  | some name =>
      if (reading.sections.get? name).isSome then
        .error (.duplicateSection name)
      else if name = defaultSection then
        .ok { reading with cursect := some name, optname := [] }
      else
        .ok { reading with
          sections := reading.sections.set name .empty, cursect := some name, optname := [] }
  | none =>
      match reading.cursect with
      | none => .error .missingSectionHeader
      | some name =>
          match optionLine value with
          | none => .ok { reading with malformed := true }
          | some (option, optval) =>
              if ((reading.options name).get? option).isSome then
                .error (.duplicateOption name option)
              else
                .ok { reading.setOption name option [optval] with
                  optname := option, malformed := reading.malformed || option.isEmpty }

/-- A turn of the loop of `_read`. -/
def readLine (reading : Reading) (line : Str) : Except IniError Reading :=
  let value := Str.strip line
  if Str.startsWith value ['#'] || Str.startsWith value [';'] then
    .ok reading
  else if value = [] then
    .ok (if reading.optname = [] then reading else reading.continueValue [])
  else
    let curIndentLevel := (line.takeWhile Str.isSpace).length
    if reading.cursect.isSome && reading.optname ≠ [] && reading.indentLevel < curIndentLevel then
      .ok (reading.continueValue value)
    else
      readHeaderLine { reading with indentLevel := curIndentLevel } value

/-- `_join_multiline_values` of an option. -/
def joinLines (lines : List Str) : Str :=
  Str.rstrip (['\n'].intercalate lines)

/-- `read_file` of a text with universal newlines. -/
def read (text : Str) : Except IniError ConfigFile := do
  let reading ← (splitLines '\n' text).foldlM readLine .start
  if reading.malformed then
    .error .parsing
  else
    return ⟨reading.sections.map (Dict.map joinLines), reading.defaults.map joinLines⟩

/-! ## Interpolation -/

section Interpolation

variable (lookup : Str → Option Str)

/-- The loop of `_interpolate_some` over the rest of a value, with `deeper` for the values
that are put in. The number bounds the length of the rest. -/
def interpolateWith (deeper : Str → Except IniError Str) : Nat → Str → Except IniError Str
  | 0, _ => .ok []
  | _ + 1, [] => .ok []
  | bound + 1, '%' :: '%' :: rest => do
      let later ← interpolateWith deeper bound rest
      return '%' :: later
  | bound + 1, '%' :: '(' :: rest =>
      let name := rest.takeWhile (· ≠ ')')
      match rest.dropWhile (· ≠ ')') with
      | ')' :: 's' :: behind =>
          if name = [] then
            .error .interpolationSyntax
          else
            match lookup name with
            | none => .error .interpolationMissingOption
            | some value => do
                let value ← if '%' ∈ value then deeper value else .ok value
                let later ← interpolateWith deeper bound behind
                return value ++ later
      | _ => .error .interpolationSyntax
  | _ + 1, '%' :: _ => .error .interpolationSyntax
  | bound + 1, c :: rest => do
      let later ← interpolateWith deeper bound rest
      return c :: later

/-- `_interpolate_some` with so many levels left. -/
def interpolateSome : Nat → Str → Except IniError Str
  | 0, _ => .error .interpolationDepth
  | levels + 1, value => interpolateWith lookup (interpolateSome levels) value.length value

end Interpolation

/-- `MAX_INTERPOLATION_DEPTH`. -/
def maxInterpolationDepth : Nat := 10

/-- `before_get` among the options `options`. -/
def beforeGet (options : Dict Str Str) (value : Str) : Except IniError Str :=
  interpolateSome options.get? maxInterpolationDepth value

/-! ## Values -/

/-- The options of a section with the defaults, the defaults first. None where there is no such
section. -/
def optionsOf (file : ConfigFile) (name : Str) : Option (Dict Str Str) :=
  if name = defaultSection then some file.defaults
  else (file.sections.get? name).map file.defaults.update

/-- `items(section)`. -/
def itemsOf (file : ConfigFile) (name : Str) : Except IniError (List (Str × Str)) :=
  match file.optionsOf name with
  | none => .error (.noSection name)
  | some options =>
      options.items.mapM fun item => do
        let value ← beforeGet options item.2
        return (item.1, value)

/-- `parser[section].get(option)` in a section that is there. -/
def getOption (file : ConfigFile) (name option : Str) : Except IniError (Option Str) :=
  match ((file.optionsOf name).getD .empty).get? option with
  | none => .ok none
  | some value => do
      let value ← beforeGet ((file.optionsOf name).getD .empty) value
      return some value

/-- The file without a line. -/
theorem read_nil : read [] = .ok ⟨.empty, .empty⟩ := rfl

/-- A file that begins with a word outside any section. -/
theorem read_headless : read ['x'] = .error .missingSectionHeader := rfl

end ConfigFile

end Myscm.Library
