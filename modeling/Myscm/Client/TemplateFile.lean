import Myscm.Client.Archive

/-!
Owns `TemplateFile`: a configuration template whose placeholders are replaced
by values of the local machine.

Owns: the predefined placeholders and those of environment variables; the
replacement line by line; writing the result.

Does not own: where templates come from and what happens to them afterwards.
-/

namespace Myscm.Client

open Myscm.Library

/-- The values of the local machine: the predefined variables, the environment
and `str.upper`. -/
structure TemplateVars where
  hostname : Str
  username : Str
  userId : Str
  home : Str
  unixTime : Str
  environ : Str → Option Str
  upper : Str → Str

namespace TemplateFile

/-- `get_templates_vars`: the predefined variables in their order. -/
def getTemplatesVars (vars : TemplateVars) : List (Str × Str) :=
  [("HOSTNAME".toList, vars.hostname), ("USERNAME".toList, vars.username),
    ("USER_ID".toList, vars.userId), ("HOME".toList, vars.home),
    ("UNIX_TIME".toList, vars.unixTime)]

/-- `_get_full_var_name`. -/
def getFullVarName (varName : Str) : Str :=
  "<MYSCM:".toList ++ varName ++ "/>".toList

/-- `get_env_value`: an unknown variable is left as `${name}`. -/
def getEnvValue (vars : TemplateVars) (varName : Str) : Str :=
  (vars.environ varName).getD ("$\x7b".toList ++ varName ++ "\x7d".toList)

/-- `line.replace(old, new)` behind `skip` characters of a replaced occurrence. -/
def replaceFrom (old new : Str) : Nat → Str → Str
  | _, [] => []
  | skip + 1, _ :: rest => replaceFrom old new skip rest
  | 0, c :: rest =>
      if old.isPrefixOf (c :: rest) then new ++ replaceFrom old new (old.length - 1) rest
      else c :: replaceFrom old new 0 rest

/-- `line.replace(old, new)` for `old` that is not empty. -/
def replace (old new line : Str) : Str :=
  replaceFrom old new 0 line

/-- The characters up to the first `/>`, if there is one on the line. -/
def untilEnd : Str → Option Str
  | '/' :: '>' :: _ => some []
  | '\n' :: _ => none
  | c :: rest => (untilEnd rest).map (c :: ·)
  | [] => none

/-- The variable names `re.findall` finds for `(<MYSCM:ENV:(.*?)/>)`, behind `skip`
characters of a match. -/
def envNamesFrom : Nat → Str → List Str
  | _, [] => []
  | skip + 1, _ :: rest => envNamesFrom skip rest
  | 0, c :: rest =>
      let opening := "<MYSCM:ENV:".toList
      let found :=
        if opening.isPrefixOf (c :: rest) then untilEnd ((c :: rest).drop opening.length) else none
      match found with
      | some name => name :: envNamesFrom (opening.length + name.length + 1) rest
      | none => envNamesFrom 0 rest

/-- The line `_append_line_to_file` writes. -/
def replaceLine (vars : TemplateVars) (line : Str) : Str :=
  let predefined := (getTemplatesVars vars).foldl
    (fun text var => replace (getFullVarName var.1) var.2 text) line
  (envNamesFrom 0 (Str.strip predefined)).foldl
    (fun text name =>
      replace ("<MYSCM:ENV:".toList ++ name ++ "/>".toList)
        (getEnvValue vars (vars.upper name)) text)
    predefined

/-- The lines of a text with their line ends. -/
def linesWithEnds (text : Str) : List Str :=
  let lines := text.splitOn '\n'
  lines.dropLast.map (· ++ ['\n']) ++ [lines.getLastD []].filter (· ≠ [])

/-- `replace_placeholders_with_values`: the output is emptied, then written. -/
def replacePlaceholdersWithValues (vars : TemplateVars) (umask : Nat)
    (templatePath outputPath : Str) : Prog Fs ClientError Unit := do
  let bytes ← Prog.tryReads fun fs =>
    match fs.readFile templatePath with
    | some bytes => .ok bytes
    | none => .error .os
  sys .os (Fs.openTruncating (masked umask 0o666) outputPath)
  match Utf8.decode bytes with
  | none => Prog.raise .unicodeDecode
  | some text =>
      let lines := linesWithEnds (Str.universalNewlines text)
      sys .os (Fs.setContent (Utf8.encode (lines.map (replaceLine vars)).flatten) outputPath)

end TemplateFile

end Myscm.Client
