import Myscm.Library.Regex

/-!
Owns the server configuration as far as the database manager and the image
generator read it: where the AIDE databases stand and how old ones are named.

Owns: `ServerConfig`, the names derived from it, and the default layout.

Does not own: reading the AIDE configuration file; the contents of any
directory.
-/

namespace Myscm.Server

open Myscm.Library

/-- `"aide.db.{}".format(num)` for a database file name and a number. -/
def oldDbFname (fname : Str) (num : Int) : Str :=
  fname ++ '.' :: Str.ofInt num

/-- The variables of `ServerConfig`. Both database directories stand in
`aideOldDbDir`, neither has the name of an old database, and the database file
name has no character that a format string or a pattern reads, dots apart. -/
structure ServerConfig where
  /-- `/var/lib/myscm-srv` by default. -/
  aideOldDbDir : Str
  /-- The last part of `aide_reference_db_dir`, `aide.db.current` by default. -/
  aideReferenceDbDirname : Str
  /-- `aide.db` by default. -/
  aideReferenceDbFname : Str
  /-- The last part of `aide_out_db_dir`, `aide.db.new` by default. -/
  aideOutDbDirname : Str
  /-- `aide.db.new` by default. -/
  aideOutDbFname : Str
  recentlyGenDbVerPath : Str
  /-- `options.AIDE_config_path`. -/
  aideConfigPath : Str
  dirsDiffer : aideReferenceDbDirname ≠ aideOutDbDirname
  referenceNotOld : ∀ num, aideReferenceDbDirname ≠ oldDbFname aideReferenceDbFname num
  outNotOld : ∀ num, aideOutDbDirname ≠ oldDbFname aideReferenceDbFname num
  plainFname : ∀ c ∈ aideReferenceDbFname, c.isAlphanum = true ∨ c ∈ ['.', '-', '_']

namespace ServerConfig

/-- `os.path.join(a, b)` of a directory and a plain name. -/
def joinName (dir name : Str) : Str :=
  dir ++ '/' :: name

def aideReferenceDbDir (config : ServerConfig) : Str :=
  joinName config.aideOldDbDir config.aideReferenceDbDirname

def aideReferenceDbPath (config : ServerConfig) : Str :=
  joinName config.aideReferenceDbDir config.aideReferenceDbFname

def aideOutDbDir (config : ServerConfig) : Str :=
  joinName config.aideOldDbDir config.aideOutDbDirname

def aideOutDbPath (config : ServerConfig) : Str :=
  joinName config.aideOutDbDir config.aideOutDbFname

/-- `aide_old_db_fname_pattern.format(num)`. -/
def aideOldDbFname (config : ServerConfig) (num : Int) : Str :=
  oldDbFname config.aideReferenceDbFname num

/-- `aide_old_db_subdir_pattern.format(num)`. -/
def aideOldDbSubdir (config : ServerConfig) (num : Int) : Str :=
  joinName config.aideOldDbDir (config.aideOldDbFname num)

/-- `aide_old_db_path_pattern.format(num, num)`. -/
def aideOldDbPath (config : ServerConfig) (num : Int) : Str :=
  joinName (config.aideOldDbSubdir num) (config.aideOldDbFname num)

/-- `re.compile(aide_old_db_fname_pattern.format(r"(\d+)"))`. A dot of the file
name is the pattern's own dot, which matches any character but a line end. -/
def aideOldDbFnameRegex (config : ServerConfig) : Regex :=
  Regex.chars
    ((config.aideReferenceDbFname ++ ['.']).map fun c =>
      if c = '.' then fun d => d ≠ '\n' else fun d => d = c)
    (.group (.many 1 fun c => (Str.decimalValue c).isSome))

theorem aideOldDbFname_injective {config : ServerConfig} {i j : Int}
    (same : config.aideOldDbFname i = config.aideOldDbFname j) : i = j := by
  have tails := List.append_cancel_left same
  exact Str.ofInt_injective (List.cons.inj tails).2

theorem referenceFname_ne_old (config : ServerConfig) (num : Int) :
    config.aideReferenceDbFname ≠ config.aideOldDbFname num := by
  intro same
  have lengths := congrArg List.length same
  simp only [aideOldDbFname, oldDbFname, List.length_append, List.length_cons] at lengths
  omega

theorem referenceDirname_ne_old (config : ServerConfig) (num : Int) :
    config.aideReferenceDbDirname ≠ config.aideOldDbFname num :=
  config.referenceNotOld num

theorem outDirname_ne_old (config : ServerConfig) (num : Int) :
    config.aideOutDbDirname ≠ config.aideOldDbFname num :=
  config.outNotOld num

/-- A name behind `aide.db.` that is no number is not the name of an old database. -/
private theorem ne_oldDbFname_of_not_number {fname tail : Str}
    (notNumber : Str.parseInt tail = none) (num : Int) :
    fname ++ '.' :: tail ≠ oldDbFname fname num := by
  intro same
  have tails := List.append_cancel_left same
  rw [(List.cons.inj tails).2, Str.parseInt_ofInt] at notNumber
  cases notNumber

/-- The layout of the shipped AIDE configuration. -/
def default : ServerConfig where
  aideOldDbDir := "/var/lib/myscm-srv".toList
  aideReferenceDbDirname := "aide.db".toList ++ '.' :: "current".toList
  aideReferenceDbFname := "aide.db".toList
  aideOutDbDirname := "aide.db".toList ++ '.' :: "new".toList
  aideOutDbFname := "aide.db.new".toList
  recentlyGenDbVerPath := "/var/lib/myscm-srv/db_ver.myscm-srv".toList
  aideConfigPath := "/etc/myscm-srv/aide.conf".toList
  dirsDiffer := by decide
  referenceNotOld := ne_oldDbFname_of_not_number (by decide)
  outNotOld := ne_oldDbFname_of_not_number (by decide)
  plainFname := by decide

end ServerConfig

end Myscm.Server
