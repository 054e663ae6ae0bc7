import Myscm.Library.Blocks
import Myscm.Library.LineReads

/-!
Owns how the old server builds the command that downloads the packages of a configuration set.

Owns: `check_if_ignore_pkg` and `trimwhitespace`; `append_pkg_list` over the blocks of memory it
writes to; `download_missing_packages`.

Does not own: log messages, the count of packages in them; signals, after which a call is made
again; running the command.
-/

namespace Myscm.Old

open Myscm.Library

/-! ## Constants -/

/-- The bytes of a text of the source. -/
def ascii (text : String) : List UInt8 := text.toList.map Char.toUInt8

def aptPkgExistCmd : List UInt8 := ascii "apt-cache show"
def pkgDownloadCmdResizeFactor : Nat := 2
def minPkgDownloadCmdCharLen : Nat := 4096
def maxPkgNameLen : Nat := 4096
def configSetCommentChar : UInt8 := '#'.toUInt8

/-- `CHANGE_CWD_TO_PKG_CACHE_DIR_CMD " && " APT_PKG_DOWNLOAD_CMD`, with the directory put in. -/
def cmdPrefix (pkgCacheDir : List UInt8) : List UInt8 :=
  ascii "cd '" ++ cString pkgCacheDir ++ ascii "' && apt-get download"

/-! ## Package names -/

/-- `isspace` in the C locale. -/
def isspace (c : UInt8) : Bool := c = 32 || (9 ≤ c && c ≤ 13)

/-- Where `end` stops when it goes down from an index to the start of the string. -/
def trimEnd (str : List UInt8) : Nat → Nat
  | 0 => 0
  | last + 1 => if isspace (str.getD (last + 1) 0) then trimEnd str last else last + 1

/-- `trimwhitespace`. -/
def trimwhitespace (str : List UInt8) : List UInt8 :=
  let str := str.dropWhile isspace
  if str = [] then str else str.take (trimEnd str (str.length - 1) + 1)

/-- A character of `VALID_PKG_REGEX`. Between the brackets a backslash stands for itself, so
that `\-\` is the range from backslash to backslash and `-` is not among the characters. -/
def isPkgChar (c : UInt8) : Bool :=
  (48 ≤ c && c ≤ 57) || (65 ≤ c && c ≤ 90) || (97 ≤ c && c ≤ 122) ||
    c = 92 || c = 95 || c = 46 || c = 43

/-- `regexec` with `VALID_PKG_REGEX` finds a match. -/
def matchesPkgRegex (pkgName : List UInt8) : Bool := pkgName ≠ [] && pkgName.all isPkgChar

/-- The characters that `snprintf` writes before the NUL. -/
def snprintf (n : Nat) (text : List UInt8) : List UInt8 := text.take (n - 1)

/-- `check_if_ignore_pkg`. The outcome of the command that looks the package up is given. -/
def checkIfIgnorePkg (system : List UInt8 → Int) (pkgName : List UInt8) : Bool :=
  if pkgName = [] ∨ pkgName.head? = some configSetCommentChar ∨ matchesPkgRegex pkgName = false then
    true
  else
    system (snprintf (aptPkgExistCmd.length + 1 + maxPkgNameLen)
      (aptPkgExistCmd ++ ascii " " ++ pkgName)) ≠ 0

/-! ## The command -/

/-- What the calls that `append_pkg_list` makes come to. A line has the number that the source
counts in `line_no`. -/
structure Outcomes where
  /-- `regcomp` succeeds. -/
  regcomp : Bool
  /-- The contents of the file, where it can be opened. -/
  fopen : Option (List UInt8)
  /-- `errno` is set behind the read of a line. -/
  errno : Nat → Bool
  /-- What `system` returns for the command that looks a package up. -/
  system : Nat → List UInt8 → Int
  /-- `realloc` finds memory. -/
  realloc : Nat → Bool
  /-- `fclose` succeeds. -/
  fclose : Bool

/-- The variables `download_cmd`, `cmd_len` and `cmd_buf_len`. -/
structure DownloadCmd where
  block : Block
  cmdLen : Nat
  cmdBufLen : Nat

/-- The step that makes room for a name, or none where there is no memory. -/
def grow (realloc : Bool) (k : Nat) (s : DownloadCmd) : Option DownloadCmd :=
  if k ≥ s.cmdBufLen then
    let newBufLen := max k (pkgDownloadCmdResizeFactor * s.cmdBufLen)
    if realloc then
      some { s with block := s.block.realloc newBufLen, cmdBufLen := newBufLen }
    else
      none
  else
    some s

/-- `strcspn(str, "\n")`. -/
def strcspn (str : List UInt8) : Nat := (str.takeWhile (· ≠ 10)).length

/-- The bytes that `strncpy` writes for a string: it is cut, or padded with NULs. -/
def strncpy (src : List UInt8) (n : Nat) : List UInt8 := (src ++ List.replicate n 0).take n

/-- One turn of the loop of `append_pkg_list`, with whether the loop goes on. There is no outcome
where a store is out of bounds. -/
def appendPkg (os : Outcomes) (lineNo : Nat) (line : List UInt8) (s : DownloadCmd) :
    Option (Bool × DownloadCmd) :=
  let pkgName := trimwhitespace (cString line)
  if checkIfIgnorePkg (os.system lineNo) pkgName then
    some (true, s)
  else
    let n := strcspn pkgName
    let k := s.cmdLen + n + 2
    match grow (os.realloc lineNo) k s with
    | none => some (false, s)
    | some s => do
        let spaced ← s.block.storeAll s.cmdLen (strncpy (ascii " ") 1)
        let named ← spaced.storeAll (s.cmdLen + 1) (strncpy pkgName n)
        let cmdLen := s.cmdLen + (n + 1)
        let block ← named.store cmdLen 0
        some (true, { s with block := block, cmdLen := cmdLen })

/-- What a call of `append_pkg_list` leaves: its value, the variables behind each turn of the
loop, and the variables at the end. -/
structure Run where
  ret : Int
  turns : List DownloadCmd
  last : DownloadCmd

/-- The loop of `append_pkg_list` over the lines that are still to come. -/
def appendPkgs (os : Outcomes) (lineNo : Nat) (s : DownloadCmd) : List (List UInt8) → Option Run
  | [] => some ⟨if os.errno lineNo then -1 else 0, [], s⟩
  | line :: rest =>
      if os.errno lineNo then
        some ⟨-1, [], s⟩
      else do
        let (goesOn, s) ← appendPkg os lineNo line s
        if goesOn then
          let run ← appendPkgs os (lineNo + 1) s rest
          some { run with turns := s :: run.turns }
        else
          some ⟨-1, [s], s⟩

/-- `append_pkg_list`. There is no outcome where the buffer holds no string. -/
def appendPkgList (os : Outcomes) (downloadCmd : Block) (cmdBufLen : Nat) : Option Run := do
  let text ← downloadCmd.string
  let s : DownloadCmd := ⟨downloadCmd, text.length, cmdBufLen⟩
  if os.regcomp then
    match os.fopen with
    | none => some ⟨-1, [], s⟩
    | some file =>
        let run ← appendPkgs os 1 s (fgetsAll maxPkgNameLen file)
        some (if os.fclose then run else { run with ret := -1 })
  else
    some ⟨-1, [], s⟩

/-- The buffer that `download_missing_packages` passes on. -/
def initialCmd (pkgCacheDir : List UInt8) : Option Block :=
  (Block.malloc minPkgDownloadCmdCharLen).storeAll 0
    (snprintf minPkgDownloadCmdCharLen (cmdPrefix pkgCacheDir) ++ [0])

/-- `download_missing_packages`: its value and the command it runs, if any. The outcome of that
command is given. -/
def downloadMissingPackages (os : Outcomes) (malloc : Bool) (system : List UInt8 → Int)
    (pkgCacheDir : List UInt8) : Option (Int × Option (List UInt8)) :=
  if malloc then do
    let block ← initialCmd pkgCacheDir
    let run ← appendPkgList os block minPkgDownloadCmdCharLen
    if run.ret < 0 then
      some (-1, none)
    else
      let cmd ← run.last.block.string
      some (if system cmd = 0 then 0 else -1, some cmd)
  else
    some (-1, none)

end Myscm.Old
