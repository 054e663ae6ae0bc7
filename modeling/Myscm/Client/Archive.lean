import Mathlib.Data.Char
import Mathlib.Data.List.Lex
import Myscm.Client.Report
import Myscm.Library.FileCalls

/-!
Owns a system image as the list of its archive members, and what Python's
`tarfile` does with them.

Owns: members; `getmember`; `extractfile`; `extractall` with the order in which
it makes directories, files and attributes.

Does not own: the bytes of an archive, times and extended attributes. The owner
of a member is given as the ids it has on this machine.
-/

namespace Myscm.Client

open Myscm.Library

/-- The type of an archive member with its data. -/
inductive TarType where
  | reg (content : List UInt8)
  | dir
  | sym (linkname : Str)
  | lnk (linkname : Str)
  | fifo
  | chr (device : Nat)
  | blk (device : Nat)
  deriving DecidableEq

/-- `tarfile.TarInfo`. -/
structure TarInfo where
  name : Str
  type : TarType
  mode : Nat
  uid : Nat
  gid : Nat
  deriving DecidableEq

/-- `issym`. -/
def TarInfo.isSym (info : TarInfo) : Bool :=
  match info.type with
  | .sym _ => true
  | _ => false

/-- The members of an archive, in order. -/
abbrev Archive := List TarInfo

namespace Archive

/-- `getmember`: the last member of the name. -/
def getmember (archive : Archive) (name : Str) : Option TarInfo :=
  archive.reverse.find? fun info => info.name = name

/-- `_getmember` with names normalized, among the members `archive`. -/
def getNormalized (archive : Archive) (name : Str) : Option TarInfo :=
  archive.reverse.find? fun info => Str.normpath info.name = Str.normpath name

/-- `_find_link_target`. A hard link refers to an earlier member. -/
def findLinkTarget (archive : Archive) (info : TarInfo) : Option TarInfo :=
  match info.type with
  | .sym linkname =>
      getNormalized archive
        (['/'].intercalate ([Str.dirname info.name, linkname].filter (· ≠ [])))
  | .lnk linkname => getNormalized (archive.takeWhile (· ≠ info)) linkname
  | _ => none

/-- `extractfile` of a member behind at most `links` links. Only a circle of links
is longer than the archive. -/
def extractfileInfo (archive : Archive) : Nat → TarInfo → Option (List UInt8)
  | 0, _ => none
  | links + 1, info =>
      match info.type with
      | .reg content => some content
      | .sym _ | .lnk _ => (archive.findLinkTarget info).bind (archive.extractfileInfo links)
      | _ => none

/-- The bytes `extractfile` reads; none where it raises or has no file. -/
def extractfile (archive : Archive) (name : Str) : Option (List UInt8) :=
  (archive.getmember name).bind (archive.extractfileInfo (archive.length + 1))

end Archive

/-- The text of a file opened for reading in text mode. -/
def readText (path : Str) (fs : Fs) : Except ClientError Str :=
  match fs.readFile path with
  | none => .error .os
  | some bytes =>
      match Utf8.decode bytes with
      | none => .error .unicodeDecode
      | some text => .ok (Str.universalNewlines text)

section Extraction

variable (umask : Nat)

/-- A mode as a call leaves it behind the process's mask. -/
def masked (mode : Nat) : Nat :=
  mode - (mode &&& umask)

/-- `TarFile.chown` and `TarFile.chmod`: a failure is an `ExtractError`, which
`extract` passes over. -/
def setAttributes (info : TarInfo) (target : Str) : Prog Fs ClientError Unit :=
  Prog.handle
    (do
      sys .os (Fs.chown (!info.isSym) info.uid info.gid target)
      if info.isSym then Prog.ret () else sys .os (Fs.chmod info.mode target))
    fun _ => Prog.ret ()

/-- `makedir`, `makefile` and the others: make the node of a member that is no
hard link. -/
def makeNode (info : TarInfo) (target : Str) : Prog Fs ClientError Unit :=
  match info.type with
  | .reg content => do
      sys .os (Fs.openTruncating (masked umask 0o666) target)
      sys .os (Fs.setContent content target)
  | .dir =>
      Prog.handle (sys .os (Fs.mkdir (masked umask 0o700) target)) fun failure => do
        let there ← Prog.reads fun fs => (fs.lstat target).isSome
        if there then Prog.ret () else Prog.raise failure
  | .sym linkname => sys .os (Fs.symlink linkname target)
  | .fifo => sys .os (Fs.create · target ⟨.fifo, masked umask 0o666, 0, 0, 1⟩)
  | .chr device =>
      sys .os (Fs.create · target ⟨.charDevice device, masked umask info.mode, 0, 0, 1⟩)
  | .blk device =>
      sys .os (Fs.create · target ⟨.blockDevice device, masked umask info.mode, 0, 0, 1⟩)
  | .lnk _ => Prog.ret ()

/-- `os.link`: the new name is a node of its own here. -/
def link (src dst : Str) (fs : Fs) : Option Fs :=
  (fs.lstat src).bind fun node => if node.isDirectory then none else fs.create dst node

/-- `_extract_member`. `path` is where the archive is extracted, `links` bounds
the hard links that lead to hard links. -/
def extractMember (archive : Archive) (path : Str) :
    Nat → TarInfo → Str → Bool → Prog Fs ClientError Unit
  | 0, _, _, _ => Prog.raise .recursion
  | links + 1, info, targetpath, setAttrs => do
      let target := Str.rstripChars ['/'] targetpath
      let upperdirs := Str.dirname target
      let missing ← Prog.reads fun fs => upperdirs ≠ [] && !fs.pathExists upperdirs
      if missing then makedirs .os (masked umask 0o777) false upperdirs else Prog.ret ()
      let attributes := if setAttrs then setAttributes info target else Prog.ret ()
      match info.type with
      | .lnk linkname => do
          let linkTarget := Str.joinPath path linkname
          let there ← Prog.reads fun fs => fs.pathExists linkTarget
          if there then do
            sys .os (link linkTarget target)
            attributes
          else
            match archive.findLinkTarget info with
            | some other => do
                extractMember archive path links other target true
                attributes
            | none => Prog.ret ()
      | _ => do
          makeNode umask info target
          attributes

/-- `extractall`: the members in order, directories with a safe mode; then owner
and mode of the directories, the last name first. -/
def extractall (archive : Archive) (path : Str) : Prog Fs ClientError Unit := do
  Prog.forEach
    (fun info =>
      extractMember umask archive path (archive.length + 1) info (Str.joinPath path info.name)
        (decide (info.type ≠ .dir)))
    archive
  Prog.forEach (fun info => setAttributes info (Str.joinPath path info.name))
    ((archive.filter (·.type = .dir)).mergeSort fun a b => decide (a.name ≤ b.name)).reverse

end Extraction

end Myscm.Client
