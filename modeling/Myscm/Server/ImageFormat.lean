import Myscm.Library.Text

/-!
Owns the names that server and client share about a system image: the members
of the archive, the texts of the report headers, the file types.

Owns: the constants of `SystemImageGenerator`, `FileType` and the number of
values in a report line.

Does not own: writing or reading an image.
-/

namespace Myscm.Server

open Myscm.Library

/-- `AIDEEntry.PROPERTIES_COUNT`. -/
def propertiesCount : Nat := 18

/-- `FileType`. -/
inductive FileType where
  | regularFile
  | directory
  | symbolicLink
  | characterDevice
  | blockDevice
  | fifo
  | unixSocket
  | solarisDoor
  | solarisEventPort
  | ftypeChanged
  | unknown
  deriving DecidableEq

/-- `FileType.value`. -/
def FileType.value : FileType → Char
  | .regularFile => 'f'
  | .directory => 'd'
  | .symbolicLink => 'l'
  | .characterDevice => 'c'
  | .blockDevice => 'b'
  | .fifo => 'p'
  | .unixSocket => 's'
  | .solarisDoor => 'D'
  | .solarisEventPort => 'P'
  | .ftypeChanged => '!'
  | .unknown => '?'

namespace SystemImageGenerator

def myscmImgExt : Str := ".tar.gz".toList

/-- `MYSCM_IMG_FILE_NAME.format(from_db_id, to_db_id)`. -/
def myscmImgFileName (fromDbId toDbId : Int) : Str :=
  "myscm-img.".toList ++ Str.ofInt fromDbId ++ '.' :: Str.ofInt toDbId ++ myscmImgExt

def inArchiveAddedDirName : Str := "ADDED".toList
def inArchiveChangedDirName : Str := "CHANGED".toList
def addedFilesFname : Str := "added.txt".toList
def removedFilesFname : Str := "removed.txt".toList
def changedFilesFname : Str := "changed.txt".toList
def patchExt : Str := ".myscmsrv-patch".toList
def templatePathExt : Str := ".myscm-template".toList
def systemStr : Str := "System".toList
def linuxDistroStr : Str := "GNU/Linux distribution".toList
def cpuArchitectureStr : Str := "CPU architecture".toList

end SystemImageGenerator

end Myscm.Server
