import Myscm.Server.ImageReports
import Myscm.Library.FileTree
import Myscm.Library.Lines
import Myscm.Library.Utf8

/-!
Owns what comes into an image for the changed files: changed.txt, and the content of
each file as a patch or as the whole file.

Owns: `_add_file_to_system_img_tar` with the name and the bytes of the member it
adds; `_check_if_exist_file_template`; `_add_to_img_file_changed_entries`.

Does not own: `diff_match_patch`, which is given; where the old version comes from.
-/

namespace Myscm.Server

open Myscm.Library

namespace SystemImageGenerator

section Changed

variable (makePatch : Str → Str → Str)

/-- The text of a file opened in text mode. -/
def readTextMode (bytes : List UInt8) : Except GeneratorError Str :=
  match Utf8.decode bytes with
  | some text => .ok (Str.universalNewlines text)
  | none => .error .unicodeDecode

/-- `_add_patch_file_to_system_img`. `makePatch` is `patch_make` and `patch_toText`. -/
def addPatchFileToSystemImg (changedPath : Str) (oldBytes newBytes : List UInt8) :
    Except GeneratorError (Str × List UInt8) := do
  let oldTxt ← readTextMode oldBytes
  let newTxt ← readTextMode newBytes
  let patchFname := Str.lstripChars ['/'] changedPath ++ patchExt
  return (Str.joinPath inArchiveChangedDirName patchFname, Utf8.encode (makePatch oldTxt newTxt))

/-- `_add_file_to_system_img_tar`, where `oldBytes` are those of the copied old version,
if there is one. -/
def addFileToSystemImgTar (changedPath : Str) (oldBytes : Option (List UInt8))
    (newBytes : List UInt8) : Except GeneratorError (Str × List UInt8) :=
  match oldBytes with
  | some oldBytes => addPatchFileToSystemImg makePatch changedPath oldBytes newBytes
  | none =>
      .ok (Str.joinPath inArchiveChangedDirName (Str.lstripChars ['/'] changedPath), newBytes)

/-- What the generator finds on the server: regular files, their bytes, and those of the
copied old versions. -/
structure ServerFiles where
  isfile : Str → Bool
  bytes : Str → List UInt8
  oldBytes : Str → Option (List UInt8)

variable (files : ServerFiles)

/-- `_check_if_exist_file_template`. -/
def checkIfExistFileTemplate (path : Str) : Bool :=
  if !files.isfile path || Str.endsWith path templatePathExt then
    false
  else
    files.isfile (path ++ templatePathExt)

/-- A turn of the loop of `_add_to_img_file_changed_entries`: the line of an entry, and
the member with its content where that changed. -/
def addChangedEntry (packageName : Str → Except GeneratorError Str) (entry : AIDEEntry) :
    Except GeneratorError (Str × Option (Str × List UInt8)) := do
  let line ← appendChangedEntryToFile packageName entry
  if entry.wasFileContentChanged then do
    let path := entry.getFullPath
    let added ← addFileToSystemImgTar makePatch path (files.oldBytes path) (files.bytes path)
    return (line, some added)
  else
    return (line, none)

/-- `_add_to_img_file_changed_entries`: the members it adds, by name and bytes. -/
def addToImgFileChangedEntries (header : ReportHeader)
    (packageName : Str → Except GeneratorError Str) (entries : List AIDEEntry) :
    Except GeneratorError (List (Str × List UInt8)) := do
  let listed := entries.filter fun entry => !checkIfExistFileTemplate files entry.getFullPath
  let added ← listed.mapM (addChangedEntry makePatch files packageName)
  return added.filterMap Prod.snd ++
    [(changedFilesFname,
      Utf8.encode (unlines (appendChangedEntriesHeader header ++ added.map Prod.fst)))]

/-- Where the entries are added, changed.txt holds the line of each entry whose path is that
of a template. -/
theorem changedLine_of_template {header : ReportHeader}
    {packageName : Str → Except GeneratorError Str} {entries : List AIDEEntry}
    {members : List (Str × List UInt8)} {entry : AIDEEntry}
    (generated : addToImgFileChangedEntries makePatch files header packageName entries = .ok members)
    (listed : entry ∈ entries) (template : Str.endsWith entry.getFullPath templatePathExt = true) :
    ∃ lines properties, (changedFilesFname, Utf8.encode (unlines lines)) ∈ members ∧
      entry.getAideChangedProperties packageName = .ok properties ∧ changedLine properties ∈ lines := by
  unfold addToImgFileChangedEntries at generated
  dsimp only at generated
  obtain ⟨added, computed, generated⟩ := bind_ok generated
  obtain rfl := Except.ok.inj generated
  have kept : entry ∈ entries.filter fun entry =>
      !checkIfExistFileTemplate files entry.getFullPath := by
    rw [List.mem_filter]
    exact ⟨listed, by simp [checkIfExistFileTemplate, template]⟩
  obtain ⟨row, isRow, ofEntry⟩ := exists_mem_of_mapM_ok computed kept
  obtain ⟨line, written, rest⟩ := bind_ok ofEntry
  have rowLine : row.1 = line := by
    split at rest
    · obtain ⟨_, _, rest⟩ := bind_ok rest
      rw [← Except.ok.inj rest]
    · rw [← Except.ok.inj rest]
  obtain ⟨properties, ofProperties, isLine⟩ := bind_ok written
  have written : changedLine properties = line := by
    split at isLine
    · cases isLine
    · exact Except.ok.inj isLine
  refine ⟨_, properties, List.mem_append_right _ List.mem_cons_self, ofProperties, ?_⟩
  rw [written, ← rowLine]
  exact List.mem_append_right _ (List.mem_map_of_mem isRow)

end Changed

end SystemImageGenerator

end Myscm.Server
