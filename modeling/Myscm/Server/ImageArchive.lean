import Myscm.Server.AddedEntries

/-!
Owns how an image is put together: the members that come into the open archive one
by one, and where that ends with an error.

Owns: the loops of the generator over the added, removed and changed entries as
programs on the archive; that the loop over the added entries leaves the members and
lines of `addEntries`.

Does not own: the bytes of an archive; the file it is written to.
-/

namespace Myscm.Server

open Myscm.Library

/-- The members that an open archive has. -/
abbrev Members := List (Str × Node)

namespace SystemImageGenerator

/-- The entries of an AIDE `--check` report, by their full paths where no more is read of them. -/
structure AIDEReportEntries where
  added : List AbsPath
  removed : List AbsPath
  changed : List AIDEEntry

/-- A file of root that is made for the archive. -/
def temporaryFile (content : List UInt8) : Node :=
  ⟨.regular content, 0o600, 0, 0, 1⟩

/-- `_get_old_changed_file_version`. -/
def getOldChangedFileVersion (clientDbPath changedPath : Str) : Str :=
  Str.joinPath (Str.joinPath (Str.dirname clientDbPath) "COPIED".toList)
    (Str.lstripChars ['/'] changedPath)

section Writing

variable (writeFails : Members → Bool)

/-- One more member. -/
def addMember (member : Str × Node) : Prog Members GeneratorError Unit :=
  Prog.step fun archive => if writeFails archive then .error .os else .ok (archive ++ [member])

/-- The end of the archive, which is written where all went well. -/
def closeArchive : Prog Members GeneratorError Unit :=
  Prog.tryReads fun archive => if writeFails archive then .error .os else .ok ()

variable (fs : Fs)

/-- `TarFile.add`. -/
def archiveAdd (keep : Str → Bool) (path intarPath : Str) : Prog Members GeneratorError Unit :=
  match fs.tarAdd keep (fs.depth + 1) path intarPath with
  | none => Prog.raise .os
  | some members => Prog.forEach (addMember writeFails) members

variable (packageName : Str → Except GeneratorError Str) (header : ReportHeader)

/-- A turn of the loop of `_add_to_img_file_aide_added_entries`, with `common_path` and the
lines of added.txt beside their paths. -/
def writeAddedEntry (acc : AbsPath × List (AbsPath × Str)) (path : AbsPath) :
    Prog Members GeneratorError (AbsPath × List (AbsPath × Str)) :=
  if Str.commonpath path.text acc.1.text = some acc.1.text then
    Prog.ret acc
  else if checkIfExistAddedFileTemplate fs path.text then
    Prog.ret (path, acc.2)
  else
    Prog.andThen (Prog.reads fun archive =>
      decide (getAddedEntryIntarPath path.text ∈ archive.map Prod.fst)) fun there =>
        if there then
          Prog.ret (path, acc.2)
        else
          Prog.andThen (archiveAdd writeFails fs (addedFilesFilter fs) path.text
            (getAddedEntryIntarPath path.text)) fun _ =>
              Prog.andThen (Prog.tryReads fun _ => entryLine packageName path) fun line =>
                Prog.ret (path, acc.2 ++ [(path, line)])

/-- `_add_to_img_file_aide_added_entries`. -/
def writeAddedEntries (added : List AbsPath) : Prog Members GeneratorError Unit :=
  Prog.andThen
    (Prog.foldOver (writeAddedEntry writeFails fs packageName) (nonExistingPath, [])
      (added.insertionSort (· ≤ ·))) fun acc =>
        addMember writeFails (addedTxt header acc.2)

/-- `_add_to_img_file_removed_entries`. -/
def writeRemovedEntries (removed : List AbsPath) : Prog Members GeneratorError Unit :=
  Prog.andThen (Prog.tryReads fun _ => addToImgFileRemovedEntries header packageName removed)
    fun lines =>
      addMember writeFails (removedFilesFname, temporaryFile (Utf8.encode (unlines lines)))

variable (makePatch : Str → Str → Str)

/-- `_add_file_to_system_img_tar`. -/
def writeChangedFile (changedPath : Str) : Prog Members GeneratorError Unit :=
  let oldChangedPath := getOldChangedFileVersion header.clientDbPath changedPath
  if fs.isfile oldChangedPath then
    Prog.andThen (Prog.tryReads fun _ =>
      match fs.readFile oldChangedPath, fs.readFile changedPath with
      | some oldBytes, some newBytes => addPatchFileToSystemImg makePatch changedPath oldBytes newBytes
      | _, _ => .error .os) fun patch =>
        addMember writeFails (patch.1, temporaryFile patch.2)
  else
    archiveAdd writeFails fs (fun _ => true) changedPath
      (Str.joinPath inArchiveChangedDirName (Str.lstripChars ['/'] changedPath))

/-- A turn of the loop of `_add_to_img_file_changed_entries`, with the lines of changed.txt. -/
def writeChangedEntry (lines : List Str) (entry : AIDEEntry) :
    Prog Members GeneratorError (List Str) :=
  if checkIfExistFileTemplate (serverFiles fs) entry.getFullPath then
    Prog.ret lines
  else
    Prog.andThen (Prog.tryReads fun _ => appendChangedEntryToFile packageName entry) fun line =>
      Prog.andThen
        (if entry.wasFileContentChanged then
          writeChangedFile writeFails fs header makePatch entry.getFullPath
        else
          Prog.ret ()) fun _ =>
            Prog.ret (lines ++ [line])

/-- `_add_to_img_file_changed_entries`. -/
def writeChangedEntries (changed : List AIDEEntry) : Prog Members GeneratorError Unit :=
  Prog.andThen
    (Prog.foldOver (writeChangedEntry writeFails fs packageName header makePatch) [] changed)
    fun lines =>
      addMember writeFails (changedFilesFname,
        temporaryFile (Utf8.encode (unlines (appendChangedEntriesHeader header ++ lines))))

/-- What is done with the open archive. -/
def writeArchive (entries : AIDEReportEntries) : Prog Members GeneratorError Unit :=
  Prog.andThen (writeAddedEntries writeFails fs packageName header entries.added) fun _ =>
    Prog.andThen (writeRemovedEntries writeFails packageName header entries.removed) fun _ =>
      Prog.andThen (writeChangedEntries writeFails fs packageName header makePatch
        entries.changed) fun _ =>
          closeArchive writeFails

end Writing

/-! ## The loop over the added entries -/

section AddedLoop

variable {fs : Fs} {packageName : Str → Except GeneratorError Str}

/-- A disk that takes all. -/
def neverFails : Members → Bool := fun _ => false

theorem ends_addMember_iff (member : Str × Node) (archive finish : Members) :
    Prog.Ends (addMember neverFails member) archive () finish ↔ finish = archive ++ [member] := by
  rw [addMember, Prog.ends_step_iff, neverFails, if_neg Bool.false_ne_true, Except.ok.injEq, eq_comm]

theorem ends_addMembers_iff (members archive finish : Members) :
    Prog.Ends (Prog.forEach (addMember neverFails) members) archive () finish ↔
      finish = archive ++ members := by
  induction members generalizing archive with
  | nil => simp [Prog.forEach, eq_comm]
  | cons member members inductionHypothesis =>
      rw [Prog.forEach, Prog.ends_andThen_iff]
      constructor
      · rintro ⟨⟨⟩, middle, first, later⟩
        rw [ends_addMember_iff] at first
        rw [(inductionHypothesis _).mp later, first, List.append_assoc, List.singleton_append]
      · rintro rfl
        refine ⟨(), archive ++ [member], (ends_addMember_iff _ _ _).mpr rfl, ?_⟩
        rw [inductionHypothesis, List.append_assoc, List.singleton_append]

/-- A turn that adds a path. -/
theorem ends_archiveAdd_iff {keep : Str → Bool} {path intarPath : Str} (archive finish : Members) :
    Prog.Ends (archiveAdd neverFails fs keep path intarPath) archive () finish ↔
      ∃ members, fs.tarAdd keep (fs.depth + 1) path intarPath = some members ∧
        finish = archive ++ members := by
  unfold archiveAdd
  cases fs.tarAdd keep (fs.depth + 1) path intarPath with
  | none => simp
  | some members => simp [ends_addMembers_iff]

/-- The loop leaves what `addEntriesFrom` computes, with the lines behind those of before. -/
theorem ends_writeAddedEntries_iff {commonPath : AbsPath} {rows : List (AbsPath × Str)}
    (paths : List AbsPath) (archive finish : Members) (later : List (AbsPath × Str)) :
    (∃ last, Prog.Ends (Prog.foldOver (writeAddedEntry neverFails fs packageName)
      (commonPath, rows) paths) archive (last, later) finish) ↔
      ∃ added, addEntriesFrom fs packageName commonPath archive paths = .ok (finish, added) ∧
        later = rows ++ added := by
  induction paths generalizing commonPath rows archive with
  | nil =>
      simp only [Prog.foldOver, Prog.ends_ret_iff, addEntriesFrom, Except.ok.injEq, Prod.mk.injEq]
      constructor
      · rintro ⟨last, ⟨rfl, rfl⟩, rfl⟩
        exact ⟨[], ⟨rfl, rfl⟩, (List.append_nil _).symm⟩
      · rintro ⟨added, ⟨rfl, rfl⟩, rfl⟩
        exact ⟨commonPath, ⟨rfl, (List.append_nil _).symm⟩, rfl⟩
  | cons path rest inductionHypothesis =>
      rw [Prog.foldOver, addEntriesFrom, writeAddedEntry]
      by_cases below : Str.commonpath path.text commonPath.text = some commonPath.text
      · rw [if_pos below, if_pos below, Prog.ret_andThen]
        exact inductionHypothesis archive
      · rw [if_neg below, if_neg below]
        by_cases template : checkIfExistAddedFileTemplate fs path.text = true
        · rw [if_pos template, if_pos template, Prog.ret_andThen]
          exact inductionHypothesis archive
        · rw [if_neg template, if_neg template]
          by_cases there : getAddedEntryIntarPath path.text ∈ archive.map Prod.fst
          · rw [if_pos there, ← inductionHypothesis]
            simp only [Prog.ends_andThen_iff, Prog.ends_reads_iff]
            constructor
            · rintro ⟨last, _, _, ⟨_, _, ⟨rfl, rfl⟩, turn⟩, ended⟩
              rw [if_pos (decide_eq_true there), Prog.ends_ret_iff] at turn
              obtain ⟨rfl, rfl⟩ := turn
              exact ⟨last, ended⟩
            · rintro ⟨last, ended⟩
              refine ⟨last, _, _, ⟨_, _, ⟨rfl, rfl⟩, ?_⟩, ended⟩
              rw [if_pos (decide_eq_true there), Prog.ends_ret_iff]
              exact ⟨rfl, rfl⟩
          · rw [if_neg there]
            simp only [Prog.ends_andThen_iff, Prog.ends_reads_iff]
            constructor
            · rintro ⟨last, _, _, ⟨_, _, ⟨rfl, rfl⟩, turn⟩, ended⟩
              rw [if_neg (by simpa using there), Prog.ends_andThen_iff] at turn
              obtain ⟨⟨⟩, middle, added, turn⟩ := turn
              obtain ⟨members, ofTar, rfl⟩ := (ends_archiveAdd_iff _ _).mp added
              simp only [Prog.ends_andThen_iff, Prog.ends_tryReads_iff, Prog.ends_ret_iff] at turn
              obtain ⟨line, _, ⟨ofLine, rfl⟩, rfl, rfl⟩ := turn
              obtain ⟨rows', ofRest, rfl⟩ := (inductionHypothesis _).mp ⟨last, ended⟩
              refine ⟨(path, line) :: rows', ?_, by rw [List.append_assoc, List.singleton_append]⟩
              simp only [ofTar, ofLine, ofRest, bind, Except.bind, pure, Except.pure]
            · rintro ⟨added, computed, rfl⟩
              split at computed
              · cases computed
              · rename_i members ofTar
                obtain ⟨line, ofLine, computed⟩ := bind_ok computed
                obtain ⟨⟨finish', rows'⟩, ofRest, result⟩ := bind_ok computed
                obtain ⟨rfl, rfl⟩ := Prod.mk.inj (Except.ok.inj result)
                obtain ⟨last, ended⟩ := (@inductionHypothesis path (rows ++ [(path, line)]) _).mpr
                  ⟨rows', ofRest, by rw [List.append_assoc, List.singleton_append]⟩
                refine ⟨last, _, _, ⟨_, _, ⟨rfl, rfl⟩, ?_⟩, ended⟩
                rw [if_neg (by simpa using there), Prog.ends_andThen_iff]
                refine ⟨(), _, (ends_archiveAdd_iff _ _).mpr ⟨members, ofTar, rfl⟩, ?_⟩
                simp only [Prog.ends_andThen_iff, Prog.ends_tryReads_iff, Prog.ends_ret_iff]
                exact ⟨line, _, ⟨ofLine, rfl⟩, rfl, rfl⟩

/-- The members for the added files are those of `addToImgFileAideAddedEntries`. -/
theorem ends_writeAddedEntries {header : ReportHeader} (added : List AbsPath) (finish : Members) :
    Prog.Ends (writeAddedEntries neverFails fs packageName header added) [] () finish ↔
      addToImgFileAideAddedEntries fs packageName header added = .ok finish := by
  unfold writeAddedEntries addToImgFileAideAddedEntries addEntries
  rw [Prog.ends_andThen_iff]
  constructor
  · rintro ⟨⟨last, rows⟩, middle, loop, report⟩
    obtain ⟨_, computed, rfl⟩ := (ends_writeAddedEntries_iff _ _ _ _).mp ⟨last, loop⟩
    rw [computed, (ends_addMember_iff _ _ _).mp report]
    rfl
  · intro computed
    obtain ⟨⟨archive, rows⟩, ofLoop, result⟩ := bind_ok computed
    obtain ⟨last, loop⟩ := (ends_writeAddedEntries_iff _ _ _ _).mpr ⟨rows, ofLoop, rfl⟩
    exact ⟨(last, rows), archive, loop, (ends_addMember_iff _ _ _).mpr (Except.ok.inj result).symm⟩

end AddedLoop

end SystemImageGenerator

end Myscm.Server
