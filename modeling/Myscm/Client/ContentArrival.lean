import Myscm.Client.ChangedAttributes
import Myscm.Client.Untouched

/-!
Owns the question whether the new content of a changed file reaches the client.

Owns: what an entry's line of changed.txt leaves in its file, whole or patched; what the
other steps of the three phases need so that they leave the file alone; when the client ends
with the bytes of the server.

Does not own: mode and owner of the file; how the line is written and read.
-/

namespace Myscm.Client

open Myscm.Library Myscm.Server
open Fs (NamesFile SameShape SameBut LeadsTo)

namespace SysImgExtractor

/-! ## What is sent -/

/-- The size column of the info string is one for which the client installs the content. -/
def Installed (entry : AIDEEntry) : Prop :=
  entry.infoStr[2]? = some '>' ∨ entry.infoStr[2]? = some '<'

instance (entry : AIDEEntry) : Decidable (Installed entry) :=
  inferInstanceAs (Decidable (_ ∨ _))

/-- What the client ends with: the old bytes where nothing is installed; else the new bytes,
with universal newlines where the server has a copy of the old version, and sends a patch. -/
def arrivingBytes (entry : AIDEEntry) (oldCopy : Option (List UInt8))
    (oldBytes newBytes : List UInt8) : List UInt8 :=
  if Installed entry then
    match oldCopy with
    | none => newBytes
    | some _ => ((Utf8.decode newBytes).map fun text =>
        Utf8.encode (Str.universalNewlines text)).getD newBytes
  else
    oldBytes

/-- The size column tells of a change, and a patch is made for a text without carriage
returns; or the file is what it was. -/
def ContentSurvives (entry : AIDEEntry) (oldCopy : Option (List UInt8))
    (oldBytes newBytes : List UInt8) : Prop :=
  if Installed entry then
    oldCopy = none ∨ ∀ text, Utf8.encode text = newBytes → '\r' ∉ text
  else
    oldBytes = newBytes

theorem arrivingBytes_eq_iff (entry : AIDEEntry) (oldCopy : Option (List UInt8))
    (oldBytes newBytes : List UInt8) :
    arrivingBytes entry oldCopy oldBytes newBytes = newBytes ↔
      ContentSurvives entry oldCopy oldBytes newBytes := by
  unfold arrivingBytes ContentSurvives
  split
  · cases oldCopy with
    | none => simp
    | some copy =>
        cases decoded : Utf8.decode newBytes with
        | none =>
            apply iff_of_true rfl
            right
            intro text encoded
            rw [← encoded, Utf8.decode_encode] at decoded
            cases decoded
        | some text =>
            have encoded : Utf8.encode text = newBytes := Utf8.encode_of_decode decoded
            dsimp only [Option.map_some, Option.getD_some]
            rw [← encoded]
            have same : Utf8.encode (Str.universalNewlines text) = Utf8.encode text ↔
                '\r' ∉ text := by
              rw [← Str.universalNewlines_eq_self_iff]
              exact ⟨Utf8.encode_injective, congrArg Utf8.encode⟩
            rw [same]
            constructor
            · intro noReturn
              right
              intro other same
              rwa [Utf8.encode_injective same]
            · intro survives
              apply survives.resolve_left (by simp) text rfl
  · exact Iff.rfl

/-- The patch of a text from its old version leads from the one to the other, and is a text
of escaped lines. -/
structure PatchCorrect (applyPatch : Str → Str → Option Str) (makePatch : Str → Str → Str)
    (oldText newText : Str) : Prop where
  applies : applyPatch (makePatch oldText newText) oldText = some newText
  escaped : '\r' ∉ makePatch oldText newText

/-! ## One line -/

/-- The extracted image holds for the entry what the server put there: a patch elsewhere than
in the place of the file itself, or the whole file and no patch. -/
def HoldsSent (dir path : Str) (place : Path) (oldCopy : Option (List UInt8))
    (memberBytes : List UInt8) (fs : Fs) : Prop :=
  match oldCopy with
  | some _ => fs.readFile (diffPathOf dir path) = some memberBytes ∧
      LeadsTo (· ≠ place) false (diffPathOf dir path) fs
  | none => fs.isfile (diffPathOf dir path) = false ∧
      ∃ node, fs.lstat (origPathOf dir path) = some node ∧ node.content? = some memberBytes

section Line

variable {env : ClientEnv} {options : ClientOptions} {makePatch : Str → Str → Str} {dir : Str}
  {place : Path} {entry : AIDEEntry} {oldCopy : Option (List UInt8)}
  {oldBytes newBytes memberBytes : List UInt8} {member : Str} {values : List Str} {old : Node}
  {fs : Fs}

theorem namesFile_text {node : Node} (found : fs.node place = some node)
    (regular : node.isRegular = true) : NamesFile fs place.text place node := by
  apply And.intro _ ⟨found, regular⟩
  apply Fs.locate_text _ (.inl rfl)
  rw [found]
  rfl

theorem isRegular_of_content {node : Node} {bytes : List UInt8}
    (content : node.content? = some bytes) : node.isRegular = true := by
  rw [Node.isRegular, content]
  rfl

/-- Both sides read a text file alike. -/
theorem readText_of_readTextMode {path : Str} {bytes : List UInt8} {text : Str}
    (read : fs.readFile path = some bytes)
    (serverRead : SystemImageGenerator.readTextMode bytes = .ok text) :
    readText path fs = .ok text := by
  unfold SystemImageGenerator.readTextMode at serverRead
  rw [readText, read]
  dsimp only
  cases decoded : Utf8.decode bytes with
  | none =>
      rw [decoded] at serverRead
      cases serverRead
  | some whole =>
      rw [decoded] at serverRead
      exact congrArg Except.ok (Except.ok.inj serverRead)

/-- What a patch leaves in the file: the new text. -/
theorem content_of_applyPatchForFile {patchPath : Str} {copy : List UInt8} {finish : Fs}
    (applied : options.dryRun = false)
    (correct : ∀ oldText newText, SystemImageGenerator.readTextMode copy = .ok oldText →
      SystemImageGenerator.readTextMode newBytes = .ok newText →
        PatchCorrect env.applyPatch makePatch oldText newText)
    (added : SystemImageGenerator.addPatchFileToSystemImg makePatch place.text copy newBytes =
      .ok (member, memberBytes))
    (found : fs.node place = some old) (content : old.content? = some copy)
    (patchRead : fs.readFile patchPath = some memberBytes)
    (ends : Prog.Ends (applyPatchForFile env options place.text patchPath) fs () finish) :
    ∃ node text, Utf8.decode newBytes = some text ∧ finish.node place = some node ∧
      node.content? = some (Utf8.encode (Str.universalNewlines text)) := by
  obtain ⟨oldText, oldRead, rest⟩ := bind_ok added
  obtain ⟨newText, newRead, rest⟩ := bind_ok rest
  have isPatch : memberBytes = Utf8.encode (makePatch oldText newText) :=
    (Prod.mk.inj (Except.ok.inj rest)).2.symm
  have ⟨applies, escaped⟩ := correct oldText newText oldRead newRead
  have names := namesFile_text found (isRegular_of_content content)
  have oldFile : fs.readFile place.text = some copy := names.readFile.trans content
  rw [isPatch] at patchRead
  have patchText : readText patchPath fs = .ok (makePatch oldText newText) := by
    rw [readText_of_encode patchRead, Str.universalNewlines_eq_self escaped]
  obtain ⟨finish', ends', finishRead⟩ := applyPatchForFile_ends applied patchText
    (readText_of_readTextMode oldFile oldRead) applies
  obtain ⟨_, rfl⟩ := ends.unique ends'
  obtain ⟨node, finishNames, _⟩ := (rewritten_of_applyPatchForFile ends).namesFile names
  unfold SystemImageGenerator.readTextMode at newRead
  cases decoded : Utf8.decode newBytes with
  | none =>
      rw [decoded] at newRead
      cases newRead
  | some text =>
      rw [decoded] at newRead
      rw [← Except.ok.inj newRead] at finishRead
      exact ⟨node, text, rfl, finishNames.2.1, finishNames.readFile.symm.trans finishRead⟩

theorem content_of_changeContent {finish : Fs} (applied : options.dryRun = false)
    (correct : ∀ copy oldText newText, oldCopy = some copy →
      SystemImageGenerator.readTextMode copy = .ok oldText →
        SystemImageGenerator.readTextMode newBytes = .ok newText →
          PatchCorrect env.applyPatch makePatch oldText newText)
    (added : SystemImageGenerator.addFileToSystemImgTar makePatch place.text oldCopy newBytes =
      .ok (member, memberBytes))
    (copied : ∀ copy, oldCopy = some copy → copy = oldBytes)
    (isPath : values.getD 0 [] = place.text)
    (installs : (values.getD 4 [] = [FileType.regularFile.value] ∧
      (values.getD 5 [] = ['>'] ∨ values.getD 5 [] = ['<'])) ↔ Installed entry)
    (found : fs.node place = some old) (content : old.content? = some oldBytes)
    (holds : HoldsSent dir place.text place oldCopy memberBytes fs)
    (ends : Prog.Ends (changeContent env options dir values) fs () finish) :
    ∃ node, finish.node place = some node ∧
      node.content? = some (arrivingBytes entry oldCopy oldBytes newBytes) := by
  have names := namesFile_text found (isRegular_of_content content)
  unfold changeContent at ends
  dsimp only at ends
  rw [isPath] at ends
  unfold arrivingBytes
  by_cases installed : Installed entry
  · rw [if_pos (installs.mpr installed), Prog.Ends, applyChangedFile_run] at ends
    rw [if_pos installed]
    cases oldCopy with
    | some copy =>
        obtain rfl := copied copy rfl
        obtain ⟨patchRead, apart⟩ := holds
        have patched : fs.isfile (diffPathOf dir place.text) = true := isfile_of_readFile patchRead
        rw [if_pos patched] at ends
        obtain ⟨_, middle, patchEnds, removeEnds⟩ := (Prog.ends_andThen_iff _ _ _ _ _).mp ends
        obtain ⟨node, text, decoded, middleFound, middleContent⟩ :=
          content_of_applyPatchForFile applied (fun oldText newText => correct copy oldText newText rfl)
            added found content patchRead patchEnds
        have removed := (Fs.ends_sys_iff _ _ _ _).mp removeEnds
        obtain ⟨patchPlace, located, touches⟩ := Fs.touches_of_remove removed
        have elsewhere : patchPlace ≠ place := by
          apply apart patchPlace
          rw [Fs.locate_congr (rewritten_of_applyPatchForFile patchEnds).toSameShape]
          exact located
        refine ⟨node, ?_, ?_⟩
        · rw [touches.others place elsewhere.symm]
          exact middleFound
        · rw [middleContent, decoded]
          rfl
    | none =>
        obtain ⟨noPatch, sent, sentFound, sentContent⟩ := holds
        have isNew : memberBytes = newBytes := (Prod.mk.inj (Except.ok.inj added)).2.symm
        have there : fs.isfile place.text = true :=
          isfile_of_readFile (names.readFile.trans content)
        rw [if_neg (by simp [noPatch]), Prog.reads_andThen, there, if_pos rfl, moveChangedFile,
          unlessDryRun, applied, if_neg Bool.false_ne_true] at ends
        obtain ⟨source, sourceNames⟩ :=
          Fs.namesFile_of_lstat sentFound (isRegular_of_content sentContent)
        obtain ⟨_, moved⟩ := Fs.moved_of_move sourceNames names ((Fs.ends_sys_iff _ _ _ _).mp ends)
        exact ⟨sent, moved, sentContent.trans (congrArg some isNew)⟩
  · rw [if_neg fun both => installed (installs.mp both)] at ends
    obtain ⟨_, rfl⟩ := (Prog.ends_ret_iff _ _ _ _).mp ends
    rw [if_neg installed]
    exact ⟨old, found, content⟩

/-- Behind the content, mode and owner are changed. -/
theorem content_of_line {counts : ReportCounts} {calls : Nat} {finish : Fs} {bytes : List UInt8}
    (applied : options.dryRun = false) (isPath : values.getD 0 [] = place.text)
    (contentStep : ∀ middle, Prog.Ends (changeContent env options dir values) fs () middle →
      ∃ node, middle.node place = some node ∧ node.content? = some bytes)
    (ends : Prog.Ends (changedFilesPerLineFun env options dir counts calls values) fs () finish) :
    ∃ node, finish.node place = some node ∧ node.content? = some bytes := by
  obtain ⟨behind, owned, run, isFinish⟩ :=
    (ends_changedFilesPerLineFun_iff applied dir counts calls values fs finish).mp ends
  obtain ⟨middle, newPerm, oldPerm, newUid, oldUid, newGid, oldGid, contentEnds, _, modeEnds, _, _,
    isOwned, _⟩ := run
  obtain ⟨node, found, content⟩ := contentStep middle contentEnds
  have names := namesFile_text found (isRegular_of_content content)
  rw [isPath] at modeEnds isOwned
  obtain ⟨mode, behindNames, _⟩ := mode_of_changeFilePermissions applied names modeEnds
  cases owned with
  | none =>
      obtain rfl : behind = finish := isFinish
      exact ⟨_, behindNames.2.1, content⟩
  | some last =>
      obtain rfl : last = finish := isFinish
      obtain ⟨_, _, uid, gid, _, _, _, _, ownedNames⟩ := owner_of_ownerChange behindNames isOwned
      exact ⟨_, ownedNames.2.1, content⟩

end Line

/-! ## The other steps -/

section Alone

variable (env : ClientEnv) (options : ClientOptions) (dir imgName : Str) (counts : ReportCounts)
  (place : Path) (values : List Str)

/-- A turn of the loop over changed.txt. -/
def changedTurn (call : List Str × Nat) : Prog Fs ClientError Unit :=
  changedFilesPerLineFun env options dir counts call.2 call.1

/-- No step for the line is in the place. -/
def LineAlone (call : List Str × Nat) (fs : Fs) : Prop :=
  ChangedLineWithin env options (· ≠ place) dir call.1 fs

/-- The entry has one line, where the extracted image holds what was sent for it, and the lines
in front of it and behind it leave the place alone. -/
def LinesAlone (holds : Fs → Prop) (lines : List (List Str)) (fs : Fs) : Prop :=
  ∃ front back, lines = front ++ values :: back ∧
    Prog.EachReady (changedTurn env options dir counts) (LineAlone env options dir place)
      front.zipIdx fs ∧
    ∀ before,
      Prog.Ends (Prog.forEach (changedTurn env options dir counts) front.zipIdx) fs () before →
        holds before ∧
          ∀ behind,
            Prog.Ends (changedTurn env options dir counts (values, front.length)) before () behind →
              Prog.EachReady (changedTurn env options dir counts) (LineAlone env options dir place)
                (back.zipIdx (front.length + 1)) behind

/-- The entry's line is read, and no other step of the three phases is in the place of its
file. -/
structure Undisturbed (holds : Fs → Prop) (fs : Fs) : Prop where
  path : values.getD 0 [] = place.text
  added : MovetreeWithin env options (· ≠ place) dir fs
  lines : ∀ behindAdded bytes,
    Prog.Ends (applyAddedFiles env options dir imgName counts) fs () behindAdded →
      behindAdded.readFile (Str.joinPath dir SystemImageGenerator.changedFilesFname) = some bytes →
        LinesAlone env options dir counts place values holds
          (readReport env.host propertiesCount
            ⟨Str.joinPath dir SystemImageGenerator.changedFilesFname, imgName⟩ 0 0
            (textLines bytes)).1 behindAdded
  removed : ∀ behindAdded behindChanged,
    Prog.Ends (applyAddedFiles env options dir imgName counts) fs () behindAdded →
      Prog.Ends (applyChangedFiles env options dir imgName counts) behindAdded () behindChanged →
        ReportWithin env dir imgName SystemImageGenerator.removedFilesFname 2
          (removedFilesPerLineFun options counts)
          (fun values fs => LeadsTo (· ≠ place) false (values.getD 0 []) fs) behindChanged

end Alone

section Run

variable {env : ClientEnv} {options : ClientOptions} {dir imgName : Str} {counts : ReportCounts}
  {place : Path} {values : List Str} {holds : Fs → Prop} {start fs finish : Fs} {node : Node}

theorem sameBut_place_iff : SameBut (· ≠ place) start fs ↔ fs.node place = start.node place := by
  constructor
  · intro same
    exact same place (not_not.mpr rfl)
  · intro here path isPlace
    rw [not_not.mp isPlace]
    exact here

/-- Empty directories are removed, files are not. -/
theorem node_of_removeEmptyDirs {src : Str} (found : fs.node place = some node)
    (isFile : node.isDirectory = false) :
    Prog.Keeps (fun state => state.node place = some node) (removeEmptyDirs options src) fs := by
  have always : Prog.Always (fun state => state.node place = some node)
      (osWalkUp (fun path => Prog.handle (removedirs ClientError.os path) fun _ => Prog.ret ())
        pathMax src) := by
    apply Fs.always_osWalkUp_removedirs
    exact fun _ _ _ here removed => Fs.node_of_rmdir here isFile removed
  exact keeps_unlessDryRun (always.keeps found)

theorem node_of_lines {lines : List (List Str × Nat)} (found : fs.node place = some node)
    (alone : Prog.EachReady (changedTurn env options dir counts) (LineAlone env options dir place)
      lines fs)
    (ends : Prog.Ends (Prog.forEach (changedTurn env options dir counts) lines) fs () finish) :
    finish.node place = some node := by
  have same : SameBut (· ≠ place) fs fs := SameBut.refl fs
  have keeps : Prog.Keeps (SameBut (· ≠ place) fs)
      (Prog.forEach (changedTurn env options dir counts) lines) fs := by
    apply Prog.keeps_forEach _ lines same alone
    exact fun call here sameHere ready => keeps_changedFilesPerLineFun sameHere ready counts call.2
  rw [← found]
  exact sameBut_place_iff.mp (ends.kept same keeps)

theorem node_of_applyAddedFiles (found : fs.node place = some node)
    (isFile : node.isDirectory = false)
    (within : MovetreeWithin env options (· ≠ place) dir fs)
    (ends : Prog.Ends (applyAddedFiles env options dir imgName counts) fs () finish) :
    finish.node place = some node := by
  have same : SameBut (· ≠ place) fs fs := SameBut.refl fs
  have there : ∀ path, ¬ path ≠ place → (fs.node path).isSome = true := by
    intro path isPlace
    rw [not_not.mp isPlace, found]
    rfl
  have keeps : Prog.Keeps (SameBut (· ≠ place) fs) (applyAddedFiles env options dir imgName counts)
      fs := by
    apply Prog.keeps_andThen same
    · apply keeps_movetree same there within
      intro total middle count behindWalk _ _ sameWalk
      have here := (sameBut_place_iff.mp sameWalk).trans found
      intro state member
      rw [sameBut_place_iff, found]
      exact node_of_removeEmptyDirs here isFile state member
    · intro _ behind _ _
      exact (quiet_forEachReportLine fun _ _ => quiet_barUpdate _ _).keeps behind
  rw [← found]
  exact sameBut_place_iff.mp (ends.kept same keeps)

theorem node_of_applyRemovedFiles (found : fs.node place = some node)
    (within : ReportWithin env dir imgName SystemImageGenerator.removedFilesFname 2
      (removedFilesPerLineFun options counts)
      (fun values fs => LeadsTo (· ≠ place) false (values.getD 0 []) fs) fs)
    (ends : Prog.Ends (applyRemovedFiles env options dir imgName counts) fs () finish) :
    finish.node place = some node := by
  have same : SameBut (· ≠ place) fs fs := SameBut.refl fs
  have keeps : Prog.Keeps (SameBut (· ≠ place) fs)
      (applyRemovedFiles env options dir imgName counts) fs := by
    apply keeps_forEachReportLine same _ within
    exact fun calls values here sameHere ready =>
      keeps_removedFilesPerLineFun sameHere ready counts calls
  rw [← found]
  exact sameBut_place_iff.mp (ends.kept same keeps)

/-- The file ends with what the entry's line leaves in it. -/
theorem content_of_applyPhases {bytes oldBytes : List UInt8} {old : Node}
    (applied : options.dryRun = false)
    (undisturbed : Undisturbed env options dir imgName counts place values holds fs)
    (found : fs.node place = some old) (content : old.content? = some oldBytes)
    (contentStep : ∀ before middle, before.node place = some old → holds before →
      Prog.Ends (changeContent env options dir values) before () middle →
        ∃ node, middle.node place = some node ∧ node.content? = some bytes)
    (ends : Prog.Ends (applyPhases env options dir imgName counts) fs () finish) :
    finish.readFile place.text = some bytes := by
  obtain ⟨_, behindAdded, addedEnds, rest⟩ := (Prog.ends_andThen_iff _ _ _ _ _).mp ends
  obtain ⟨_, behindChanged, changedEnds, removedEnds⟩ := (Prog.ends_andThen_iff _ _ _ _ _).mp rest
  obtain ⟨_, behindLines, linesEnd, emptyEnds⟩ := (Prog.ends_andThen_iff _ _ _ _ _).mp changedEnds
  obtain ⟨report, read, loopEnds, _⟩ := ends_forEachReportLine_iff.mp linesEnd
  have isFile := Fs.isDirectory_of_isRegular (isRegular_of_content content)
  have foundAdded := node_of_applyAddedFiles found isFile undisturbed.added addedEnds
  obtain ⟨front, back, split, frontAlone, atLine⟩ :=
    undisturbed.lines behindAdded report addedEnds read
  -- The loop: the lines in front of the entry's, its own, the lines behind it.
  rw [split, List.zipIdx_append, List.zipIdx_cons, Prog.forEach_append] at loopEnds
  obtain ⟨_, before, frontEnds, restEnds⟩ := (Prog.ends_andThen_iff _ _ _ _ _).mp loopEnds
  obtain ⟨_, behind, lineEnds, backEnds⟩ := (Prog.ends_andThen_iff _ _ _ _ _).mp restEnds
  have foundBefore := node_of_lines foundAdded frontAlone frontEnds
  obtain ⟨here, later⟩ := atLine before frontEnds
  rw [Nat.zero_add] at lineEnds backEnds
  obtain ⟨last, foundBehind, lastContent⟩ := content_of_line applied undisturbed.path
    (fun middle => contentStep before middle foundBefore here) lineEnds
  have foundLines := node_of_lines foundBehind (later behind lineEnds) backEnds
  have lastFile := Fs.isDirectory_of_isRegular (isRegular_of_content lastContent)
  have foundChanged : behindChanged.node place = some last :=
    emptyEnds.kept foundLines (node_of_removeEmptyDirs foundLines lastFile)
  have foundFinish := node_of_applyRemovedFiles foundChanged
    (undisturbed.removed behindAdded behindChanged addedEnds changedEnds) removedEnds
  rw [(namesFile_text foundFinish (isRegular_of_content lastContent)).readFile]
  exact lastContent

end Run

/-! ## Does the content arrive? -/

/-- The columns of an entry's line by which the client decides. -/
theorem installs_iff {entry : AIDEEntry} {packageName : Str → Except GeneratorError Str}
    {properties : List Str} (computed : entry.getAideChangedProperties packageName = .ok properties)
    (regular : entry.ftype = .regularFile) :
    ((properties.map Str.strip).getD 4 [] = [FileType.regularFile.value] ∧
        ((properties.map Str.strip).getD 5 [] = ['>'] ∨ (properties.map Str.strip).getD 5 [] = ['<'])) ↔
      Installed entry := by
  obtain ⟨name, bcount, perm, uid, gid, later, whole, _⟩ :=
    AIDEEntry.getAideChangedProperties_columns computed
  have atType : (properties.map Str.strip).getD 4 [] = Str.strip [entry.ftype.value] := by
    rw [whole]
    rfl
  have atSize : (properties.map Str.strip).getD 5 [] = Str.strip (entry.infoStr[2]?).toList := by
    rw [whole]
    rfl
  have isType : Str.strip [entry.ftype.value] = [FileType.regularFile.value] := by
    rw [regular]
    decide
  have mark (c : Char) (solid : Str.isSpace c = false) :
      Str.strip (entry.infoStr[2]?).toList = [c] ↔ entry.infoStr[2]? = some c := by
    cases entry.infoStr[2]? with
    | none => simp [Str.strip, Str.lstrip, Str.rstrip]
    | some here =>
        cases blank : Str.isSpace here with
        | true =>
            have differ : here ≠ c := by
              rintro rfl
              rw [blank] at solid
              cases solid
            simp [Str.strip, Str.lstrip, Str.rstrip, blank, differ]
        | false =>
            have trimmed : Str.Trimmed [here] := by simp [Str.Trimmed, blank]
            simp [Str.strip_eq_self trimmed]
  rw [atType, atSize, isType, and_iff_right rfl, mark '>' (by decide), mark '<' (by decide)]
  exact Iff.rfl

def contentInfoStr (mark : Char) : Str := 'f' :: '.' :: mark :: ".....mc..C....".toList

/-- The entry of `/f`, with a size column and a size. -/
def contentEntry (mark : Char) (size : Int) : AIDEEntry where
  properties := ⟨"/f".toList, none, 7, 100644, 11, 8, 0, 0, size, 9, 9, 1,
    some (List.replicate 32 '1'), some (List.replicate 40 '1')⟩
  prevProperties := ⟨"/f".toList, none, 7, 100644, 11, 8, 0, 0, 1, 5, 6, 1,
    some (List.replicate 32 '0'), some (List.replicate 40 '0')⟩
  infoStr := contentInfoStr mark
  ftype := .regularFile
  infoStr_length := rfl
  ftype_value := rfl

/-- The server's file, without a copy of its old version. -/
def contentFiles (newBytes : List UInt8) : SystemImageGenerator.ServerFiles where
  isfile _ := true
  bytes _ := newBytes
  oldBytes _ := none

/-- What the client reads of the line. -/
def contentValues (mark : Char) (size : Int) : List Str :=
  ["/f".toList, "None".toList, contentInfoStr mark, ['7'], ['f'], [mark],
    (contentEntry mark size).sizeString] ++
    ["8 (.)", "100644 (.)", "0 (.)", "0 (.)", "9 (5)", "9 (6)", "11 (.)", "1 (.)"].map
      String.toList ++
    [AIDEEntry.propertyString (List.replicate 32 '1') (List.replicate 32 '0'),
      AIDEEntry.propertyString (List.replicate 40 '1') (List.replicate 40 '0'), ['?']]

/-- The image changes `/f`. -/
def contentImage (mark : Char) (size : Int) (newBytes : List UInt8) : Archive :=
  [⟨"CHANGED/f".toList, .reg newBytes, 0o644, 0, 0⟩,
    ⟨SystemImageGenerator.addedFilesFname, .reg [], 0o644, 0, 0⟩,
    ⟨SystemImageGenerator.removedFilesFname, .reg [], 0o644, 0, 0⟩,
    ⟨SystemImageGenerator.changedFilesFname,
      .reg (Utf8.encode (['\x00'].intercalate (contentValues mark size) ++ ['\n'])), 0o644, 0, 0⟩]

/-- A machine on which the hashes of the old content are zeros. -/
def contentEnv : ClientEnv :=
  { directoryEnv with
    md5 := fun bytes => List.replicate 32 (if bytes = [49] then '0' else '1')
    sha1 := fun bytes => List.replicate 40 (if bytes = [49] then '0' else '1') }

/-- A client with a directory `/i` and the old file. -/
def contentClient : Fs :=
  Fs.ofNodes
    [(["i".toList], ⟨.directory, 0o755, 0, 0, 2⟩),
      (["f".toList], ⟨.regular [49], 0o644, 0, 0, 1⟩)]

/-- The state behind the extraction of the image, if `/f` has grown. -/
def contentExtracted : Fs :=
  (extractSysImg contentEnv directoryOptions "/i/new.tar.gz".toList (contentImage '>' 2 [50, 50])
    contentClient).final contentClient

/-- The state behind the line of `/f`. -/
def contentBehindLine : Fs :=
  (changedFilesPerLineFun contentEnv directoryOptions "/i/new".toList ⟨0, 1, 0⟩ 0
    (contentValues '>' 2) contentExtracted).final contentExtracted

/-- The state behind the three phases. -/
def contentFinish : Fs :=
  (removeEmptyDirs directoryOptions
    (Str.joinPath "/i/new".toList SystemImageGenerator.inArchiveChangedDirName)
      contentBehindLine).final contentBehindLine

/-- The columns of the line. -/
def contentProperties : List Str :=
  ((contentEntry '>' 2).getAideChangedProperties fun _ => .ok ['?']).toOption.getD []

theorem contentColumns :
    (contentEntry '>' 2).getAideChangedProperties (fun _ => .ok ['?']) = .ok contentProperties ∧
      contentProperties.length = changedFilesHeaderNames.length ∧
        contentProperties.map Str.strip = contentValues '>' 2 := by
  decide

theorem contentGenerated :
    SystemImageGenerator.addChangedEntry (fun _ _ => []) (contentFiles [50, 50])
        (fun _ => .ok ['?']) (contentEntry '>' 2) =
      .ok (SystemImageGenerator.changedLine contentProperties,
        some ("CHANGED/f".toList, [50, 50])) := by
  obtain ⟨computed, whole, _⟩ := contentColumns
  simp only [SystemImageGenerator.addChangedEntry, SystemImageGenerator.appendChangedEntryToFile,
    computed, bind, Except.bind, whole, ne_eq, not_true_eq_false, if_false, pure, Except.pure]
  rfl

theorem contentLines : readReport contentEnv.host propertiesCount
    ⟨Str.joinPath "/i/new".toList SystemImageGenerator.changedFilesFname,
      "/i/new.tar.gz".toList⟩ 0 0
    (textLines (Utf8.encode (['\x00'].intercalate (contentValues '>' 2) ++ ['\n']))) =
      ([contentValues '>' 2], .ok (1, 1)) := by
  rw [textLines, Utf8.decode_encode]
  decide +kernel

/-- What the phases find in the states that they start from. -/
theorem contentFound :
    contentExtracted.readFile (Str.joinPath "/i/new".toList SystemImageGenerator.changedFilesFname) =
        some (Utf8.encode (['\x00'].intercalate (contentValues '>' 2) ++ ['\n'])) ∧
      contentExtracted.scandir
          (Str.joinPath "/i/new".toList SystemImageGenerator.inArchiveAddedDirName) = none ∧
        contentExtracted.node ["f".toList] = some ⟨.regular [49], 0o644, 0, 0, 1⟩ ∧
          contentExtracted.isfile (diffPathOf "/i/new".toList (Path.text ["f".toList])) = false ∧
            contentExtracted.lstat (origPathOf "/i/new".toList (Path.text ["f".toList])) =
                some ⟨.regular [50, 50], 0o644, 0, 0, 1⟩ ∧
              contentFinish.readFile
                  (Str.joinPath "/i/new".toList SystemImageGenerator.removedFilesFname) =
                some [] := by
  decide +kernel

/-- Nothing is added, and `/f` is changed. -/
theorem contentSteps :
    let added := applyAddedFiles contentEnv directoryOptions "/i/new".toList
      "/i/new.tar.gz".toList ⟨0, 1, 0⟩ contentExtracted
    let counted := countEntries
      (Str.joinPath "/i/new".toList SystemImageGenerator.inArchiveAddedDirName) contentExtracted
    let line := changedFilesPerLineFun contentEnv directoryOptions "/i/new".toList ⟨0, 1, 0⟩ 0
      (contentValues '>' 2) contentExtracted
    let removed := removeEmptyDirs directoryOptions
      (Str.joinPath "/i/new".toList SystemImageGenerator.inArchiveChangedDirName) contentBehindLine
    (added.ending = .ok () ∧ added.states.length = 0) ∧ counted.states.length = 0 ∧
      line.ending = .ok () ∧ removed.ending = .ok () := by
  decide +kernel

theorem contentChangedEnds : Prog.Ends
    (applyChangedFiles contentEnv directoryOptions "/i/new".toList "/i/new.tar.gz".toList ⟨0, 1, 0⟩)
    contentExtracted () contentFinish := by
  obtain ⟨_, _, line, removed⟩ := contentSteps
  unfold applyChangedFiles
  rw [Prog.bind_eq, Prog.ends_andThen_iff]
  refine ⟨(), contentBehindLine, ?_, removed, rfl⟩
  rw [ends_forEachReportLine_iff]
  refine ⟨_, contentFound.1, ?_⟩
  rw [contentLines]
  refine ⟨?_, rfl⟩
  rw [List.zipIdx_singleton, Prog.forEach, Prog.ends_andThen_iff]
  exact ⟨(), contentBehindLine, ⟨line, rfl⟩, (Prog.ends_ret_iff _ _ _ _).mpr ⟨rfl, rfl⟩⟩

theorem contentEnds : Prog.Ends
    (applyPhases contentEnv directoryOptions "/i/new".toList "/i/new.tar.gz".toList ⟨0, 1, 0⟩)
    contentExtracted () contentFinish := by
  obtain ⟨⟨ended, states⟩, _⟩ := contentSteps
  have added : Prog.Ends (applyAddedFiles contentEnv directoryOptions "/i/new".toList
      "/i/new.tar.gz".toList ⟨0, 1, 0⟩) contentExtracted () contentExtracted := by
    obtain ⟨middle, ends⟩ : ∃ middle, Prog.Ends (applyAddedFiles contentEnv directoryOptions
        "/i/new".toList "/i/new.tar.gz".toList ⟨0, 1, 0⟩) contentExtracted () middle :=
      ⟨_, ended, rfl⟩
    obtain rfl := ends.eq_of_no_states states
    exact ends
  have removed : Prog.Ends (applyRemovedFiles contentEnv directoryOptions "/i/new".toList
      "/i/new.tar.gz".toList ⟨0, 1, 0⟩) contentFinish () contentFinish :=
    ends_forEachReportLine_iff.mpr
      ⟨_, contentFound.2.2.2.2.2, (Prog.ends_ret_iff _ _ _ _).mpr ⟨rfl, rfl⟩, rfl⟩
  unfold applyPhases
  rw [Prog.bind_eq, Prog.ends_andThen_iff]
  refine ⟨(), contentExtracted, added, ?_⟩
  rw [Prog.bind_eq, Prog.ends_andThen_iff]
  exact ⟨(), contentFinish, contentChangedEnds, removed⟩

/-- No other line, and no other member, is in the place of `/f`. -/
theorem contentUndisturbed : Undisturbed contentEnv directoryOptions "/i/new".toList
    "/i/new.tar.gz".toList ⟨0, 1, 0⟩ ["f".toList] (contentValues '>' 2)
    (HoldsSent "/i/new".toList (Path.text ["f".toList]) ["f".toList] none [50, 50])
    contentExtracted where
  path := rfl
  added := by
    intro total middle counted
    obtain rfl := counted.eq_of_no_states contentSteps.2.1
    exact Fs.walkReady_of_not_listed contentFound.2.1 _ _
  lines := by
    intro behindAdded bytes added read
    obtain rfl := added.eq_of_no_states contentSteps.1.2
    obtain ⟨report, _, _, noPatch, whole, _⟩ := contentFound
    obtain rfl := Option.some.inj (report.symm.trans read)
    rw [contentLines]
    refine ⟨[], [], rfl, trivial, fun before front => ?_⟩
    obtain rfl := front.eq_of_no_states rfl
    exact ⟨⟨noPatch, _, whole, rfl⟩, fun _ _ => trivial⟩
  removed := by
    intro behindAdded behindChanged added changed bytes read
    obtain rfl := added.eq_of_no_states contentSteps.1.2
    obtain ⟨_, rfl⟩ := contentChangedEnds.unique changed
    obtain rfl := Option.some.inj (contentFound.2.2.2.2.2.symm.trans read)
    trivial

end SysImgExtractor

end Myscm.Client
