import Myscm.Client.ApplyReadiness
import Myscm.Library.FileEffects
import Myscm.Server.ImageFiles

/-!
Owns the two routes by which new bytes reach a changed file: the patch and the
whole file.

Owns: what each route leaves; when both leave the bytes of the server.

Does not own: mode and owner of the file, the choice of the route.
-/

namespace Myscm.Client

open Myscm.Library Myscm.Server

namespace SysImgExtractor

/-- The patch leaves the new bytes, and so does the whole file. -/
def RoutesAgree (env : ClientEnv) (options : ClientOptions) (path patchPath origPath : Str)
    (patchClient wholeClient : Fs) (newBytes : List UInt8) : Prop :=
  ∃ patched moved,
    Prog.Ends (applyPatchForFile env options path patchPath) patchClient () patched ∧
      Prog.Ends (moveChangedFile options origPath path) wholeClient () moved ∧
        patched.readFile path = some newBytes ∧ moved.readFile path = patched.readFile path

variable {env : ClientEnv} {options : ClientOptions}

/-- The patched text is what the file holds in the end. -/
theorem applyPatchForFile_ends {path patchPath patchText text patchedText : Str} {fs : Fs}
    (applied : options.dryRun = false) (patchRead : readText patchPath fs = .ok patchText)
    (textRead : readText path fs = .ok text)
    (patches : env.applyPatch patchText text = some patchedText) :
    ∃ finish, Prog.Ends (applyPatchForFile env options path patchPath) fs () finish ∧
      finish.readFile path = some (Utf8.encode patchedText) := by
  obtain ⟨written, overwritten⟩ := Option.isSome_iff_exists.mp
    ((Fs.overwrite_isSome_iff (Utf8.encode patchedText) path fs).mpr (isfile_of_readText textRead))
  obtain ⟨finish, cut⟩ := Option.isSome_iff_exists.mp
    ((Fs.setContent_isSome_iff (Utf8.encode patchedText) path written).mpr
      (Fs.isfile_of_overwrite overwritten))
  refine ⟨finish, ?_, Fs.readFile_of_setContent cut⟩
  unfold applyPatchForFile unlessDryRun
  rw [applied, if_neg Bool.false_ne_true, Prog.bind_eq, Prog.ends_andThen_iff]
  refine ⟨patchText, fs, by simp [patchRead], ?_⟩
  rw [Prog.bind_eq, Prog.ends_andThen_iff]
  refine ⟨text, fs, by simp [textRead], ?_⟩
  rw [patches]
  dsimp only
  rw [Prog.bind_eq, Prog.ends_andThen_iff]
  exact ⟨(), written, (Fs.ends_sys_iff _ _ _ _).mpr overwritten,
    (Fs.ends_sys_iff _ _ _ _).mpr cut⟩

theorem readText_of_encode {path text : Str} {fs : Fs}
    (read : fs.readFile path = some (Utf8.encode text)) :
    readText path fs = .ok (Str.universalNewlines text) := by
  rw [readText, read]
  dsimp only
  rw [Utf8.decode_encode]

/-- Both routes agree exactly where the new text holds no carriage return: the patch is
made between texts read with universal newlines. -/
theorem routesAgree_iff {makePatch : Str → Str → Str} {changedPath member oldText newText : Str}
    {path patchPath origPath : Str} {patchClient wholeClient : Fs} {patchBytes : List UInt8}
    {node sent : Node} (applied : options.dryRun = false)
    (patches : env.applyPatch
      (makePatch (Str.universalNewlines oldText) (Str.universalNewlines newText))
        (Str.universalNewlines oldText) = some (Str.universalNewlines newText))
    (escaped :
      '\r' ∉ makePatch (Str.universalNewlines oldText) (Str.universalNewlines newText))
    (added : SystemImageGenerator.addPatchFileToSystemImg makePatch changedPath
      (Utf8.encode oldText) (Utf8.encode newText) = .ok (member, patchBytes))
    (patchRead : patchClient.readFile patchPath = some patchBytes)
    (oldRead : patchClient.readFile path = some (Utf8.encode oldText))
    (there : wholeClient.lstat path = some node) (regular : node.isRegular = true)
    (extracted : wholeClient.lstat origPath = some sent)
    (whole : sent.content? = some (Utf8.encode newText)) :
    RoutesAgree env options path patchPath origPath patchClient wholeClient (Utf8.encode newText) ↔
      '\r' ∉ newText := by
  have isPatch : patchBytes = Utf8.encode
      (makePatch (Str.universalNewlines oldText) (Str.universalNewlines newText)) := by
    simp only [SystemImageGenerator.addPatchFileToSystemImg, SystemImageGenerator.readTextMode,
      Utf8.decode_encode] at added
    exact (Prod.mk.inj (Except.ok.inj added)).2.symm
  have patchText : readText patchPath patchClient = .ok
      (makePatch (Str.universalNewlines oldText) (Str.universalNewlines newText)) := by
    rw [isPatch] at patchRead
    rw [readText_of_encode patchRead, Str.universalNewlines_eq_self escaped]
  obtain ⟨patched, patchEnds, patchedRead⟩ :=
    applyPatchForFile_ends applied patchText (readText_of_encode oldRead) patches
  have sentRegular : sent.isRegular = true := by simp [Node.isRegular, whole]
  obtain ⟨source, sourceNames⟩ := Fs.namesFile_of_lstat extracted sentRegular
  obtain ⟨target, targetNames⟩ := Fs.namesFile_of_lstat there regular
  obtain ⟨moved, moves⟩ := Fs.move_isSome_of_namesFile sourceNames targetNames
  obtain ⟨same, here⟩ := Fs.moved_of_move sourceNames targetNames moves
  have movedRead : moved.readFile path = some (Utf8.encode newText) := by
    rw [(targetNames.congr same here sentRegular).readFile, whole]
  have moveEnds : Prog.Ends (moveChangedFile options origPath path) wholeClient () moved := by
    rw [moveChangedFile, unlessDryRun, applied, if_neg Bool.false_ne_true]
    exact (Fs.ends_sys_iff _ _ _ _).mpr moves
  rw [← Str.universalNewlines_eq_self_iff]
  constructor
  · rintro ⟨finish, _, finishEnds, _, finishRead, _⟩
    obtain ⟨_, rfl⟩ := patchEnds.unique finishEnds
    rw [patchedRead] at finishRead
    exact Utf8.encode_injective (Option.some.inj finishRead)
  · intro same
    rw [same] at patchedRead
    exact ⟨patched, moved, patchEnds, moveEnds, patchedRead, movedRead.trans patchedRead.symm⟩

/-! ## Carriage returns -/

/-- What `diff_match_patch` gives for `a` turned into `b` on the first of two lines. -/
def patchFixture : Str := "@@ -1,2 +1,2 @@\n-a\n+b\n %0A\n".toList

def makePatchFixture (_ _ : Str) : Str := patchFixture

def patchEnv : ClientEnv :=
  { directoryEnv with
    applyPatch := fun patch text =>
      if patch = patchFixture ∧ text = "a\n".toList then some "b\n".toList else none }

/-- A client with the old file, the patch of the server and the new file. -/
def patchClientFixture (newText : Str) : Fs :=
  Fs.ofNodes [(["f".toList], ⟨.regular (Utf8.encode "a\n".toList), 0o644, 0, 0, 1⟩),
    (["p".toList], ⟨.regular (Utf8.encode patchFixture), 0o600, 0, 0, 1⟩),
    (["w".toList], ⟨.regular (Utf8.encode newText), 0o644, 0, 0, 1⟩)]

/-- A file whose line now ends in a carriage return and a line feed loses the former. -/
theorem not_routesAgree_carriage_return :
    SystemImageGenerator.addPatchFileToSystemImg makePatchFixture "/f".toList
        (Utf8.encode "a\n".toList) (Utf8.encode "b\r\n".toList) =
          .ok ("CHANGED/f.myscmsrv-patch".toList, Utf8.encode patchFixture) ∧
      patchEnv.applyPatch patchFixture "a\n".toList = some "b\n".toList ∧
        ¬ RoutesAgree patchEnv directoryOptions "/f".toList "/p".toList "/w".toList
          (patchClientFixture "b\r\n".toList) (patchClientFixture "b\r\n".toList)
          (Utf8.encode "b\r\n".toList) := by
  refine ⟨by decide, by decide, ?_⟩
  rintro ⟨patched, _, ⟨_, patchedFinal⟩, _, read, _⟩
  have left : ((applyPatchForFile patchEnv directoryOptions "/f".toList "/p".toList
      (patchClientFixture "b\r\n".toList)).final (patchClientFixture "b\r\n".toList)).readFile
        "/f".toList = some (Utf8.encode "b\n".toList) := by
    decide
  rw [patchedFinal, read] at left
  revert left
  decide

theorem routesAgree_iff_line_feed :
    RoutesAgree patchEnv directoryOptions "/f".toList "/p".toList "/w".toList
        (patchClientFixture "b\n".toList) (patchClientFixture "b\n".toList)
        (Utf8.encode "b\n".toList) ↔ '\r' ∉ "b\n".toList :=
  @routesAgree_iff patchEnv directoryOptions makePatchFixture "/f".toList
    "CHANGED/f.myscmsrv-patch".toList "a\n".toList "b\n".toList "/f".toList "/p".toList "/w".toList
    (patchClientFixture "b\n".toList) (patchClientFixture "b\n".toList) (Utf8.encode patchFixture)
    ⟨.regular (Utf8.encode "a\n".toList), 0o644, 0, 0, 1⟩
    ⟨.regular (Utf8.encode "b\n".toList), 0o644, 0, 0, 1⟩ rfl (by decide)
    (by decide) (by decide) (by decide) (by decide)
    (by decide) (by decide) (by decide) (by decide)

end SysImgExtractor

end Myscm.Client
