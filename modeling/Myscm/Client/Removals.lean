import Myscm.Client.ApplyReadiness
import Myscm.Client.ReportRoundTrip
import Myscm.Library.Erasures
import Myscm.Server.RemovedEntries

/-!
Owns the way of a removal from the server to the client: removed.txt is written,
extracted, read and followed.

Owns: what the client makes of removed.txt; which files it removes; the exact
condition under which every removed path is gone in the end.

Does not own: the phases before the removal.
-/

namespace Myscm.Client

open Myscm.Library Myscm.Server SystemImageGenerator

/-! ## What removed.txt comes to -/

/-- The directory of a path and the name below it, as they are left when white space is cut
off the end of the text. -/
def strippedEntry (path : AbsPath) : Path × Str :=
  (path.names.dropLast, Str.rstrip (path.names.getLastD []))

theorem exists_entryText_eq (dir : Path) :
    ∃ front, ∀ last, entryText dir last = front ++ '/' :: last := by
  by_cases root : dir = []
  · exact ⟨[], fun last => by rw [entryText, root]; simp [piecesText]⟩
  · refine ⟨'/' :: ['/'].intercalate dir, fun last => ?_⟩
    rw [entryText, piecesText, intercalate_append root (by simp), List.intercalate_singleton]
    rfl

theorem text_eq_entryText (path : AbsPath) :
    path.text = entryText path.names.dropLast (path.names.getLastD []) := by
  by_cases root : path.names = []
  · rw [AbsPath.text, root]
    rfl
  · rw [entryText, List.getLastD_eq_getLast?, List.getLast?_eq_getLast_of_ne_nil root,
      Option.getD_some, List.dropLast_concat_getLast root]
    rfl

/-- Only the name at the end of a path loses white space. -/
theorem strip_text (path : AbsPath) :
    Str.strip path.text = entryText (strippedEntry path).1 (strippedEntry path).2 := by
  have slash : Str.isSpace '/' = false := by decide
  have left : Str.lstrip path.text = path.text := Str.lstrip_eq_self fun c first => by
    rw [← Option.some.inj first]
    exact slash
  have solid : ¬ Str.Blank ('/' :: path.names.getLastD []) := fun blank => by
    rw [blank '/' List.mem_cons_self] at slash
    cases slash
  obtain ⟨front, written⟩ := exists_entryText_eq path.names.dropLast
  rw [Str.strip, left, text_eq_entryText, strippedEntry, written, written,
    Str.rstrip_append_of_not_blank solid, Str.rstrip_cons slash]

theorem strip_text_eq_iff (path : AbsPath) :
    Str.strip path.text = path.text ↔
      Str.rstrip (path.names.getLastD []) = path.names.getLastD [] := by
  obtain ⟨front, written⟩ := exists_entryText_eq path.names.dropLast
  rw [strip_text, strippedEntry, text_eq_entryText path, written, written]
  simp

/-- The place a path stands for when its text is trimmed. -/
def strippedPlace (path : AbsPath) : Path :=
  path.names.dropLast ++ [Str.rstrip (path.names.getLastD [])]

theorem strippedPlace_eq_names {path : AbsPath} (proper : path.names ≠ [])
    (trimmed : Str.strip path.text = path.text) : strippedPlace path = path.names := by
  rw [strippedPlace, (strip_text_eq_iff path).mp trimmed, List.getLastD_eq_getLast?,
    List.getLast?_eq_getLast_of_ne_nil proper, Option.getD_some, List.dropLast_concat_getLast proper]

/-- What stands at such a place is named without white space at the end. -/
theorem trimmed_of_strippedPlace {path other : AbsPath} (same : strippedPlace other = path.names) :
    Str.strip path.text = path.text := by
  have last : path.names.getLastD [] = Str.rstrip (other.names.getLastD []) := by
    rw [← same, strippedPlace, List.getLastD_concat]
  rw [strip_text_eq_iff, last]
  exact Str.rstrip_eq_self Str.getLast?_rstrip_not_space

/-- Each value list starts with its path, the text trimmed. -/
def NamesPaths (values : List (List Str)) (paths : List AbsPath) : Prop :=
  List.Forall₂ (fun row path => row.getD 0 [] = Str.strip path.text) values paths

/-- Paths as AIDE reports them and names as package managers give them are read off lines. -/
structure ReadOffLines (packageName : Str → Except GeneratorError Str) (paths : List AbsPath) :
    Prop where
  path : ∀ path ∈ paths, PlainText path.text
  package : ∀ text pkg, packageName text = .ok pkg → PlainText pkg

section Report

variable {packageName : Str → Except GeneratorError Str} {paths : List AbsPath} {lines : List Str}
  (plain : ReadOffLines packageName paths)

/-- The line of a path is that of an entry. -/
theorem entryLine_ok {path : AbsPath} {line : Str} (isPlain : PlainText path.text)
    (package : ∀ text pkg, packageName text = .ok pkg → PlainText pkg)
    (written : entryLine packageName path = .ok line) :
    ∃ (entry : EntryPath) (pkg : PackageName), entry.text = path.text ∧
      line = appendEntryLine entry.text pkg.text := by
  obtain ⟨name, named, same⟩ := bind_ok written
  obtain rfl := Except.ok.inj same
  exact ⟨⟨path.text, rfl, isPlain⟩, ⟨name, package _ _ named⟩, rfl, rfl⟩

include plain

theorem singleLine_entryLines (written : paths.mapM (entryLine packageName) = .ok lines) :
    ∀ line ∈ lines, SingleLine line := by
  intro line member
  obtain ⟨path, isPath, here⟩ := exists_mem_of_mem_mapM written member
  obtain ⟨entry, pkg, _, rfl⟩ := entryLine_ok (plain.path path isPath) plain.package here
  exact singleLine_appendEntryLine entry pkg

/-- The lines of the paths are read, whichever these are. -/
theorem meaning_entryLines (host : Host)
    (written : paths.mapM (entryLine packageName) = .ok lines) :
    ∃ values, NamesPaths values paths ∧ meaning host 2 lines = (values, true) := by
  have rows := mapM_ok written
  clear written
  induction rows with
  | nil => exact ⟨[], .nil, rfl⟩
  | @cons path line paths lines here _ inductionHypothesis =>
      obtain ⟨entry, pkg, text, rfl⟩ :=
        entryLine_ok (plain.path path List.mem_cons_self) plain.package here
      obtain ⟨values, named, meant⟩ := inductionHypothesis
        ⟨fun other member => plain.path other (List.mem_cons_of_mem _ member), plain.package⟩
      refine ⟨[Str.strip entry.text, Str.strip pkg.text] :: values, .cons ?_ named, ?_⟩
      · rw [← text]
        rfl
      · rw [meaning, lineMeaning_appendEntryLine, meant]

end Report

/-! ## What the loop removes -/

namespace SysImgExtractor

section Loop

variable {env : ClientEnv} {options : ClientOptions} {counts : ReportCounts}
  (wet : options.dryRun = false)
include wet

theorem ends_removedFilesPerLineFun_iff {calls : Nat} {values : List Str} {fs next : Fs}
    (room : calls + 1 ≤ counts.removedEntries) :
    Prog.Ends (removedFilesPerLineFun options counts calls values) fs () next ↔
      fs.remove (values.getD 0 []) = some next := by
  rw [removedFilesPerLineFun, unlessDryRun, wet, barUpdate, if_pos room, Prog.bind_eq,
    Prog.ends_andThen_iff]
  constructor
  · rintro ⟨_, middle, here, ended⟩
    obtain ⟨_, rfl⟩ := (Prog.ends_ret_iff _ _ _ _).mp ended
    exact (Fs.ends_sys_iff _ _ _ _).mp here
  · intro removed
    exact ⟨(), next, (Fs.ends_sys_iff _ _ _ _).mpr removed, (Prog.ends_ret_iff _ _ _ _).mpr ⟨rfl, rfl⟩⟩

theorem ends_removals_iff {values : List (List Str)} {calls : Nat} {fs finish : Fs}
    (room : calls + values.length ≤ counts.removedEntries) :
    Prog.Ends (Prog.forEach (fun call => removedFilesPerLineFun options counts call.2 call.1)
        (values.zipIdx calls)) fs () finish ↔
      Fs.removeAll (values.map fun row => row.getD 0 []) fs = some finish := by
  induction values generalizing calls fs with
  | nil => simp [Prog.forEach, Fs.removeAll, eq_comm]
  | cons row rest inductionHypothesis =>
      rw [List.length_cons] at room
      rw [List.zipIdx_cons, Prog.forEach, Prog.ends_andThen_iff, List.map_cons, Fs.removeAll,
        Option.bind_eq_some_iff]
      constructor
      · rintro ⟨_, middle, here, later⟩
        refine ⟨middle, (ends_removedFilesPerLineFun_iff wet (by omega)).mp here, ?_⟩
        exact (inductionHypothesis (by omega)).mp later
      · rintro ⟨middle, here, later⟩
        refine ⟨(), middle, (ends_removedFilesPerLineFun_iff wet (by omega)).mpr here, ?_⟩
        exact (inductionHypothesis (by omega)).mpr later

/-- The texts of the paths are removed one after another, where the system meets what the
header requires. -/
theorem ends_applyRemovedFiles_iff {dir imgName : Str} {header : ReportHeader}
    {packageName : Str → Except GeneratorError Str} {removed : List AbsPath} {lines : List Str}
    {fs finish : Fs} (plain : ReadOffLines packageName removed)
    (written : addToImgFileRemovedEntries header packageName removed = .ok lines)
    (extracted : fs.readFile (Str.joinPath dir removedFilesFname) =
      some (Utf8.encode (unlines lines)))
    (counted : counts.removedEntries = (topPaths removed).length) :
    Prog.Ends (applyRemovedFiles env options dir imgName counts) fs () finish ↔
      (∀ line ∈ appendRemovedEntriesHeader header, RequirementsMet env.host line) ∧
        Fs.removeAll ((topPaths removed).map fun path => Str.strip path.text) fs = some finish := by
  obtain ⟨rows, mapped, whole⟩ := bind_ok written
  obtain rfl := Except.ok.inj whole
  have plainTop : ReadOffLines packageName (topPaths removed) :=
    ⟨fun path isTop => plain.path path (mem_of_mem_topPaths isTop), plain.package⟩
  have single : ∀ line ∈ appendRemovedEntriesHeader header ++ rows, SingleLine line := by
    intro line member
    rcases List.mem_append.mp member with inHeader | inRows
    · exact (headerLine_removedEntriesHeader header line inHeader).1
    · exact singleLine_entryLines plainTop mapped line inRows
  obtain ⟨values, named, meant⟩ := meaning_entryLines plainTop env.host mapped
  have texts : values.map (fun row => row.getD 0 []) =
      (topPaths removed).map fun path => Str.strip path.text := by
    rw [← List.forall₂_eq_eq_eq, List.forall₂_map_left_iff, List.forall₂_map_right_iff]
    exact named
  have room : 0 + values.length ≤ counts.removedEntries := by
    rw [counted, named.length_eq]
    omega
  set name : ReportName := ⟨Str.joinPath dir removedFilesFname, imgName⟩
  obtain ⟨passed, completes⟩ := @reading_meaning env.host 2 _ single .extractor name
  obtain ⟨passedRead, completesRead⟩ := recorder_run env.host 2 name
    (textLines (Utf8.encode (unlines (appendRemovedEntriesHeader header ++ rows))))
  have met : (∀ line ∈ appendRemovedEntriesHeader header, RequirementsMet env.host line) ↔
      meaning env.host 2 (appendRemovedEntriesHeader header ++ rows) = (values, true) := by
    rw [meaning_header_append_iff (headerLine_removedEntriesHeader header), and_iff_left meant]
  rw [met, applyRemovedFiles, ends_forEachReportLine_iff, extracted]
  simp only [Option.some.injEq, exists_eq_left']
  rw [← passedRead, ← completesRead, and_comm]
  rw [show Reading.extractor.lines = textLines from rfl] at passed completes
  rw [passed, completes, ← texts]
  constructor
  · rintro ⟨ended, loop⟩
    have same : meaning env.host 2 (appendRemovedEntriesHeader header ++ rows) = (values, true) := by
      rw [← met]
      exact ((meaning_header_append_ends_iff (headerLine_removedEntriesHeader header)).mp ended).1
    rw [same, ends_removals_iff wet room] at loop
    exact ⟨same, loop⟩
  · rintro ⟨same, loop⟩
    rw [same, ends_removals_iff wet room]
    exact ⟨rfl, loop⟩

end Loop

/-! ## Removals that are carried through -/

/-- The phase ends, and none of the removed paths is left. -/
def RemovalsCarriedThrough (env : ClientEnv) (options : ClientOptions) (dir imgName : Str)
    (counts : ReportCounts) (removed : List AbsPath) (fs : Fs) : Prop :=
  ∃ finish, Prog.Ends (applyRemovedFiles env options dir imgName counts) fs () finish ∧
    ∀ path ∈ removed, finish.node path.names = none

/-- What the removal of these paths needs. -/
structure RemovalReady (host : Host) (header : ReportHeader) (removed : List AbsPath) (fs : Fs) :
    Prop where
  required : ∀ line ∈ appendRemovedEntriesHeader header, RequirementsMet host line
  start : ¬ StartsBelow removed
  file : ∀ path ∈ removed, fs.isDirAt path.names = false
  trimmed : ∀ path ∈ removed, Str.strip path.text = path.text

theorem texts_eq_entryTexts (paths : List AbsPath) :
    paths.map (fun path => Str.strip path.text) = Fs.entryTexts (paths.map strippedEntry) := by
  rw [Fs.entryTexts, List.map_map]
  exact List.map_congr_left fun path _ => strip_text path

theorem entryPlaces_strippedEntry (paths : List AbsPath) :
    Fs.entryPlaces (paths.map strippedEntry) = paths.map strippedPlace := by
  rw [Fs.entryPlaces, List.map_map]
  rfl

section Carried

variable {env : ClientEnv} {options : ClientOptions} {counts : ReportCounts} {header : ReportHeader}
  {removed : List AbsPath} {fs finish : Fs}
  (present : ∀ path ∈ removed, (fs.node path.names).isSome = true)
include present

theorem entriesOf_topPaths : Fs.EntriesOf ((topPaths removed).map strippedEntry) fs := by
  intro entry member
  obtain ⟨path, isTop, rfl⟩ := List.mem_map.mp member
  have here := present path (mem_of_mem_topPaths isTop)
  refine ⟨(Fs.placeable_of_isSome here).1, fun slash => ?_⟩
  have inName : '/' ∈ path.names.getLastD [] := (Str.isPrefix_rstrip _).subset slash
  cases last : path.names.getLast? with
  | none =>
      rw [List.getLastD_eq_getLast?, last] at inName
      cases inName
  | some name =>
      rw [List.getLastD_eq_getLast?, last] at inName
      exact (Fs.isName_of_mem here (List.mem_of_mem_getLast? last)).2.2.2 inName

/-- Where every path is gone in the end, each was a file whose name ends in no white space, and
the first of them was listed. -/
theorem ready_of_gone
    (ran : Fs.removeAll ((topPaths removed).map fun path => Str.strip path.text) fs = some finish)
    (gone : ∀ path ∈ removed, finish.node path.names = none) :
    ¬ StartsBelow removed ∧ ∀ path ∈ removed,
      fs.isDirAt path.names = false ∧ Str.strip path.text = path.text := by
  have erased : Fs.FilesErased ((topPaths removed).map strippedPlace) fs finish := by
    rw [texts_eq_entryTexts] at ran
    have places := Fs.filesErased_of_removeAll (entriesOf_topPaths present) ran
    rwa [entryPlaces_strippedEntry] at places
  have place : ∀ path ∈ removed, ∃ top ∈ topPaths removed, strippedPlace top = path.names := by
    intro path isRemoved
    by_contra elsewhere
    have kept := erased.node path.names
    rw [if_neg (by simpa using elsewhere), gone path isRemoved] at kept
    have here := present path isRemoved
    rw [← kept] at here
    cases here
  have ready : ∀ path ∈ removed,
      fs.isDirAt path.names = false ∧ Str.strip path.text = path.text := by
    intro path isRemoved
    obtain ⟨top, isTop, same⟩ := place path isRemoved
    refine ⟨?_, trimmed_of_strippedPlace same⟩
    exact erased.file path.names (same ▸ List.mem_map_of_mem isTop)
  refine ⟨?_, ready⟩
  rintro ⟨least, isRemoved, isLeast, below⟩
  obtain ⟨top, isTop, same⟩ := place least isRemoved
  obtain ⟨file, trimmed⟩ := ready top (mem_of_mem_topPaths isTop)
  have proper : top.names ≠ [] := fun root => by
    rw [root, Fs.isDirAt, fs.root] at file
    cases file
  obtain rfl : top = least := AbsPath.ext (by rw [← strippedPlace_eq_names proper trimmed, same])
  exact not_isAbove_of_least_mem_topPaths isLeast isTop below

/-- Files whose names end in no white space are gone in the end, all of them. -/
theorem gone_of_ready (start : ¬ StartsBelow removed)
    (ready : ∀ path ∈ removed, fs.isDirAt path.names = false ∧ Str.strip path.text = path.text) :
    ∃ finish, Fs.removeAll ((topPaths removed).map fun path => Str.strip path.text) fs = some finish ∧
      ∀ path ∈ removed, finish.node path.names = none := by
  have proper : ∀ path ∈ removed, path.names ≠ [] := by
    intro path isRemoved root
    have file := (ready path isRemoved).1
    rw [root, Fs.isDirAt, fs.root] at file
    cases file
  have places : (topPaths removed).map strippedPlace = (topPaths removed).map AbsPath.names := by
    refine List.map_congr_left fun path isTop => ?_
    have isRemoved := mem_of_mem_topPaths isTop
    exact strippedPlace_eq_names (proper path isRemoved) (ready path isRemoved).2
  have distinct : ((topPaths removed).map AbsPath.names).Nodup := by
    refine List.Nodup.map (fun left right same => AbsPath.ext same) ?_
    exact (pairwise_topPaths removed).imp fun before => ne_of_lt before
  have known := entriesOf_topPaths present
  have entries := entryPlaces_strippedEntry (topPaths removed)
  rw [places] at entries
  obtain ⟨finish, ran⟩ := Fs.exists_removeAll known (by rwa [entries]) (by
    rw [entries]
    intro place isPlace
    obtain ⟨path, isTop, rfl⟩ := List.mem_map.mp isPlace
    have isRemoved := mem_of_mem_topPaths isTop
    exact ⟨present path isRemoved, (ready path isRemoved).1⟩)
  refine ⟨finish, by rwa [texts_eq_entryTexts], fun path isRemoved => ?_⟩
  have topmost : Topmost AbsPath.IsAbove removed path := by
    refine ⟨isRemoved, fun other otherRemoved isAbove => ?_⟩
    obtain ⟨rest, below⟩ := isAbove
    by_cases last : rest = []
    · rw [last, List.append_nil] at below
      exact AbsPath.ext below
    · have isDir : fs.isDirAt other.names = true :=
        Fs.isDirAt_of_extends (below ▸ present path isRemoved) last
      rw [(ready other otherRemoved).1] at isDir
      cases isDir
  have erased := Fs.filesErased_of_removeAll known ran
  rw [entries] at erased
  rw [erased.node, if_pos (List.mem_map_of_mem (mem_topPaths_of_topmost start topmost))]

end Carried

/-- The removals are carried through just where the system meets what the header requires, the
loop does not start above the first removed path, no removed path is a directory, and none
ends in white space. -/
theorem removalsCarriedThrough_iff {env : ClientEnv} {options : ClientOptions} {dir imgName : Str}
    {counts : ReportCounts} {header : ReportHeader} {packageName : Str → Except GeneratorError Str}
    {removed : List AbsPath} {lines : List Str} {fs : Fs} (wet : options.dryRun = false)
    (plain : ReadOffLines packageName removed)
    (written : addToImgFileRemovedEntries header packageName removed = .ok lines)
    (extracted : fs.readFile (Str.joinPath dir removedFilesFname) =
      some (Utf8.encode (unlines lines)))
    (counted : counts.removedEntries = (topPaths removed).length)
    (present : ∀ path ∈ removed, (fs.node path.names).isSome = true) :
    RemovalsCarriedThrough env options dir imgName counts removed fs ↔
      RemovalReady env.host header removed fs := by
  have ends (finish : Fs) :=
    @ends_applyRemovedFiles_iff env options counts wet dir imgName header packageName removed lines fs
      finish plain written extracted counted
  constructor
  · rintro ⟨finish, ended, gone⟩
    obtain ⟨required, ran⟩ := (ends finish).mp ended
    obtain ⟨start, ready⟩ := ready_of_gone present ran gone
    exact ⟨required, start, fun path isRemoved => (ready path isRemoved).1,
      fun path isRemoved => (ready path isRemoved).2⟩
  · intro ready
    obtain ⟨finish, ran, gone⟩ := gone_of_ready present ready.start fun path isRemoved =>
      ⟨ready.file path isRemoved, ready.trimmed path isRemoved⟩
    exact ⟨finish, (ends finish).mpr ⟨ready.required, ran⟩, gone⟩

/-! ## A removed directory, a removed file -/

def removalHeader : ReportHeader := headerFixture "/var/lib/aide".toList

/-- A machine of the server's system. -/
def removalEnv : ClientEnv := { directoryEnv with host := sameHost removalHeader asciiLower }

theorem proper_removedNames : ∀ name ∈ ["d".toList], ¬ Idle name ∧ '/' ∉ name := by
  decide

def removedPath : AbsPath := ⟨["d".toList], proper_removedNames⟩

/-- removed.txt for the path `/d`. -/
def removalLines : List Str :=
  appendRemovedEntriesHeader removalHeader ++ [appendEntryLine "/d".toList ['?']]

/-- The client where `/d` stands, and the image is extracted below `/e`. -/
def removalClient (kind : Kind) (report : List UInt8) : Fs :=
  Fs.ofNodes [(["d".toList], ⟨kind, 0o755, 0, 0, 2⟩), (["e".toList], ⟨.directory, 0o755, 0, 0, 2⟩),
    (["e".toList, removedFilesFname], ⟨.regular report, 0o644, 0, 0, 1⟩)]

theorem readFile_removalClient (kind : Kind) (report : List UInt8) :
    (removalClient kind report).readFile (Str.joinPath "/e".toList removedFilesFname) =
      some report := by
  rfl

theorem node_removalClient (kind : Kind) (report : List UInt8) :
    (removalClient kind report).node ["d".toList] = some ⟨kind, 0o755, 0, 0, 2⟩ := by
  rfl

theorem topPaths_removedPath : topPaths [removedPath] = [removedPath] := by
  decide

theorem removalLines_written :
    addToImgFileRemovedEntries removalHeader unknownPackage [removedPath] = .ok removalLines := by
  rw [addToImgFileRemovedEntries, topPaths_removedPath]
  rfl

theorem readOffLines_removedPath : ReadOffLines unknownPackage [removedPath] where
  path := by decide
  package := by
    rintro _ _ ⟨⟩
    decide

/-- `os.remove` raises on the removed directory `/d`, which has no entry. -/
theorem not_removalsCarriedThrough_directory :
    addToImgFileRemovedEntries removalHeader unknownPackage [removedPath] = .ok removalLines ∧
      ¬ RemovalsCarriedThrough removalEnv directoryOptions "/e".toList "/i/new.tar.gz".toList ⟨0, 0, 1⟩
        [removedPath] (removalClient .directory (Utf8.encode (unlines removalLines))) := by
  refine ⟨removalLines_written, ?_⟩
  rintro ⟨finish, ended, gone⟩
  have present : ∀ path ∈ [removedPath],
      ((removalClient .directory (Utf8.encode (unlines removalLines))).node path.names).isSome =
        true := by
    intro path member
    rw [List.mem_singleton.mp member]
    rfl
  obtain ⟨_, ran⟩ := (ends_applyRemovedFiles_iff rfl readOffLines_removedPath removalLines_written
    (readFile_removalClient _ _) (by rw [topPaths_removedPath]; rfl)).mp ended
  obtain ⟨_, ready⟩ := ready_of_gone present ran gone
  have file := (ready removedPath List.mem_cons_self).1
  cases file

/-- A removed link at `/d`. -/
theorem removalsCarriedThrough_iff_link :
    RemovalsCarriedThrough removalEnv directoryOptions "/e".toList "/i/new.tar.gz".toList ⟨0, 0, 1⟩
        [removedPath] (removalClient (.symlink "/x".toList) (Utf8.encode (unlines removalLines))) ↔
      RemovalReady removalEnv.host removalHeader [removedPath]
        (removalClient (.symlink "/x".toList) (Utf8.encode (unlines removalLines))) := by
  refine removalsCarriedThrough_iff rfl readOffLines_removedPath removalLines_written
    (readFile_removalClient _ _) (by rw [topPaths_removedPath]; rfl) fun path member => ?_
  rw [List.mem_singleton.mp member]
  rfl

end SysImgExtractor

end Myscm.Client
