import Myscm.Library.TarAdd
import Myscm.Server.ImageFiles
import Myscm.Server.RemovedEntries

/-!
Owns what comes into an image for the added files: the ADDED tree and added.txt.

Owns: the loop over the added paths with its two tests for templates and the test for
members that are there already; which members the archive then has; when the tree is
complete, and when templates keep their files out of it.

Does not own: when `TarFile.add` fails for want of rights; progress output.
-/

namespace Myscm.Server

open Myscm.Library

namespace SystemImageGenerator

/-! ## The loop -/

/-- `_get_added_entry_intar_path`. -/
def getAddedEntryIntarPath (path : Str) : Str :=
  Str.joinPath inArchiveAddedDirName (Str.lstripChars ['/'] path)

/-- The files of the server as they lie there. -/
def serverFiles (fs : Fs) : ServerFiles where
  isfile := fs.isfile
  bytes s := (fs.readFile s).getD []
  oldBytes _ := none

/-- `_check_if_exist_added_file_template`. -/
def checkIfExistAddedFileTemplate (fs : Fs) (path : Str) : Bool :=
  checkIfExistFileTemplate (serverFiles fs) path

/-- `_added_files_filter`, which is given the name in the archive. -/
def addedFilesFilter (fs : Fs) (name : Str) : Bool :=
  !checkIfExistAddedFileTemplate fs name

section Loop

variable (fs : Fs) (packageName : Str → Except GeneratorError Str)

/-- The loop over the sorted paths, with `common_path`: the members of the archive, and the
lines of added.txt beside their paths. -/
def addEntriesFrom (commonPath : AbsPath) (archive : List (Str × Node)) :
    List AbsPath → Except GeneratorError (List (Str × Node) × List (AbsPath × Str))
  | [] => .ok (archive, [])
  | path :: rest =>
      if Str.commonpath path.text commonPath.text = some commonPath.text then
        addEntriesFrom commonPath archive rest
      else if checkIfExistAddedFileTemplate fs path.text then
        addEntriesFrom path archive rest
      else if getAddedEntryIntarPath path.text ∈ archive.map Prod.fst then
        addEntriesFrom path archive rest
      else
        match fs.tarAdd (addedFilesFilter fs) (fs.depth + 1) path.text
            (getAddedEntryIntarPath path.text) with
        | none => .error .os
        | some members => do
            let line ← entryLine packageName path
            let (archive, rows) ← addEntriesFrom path (archive ++ members) rest
            return (archive, (path, line) :: rows)

/-- The loop from its start. -/
def addEntries (added : List AbsPath) :
    Except GeneratorError (List (Str × Node) × List (AbsPath × Str)) :=
  addEntriesFrom fs packageName nonExistingPath [] (added.insertionSort (· ≤ ·))

/-- added.txt in the archive. It comes from a temporary file of root. -/
def addedTxt (header : ReportHeader) (rows : List (AbsPath × Str)) : Str × Node :=
  (addedFilesFname,
    ⟨.regular (Utf8.encode (unlines (appendAddedEntriesHeader header ++ rows.map Prod.snd))),
      0o600, 0, 0, 1⟩)

/-- `_add_to_img_file_aide_added_entries`: the members it adds. -/
def addToImgFileAideAddedEntries (header : ReportHeader) (added : List AbsPath) :
    Except GeneratorError (List (Str × Node)) := do
  let (archive, rows) ← addEntries fs packageName added
  return archive ++ [addedTxt header rows]

end Loop

/-! ## Names in the archive -/

/-- The name of a path in the archive. -/
def intarPath (path : Path) : Str := inArchiveAddedDirName ++ path.text

theorem getAddedEntryIntarPath_text (path : AbsPath) :
    getAddedEntryIntarPath path.text = intarPath path.names := by
  have relative : Str.isAbs (['/'].intercalate path.names) = false := by
    rw [← AbsPath.lstripChars_text]
    exact Str.isAbs_lstripSlash path.text
  rw [getAddedEntryIntarPath, AbsPath.lstripChars_text, Str.joinPath, relative, intarPath,
    ← AbsPath.text_eq, AbsPath.text]
  rw [if_neg (by simp), if_neg (by decide)]

theorem intarPath_injective {left right : Path} (properLeft : left.Proper)
    (properRight : right.Proper) (same : intarPath left = intarPath right) : left = right := by
  have texts := List.append_cancel_left same
  rw [← AbsPath.text_eq ⟨left, properLeft⟩, ← AbsPath.text_eq ⟨right, properRight⟩] at texts
  exact congrArg AbsPath.names (AbsPath.text_injective texts)

/-- No member of the tree has the name of a report. -/
theorem intarPath_ne_addedFilesFname (path : Path) : intarPath path ≠ addedFilesFname := by
  intro same
  have heads := congrArg List.head? same
  rw [intarPath, List.head?_append_of_ne_nil _ (by decide)] at heads
  exact absurd heads (by decide)

/-! ## What the archive holds -/

/-- The path is added with `top`: all on the way to it passes the filter under its name in the
archive, and none of it is a socket. -/
def Shipped (fs : Fs) (top path : Path) : Prop :=
  fs.Reaches (addedFilesFilter fs ∘ intarPath) top path

variable {fs : Fs} {packageName : Str → Except GeneratorError Str}

theorem Shipped.proper {top : AbsPath} {path : Path} (shipped : Shipped fs top.names path) :
    path.Proper :=
  shipped.1.proper top.proper

/-- The members that one call of `add` makes. -/
theorem members_of_tarAdd {path : AbsPath} {members : List (Str × Node)}
    (added : fs.tarAdd (addedFilesFilter fs) (fs.depth + 1) path.text
      (getAddedEntryIntarPath path.text) = some members) :
    (members.map Prod.fst).Nodup ∧
      (∀ name, name ∈ members.map Prod.fst ↔
        ∃ below, Shipped fs path.names below ∧ name = intarPath below) ∧
      ∀ entry ∈ members, ∃ below : Path, below.Proper ∧ entry.1 = intarPath below ∧
        fs.lstat below.text = some entry.2 := by
  have present : (fs.lstat (Path.text path.names)).isSome = true := by
    rw [← AbsPath.text_eq]
    cases found : fs.lstat path.text with
    | none =>
        rw [Fs.tarAdd, found] at added
        cases added
    | some node => rfl
  have deep : fs.Deep (fs.depth + 1) path.names := fun address _ => by omega
  have join : ∀ (path : Path) (entry : Str), path.Proper → IsName entry →
      Str.joinPath (intarPath path) entry = intarPath (path ++ [entry]) :=
    fun path entry proper named => joinPath_text inArchiveAddedDirName proper named
  rw [getAddedEntryIntarPath_text, AbsPath.text_eq, Fs.tarAdd_text join path.proper deep present]
    at added
  rw [← Option.some.inj added, Fs.map_fst_members]
  clear added
  have reached := fun below => @Fs.mem_addedPaths_iff fs (addedFilesFilter fs ∘ intarPath)
    path.names below _ path.proper deep
  refine ⟨?_, ?_, ?_⟩
  · refine List.Nodup.map_on ?_ (Fs.nodup_addedPaths _ _)
    intro left inLeft right inRight same
    exact intarPath_injective (Shipped.proper ((reached left).mp inLeft))
      (Shipped.proper ((reached right).mp inRight)) same
  · intro name
    rw [List.mem_map]
    exact exists_congr fun below => by rw [reached, Shipped, eq_comm]
  · intro entry isMember
    obtain ⟨below, isAdded, ofMember⟩ := List.mem_filterMap.mp isMember
    obtain ⟨node, found, rfl⟩ := Option.map_eq_some_iff.mp ofMember
    exact ⟨below, Shipped.proper ((reached below).mp isAdded), rfl, found⟩

/-- What holds of the archive and the paths of the lines at each turn of the loop. -/
structure Holds (fs : Fs) (archive : List (Str × Node)) (listed : List AbsPath) : Prop where
  names : ∀ name, name ∈ archive.map Prod.fst ↔
    ∃ top ∈ listed, ∃ path, Shipped fs top.names path ∧ name = intarPath path
  nodup : (archive.map Prod.fst).Nodup
  nodes : ∀ entry ∈ archive, ∃ path : Path, path.Proper ∧ entry.1 = intarPath path ∧
    fs.lstat path.text = some entry.2
  apart : ∀ top ∈ listed, ∀ other ∈ listed, Shipped fs top.names other.names → top = other

theorem Holds.start (fs : Fs) : Holds fs [] [] where
  names name := by simp
  nodup := List.nodup_nil
  nodes entry member := absurd member List.not_mem_nil
  apart top member := absurd member List.not_mem_nil

/-- The archive has a path just where the path is added with one of those that are listed. -/
theorem Holds.mem_iff {archive : List (Str × Node)} {listed : List AbsPath}
    (holds : Holds fs archive listed) {path : Path} (proper : path.Proper) :
    intarPath path ∈ archive.map Prod.fst ↔ ∃ top ∈ listed, Shipped fs top.names path := by
  rw [holds.names]
  refine exists_congr fun top => and_congr_right fun _ => ?_
  constructor
  · rintro ⟨other, shipped, same⟩
    rwa [intarPath_injective proper shipped.proper same]
  · exact fun shipped => ⟨path, shipped, rfl⟩

/-- A turn of the loop that adds a path. -/
theorem Holds.add {archive members : List (Str × Node)} {listed : List AbsPath} {path : AbsPath}
    (holds : Holds fs archive listed) (before : ∀ top ∈ listed, top ≤ path)
    (fresh : getAddedEntryIntarPath path.text ∉ archive.map Prod.fst)
    (added : fs.tarAdd (addedFilesFilter fs) (fs.depth + 1) path.text
      (getAddedEntryIntarPath path.text) = some members) :
    Holds fs (archive ++ members) (listed ++ [path]) := by
  obtain ⟨nodup, names, nodes⟩ := members_of_tarAdd added
  rw [getAddedEntryIntarPath_text, holds.mem_iff path.proper] at fresh
  -- Nothing that is there already lies above the path, and only the path itself is not
  -- before it and above it.
  have alone : ∀ top ∈ listed, ∀ below, Shipped fs top.names below →
      ¬ Shipped fs path.names below := by
    intro top isListed below fromTop fromPath
    rcases List.prefix_or_prefix_of_prefix fromTop.1.isPrefix fromPath.1.isPrefix with above | lower
    · exact fresh ⟨top, isListed, (fromTop.split top.proper above fromPath.1.isPrefix).1⟩
    · obtain rfl : path = top := le_antisymm (AbsPath.ancestry.le lower) (before top isListed)
      exact fresh ⟨path, isListed,
        (fromPath.split path.proper List.prefix_rfl fromPath.1.isPrefix).1⟩
  refine ⟨fun name => ?_, ?_, ?_, ?_⟩
  · rw [List.map_append, List.mem_append, holds.names, names]
    simp only [List.mem_append, List.mem_singleton, or_and_right, exists_or, exists_eq_left]
  · rw [List.map_append, List.nodup_append]
    refine ⟨holds.nodup, nodup, fun name inArchive other inMembers same => ?_⟩
    subst same
    obtain ⟨top, isListed, below, fromTop, rfl⟩ := (holds.names name).mp inArchive
    obtain ⟨other, fromPath, same⟩ := (names _).mp inMembers
    rw [← intarPath_injective fromTop.proper fromPath.proper same] at fromPath
    exact alone top isListed below fromTop fromPath
  · intro entry member
    rcases List.mem_append.mp member with earlier | later
    · exact holds.nodes entry earlier
    · exact nodes entry later
  · intro top isListed other otherListed shipped
    rcases List.mem_append.mp isListed with earlier | last <;>
      rcases List.mem_append.mp otherListed with otherEarlier | otherLast
    · exact holds.apart top earlier other otherEarlier shipped
    · rw [List.mem_singleton.mp otherLast] at shipped
      exact absurd ⟨top, earlier, shipped⟩ fresh
    · rw [List.mem_singleton.mp last] at shipped ⊢
      exact le_antisymm (AbsPath.ancestry.le shipped.1.isPrefix) (before other otherEarlier)
    · rw [List.mem_singleton.mp last, List.mem_singleton.mp otherLast]

/-- A whole run of the loop from a state that the invariant holds of. -/
theorem addEntriesFrom_holds {commonPath : AbsPath} {archive archive' : List (Str × Node)}
    {listed paths : List AbsPath} {rows : List (AbsPath × Str)} (holds : Holds fs archive listed)
    (before : ∀ top ∈ listed, ∀ path ∈ paths, top ≤ path) (sorted : paths.Pairwise (· ≤ ·))
    (run : addEntriesFrom fs packageName commonPath archive paths = .ok (archive', rows)) :
    Holds fs archive' (listed ++ rows.map Prod.fst) ∧
      (∀ row ∈ rows, row.1 ∈ keepTopPaths commonPath paths ∧
        checkIfExistAddedFileTemplate fs row.1.text = false ∧
        entryLine packageName row.1 = .ok row.2) ∧
      ∀ path ∈ keepTopPaths commonPath paths,
        checkIfExistAddedFileTemplate fs path.text = false →
          ∃ top ∈ listed ++ rows.map Prod.fst, top = path ∨ Shipped fs top.names path.names := by
  induction paths generalizing commonPath archive listed rows with
  | nil =>
      obtain ⟨rfl, rfl⟩ := Prod.mk.inj (Except.ok.inj run)
      rw [List.map_nil, List.append_nil]
      exact ⟨holds, fun row member => absurd member List.not_mem_nil,
        fun path member => absurd member List.not_mem_nil⟩
  | cons path rest inductionHypothesis =>
      obtain ⟨isLeast, sortedRest⟩ := List.pairwise_cons.mp sorted
      have beforeRest : ∀ top ∈ listed, ∀ other ∈ rest, top ≤ other :=
        fun top isListed other member => before top isListed other (List.mem_cons_of_mem _ member)
      rw [addEntriesFrom] at run
      rw [keepTopPaths]
      by_cases below : Str.commonpath path.text commonPath.text = some commonPath.text
      · rw [if_pos below] at run ⊢
        exact inductionHypothesis holds beforeRest sortedRest run
      · rw [if_neg below] at run ⊢
        by_cases template : checkIfExistAddedFileTemplate fs path.text = true
        · rw [if_pos template] at run
          obtain ⟨holds', ofRows, kept⟩ := inductionHypothesis holds beforeRest sortedRest run
          refine ⟨holds', fun row member => ?_, fun other isKept noTemplate => ?_⟩
          · exact ⟨List.mem_cons_of_mem _ (ofRows row member).1, (ofRows row member).2⟩
          · rcases List.mem_cons.mp isKept with rfl | later
            · rw [template] at noTemplate
              cases noTemplate
            · exact kept other later noTemplate
        · rw [if_neg template] at run
          rw [Bool.not_eq_true] at template
          by_cases there : getAddedEntryIntarPath path.text ∈ archive.map Prod.fst
          · rw [if_pos there] at run
            obtain ⟨holds', ofRows, kept⟩ := inductionHypothesis holds beforeRest sortedRest run
            refine ⟨holds', fun row member => ?_, fun other isKept noTemplate => ?_⟩
            · exact ⟨List.mem_cons_of_mem _ (ofRows row member).1, (ofRows row member).2⟩
            · rcases List.mem_cons.mp isKept with rfl | later
              · rw [getAddedEntryIntarPath_text, holds.mem_iff other.proper] at there
                obtain ⟨top, isListed, shipped⟩ := there
                exact ⟨top, List.mem_append_left _ isListed, .inr shipped⟩
              · exact kept other later noTemplate
          · rw [if_neg there] at run
            split at run
            · cases run
            · rename_i members added
              obtain ⟨line, ofLine, run⟩ := bind_ok run
              obtain ⟨⟨archive'', rows'⟩, later, result⟩ := bind_ok run
              obtain ⟨rfl, rfl⟩ := Prod.mk.inj (Except.ok.inj result)
              have beforePath : ∀ top ∈ listed, top ≤ path :=
                fun top isListed => before top isListed path List.mem_cons_self
              have before' : ∀ top ∈ listed ++ [path], ∀ other ∈ rest, top ≤ other := by
                intro top isListed other member
                rcases List.mem_append.mp isListed with earlier | last
                · exact beforeRest top earlier other member
                · rw [List.mem_singleton.mp last]
                  exact isLeast other member
              obtain ⟨holds', ofRows, kept⟩ :=
                inductionHypothesis (holds.add beforePath there added) before' sortedRest later
              rw [List.append_assoc, List.singleton_append] at holds' kept
              rw [List.map_cons]
              refine ⟨holds', fun row member => ?_, fun other isKept noTemplate => ?_⟩
              · rcases List.mem_cons.mp member with rfl | later
                · exact ⟨List.mem_cons_self, template, ofLine⟩
                · exact ⟨List.mem_cons_of_mem _ (ofRows row later).1, (ofRows row later).2⟩
              · rcases List.mem_cons.mp isKept with rfl | later
                · exact ⟨other, by simp, .inl rfl⟩
                · exact kept other later noTemplate

/-- What a run of the whole loop leaves. -/
structure Result (fs : Fs) (packageName : Str → Except GeneratorError Str) (added : List AbsPath)
    (archive : List (Str × Node)) (rows : List (AbsPath × Str)) : Prop
    extends Holds fs archive (rows.map Prod.fst) where
  ofRow : ∀ row ∈ rows, row.1 ∈ topPaths added ∧
    checkIfExistAddedFileTemplate fs row.1.text = false ∧ entryLine packageName row.1 = .ok row.2
  kept : ∀ path ∈ topPaths added, checkIfExistAddedFileTemplate fs path.text = false →
    ∃ top ∈ rows.map Prod.fst, top = path ∨ Shipped fs top.names path.names

theorem result_of_addEntries {added : List AbsPath} {archive : List (Str × Node)}
    {rows : List (AbsPath × Str)} (run : addEntries fs packageName added = .ok (archive, rows)) :
    Result fs packageName added archive rows := by
  obtain ⟨holds, ofRow, kept⟩ := addEntriesFrom_holds (Holds.start fs)
    (fun top member => absurd member List.not_mem_nil) (List.pairwise_insertionSort (· ≤ ·) added) run
  rw [List.nil_append] at holds kept
  exact ⟨holds, ofRow, kept⟩

section Tree

variable {added : List AbsPath} {archive : List (Str × Node)} {rows : List (AbsPath × Str)}
  (result : Result fs packageName added archive rows)
include result

/-- The archive has a path just where the path is added with one that the loop comes to and that
has no template. -/
theorem Result.mem_archive_iff {path : Path} (proper : path.Proper) :
    intarPath path ∈ archive.map Prod.fst ↔ ∃ top ∈ topPaths added,
      checkIfExistAddedFileTemplate fs top.text = false ∧ Shipped fs top.names path := by
  rw [result.mem_iff proper]
  constructor
  · rintro ⟨top, isListed, shipped⟩
    obtain ⟨row, isRow, rfl⟩ := List.mem_map.mp isListed
    obtain ⟨isTop, noTemplate, _⟩ := result.ofRow row isRow
    exact ⟨row.1, isTop, noTemplate, shipped⟩
  · rintro ⟨path', isTop, noTemplate, shipped⟩
    obtain ⟨top, isListed, rfl | above⟩ := result.kept path' isTop noTemplate
    · exact ⟨top, isListed, shipped⟩
    · exact ⟨top, isListed, above.trans shipped⟩

theorem Result.mem_topPaths {path : AbsPath} (isListed : path ∈ rows.map Prod.fst) :
    path ∈ topPaths added := by
  obtain ⟨row, isRow, rfl⟩ := List.mem_map.mp isListed
  exact (result.ofRow row isRow).1

end Tree

/-! ## Templates -/

/-- The path is that of a regular file. -/
def isRegularFile (fs : Fs) (path : Str) : Prop :=
  (fs.lstat path).any Node.isRegular = true

instance (fs : Fs) (path : Str) : Decidable (isRegularFile fs path) :=
  inferInstanceAs (Decidable (_ = true))

/-- A regular file beside which lies the regular file of its template. -/
def HasTemplate (fs : Fs) (path : AbsPath) : Prop :=
  isRegularFile fs path.text ∧ isRegularFile fs (path.text ++ templatePathExt)

instance (fs : Fs) (path : AbsPath) : Decidable (HasTemplate fs path) :=
  inferInstanceAs (Decidable (_ ∧ _))

theorem isfile_of_isRegularFile {path : Str} (regular : isRegularFile fs path) :
    fs.isfile path = true := by
  unfold isRegularFile at regular
  cases found : fs.lstat path with
  | none =>
      rw [found] at regular
      cases regular
  | some node =>
      rw [found] at regular
      have notLink : node.isSymlink = false := by
        cases kind : node.kind <;> simp_all [Node.isRegular, Node.content?, Node.isSymlink,
          Node.target?]
      rw [Fs.isfile, Fs.stat_of_lstat found notLink]
      exact regular

/-- The test at the top of the loop for a file that has a template. -/
theorem checkIfExist_of_hasTemplate {path : AbsPath} (template : HasTemplate fs path) :
    checkIfExistAddedFileTemplate fs path.text = !Str.endsWith path.text templatePathExt := by
  have file := isfile_of_isRegularFile template.1
  have beside := isfile_of_isRegularFile template.2
  rw [checkIfExistAddedFileTemplate, checkIfExistFileTemplate, serverFiles]
  simp [file, beside]

/-- A directory has no template. -/
theorem checkIfExist_of_isRealDir {path : Path} (isDir : fs.isRealDir path = true) :
    checkIfExistAddedFileTemplate fs path.text = false := by
  have notFile : fs.isfile path.text = false := by
    obtain ⟨dir, located, dirHere⟩ := Fs.exists_isDirAt isDir
    rw [Fs.isfile, Fs.stat, located true, Option.bind_some]
    unfold Fs.isDirAt holdsDirectory at dirHere
    cases found : fs.node dir with
    | none => rfl
    | some node =>
        rw [found] at dirHere
        have kind : node.kind = .directory := by simpa [Node.isDirectory] using dirHere
        simp [Node.isRegular, Node.content?, kind]
  rw [checkIfExistAddedFileTemplate, checkIfExistFileTemplate, serverFiles]
  simp [notFile]

/-- All above a path in a tree is a directory. -/
theorem isRealDir_of_contains {top path : Path} (contains : fs.Contains top path)
    (proper : top.Proper) (differ : path ≠ top) : fs.isRealDir top = true := by
  obtain here | ⟨entry, isEntry, _⟩ := contains.cases_top proper
  · exact absurd here differ
  · exact ((Fs.mem_entries proper).mp isEntry).1

/-- A regular file is added with `top` just where nothing on the way to it is filtered out. -/
theorem shipped_iff_of_isRegularFile {top path : AbsPath} (regular : isRegularFile fs path.text) :
    Shipped fs top.names path.names ↔ fs.Contains top.names path.names ∧
      ∀ middle, top.names <+: middle → middle <+: path.names →
        checkIfExistAddedFileTemplate fs (intarPath middle) = false := by
  refine and_congr_right fun contains => forall_congr' fun middle => forall_congr' fun below =>
    forall_congr' fun above => ?_
  have there := (contains.split top.proper below above).2
  have found : ∃ node, fs.lstat (Path.text middle) = some node ∧ node.kind ≠ .socket := by
    by_cases here : path.names = middle
    · rw [← here, ← AbsPath.text_eq]
      unfold isRegularFile at regular
      cases found : fs.lstat path.text with
      | none =>
          rw [found] at regular
          cases regular
      | some node =>
          rw [found] at regular
          refine ⟨node, rfl, fun kind => ?_⟩
          simp [Node.isRegular, Node.content?, kind] at regular
    · have proper := (contains.split top.proper below above).1.proper top.proper
      have isDir := isRealDir_of_contains there proper here
      unfold Fs.isRealDir at isDir
      cases found : fs.lstat (Path.text middle) with
      | none =>
          rw [found] at isDir
          cases isDir
      | some node =>
          rw [found] at isDir
          refine ⟨node, rfl, fun kind => ?_⟩
          simp [Node.isDirectory, kind] at isDir
  obtain ⟨node, found, notSocket⟩ := found
  constructor
  · rintro ⟨_, _, _, kept⟩
    simpa [addedFilesFilter] using kept
  · intro kept
    exact ⟨node, found, notSocket, by simp [addedFilesFilter, kept]⟩

/-- The members of the whole call are those of the loop and added.txt. -/
theorem result_of_addToImgFile {header : ReportHeader} {added : List AbsPath}
    {members : List (Str × Node)}
    (generated : addToImgFileAideAddedEntries fs packageName header added = .ok members) :
    ∃ archive rows, Result fs packageName added archive rows ∧
      members = archive ++ [addedTxt header rows] := by
  obtain ⟨⟨archive, rows⟩, run, result⟩ := bind_ok generated
  exact ⟨archive, rows, result_of_addEntries run, (Except.ok.inj result).symm⟩

theorem intarPath_mem_members {header : ReportHeader} {archive : List (Str × Node)}
    {rows : List (AbsPath × Str)} {path : Path} :
    intarPath path ∈ (archive ++ [addedTxt header rows]).map Prod.fst ↔
      intarPath path ∈ archive.map Prod.fst := by
  rw [List.map_append, List.mem_append, List.map_singleton, List.mem_singleton, addedTxt]
  exact or_iff_left (intarPath_ne_addedFilesFname path)

/-- No file with a template comes into the ADDED tree just where each such file that lies in the
tree of a path that the loop comes to is this path itself and no template by its name, or has on
the way to it a file that the filter finds a template for under its name in the archive. -/
theorem templates_win_iff {header : ReportHeader} {added : List AbsPath}
    {members : List (Str × Node)}
    (generated : addToImgFileAideAddedEntries fs packageName header added = .ok members) :
    (∀ path, HasTemplate fs path →
        getAddedEntryIntarPath path.text ∉ members.map Prod.fst) ↔
      ∀ path, HasTemplate fs path → ∀ top ∈ topPaths added,
        fs.Contains top.names path.names →
          (top = path ∧ Str.endsWith path.text templatePathExt = false) ∨
          ∃ middle, top.names <+: middle ∧ middle <+: path.names ∧
            checkIfExistAddedFileTemplate fs (intarPath middle) = true := by
  obtain ⟨archive, rows, result, rfl⟩ := result_of_addToImgFile generated
  refine forall_congr' fun path => forall_congr' fun template => ?_
  rw [getAddedEntryIntarPath_text, intarPath_mem_members, result.mem_archive_iff path.proper]
  simp only [shipped_iff_of_isRegularFile template.1, not_exists, not_and]
  refine forall_congr' fun top => forall_congr' fun _ => ?_
  have topTest (contains : fs.Contains top.names path.names) :
      checkIfExistAddedFileTemplate fs top.text = false ↔
        ¬ (top = path ∧ Str.endsWith path.text templatePathExt = false) := by
    by_cases here : top = path
    · rw [here, checkIfExist_of_hasTemplate template]
      simp
    · have differ : path.names ≠ top.names := fun same => here (AbsPath.ext same.symm)
      have isDir := isRealDir_of_contains contains top.proper differ
      rw [AbsPath.text_eq, checkIfExist_of_isRealDir isDir]
      simp [here]
  constructor
  · intro leftOut contains
    by_contra neither
    rw [not_or] at neither
    refine leftOut ((topTest contains).mpr neither.1) contains fun middle below above => ?_
    by_contra filtered
    rw [Bool.not_eq_false] at filtered
    exact neither.2 ⟨middle, below, above, filtered⟩
  · intro condition noTemplate contains kept
    rcases condition contains with itself | ⟨middle, below, above, filtered⟩
    · exact (topTest contains).mp noTemplate itself
    · rw [kept middle below above] at filtered
      cases filtered

/-- A server with a file and its template in one directory. -/
def templateServer : Fs :=
  Fs.ofNodes
    [(["d".toList], ⟨.directory, 0o755, 0, 0, 2⟩),
      (["d".toList, "x".toList], ⟨.regular [], 0o644, 0, 0, 1⟩),
      (["d".toList, "x.myscm-template".toList], ⟨.regular [], 0o644, 0, 0, 1⟩)]

def templateDirectory : AbsPath := ⟨["d".toList], by decide⟩

def templatedFile : AbsPath := ⟨["d".toList, "x".toList], by decide⟩

/-- A header with no more than the names of the databases. -/
def shortHeader : ReportHeader where
  fromDbId := 1
  toDbId := 2
  clientDbPath := "/aide.db.1/aide.db".toList
  aideReferenceDbPath := "/aide.db.reference/aide.db".toList
  localCreationTime := []
  creationDate := []
  utcCreationTime := []
  utcCreationDate := []
  system := []
  distroName := []
  machine := []
  node := []
  pythonImplementation := []
  pythonVersion := []
  pythonCompiler := []
  title := id
  wordChars := ⟨Char.isAlphanum, Char.isDigit⟩
  plain := by decide

def noPackage : Str → Except GeneratorError Str := fun _ => .ok ['?']

theorem addToImgFile_of_addEntries {header : ReportHeader} {added : List AbsPath}
    {names : List Str} (run : (addEntries fs packageName added).toOption.map
      (fun result => result.1.map Prod.fst) = some names) :
    ∃ members, addToImgFileAideAddedEntries fs packageName header added = .ok members ∧
      members.map Prod.fst = names ++ [addedFilesFname] := by
  rw [addToImgFileAideAddedEntries]
  cases computed : addEntries fs packageName added with
  | error failure =>
      rw [computed] at run
      cases run
  | ok result =>
      rw [computed] at run
      have archived : result.1.map Prod.fst = names := Option.some.inj run
      refine ⟨_, rfl, ?_⟩
      rw [List.map_append, archived]
      rfl

theorem templates_win_listedFile : ∃ members,
    addToImgFileAideAddedEntries templateServer noPackage shortHeader [templatedFile] = .ok members ∧
      ∀ path, HasTemplate templateServer path →
        getAddedEntryIntarPath path.text ∉ members.map Prod.fst := by
  have run : (addEntries templateServer noPackage [templatedFile]).toOption.map
      (fun result => result.1.map Prod.fst) = some [] := by decide
  obtain ⟨members, generated, _⟩ := addToImgFile_of_addEntries run
  refine ⟨members, generated, (templates_win_iff generated).mpr fun path _ top isTop contains => ?_⟩
  obtain rfl : top = templatedFile := List.mem_singleton.mp (mem_of_mem_topPaths isTop)
  have notDir : templateServer.isRealDir templatedFile.names = false := by decide
  obtain rfl := AbsPath.ext (contains.eq_top templatedFile.proper notDir)
  exact .inl ⟨rfl, by decide⟩

theorem not_templates_win_addedDirectory : ∃ members,
    addToImgFileAideAddedEntries templateServer noPackage shortHeader [templateDirectory] =
        .ok members ∧
      HasTemplate templateServer templatedFile ∧
        getAddedEntryIntarPath templatedFile.text ∈ members.map Prod.fst := by
  have run : (addEntries templateServer noPackage [templateDirectory]).toOption.map
      (fun result => result.1.map Prod.fst) = some ["ADDED/d".toList,
        "ADDED/d/x.myscm-template".toList, "ADDED/d/x".toList] := by decide
  obtain ⟨members, generated, names⟩ := addToImgFile_of_addEntries run
  refine ⟨members, generated, by decide, ?_⟩
  rw [names]
  decide

/-! ## The whole tree -/

/-- The loop ends where all the paths exist and have packages. -/
theorem exists_addEntriesFrom {commonPath : AbsPath} {archive : List (Str × Node)}
    {paths : List AbsPath} (exist : ∀ path ∈ paths, (fs.lstat path.text).isSome = true)
    (named : ∀ path ∈ paths, ∃ line, entryLine packageName path = .ok line) :
    ∃ result, addEntriesFrom fs packageName commonPath archive paths = .ok result := by
  induction paths generalizing commonPath archive with
  | nil => exact ⟨_, rfl⟩
  | cons path rest inductionHypothesis =>
      have later := fun commonPath archive => @inductionHypothesis commonPath archive
        (fun other member => exist other (List.mem_cons_of_mem _ member))
        (fun other member => named other (List.mem_cons_of_mem _ member))
      rw [addEntriesFrom]
      split
      · exact later commonPath archive
      · split
        · exact later path archive
        · split
          · exact later path archive
          · have present : (fs.lstat (Path.text path.names)).isSome = true := by
              rw [← AbsPath.text_eq]
              exact exist path List.mem_cons_self
            have join : ∀ (path : Path) (entry : Str), path.Proper → IsName entry →
                Str.joinPath (intarPath path) entry = intarPath (path ++ [entry]) :=
              fun path entry proper isName => joinPath_text inArchiveAddedDirName proper isName
            have added := @Fs.tarAdd_text fs path.names (addedFilesFilter fs) intarPath join
              (fs.depth + 1) path.proper (fun address _ => by omega) present
            rw [← AbsPath.text_eq, ← getAddedEntryIntarPath_text] at added
            rw [added]
            obtain ⟨line, ofLine⟩ := named path List.mem_cons_self
            obtain ⟨result, run⟩ := later path (archive ++ _)
            exact ⟨_, by rw [ofLine]; dsimp only [bind, Except.bind]; rw [run]; rfl⟩

/-- The archive holds all of the added trees and each name once, and added.txt lists just one
path at or above each added one. -/
structure AddedTree (fs : Fs) (added : List AbsPath) (members : List (Str × Node))
    (listed : List AbsPath) : Prop where
  complete : ∀ path ∈ added, ∀ below, fs.Contains path.names below →
    ∃ node, fs.lstat (Path.text below) = some node ∧
      (getAddedEntryIntarPath (Path.text below), node) ∈ members
  nodup : (members.map Prod.fst).Nodup
  present : ∀ path ∈ listed, getAddedEntryIntarPath path.text ∈ members.map Prod.fst
  once : ∀ path ∈ added, ∃! top, top ∈ listed ∧ top.IsAbove path

/-- What is added with its path: the node is no socket, and the filter finds no template under
its name in the archive. -/
abbrev Passes (fs : Fs) (path : Path) : Prop :=
  fs.Added (addedFilesFilter fs ∘ intarPath) path

section Tree

variable {added : List AbsPath} {archive : List (Str × Node)} {rows : List (AbsPath × Str)}
  (result : Result fs packageName added archive rows)
include result

theorem Result.exists_member {path : Path} (proper : path.Proper)
    (isName : intarPath path ∈ archive.map Prod.fst) :
    ∃ node, fs.lstat path.text = some node ∧ (intarPath path, node) ∈ archive := by
  obtain ⟨entry, isEntry, ofName⟩ := List.mem_map.mp isName
  obtain ⟨other, otherProper, otherName, found⟩ := result.nodes entry isEntry
  obtain rfl := intarPath_injective proper otherProper (ofName.symm.trans otherName)
  exact ⟨entry.2, found, otherName ▸ isEntry⟩

/-- Where all of the added trees pass, the listed paths are the topmost ones. -/
theorem Result.mem_listed_iff
    (noTemplate : ∀ path ∈ added, checkIfExistAddedFileTemplate fs path.text = false)
    (start : ¬ StartsBelow added)
    (pass : ∀ path ∈ added, ∀ below, fs.Contains path.names below → Passes fs below)
    (reach : ∀ above ∈ added, ∀ path ∈ added, above.IsAbove path →
      fs.Contains above.names path.names) {path : AbsPath} :
    path ∈ rows.map Prod.fst ↔ Topmost AbsPath.IsAbove added path := by
  have ofTop : ∀ top, Topmost AbsPath.IsAbove added top → top ∈ rows.map Prod.fst := by
    intro top topmost
    have isTop : top ∈ topPaths added := mem_topPaths_of_topmost start topmost
    obtain ⟨other, isListed, rfl | shipped⟩ := result.kept top isTop (noTemplate top topmost.1)
    · exact isListed
    · have isAdded := mem_of_mem_topPaths (result.mem_topPaths isListed)
      exact topmost.2 other isAdded shipped.1.isPrefix ▸ isListed
  refine ⟨fun isListed => ?_, ofTop path⟩
  have isAdded := mem_of_mem_topPaths (result.mem_topPaths isListed)
  obtain ⟨top, topmost, above⟩ := AbsPath.ancestry.exists_topmost isAdded
  have contains := reach top topmost.1 path isAdded above
  have shipped : Shipped fs top.names path.names := by
    refine ⟨contains, fun middle lower higher => ?_⟩
    exact pass top topmost.1 middle (contains.split top.proper lower higher).1
  exact result.apart top (ofTop top topmost) path isListed shipped ▸ topmost

end Tree

/-- The ADDED tree is complete just where the first added path is not at or below the path the loop
starts with, all nodes of the added trees pass, and each added path below another one lies in its
tree. -/
theorem addedTree_iff {added : List AbsPath} {archive : List (Str × Node)}
    {rows : List (AbsPath × Str)} (header : ReportHeader)
    (exist : ∀ path ∈ added, (fs.lstat path.text).isSome = true)
    (noTemplate : ∀ path ∈ added, ∀ below, fs.Contains path.names below →
      checkIfExistAddedFileTemplate fs (Path.text below) = false)
    (run : addEntries fs packageName added = .ok (archive, rows)) :
    (addToImgFileAideAddedEntries fs packageName header added =
        .ok (archive ++ [addedTxt header rows]) ∧
      ∀ row ∈ rows, entryLine packageName row.1 = .ok row.2) ∧
    (AddedTree fs added (archive ++ [addedTxt header rows]) (rows.map Prod.fst) ↔
      ¬ StartsBelow added ∧
        (∀ path ∈ added, ∀ below, fs.Contains path.names below → Passes fs below) ∧
        ∀ above ∈ added, ∀ path ∈ added, above.IsAbove path →
          fs.Contains above.names path.names) := by
  have result := result_of_addEntries run
  have self (path : AbsPath) (isAdded : path ∈ added) : fs.Contains path.names path.names :=
    .top (by rw [← AbsPath.text_eq]; exact exist path isAdded)
  have proper {path : AbsPath} {below : Path} (contains : fs.Contains path.names below) :
      below.Proper := contains.proper path.proper
  have inTree {path : AbsPath} {below : Path} (contains : fs.Contains path.names below) :
      getAddedEntryIntarPath (Path.text below) = intarPath below := by
    rw [← AbsPath.text_eq ⟨below, proper contains⟩]
    exact getAddedEntryIntarPath_text ⟨below, proper contains⟩
  refine ⟨⟨?_, fun row member => (result.ofRow row member).2.2⟩, ?_, ?_⟩
  · rw [addToImgFileAideAddedEntries, run]
    rfl
  · intro tree
    have reached : ∀ path ∈ added, ∀ below, fs.Contains path.names below →
        ∃ top ∈ rows.map Prod.fst, Shipped fs top.names below := by
      intro path isAdded below contains
      obtain ⟨node, _, isMember⟩ := tree.complete path isAdded below contains
      have isName := List.mem_map_of_mem (f := Prod.fst) isMember
      rw [inTree contains, intarPath_mem_members] at isName
      exact (result.mem_iff (proper contains)).mp isName
    refine ⟨?_, fun path isAdded below contains => ?_, fun above aboveAdded path isAdded isAbove => ?_⟩
    · rintro ⟨least, isAdded, isLeast, below⟩
      obtain ⟨top, ⟨isListed, isAbove⟩, _⟩ := tree.once least isAdded
      have isTop := result.mem_topPaths isListed
      obtain rfl : top = least := le_antisymm (AbsPath.ancestry.le isAbove)
        (isLeast top (mem_of_mem_topPaths isTop))
      exact not_isAbove_of_least_mem_topPaths isLeast isTop below
    · obtain ⟨top, _, shipped⟩ := reached path isAdded below contains
      exact shipped.last
    · obtain ⟨top, isListed, shipped⟩ := reached path isAdded path.names (self path isAdded)
      obtain ⟨other, ⟨otherListed, otherAbove⟩, _⟩ := tree.once above aboveAdded
      obtain rfl : top = other := (tree.once path isAdded).unique
        ⟨isListed, shipped.1.isPrefix⟩ ⟨otherListed, AbsPath.ancestry.trans otherAbove isAbove⟩
      exact (shipped.1.split top.proper otherAbove isAbove).2
  · rintro ⟨start, pass, reach⟩
    have listedIff := fun path => @Result.mem_listed_iff _ _ _ _ _ result
      (fun path isAdded => by
        rw [AbsPath.text_eq]
        exact noTemplate path isAdded path.names (self path isAdded)) start pass reach path
    have ofTree {path : AbsPath} (isAdded : path ∈ added) {below : Path}
        (contains : fs.Contains path.names below) : intarPath below ∈ archive.map Prod.fst := by
      obtain ⟨top, topmost, isAbove⟩ := AbsPath.ancestry.exists_topmost isAdded
      have inTop := (reach top topmost.1 path isAdded isAbove).trans contains
      refine (result.mem_iff (proper contains)).mpr ⟨top, (listedIff top).mpr topmost, inTop, ?_⟩
      exact fun middle lower higher =>
        pass top topmost.1 middle (inTop.split top.proper lower higher).1
    refine ⟨fun path isAdded below contains => ?_, ?_, fun path isListed => ?_,
      fun path isAdded => ?_⟩
    · obtain ⟨node, found, isMember⟩ :=
        result.exists_member (proper contains) (ofTree isAdded contains)
      rw [inTree contains]
      exact ⟨node, found, List.mem_append_left _ isMember⟩
    · rw [List.map_append, List.nodup_append]
      refine ⟨result.nodup, List.nodup_singleton _, fun name inArchive other isLast same => ?_⟩
      obtain ⟨_, _, below, _, rfl⟩ := (result.names name).mp inArchive
      exact intarPath_ne_addedFilesFname below (same.trans (List.mem_singleton.mp isLast))
    · have isAdded := mem_of_mem_topPaths (result.mem_topPaths isListed)
      rw [getAddedEntryIntarPath_text, intarPath_mem_members]
      exact ofTree isAdded (self path isAdded)
    · obtain ⟨top, topmost, isAbove⟩ := AbsPath.ancestry.exists_topmost isAdded
      refine ⟨top, ⟨(listedIff top).mpr topmost, isAbove⟩, fun other isOther => ?_⟩
      have otherTopmost := (listedIff other).mp isOther.1
      rcases AbsPath.ancestry.chain isOther.2 isAbove with higher | lower
      · exact topmost.2 other otherTopmost.1 higher
      · exact (otherTopmost.2 top topmost.1 lower).symm

/-- A server that runs in the root directory, where an image was unpacked. -/
def unpackedServer : Fs :=
  Fs.ofNodes
    [(["d".toList], ⟨.directory, 0o755, 0, 0, 2⟩),
      (["d".toList, "y".toList], ⟨.regular [1], 0o644, 0, 0, 1⟩),
      (["x".toList], ⟨.regular [2], 0o644, 0, 0, 1⟩),
      (["ADDED".toList], ⟨.directory, 0o755, 0, 0, 2⟩),
      (["ADDED".toList, "x".toList], ⟨.regular [3], 0o644, 0, 0, 1⟩),
      (["ADDED".toList, "x.myscm-template".toList], ⟨.regular [], 0o644, 0, 0, 1⟩)]

def fileBelow : AbsPath := ⟨["d".toList, "y".toList], by decide⟩

def fileInRoot : AbsPath := ⟨["x".toList], by decide⟩

theorem exists_of_addEntries {added : List AbsPath} {paths : List AbsPath}
    (run : (addEntries fs packageName added).toOption.map
      (fun result => result.2.map Prod.fst) = some paths) :
    ∃ archive rows, addEntries fs packageName added = .ok (archive, rows) ∧
      rows.map Prod.fst = paths := by
  cases computed : addEntries fs packageName added with
  | error failure =>
      rw [computed] at run
      cases run
  | ok result =>
      rw [computed] at run
      exact ⟨result.1, result.2, rfl, Option.some.inj run⟩

theorem addedTree_directory : ∃ archive rows,
    addEntries unpackedServer noPackage [fileBelow, templateDirectory] = .ok (archive, rows) ∧
      AddedTree unpackedServer [fileBelow, templateDirectory] (archive ++ [addedTxt shortHeader rows])
        (rows.map Prod.fst) := by
  have run : (addEntries unpackedServer noPackage [fileBelow, templateDirectory]).toOption.map
      (fun result => result.2.map Prod.fst) = some [templateDirectory] := by decide
  obtain ⟨archive, rows, run, _⟩ := exists_of_addEntries run
  have entries : unpackedServer.entries templateDirectory.names = ["y".toList] := by decide
  have notDir : unpackedServer.isRealDir fileBelow.names = false := by decide
  have inTree : ∀ path ∈ [fileBelow, templateDirectory], ∀ below,
      unpackedServer.Contains path.names below →
        below = templateDirectory.names ∨ below = fileBelow.names := by
    intro path isAdded below contains
    rcases List.mem_cons.mp isAdded with rfl | isAdded
    · exact .inr (contains.eq_top fileBelow.proper notDir)
    · obtain rfl := List.mem_singleton.mp isAdded
      rcases contains.cases_top templateDirectory.proper with here | ⟨entry, isEntry, deeper⟩
      · exact .inl here
      · rw [entries] at isEntry
        obtain rfl := List.mem_singleton.mp isEntry
        exact .inr (deeper.eq_top fileBelow.proper notDir)
  have fileContained : unpackedServer.Contains fileBelow.names fileBelow.names :=
    .top (by decide)
  have directoryContained : unpackedServer.Contains templateDirectory.names
      templateDirectory.names := .top (by decide)
  refine ⟨archive, rows, run, (addedTree_iff shortHeader (by decide) ?_ run).2.mpr
    ⟨?_, fun path isAdded below contains => ?_, fun above aboveAdded path isAdded isAbove => ?_⟩⟩
  · intro path isAdded below contains
    rcases inTree path isAdded below contains with rfl | rfl <;> decide
  · rintro ⟨least, isAdded, _, below⟩
    revert below
    revert least
    decide
  · rcases inTree path isAdded below contains with rfl | rfl
    · exact ⟨⟨.directory, 0o755, 0, 0, 2⟩, by decide⟩
    · exact ⟨⟨.regular [1], 0o644, 0, 0, 1⟩, by decide⟩
  · rcases List.mem_cons.mp aboveAdded with rfl | aboveAdded <;>
      rcases List.mem_cons.mp isAdded with rfl | isAdded
    · exact fileContained
    · obtain rfl := List.mem_singleton.mp isAdded
      exact absurd isAbove (by decide)
    · obtain rfl := List.mem_singleton.mp aboveAdded
      exact .entry directoryContained (by rw [entries]; exact List.mem_singleton_self _)
    · obtain rfl := List.mem_singleton.mp aboveAdded
      obtain rfl := List.mem_singleton.mp isAdded
      exact directoryContained

/-- The file in the root has no template, but its name in the archive does. -/
theorem not_addedTree_unpackedImage : ∃ archive rows,
    addEntries unpackedServer noPackage [fileInRoot] = .ok (archive, rows) ∧
      (∀ below, unpackedServer.Contains fileInRoot.names below →
        (∃ node, unpackedServer.lstat (Path.text below) = some node ∧ node.kind ≠ .socket) ∧
          checkIfExistAddedFileTemplate unpackedServer (Path.text below) = false) ∧
      ¬ AddedTree unpackedServer [fileInRoot] (archive ++ [addedTxt shortHeader rows])
        (rows.map Prod.fst) := by
  have run : (addEntries unpackedServer noPackage [fileInRoot]).toOption.map
      (fun result => (result.1.map Prod.fst, result.2.map Prod.fst)) = some ([], [fileInRoot]) := by
    decide
  cases computed : addEntries unpackedServer noPackage [fileInRoot] with
  | error failure =>
      rw [computed] at run
      cases run
  | ok result =>
      rw [computed] at run
      obtain ⟨noMembers, isListed⟩ := Prod.mk.inj (Option.some.inj run)
      refine ⟨result.1, result.2, rfl, fun below contains => ?_, fun tree => ?_⟩
      · have notDir : unpackedServer.isRealDir fileInRoot.names = false := by decide
        obtain rfl := contains.eq_top fileInRoot.proper notDir
        exact ⟨⟨⟨.regular [2], 0o644, 0, 0, 1⟩, by decide⟩, by decide⟩
      · have isMember := tree.present fileInRoot (by rw [isListed]; exact List.mem_singleton_self _)
        rw [List.map_append, noMembers, getAddedEntryIntarPath_text] at isMember
        exact intarPath_ne_addedFilesFname _ (List.mem_singleton.mp isMember)

end SystemImageGenerator

end Myscm.Server
