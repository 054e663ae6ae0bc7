import Myscm.Library.CopyTree
import Myscm.Server.RemovedEntries

/-!
Owns the copies of tracked files that a scan keeps beside its database, from which
patches are made later.

Owns: the text test and the handler that ignores entries; the loop over the sorted
paths; what COPIED holds behind it, and when that is every text file.

Does not own: the lines of the AIDE configuration with the paths; messages.
-/

namespace Myscm.Server

open Myscm.Library

namespace Scanner

/-- What a copy can raise: an `OSError`, or a `NameError`. -/
inductive CopyError where
  | os
  | name
  deriving DecidableEq

section Copying

variable (binary : List UInt8 → Bool)

/-- `binaryornot.check.is_binary`, or none where the path cannot be opened. `binary` is its test
of the content. -/
def isBinary (fs : Fs) (path : Str) : Option Bool := (fs.readFile path).map binary

/-- `check_if_copy_file`. -/
def checkIfCopyFile (fs : Fs) (path : Str) : Bool :=
  match isBinary binary fs path with
  | some isBinary => !isBinary
  | none => false

/-- `ignore_handler`. -/
def ignoreHandler (fs : Fs) (dirPath : Str) (dirContent : List Str) : List Str :=
  dirContent.filter fun f => !checkIfCopyFile binary fs (Str.joinPath dirPath f)

variable (dirMode fileMode : Nat) (dstDirPath : Str)

/-- `_create_copied_files_dir`. -/
def createCopiedFilesDir : Prog Fs CopyError Unit :=
  makedirs .os dirMode false dstDirPath

/-- A turn of the loop for a path that is not skipped. The call of `check_if_copy_file` names no
global function, so it raises. -/
def copySrc (src : AbsPath) : Prog Fs CopyError Unit := do
  let dstFilePath := Str.joinPath dstDirPath (Str.lstripChars ['/'] src.text)
  makedirs .os dirMode true (Str.dirname dstFilePath)
  let isDir ← Prog.reads fun fs => fs.isdir src.text
  if isDir then
    Fs.copytree .os dirMode fileMode (ignoreHandler binary) pathMax src.text dstFilePath
  else
    Prog.raise .name

/-- The loop over the sorted paths, with `common_path`. -/
def copyFrom (commonPath : AbsPath) : List AbsPath → Prog Fs CopyError Unit
  | [] => Prog.ret ()
  | src :: rest =>
      if Str.commonpath src.text commonPath.text = some commonPath.text then
        copyFrom commonPath rest
      else
        Prog.andThen (copySrc binary dirMode fileMode dstDirPath src) fun _ => copyFrom src rest

/-- `__copy_selected_tracked_dirs_to_scan_dir`. -/
def copySelectedTrackedDirsToScanDir (srcPaths : List AbsPath) : Prog Fs CopyError Unit :=
  copyFrom binary dirMode fileMode dstDirPath nonExistingPath (srcPaths.insertionSort (· ≤ ·))

/-- The loop takes a turn for each path that is not skipped. -/
theorem copyFrom_eq (commonPath : AbsPath) (paths : List AbsPath) :
    copyFrom binary dirMode fileMode dstDirPath commonPath paths =
      Prog.forEach (copySrc binary dirMode fileMode dstDirPath) (keepTopPaths commonPath paths) := by
  induction paths generalizing commonPath with
  | nil => rfl
  | cons src rest inductionHypothesis =>
      rw [copyFrom, keepTopPaths]
      split
      · exact inductionHypothesis commonPath
      · rw [inductionHypothesis, Prog.forEach]

end Copying

/-! ## Texts of the targets -/

theorem dstFilePath_eq {dst : Str} (isOpen : Str.Open dst) (nonempty : dst ≠ []) {src : AbsPath}
    (named : ∀ name ∈ src.names, IsName name) (more : src.names ≠ []) :
    Str.joinPath dst (Str.lstripChars ['/'] src.text) = Fs.textBelow dst src.names := by
  have relative := Str.isAbs_lstripSlash src.text
  rw [AbsPath.lstripChars_text] at relative ⊢
  rw [Str.joinPath_of_open isOpen nonempty relative, Fs.textBelow,
    Str.behind_of_ne (Fs.intercalate_ne_nil named more)]

/-- The directory of the target of a path is that of the directory above the path. -/
theorem dirname_textBelow {dst : Str} (isOpen : Str.Open dst) (nonempty : dst ≠ []) {names : Path}
    (named : ∀ name ∈ names, IsName name) (more : names ≠ []) :
    Str.dirname (Fs.textBelow dst names) = Fs.textBelow dst names.dropLast := by
  obtain ⟨front, last, rfl⟩ : ∃ front last, names = front ++ [last] :=
    ⟨names.dropLast, names.getLast more, (List.dropLast_append_getLast more).symm⟩
  obtain ⟨text, _, _, noSlash⟩ := named last (by simp)
  have namedFront : ∀ name ∈ front, IsName name :=
    fun name member => named name (List.mem_append_left _ member)
  have whole : Fs.textBelow dst (front ++ [last]) = Fs.textBelow dst front ++ '/' :: last := by
    rw [← Fs.joinPath_textBelow isOpen nonempty namedFront (named last (by simp)), Fs.textBelow]
    exact Str.joinPath_of_open (Str.open_behind isOpen (Fs.open_names namedFront))
      (Str.behind_ne_nil nonempty _) (isAbs_of_isName (named last (by simp)))
  have frontOpen : Str.Open (Fs.textBelow dst front) :=
    Str.open_behind isOpen (Fs.open_names namedFront)
  rw [List.dropLast_concat, whole, Str.dirname_slash noSlash, Str.rstripChars_of_open frontOpen,
    if_neg (show Fs.textBelow dst front ≠ [] from Str.behind_ne_nil nonempty _)]

/-! ## Entries -/

section Entries

variable {binary : List UInt8 → Bool} {fs : Fs} {dirPath name : Str} {names : List Str}

/-- An entry that is not ignored can be read, and is text. -/
theorem readFile_of_not_ignored (member : name ∈ names)
    (kept : name ∉ ignoreHandler binary fs dirPath names) :
    ∃ content, fs.readFile (Str.joinPath dirPath name) = some content ∧ binary content = false := by
  rw [ignoreHandler, List.mem_filter, not_and] at kept
  have copy : checkIfCopyFile binary fs (Str.joinPath dirPath name) = true := by
    simpa using kept member
  rw [checkIfCopyFile, isBinary] at copy
  cases read : fs.readFile (Str.joinPath dirPath name) with
  | none =>
      rw [read] at copy
      cases copy
  | some content =>
      rw [read] at copy
      exact ⟨content, rfl, by simpa using copy⟩

theorem not_ignored_of_text {content : List UInt8}
    (read : fs.readFile (Str.joinPath dirPath name) = some content) (text : binary content = false) :
    name ∉ ignoreHandler binary fs dirPath names := by
  rw [ignoreHandler, List.mem_filter, not_and]
  intro _
  simp [checkIfCopyFile, isBinary, read, text]

end Entries

/-! ## What COPIED holds -/

/-- COPIED as `_create_copied_files_dir` leaves it: its text leads to a directory without
entries. -/
structure FreshDir (fs : Fs) (dst : Str) (root : Path) : Prop where
  lead : fs.Leads dst root
  isDir : fs.isDirAt root = true
  empty : ∀ name, fs.node (root ++ [name]) = none

/-- It leaves such a directory where nothing was. -/
theorem exists_freshDir {fs : Fs} {dst : Str} {root : Path} {dirMode : Nat}
    (located : fs.locate false dst = some root) (missing : fs.node root = none) :
    ∃ next, Prog.Ends (createCopiedFilesDir dirMode dst) fs () next ∧ FreshDir next dst root := by
  have nonempty : dst ≠ [] := by
    rintro rfl
    cases located
  rw [Fs.locate_eq nonempty] at located
  have lead : fs.Leads dst root := ⟨fs, Fs.SameOutside.refl root fs, missing, located⟩
  have noLink := Fs.targetAt_of_none missing
  have named := @Fs.Leads.locate_pieces _ _ _ lead false [] (by simp)
  rw [List.append_nil, List.append_nil, lead.filter.walk noLink false] at named
  obtain ⟨next, ended, placed⟩ := @Fs.ends_makeLast_of_vacant fs _ CopyError.os dirMode false _ _
    named missing
  rw [Prog.Ends, ← Fs.makedirsPieces_self lead noLink] at ended
  have touches := Fs.touches_of_place placed fun _ isLink => by cases isLink
  have same : Fs.SameOutside root fs next :=
    ⟨touches.cwd, fun path outside => touches.others path fun here => outside (here ▸ List.prefix_rfl)⟩
  refine ⟨next, ended, lead.congr same, ?_, fun name => ?_⟩
  · rw [Fs.isDirAt, Fs.node_of_place placed, if_pos rfl]
    rfl
  · rw [touches.others _ (by simp)]
    exact Fs.node_of_missing missing (List.prefix_append _ _)

/-- A regular file that is text. -/
def TextFile (binary : List UInt8 → Bool) (fs : Fs) (path : Path) (content : List UInt8) : Prop :=
  (∃ node, fs.node path = some node ∧ node.kind = .regular content) ∧ binary content = false

/-- What holds behind a turn of the loop: the directories were copied, with the text files right
in them, and COPIED holds nothing else. -/
structure CopiedDirs (binary : List UInt8 → Bool) (start : Fs) (root : Path) (done : List AbsPath)
    (fs : Fs) : Prop where
  outside : Fs.SameOutside root start fs
  isDir : fs.isDirAt root = true
  dirs : ∀ dir ∈ done, fs.isDirAt (root ++ dir.names) = true
  only : ∀ path node, root <+: path → path ≠ root → fs.node path = some node →
    (node.isDirectory = true ∧ ∃ dir ∈ done, path <+: root ++ dir.names) ∨
      ∃ content, node.kind = .regular content ∧ binary content = false ∧
        ∃ dir ∈ done, ∃ name, path = root ++ dir.names ++ [name] ∧
          start.isDirAt (dir.names ++ [name]) = false
  copies : ∀ dir ∈ done, ∀ name content, TextFile binary start (dir.names ++ [name]) content →
    ∃ copy, fs.node (root ++ dir.names ++ [name]) = some copy ∧ copy.kind = .regular content

/-- The path is a real one: a node that is no link. -/
def IsReal (fs : Fs) (path : AbsPath) : Prop :=
  (fs.node path.names).isSome = true ∧ fs.targetAt path.names = none

section Turn

variable {binary : List UInt8 → Bool} {dirMode fileMode : Nat} {start fs : Fs} {dst : Str}
  {root : Path} {done : List AbsPath} {src : AbsPath}

/-- Nothing but the directory is there of what COPIED is to hold. -/
theorem FreshDir.eq_root (fresh : FreshDir start dst root) {path : Path}
    (present : (start.node path).isSome = true) (below : root <+: path) : path = root := by
  obtain ⟨rest, rfl⟩ := below
  cases rest with
  | nil => rw [List.append_nil]
  | cons name later =>
      have here : (start.node (root ++ [name])).isSome = true := by
        by_cases last : later = []
        · rwa [last] at present
        · have split : root ++ name :: later = (root ++ [name]) ++ later := by simp
          rw [split] at present
          exact Fs.isSome_of_isDirAt (Fs.isDirAt_of_extends present last)
      rw [fresh.empty name] at here
      cases here

theorem copiedDirs_start (fresh : FreshDir start dst root) :
    CopiedDirs binary start root [] start where
  outside := Fs.SameOutside.refl root start
  isDir := fresh.isDir
  dirs dir member := absurd member List.not_mem_nil
  only path node below differ found := by
    have present : (start.node path).isSome = true := by
      rw [found]
      rfl
    exact absurd (fresh.eq_root present below) differ
  copies dir member := absurd member List.not_mem_nil

variable (copied : CopiedDirs binary start root done fs)
include copied

/-- A path of the start is a directory just where it was one. -/
theorem CopiedDirs.isDirAt_eq (fresh : FreshDir start dst root) {path : Path} (present : (start.node path).isSome = true) :
    fs.isDirAt path = start.isDirAt path := by
  by_cases below : root <+: path
  · rw [fresh.eq_root present below, copied.isDir, fresh.isDir]
  · rw [Fs.isDirAt, copied.outside.node path below]
    rfl

/-- On the way to the target of a directory of the start nothing but directories is met. -/
theorem CopiedDirs.free {front : Path} (wasDir : start.isDirAt front = true) :
    fs.node (root ++ front) = none ∨ fs.isDirAt (root ++ front) = true := by
  cases found : fs.node (root ++ front) with
  | none => exact .inl rfl
  | some node =>
      right
      by_cases here : front = []
      · rw [here, List.append_nil]
        exact copied.isDir
      · rcases copied.only _ node (List.prefix_append root front) (by simpa using here) found with
          ⟨isDir, _⟩ | ⟨_, _, _, dir, _, name, same, notDir⟩
        · rw [Fs.isDirAt, holdsDirectory, found]
          exact isDir
        · rw [List.append_assoc] at same
          rw [List.append_cancel_left same, notDir] at wasDir
          cases wasDir

/-- The target of a directory behind those that were copied is vacant. -/
theorem CopiedDirs.vacant (wasDir : start.isDirAt src.names = true) (more : src.names ≠ [])
    (before : ∀ dir ∈ done, dir < src) : fs.node (root ++ src.names) = none := by
  cases found : fs.node (root ++ src.names) with
  | none => rfl
  | some node =>
      rcases copied.only _ node (List.prefix_append root src.names) (by simpa using more) found with
        ⟨_, dir, isDone, inside⟩ | ⟨_, _, _, dir, _, name, same, notDir⟩
      · have isAbove : src.IsAbove dir := (List.prefix_append_right_inj root).mp inside
        exact absurd (AbsPath.ancestry.le isAbove) (not_le.mpr (before dir isDone))
      · rw [List.append_assoc] at same
        rw [List.append_cancel_left same, notDir] at wasDir
        cases wasDir

/-- Making the directory above the target. -/
theorem CopiedDirs.exists_made (fresh : FreshDir start dst root)
    (named : ∀ name ∈ src.names, IsName name) (more : src.names ≠ [])
    (above : start.isDirAt src.names.dropLast = true) :
    ∃ made, Prog.Ends (makedirs CopyError.os dirMode true
        (Str.dirname (Str.joinPath dst (Str.lstripChars ['/'] src.text)))) fs () made ∧
      Fs.MadeDown dirMode root src.names.dropLast fs made := by
  have lead := fresh.lead.congr copied.outside
  rw [dstFilePath_eq lead.isOpen lead.ne_nil named more,
    dirname_textBelow lead.isOpen lead.ne_nil named more]
  refine Fs.ends_makedirs lead copied.isDir (fun name member => named name
    (List.mem_of_mem_dropLast member)) (fun front isFront => copied.free ?_) (.inl rfl)
  exact @Fs.isDirAt_of_isPrefix start [] _ front above isFront

/-- Behind that, a path of the start is what it was. -/
theorem CopiedDirs.node_made (fresh : FreshDir start dst root) {made : Fs} {names path : Path}
    (isMade : Fs.MadeDown dirMode root names fs made) (present : (start.node path).isSome = true)
    (differ : path ≠ root) : made.node path = start.node path := by
  have outside : ¬ root <+: path := fun below => differ (fresh.eq_root present below)
  rw [isMade.outside.node path outside, copied.outside.node path outside]

theorem CopiedDirs.isDirAt_made (fresh : FreshDir start dst root) {made : Fs} {names path : Path}
    (isMade : Fs.MadeDown dirMode root names fs made) (present : (start.node path).isSome = true) :
    made.isDirAt path = start.isDirAt path := by
  by_cases here : path = root
  · rw [here, fresh.isDir]
    exact isMade.extends.isDirAt root copied.isDir
  · rw [Fs.isDirAt, copied.node_made fresh isMade present here]
    rfl

/-- Behind that, a regular file of the start in the directory reads as it did. -/
theorem CopiedDirs.readFile_made (fresh : FreshDir start dst root) {made : Fs} {names : Path}
    (isMade : Fs.MadeDown dirMode root names fs made) {name : Str} {content : List UInt8}
    (file : ∃ node, start.node (src.names ++ [name]) = some node ∧ node.kind = .regular content) :
    made.readFile (Str.joinPath src.text name) = some content ∧
      name ∈ made.listing src.names := by
  obtain ⟨node, found, kind⟩ := file
  have present : (start.node (src.names ++ [name])).isSome = true := by
    rw [found]
    rfl
  have isName : IsName name := (start.grounded _ _ present).2
  have differ : src.names ++ [name] ≠ root := by
    rintro here
    have isDir := fresh.isDir
    rw [← here, Fs.isDirAt, found] at isDir
    simp [holdsDirectory, Node.isDirectory, kind] at isDir
  have foundMade := (copied.node_made fresh isMade present differ).trans found
  have noLink : made.targetAt (src.names ++ [name]) = none := by
    simp [Fs.targetAt, foundMade, Node.target?, kind]
  have text : Str.joinPath src.text name = Path.text (src.names ++ [name]) := by
    have joined := joinPath_text [] src.proper isName
    rwa [List.nil_append, List.nil_append, ← AbsPath.text_eq] at joined
  constructor
  · rw [text, Fs.readFile, Fs.stat, Fs.locate_text (by rw [foundMade]; rfl) (.inr noLink),
      Option.bind_some, foundMade, Option.bind_some, Node.content?, kind]
  · rw [Fs.mem_listing, foundMade]
    rfl

/-- An entry of the directory that reads as a file was no directory. -/
theorem CopiedDirs.not_dir_of_readFile (fresh : FreshDir start dst root) {made : Fs} {names : Path}
    (isMade : Fs.MadeDown dirMode root names fs made) {name : Str} {content : List UInt8}
    (isName : IsName name) (read : made.readFile (Str.joinPath src.text name) = some content) :
    start.isDirAt (src.names ++ [name]) = false := by
  cases wasDir : start.isDirAt (src.names ++ [name]) with
  | false => rfl
  | true =>
      have isDir := (copied.isDirAt_made fresh isMade (Fs.isSome_of_isDirAt wasDir)).trans wasDir
      have text : Str.joinPath src.text name = Path.text (src.names ++ [name]) := by
        have joined := joinPath_text [] src.proper isName
        rwa [List.nil_append, List.nil_append, ← AbsPath.text_eq] at joined
      rw [text, Fs.readFile, Fs.stat, Fs.locate_text (Fs.isSome_of_isDirAt isDir)
        (.inr (Fs.targetAt_of_isDirAt isDir)), Option.bind_some] at read
      obtain ⟨node, found, isContent⟩ := Option.bind_eq_some_iff.mp read
      have regular : node.isRegular = true := by rw [Node.isRegular, isContent]; rfl
      rw [Fs.isDirAt_of_node found, Fs.isDirectory_of_isRegular regular] at isDir
      cases isDir

/-- What holds behind the copy of one more directory. -/
theorem CopiedDirs.add (fresh : FreshDir start dst root) (wasDir : start.isDirAt src.names = true)
    (more : src.names ≠ []) (before : ∀ dir ∈ done, dir < src) {made next : Fs}
    (isMade : Fs.MadeDown dirMode root src.names.dropLast fs made)
    (tree : Fs.TreeCopied (root ++ src.names)
      (Fs.Copies made src.text (made.listing src.names)
        (ignoreHandler binary made src.text (made.listing src.names))) made next) :
    CopiedDirs binary start root (done ++ [src]) next := by
  have rootAway : ¬ root ++ src.names <+: root := by
    intro inside
    have shorter := inside.length_le
    have positive := List.length_pos_iff.mpr more
    rw [List.length_append] at shorter
    omega
  have dirAway {dir : AbsPath} (isDone : dir ∈ done) : ¬ src.names <+: dir.names := fun inside =>
    absurd (AbsPath.ancestry.le inside) (not_le.mpr (before dir isDone))
  have dirTargetAway {dir : AbsPath} (isDone : dir ∈ done) :
      ¬ root ++ src.names <+: root ++ dir.names := fun inside =>
    dirAway isDone ((List.prefix_append_right_inj root).mp inside)
  refine ⟨⟨tree.cwd.trans (isMade.cwd.trans copied.outside.cwd), fun path outside => ?_⟩, ?_,
    fun dir isDir => ?_, fun path node below differ found => ?_, fun dir isDir name content text => ?_⟩
  · have away : ¬ root ++ src.names <+: path := fun inside =>
      outside ((List.prefix_append _ _).trans inside)
    rw [tree.others path away, isMade.outside.node path outside, copied.outside.node path outside]
  · rw [Fs.isDirAt, tree.others root rootAway]
    exact isMade.extends.isDirAt root copied.isDir
  · rcases List.mem_append.mp isDir with isDone | isSrc
    · rw [Fs.isDirAt, tree.others _ (dirTargetAway isDone)]
      exact isMade.extends.isDirAt _ (copied.dirs dir isDone)
    · rw [List.mem_singleton.mp isSrc]
      exact tree.top
  · by_cases inside : root ++ src.names <+: path
    · by_cases top : path = root ++ src.names
      · left
        have isDir := tree.top
        rw [← top, Fs.isDirAt_of_node found] at isDir
        exact ⟨isDir, src, by simp, top ▸ List.prefix_rfl⟩
      · right
        obtain ⟨name, content, copies, rfl⟩ := tree.only path node inside top found
        obtain ⟨copy, isCopy, kind⟩ := tree.node name content copies
        obtain rfl : node = copy := Option.some.inj (found.symm.trans isCopy)
        obtain ⟨isEntry, kept, read⟩ := copies
        obtain ⟨other, readOther, isText⟩ := readFile_of_not_ignored isEntry kept
        obtain rfl : content = other := Option.some.inj (read.symm.trans readOther)
        have isName := (made.grounded _ name (Fs.mem_listing.mp isEntry)).2
        exact ⟨content, kind, isText, src, by simp, name, rfl,
          copied.not_dir_of_readFile fresh isMade isName read⟩
    · rw [tree.others path inside, isMade.node] at found
      split at found
      · rename_i isNew
        obtain rfl := Option.some.inj found
        refine .inl ⟨rfl, src, by simp, isNew.2.2.trans ?_⟩
        exact (List.prefix_append_right_inj root).mpr (List.dropLast_prefix _)
      · rcases copied.only path node below differ found with
          ⟨isDir, dir, isDone, above⟩ | ⟨content, kind, isText, dir, isDone, name, same, notDir⟩
        · exact .inl ⟨isDir, dir, List.mem_append_left _ isDone, above⟩
        · exact .inr ⟨content, kind, isText, dir, List.mem_append_left _ isDone, name, same, notDir⟩
  · rcases List.mem_append.mp isDir with isDone | isSrc
    · obtain ⟨copy, isCopy, kind⟩ := copied.copies dir isDone name content text
      refine ⟨copy, ?_, kind⟩
      rw [tree.others, isMade.kept isCopy]
      rw [List.append_assoc, List.prefix_append_right_inj]
      intro inside
      rcases List.prefix_concat_iff.mp inside with same | higher
      · obtain ⟨⟨node, found, nodeKind⟩, _⟩ := text
        rw [← same] at found
        rw [Fs.isDirAt_of_node found] at wasDir
        simp [Node.isDirectory, nodeKind] at wasDir
      · exact dirAway isDone higher
    · obtain rfl := List.mem_singleton.mp isSrc
      obtain ⟨read, isEntry⟩ := copied.readFile_made fresh isMade text.1
      exact tree.node name content ⟨isEntry, not_ignored_of_text read text.2, read⟩

/-- A turn of the loop for a directory behind those that were copied. -/
theorem CopiedDirs.ends_copySrc (fresh : FreshDir start dst root)
    (wasDir : start.isDirAt src.names = true) (more : src.names ≠ [])
    (before : ∀ dir ∈ done, dir < src) :
    ∃ next, Prog.Ends (copySrc binary dirMode fileMode dst src) fs () next ∧
      CopiedDirs binary start root (done ++ [src]) next := by
  have present := Fs.isSome_of_isDirAt wasDir
  have named : ∀ name ∈ src.names, IsName name := fun name => Fs.isName_of_mem present
  have above : start.isDirAt src.names.dropLast = true := by
    rw [← List.dropLast_append_getLast more] at present
    exact Fs.isDirAt_of_extends present (List.cons_ne_nil _ _)
  obtain ⟨made, endedMake, isMade⟩ :=
    @CopiedDirs.exists_made _ dirMode _ _ _ _ _ _ copied fresh named more above
  have sourceDir : made.isDirAt src.names = true :=
    (copied.isDirAt_made fresh isMade present).trans wasDir
  have located (follow : Bool) : made.locate follow src.text = some src.names := by
    rw [AbsPath.text_eq]
    exact Fs.locate_text (Fs.isSome_of_isDirAt sourceDir) (.inr (Fs.targetAt_of_isDirAt sourceDir))
  have leadMade := (fresh.lead.congr copied.outside).congr isMade.outside
  have rootMade : made.isDirAt root = true := isMade.extends.isDirAt root copied.isDir
  have vacant : made.node (root ++ src.names) = none := by
    rw [isMade.node, if_neg, copied.vacant wasDir more before]
    rintro ⟨_, _, inside⟩
    have shorter := ((List.prefix_append_right_inj root).mp inside).length_le
    have positive := List.length_pos_iff.mpr more
    rw [List.length_dropLast] at shorter
    omega
  have aboveMade : made.isDirAt (root ++ src.names.dropLast) = true :=
    isMade.isDirAt (fun front isFront =>
      copied.free (@Fs.isDirAt_of_isPrefix start [] _ front above isFront)) List.prefix_rfl
  obtain ⟨next, endedCopy, tree⟩ := @Fs.ends_copytree made dst root _ CopyError.os src.text src.names
    src.names dirMode fileMode (pathMax - 1) (ignoreHandler binary) leadMade rootMade named more
    aboveMade vacant (located true) sourceDir fun name member kept => by
      obtain ⟨content, read, _⟩ := readFile_of_not_ignored member kept
      exact ⟨content, read⟩
  refine ⟨next, ?_, copied.add fresh wasDir more before isMade tree⟩
  rw [copySrc]
  simp only [Prog.bind_eq, Prog.ends_andThen_iff, Prog.ends_reads_iff]
  have isDirText : made.isdir src.text = true := by
    rw [Fs.isdir, Fs.stat, located true, Option.bind_some]
    exact sourceDir
  refine ⟨(), made, endedMake, true, made, ⟨isDirText, rfl⟩, ?_⟩
  rw [if_pos rfl, dstFilePath_eq fresh.lead.isOpen fresh.lead.ne_nil named more]
  exact endedCopy

/-- A turn raises for a path that is no directory, and for the root directory. -/
theorem CopiedDirs.not_ends_copySrc (fresh : FreshDir start dst root) (real : IsReal start src)
    (bad : src.names = [] ∨ start.isDirAt src.names = false) {finish : Fs} :
    ¬ Prog.Ends (copySrc binary dirMode fileMode dst src) fs () finish := by
  intro ended
  have lead := fresh.lead.congr copied.outside
  rw [copySrc] at ended
  simp only [Prog.bind_eq, Prog.ends_andThen_iff, Prog.ends_reads_iff] at ended
  obtain ⟨_, made, endedMake, isDir, _, ⟨isDirText, rfl⟩, ended⟩ := ended
  by_cases top : src.names = []
  · -- The target of the root directory is COPIED itself, with a slash behind it.
    have target : Str.joinPath dst (Str.lstripChars ['/'] src.text) = dst ++ '/' :: [] := by
      rw [AbsPath.lstripChars_text, top, List.intercalate_nil]
      exact Str.joinPath_of_open lead.isOpen lead.ne_nil rfl
    have above : Str.dirname (dst ++ '/' :: []) = Fs.textBelow dst [] := by
      rw [Str.dirname_slash (by simp), Str.rstripChars_of_open lead.isOpen, if_neg lead.ne_nil,
        Fs.textBelow, List.intercalate_nil, Str.behind_nil]
    rw [target, above] at endedMake
    obtain ⟨made', endedMake', isMade⟩ := @Fs.ends_makedirs fs dst root _ CopyError.os [] lead
      copied.isDir (by simp) dirMode true (fun front isFront => by
        rw [List.prefix_nil.mp isFront, List.append_nil]
        exact .inr copied.isDir) (.inl rfl)
    obtain ⟨_, rfl⟩ := endedMake.unique endedMake'
    have isRoot : made.isdir src.text = true := by
      rw [AbsPath.text_eq, top, Fs.isdir, Fs.stat, Fs.locate_text
        (Fs.isSome_of_isDirAt made.root) (.inr (Fs.targetAt_of_isDirAt made.root))]
      exact made.root
    rw [isRoot] at isDirText
    rw [← isDirText, if_pos rfl, target] at ended
    refine Fs.not_ends_copytree (lead.congr isMade.outside)
      (isMade.extends.isDirAt root copied.isDir) ?_ ?_ ended
    · rw [List.splitOn_append_cons_self, List.filter_append]
      simp
    · have head : (dst ++ ['/']).head? = dst.head? := List.head?_append_of_ne_nil _ lead.ne_nil
      rw [Bool.eq_iff_iff, Fs.isAbs_iff_head?, Fs.isAbs_iff_head?, head]
  · have notDir := bad.resolve_left top
    have named : ∀ name ∈ src.names, IsName name := fun name => Fs.isName_of_mem real.1
    have above : start.isDirAt src.names.dropLast = true := by
      have present := real.1
      rw [← List.dropLast_append_getLast top] at present
      exact Fs.isDirAt_of_extends present (List.cons_ne_nil _ _)
    obtain ⟨made', endedMake', isMade⟩ :=
      @CopiedDirs.exists_made _ dirMode _ _ _ _ _ _ copied fresh named top above
    obtain ⟨_, rfl⟩ := endedMake.unique endedMake'
    have differ : src.names ≠ root := by
      intro here
      rw [here, fresh.isDir] at notDir
      cases notDir
    have same := copied.node_made fresh isMade real.1 differ
    have noLink : made.targetAt src.names = none := by
      rw [Fs.targetAt, same]
      exact real.2
    have notDirText : made.isdir src.text = false := by
      rw [AbsPath.text_eq, Fs.isdir, Fs.stat, Fs.locate_text (by rw [same]; exact real.1)
        (.inr noLink), Option.bind_some, same]
      exact notDir
    rw [notDirText] at isDirText
    rw [← isDirText, if_neg Bool.false_ne_true] at ended
    exact absurd ended (Prog.not_ends_raise _ _ _ _)

end Turn

/-! ## The whole loop -/

section Loop

variable {binary : List UInt8 → Bool} {dirMode fileMode : Nat} {start : Fs} {dst : Str}
  {root : Path} (fresh : FreshDir start dst root)
include fresh

/-- A path that a turn ends for: a directory other than the root. -/
def CopiedAsTree (start : Fs) (src : AbsPath) : Prop :=
  src.names ≠ [] ∧ start.isDirAt src.names = true

omit fresh in
theorem isReal_of_copiedAsTree {src : AbsPath} (good : CopiedAsTree start src) : IsReal start src :=
  ⟨Fs.isSome_of_isDirAt good.2, Fs.targetAt_of_isDirAt good.2⟩

/-- The turns for such paths in strict order end. -/
theorem exists_ends_copySrcs {done tops : List AbsPath} {fs : Fs}
    (copied : CopiedDirs binary start root done fs) (sorted : tops.Pairwise (· < ·))
    (before : ∀ dir ∈ done, ∀ top ∈ tops, dir < top) (good : ∀ top ∈ tops, CopiedAsTree start top) :
    ∃ finish, Prog.Ends (Prog.forEach (copySrc binary dirMode fileMode dst) tops) fs () finish ∧
      CopiedDirs binary start root (done ++ tops) finish := by
  induction tops generalizing done fs with
  | nil =>
      refine ⟨fs, (Prog.ends_ret_iff _ _ _ _).mpr ⟨rfl, rfl⟩, ?_⟩
      rwa [List.append_nil]
  | cons src rest inductionHypothesis =>
      obtain ⟨srcBefore, sortedRest⟩ := List.pairwise_cons.mp sorted
      obtain ⟨more, wasDir⟩ := good src List.mem_cons_self
      obtain ⟨next, endedSrc, copiedNext⟩ := @CopiedDirs.ends_copySrc _ dirMode fileMode _ _ _ _ _ _
        copied fresh wasDir more fun dir isDone => before dir isDone src List.mem_cons_self
      obtain ⟨finish, ended, copiedAll⟩ := inductionHypothesis copiedNext sortedRest
        (fun dir isDone top isTop => by
          rcases List.mem_append.mp isDone with earlier | last
          · exact before dir earlier top (List.mem_cons_of_mem _ isTop)
          · rw [List.mem_singleton.mp last]
            exact srcBefore top isTop)
        fun top isTop => good top (List.mem_cons_of_mem _ isTop)
      rw [List.append_assoc, List.singleton_append] at copiedAll
      exact ⟨finish, (Prog.ends_andThen_iff _ _ _ _ _).mpr ⟨(), next, endedSrc, ended⟩, copiedAll⟩

/-- Where they end, the paths are such ones. -/
theorem copiedAsTree_of_ends {done tops : List AbsPath} {fs finish : Fs}
    (copied : CopiedDirs binary start root done fs) (sorted : tops.Pairwise (· < ·))
    (before : ∀ dir ∈ done, ∀ top ∈ tops, dir < top) (real : ∀ top ∈ tops, IsReal start top)
    (ended : Prog.Ends (Prog.forEach (copySrc binary dirMode fileMode dst) tops) fs () finish) :
    ∀ top ∈ tops, CopiedAsTree start top := by
  induction tops generalizing done fs with
  | nil => exact fun top isTop => absurd isTop List.not_mem_nil
  | cons src rest inductionHypothesis =>
      obtain ⟨srcBefore, sortedRest⟩ := List.pairwise_cons.mp sorted
      obtain ⟨_, middle, endedSrc, endedRest⟩ := (Prog.ends_andThen_iff _ _ _ _ _).mp ended
      have good : CopiedAsTree start src := by
        by_contra bad
        refine copied.not_ends_copySrc fresh (real src List.mem_cons_self) ?_ endedSrc
        rwa [CopiedAsTree, not_and_or, not_not, Bool.not_eq_true] at bad
      obtain ⟨next, endedNext, copiedNext⟩ := @CopiedDirs.ends_copySrc _ dirMode fileMode _ _ _ _ _ _
        copied fresh good.2 good.1 fun dir isDone => before dir isDone src List.mem_cons_self
      obtain ⟨_, rfl⟩ := endedSrc.unique endedNext
      have goodRest := inductionHypothesis copiedNext sortedRest
        (fun dir isDone top isTop => by
          rcases List.mem_append.mp isDone with earlier | last
          · exact before dir earlier top (List.mem_cons_of_mem _ isTop)
          · rw [List.mem_singleton.mp last]
            exact srcBefore top isTop)
        (fun top isTop => real top (List.mem_cons_of_mem _ isTop)) endedRest
      intro top isTop
      rcases List.mem_cons.mp isTop with rfl | later
      · exact good
      · exact goodRest top later

/-- COPIED holds a copy of each text file that is listed or lies below what is listed, and no
other content. -/
structure ScanCopied (binary : List UInt8 → Bool) (start : Fs) (root : Path)
    (srcPaths : List AbsPath) (finish : Fs) : Prop where
  texts : ∀ path content, TextFile binary start path content →
    (∃ src ∈ srcPaths, src.names <+: path) →
      ∃ copy, finish.node (root ++ path) = some copy ∧ copy.kind = .regular content
  noBinary : ∀ path node content, finish.node (root ++ path) = some node →
    node.kind = .regular content → binary content = false

end Loop

/-- A test that takes a zero byte for binary content. -/
def zeroByte (content : List UInt8) : Bool := content.contains 0

/-- A server with a tracked directory and a directory in it. -/
def trackedServer : Fs :=
  Fs.ofNodes
    [(["etc".toList], ⟨.directory, 0o755, 0, 0, 3⟩),
      (["etc".toList, "hosts".toList], ⟨.regular [104, 10], 0o644, 0, 0, 1⟩),
      (["etc".toList, "keys".toList], ⟨.regular [0, 1], 0o600, 0, 0, 1⟩),
      (["srv".toList], ⟨.directory, 0o755, 0, 0, 3⟩)]

def copiedDir : Str := "/srv/COPIED".toList

def copiedRoot : Path := ["srv".toList, "COPIED".toList]

def trackedDirectory : AbsPath := ⟨["etc".toList], by decide⟩

def trackedFile : AbsPath := ⟨["etc".toList, "hosts".toList], by decide⟩

/-- The server with COPIED made. -/
def scanningServer : Fs :=
  (trackedServer.place copiedRoot ⟨.directory, 0o755, 0, 0, 2⟩).getD trackedServer

theorem freshDir_scanningServer : FreshDir scanningServer copiedDir copiedRoot := by
  have placed : trackedServer.place copiedRoot ⟨.directory, 0o755, 0, 0, 2⟩ = some scanningServer := by
    have isSome : (trackedServer.place copiedRoot ⟨.directory, 0o755, 0, 0, 2⟩).isSome = true := by
      decide
    obtain ⟨next, isNext⟩ := Option.isSome_iff_exists.mp isSome
    rw [scanningServer, isNext]
    rfl
  have missing : trackedServer.node copiedRoot = none := by decide
  have touches := Fs.touches_of_place placed fun _ isLink => by cases isLink
  refine ⟨⟨trackedServer, ⟨touches.cwd, fun path outside => touches.others path fun here =>
    outside (here ▸ List.prefix_rfl)⟩, missing, by decide⟩, by decide, fun name => ?_⟩
  rw [touches.others _ (by simp)]
  exact Fs.node_of_missing missing (List.prefix_append _ _)

end Scanner

end Myscm.Server
