import Myscm.Client.ContentArrival
import Myscm.Client.TemplateUpdates
import Myscm.Library.TreeWalks

/-!
Owns what `_movetree` makes of the file system: the tree of added files laid over the one that is
there.

Owns: the place of a file of the tree and the node it arrives with; which trees can be laid over a
file system; the state between two moves; that the walk goes to its end, and what it leaves.

Does not own: links and directories in the place of a directory of the tree, which the walk follows.
-/

namespace Myscm.Client

open Myscm.Library Myscm.Server SystemImageGenerator

namespace SysImgExtractor

/-- The file is a template. -/
def isTemplate (path : Path) : Bool :=
  Str.endsWith (path.getLastD []) templatePathExt

/-- The name without the ending of a template. -/
def bareName (name : Str) : Str :=
  name.take (name.length - templatePathExt.length)

/-- Where a file of the tree goes to. -/
def placeOf (path : Path) : Path :=
  if isTemplate path then path.dropLast ++ [bareName (path.getLastD [])] else path

/-- The node a file of the tree arrives with, where `old` is what was there: itself, or what the
template makes. -/
def arrival (env : ClientEnv) (path : Path) (node : Node) (old : Option Node) : Option Node :=
  if isTemplate path then
    (node.content?.bind (instantiation env.vars)).map fun bytes =>
      Fs.written (masked env.umask 0o666) bytes old
  else
    some node

section Trees

variable (env : ClientEnv) (start : Fs) (root : Path)

/-- The tree below `root` can be laid over the file system: its directories meet no file, its files
meet no directory, links neither meet a file nor are met, no two files have one place, and every
template makes a file. -/
structure Mergeable : Prop where
  apart : start.node (root ++ root) = none
  shallow : ∀ path, start.isDirAt (root ++ path) = true → path.length < pathMax
  dirs : ∀ path, start.isDirAt (root ++ path) = true → start.fileAt path = none
  files : ∀ path node, start.fileAt (root ++ path) = some node →
    start.isDirAt (placeOf path) = false
  links : ∀ path node old, start.fileAt (root ++ path) = some node →
    start.fileAt (placeOf path) = some old → node.isSymlink = false ∧ old.isSymlink = false
  templates : ∀ path node, start.fileAt (root ++ path) = some node → isTemplate path = true →
    IsName (bareName (path.getLastD [])) ∧ start.node (root ++ placeOf path) = none ∧
      (node.content?.bind (instantiation env.vars)).isSome = true ∧
        ∀ old, start.fileAt (placeOf path) = some old → old.isRegular = true

/-- What `Mergeable` asks of one path of the tree. -/
def MergesAt (path : Path) : Prop :=
  (start.isDirAt (root ++ path) = true → path.length < pathMax ∧ start.fileAt path = none) ∧
    ∀ node ∈ start.fileAt (root ++ path),
      start.isDirAt (placeOf path) = false ∧
        (∀ old ∈ start.fileAt (placeOf path), node.isSymlink = false ∧ old.isSymlink = false) ∧
        (isTemplate path = true →
          IsName (bareName (path.getLastD [])) ∧ start.node (root ++ placeOf path) = none ∧
            (node.content?.bind (instantiation env.vars)).isSome = true ∧
              ∀ old ∈ start.fileAt (placeOf path), old.isRegular = true)

instance (path : Path) : Decidable (MergesAt env start root path) :=
  inferInstanceAs (Decidable (_ ∧ _))

/-- The paths of the tree, among others. -/
def treePaths : List Path :=
  (start.support.filter root.isPrefixOf).map (List.drop root.length)

/-- The files of the tree are where they go to, the other files where they were, and none is in the
tree. -/
structure Merged (finish : Fs) : Prop where
  arrived : ∀ path node, start.fileAt (root ++ path) = some node →
    finish.node (placeOf path) = arrival env path node (start.node (placeOf path))
  others : ∀ path, ¬ root <+: path →
    (∀ source, (start.fileAt (root ++ source)).isSome = true → placeOf source ≠ path) →
      finish.fileAt path = start.fileAt path
  gone : ∀ path, finish.fileAt (root ++ path) = none

/-- The files `moved` of the tree are where they go to, and nothing else changed but that
directories of the tree may have been made. -/
structure Partway (moved : Set Path) (fs : Fs) : Prop where
  cwd : fs.cwd = start.cwd
  ofTree : ∀ path ∈ moved, (start.fileAt (root ++ path)).isSome = true
  gone : ∀ path ∈ moved, fs.node (root ++ path) = none
  waiting : ∀ path ∉ moved, fs.node (root ++ path) = start.node (root ++ path)
  arrived : ∀ path ∈ moved, ∀ node, start.fileAt (root ++ path) = some node →
    fs.node (placeOf path) = arrival env path node (start.node (placeOf path))
  others : ∀ path, ¬ root <+: path → (∀ source ∈ moved, placeOf source ≠ path) →
    fs.fileAt path = start.fileAt path
  dirs : ∀ path, start.isDirAt path = true → fs.isDirAt path = true
  onlyDirs : ∀ path, fs.isDirAt path = true →
    start.isDirAt path = true ∨ start.isDirAt (root ++ path) = true

end Trees

variable {env : ClientEnv} {start fs next : Fs} {root path : Path} {node : Node} {moved : Set Path}

/-! ## Whether a tree can be laid over -/

theorem mem_treePaths (present : (start.node (root ++ path)).isSome = true) :
    path ∈ treePaths start root :=
  List.mem_map.mpr ⟨root ++ path, List.mem_filter.mpr ⟨start.supported _ present,
    List.isPrefixOf_iff_prefix.mpr (List.prefix_append _ _)⟩, List.drop_left⟩

theorem Mergeable.mergesAt (mergeable : Mergeable env start root) (path : Path) :
    MergesAt env start root path :=
  ⟨fun isDir => ⟨mergeable.shallow path isDir, mergeable.dirs path isDir⟩, fun node file =>
    ⟨mergeable.files path node file, fun old there => mergeable.links path node old file there,
      mergeable.templates path node file⟩⟩

theorem mergeable_iff : Mergeable env start root ↔
    start.node (root ++ root) = none ∧ ∀ path ∈ treePaths start root, MergesAt env start root path := by
  constructor
  · exact fun mergeable => ⟨mergeable.apart, fun path _ => mergeable.mergesAt path⟩
  · rintro ⟨apart, each⟩
    have atDir {path : Path} (isDir : start.isDirAt (root ++ path) = true) :=
      (each path (mem_treePaths (Fs.isSome_of_isDirAt isDir))).1 isDir
    have atFile {path : Path} {node : Node} (file : start.fileAt (root ++ path) = some node) :=
      (each path (mem_treePaths (by rw [(Fs.fileAt_eq_some_iff.mp file).1]; rfl))).2 node file
    exact ⟨apart, fun path isDir => (atDir isDir).1, fun path isDir => (atDir isDir).2,
      fun path node file => (atFile file).1, fun path node old file there => (atFile file).2.1 old there,
      fun path node file => (atFile file).2.2⟩

instance : Decidable (Mergeable env start root) :=
  decidable_of_iff _ mergeable_iff.symm

/-! ## Places -/

theorem snoc_of_file (isDir : start.isDirAt root = true)
    (file : start.fileAt (root ++ path) = some node) :
    path = path.dropLast ++ [path.getLastD []] := by
  have more : path ≠ [] := by
    rintro rfl
    rw [List.append_nil, Fs.fileAt_of_isDirAt isDir] at file
    cases file
  rw [List.getLastD_eq_getLast?, List.getLast?_eq_some_getLast more]
  exact (List.dropLast_append_getLast more).symm

theorem bareName_append {name : Str} (template : Str.endsWith name templatePathExt = true) :
    bareName name ++ templatePathExt = name := by
  obtain ⟨front, rfl⟩ := List.isSuffixOf_iff_suffix.mp template
  simp [bareName]

theorem isDirectory_of_target {target : Str} (isTarget : node.target? = some target) :
    node.isDirectory = false := by
  cases isDir : node.isDirectory with
  | false => rfl
  | true =>
      rw [Node.target?_of_isDirectory isDir] at isTarget
      cases isTarget

theorem placeOf_plain (plain : isTemplate path = false) : placeOf path = path := by
  rw [placeOf, if_neg (by simp [plain])]

theorem placeOf_template (template : isTemplate path = true) :
    placeOf path = path.dropLast ++ [bareName (path.getLastD [])] :=
  if_pos template

namespace Mergeable

variable (mergeable : Mergeable env start root)
include mergeable

/-- Nothing of the tree has the path of the tree. -/
theorem missing {names : Path} (below : root <+: names) : start.node (root ++ names) = none :=
  Fs.node_of_missing mergeable.apart ((List.prefix_append_right_inj root).mpr below)

/-- No file goes to where a directory of the tree goes. -/
theorem placeOf_ne_dir (file : start.fileAt (root ++ path) = some node) {names : Path}
    (inTree : start.isDirAt (root ++ names) = true) : placeOf path ≠ names := by
  rintro rfl
  cases template : isTemplate path with
  | false =>
      rw [placeOf_plain template, Fs.isDirAt_of_fileAt file] at inTree
      cases inTree
  | true =>
      have present := Fs.isSome_of_isDirAt inTree
      rw [(mergeable.templates path node file template).2.1] at present
      cases present

/-- A link is no template. -/
theorem plain_of_target {target : Str} (file : start.fileAt (root ++ path) = some node)
    (isTarget : node.target? = some target) : isTemplate path = false := by
  cases template : isTemplate path with
  | false => rfl
  | true =>
      obtain ⟨new, made⟩ :=
        Option.isSome_iff_exists.mp (mergeable.templates path node file template).2.2.1
      obtain ⟨bytes, content, _⟩ := Option.bind_eq_some_iff.mp made
      have regular : node.isRegular = true := by rw [Node.isRegular, content]; rfl
      rw [Fs.target?_of_isRegular regular] at isTarget
      cases isTarget

variable (isDir : start.isDirAt root = true)
include isDir

/-- No file goes into the tree. -/
theorem outside (file : start.fileAt (root ++ path) = some node) : ¬ root <+: placeOf path := by
  intro below
  have present := (Fs.fileAt_eq_some_iff.mp file).1
  have away : ¬ root <+: path := fun inside => by
    rw [mergeable.missing inside] at present
    cases present
  cases template : isTemplate path with
  | false =>
      rw [placeOf_plain template] at below
      exact away below
  | true =>
      rw [placeOf_template template] at below
      rcases List.prefix_concat_iff.mp below with same | inside
      · have notDir := mergeable.files path node file
        rw [placeOf_template template, ← same, isDir] at notDir
        cases notDir
      · exact away (inside.trans (List.dropLast_prefix path))

theorem placeOf_ne (file : start.fileAt (root ++ path) = some node) (other : Path) :
    placeOf path ≠ root ++ other := fun same =>
  mergeable.outside isDir file (same ▸ List.prefix_append _ _)

/-- No two files go to one place. -/
theorem eq_of_placeOf {other : Path} {otherNode : Node}
    (file : start.fileAt (root ++ path) = some node)
    (otherFile : start.fileAt (root ++ other) = some otherNode) (same : placeOf path = placeOf other) :
    path = other := by
  have split := snoc_of_file isDir file
  have otherSplit := snoc_of_file isDir otherFile
  have present := (Fs.fileAt_eq_some_iff.mp file).1
  have otherPresent := (Fs.fileAt_eq_some_iff.mp otherFile).1
  cases template : isTemplate path with
  | false =>
      rw [placeOf_plain template] at same
      cases otherTemplate : isTemplate other with
      | false => rwa [placeOf_plain otherTemplate] at same
      | true =>
          have vacant := (mergeable.templates other otherNode otherFile otherTemplate).2.1
          rw [← same, present] at vacant
          cases vacant
  | true =>
      cases otherTemplate : isTemplate other with
      | false =>
          have vacant := (mergeable.templates path node file template).2.1
          rw [same, placeOf_plain otherTemplate, otherPresent] at vacant
          cases vacant
      | true =>
          rw [placeOf_template template, placeOf_template otherTemplate] at same
          obtain ⟨sameDir, sameName⟩ := List.append_inj' same rfl
          rw [split, otherSplit, sameDir, ← bareName_append template,
            ← bareName_append otherTemplate, List.cons.inj sameName |>.1]

end Mergeable

/-! ## Between two moves -/

namespace Partway

theorem begins : Partway env start root ∅ start where
  cwd := rfl
  ofTree _ member := absurd member (Set.notMem_empty _)
  gone _ member := absurd member (Set.notMem_empty _)
  waiting _ _ := rfl
  arrived _ member := absurd member (Set.notMem_empty _)
  others _ _ _ := rfl
  dirs _ isDir := isDir
  onlyDirs _ isDir := .inl isDir

variable (partway : Partway env start root moved fs)
include partway

variable (mergeable : Mergeable env start root)
include mergeable

/-- No directory is in the place of a file. -/
theorem notDir_placeOf (file : start.fileAt (root ++ path) = some node) :
    fs.isDirAt (placeOf path) = false := by
  cases isDirThere : fs.isDirAt (placeOf path) with
  | false => rfl
  | true =>
      rcases partway.onlyDirs _ isDirThere with wasDir | inTree
      · rw [mergeable.files path node file] at wasDir
        cases wasDir
      · exact absurd rfl (mergeable.placeOf_ne_dir file inTree)

/-- A directory of the tree is made. -/
theorem make {names : Path} (inTree : start.isDirAt (root ++ names) = true)
    (put : Fs.PutDir names fs next) (free : fs.fileAt names = none) :
    Partway env start root moved next ∧
      ∀ other, fs.isDirAt other = true → next.isDirAt other = true := by
  have away : ¬ root <+: names := fun inside => by
    have present := Fs.isSome_of_isDirAt inTree
    rw [mergeable.missing inside] at present
    cases present
  have inRoot (other : Path) : next.node (root ++ other) = fs.node (root ++ other) :=
    put.others fun same => away (same ▸ List.prefix_append _ _)
  have kept {other : Path} (isDirThere : fs.isDirAt other = true) : next.isDirAt other = true := by
    by_cases here : other = names
    · rw [here]
      exact put.isDirAt
    · rwa [Fs.isDirAt, put.others here]
  have fileKept (other : Path) : next.fileAt other = fs.fileAt other := by
    by_cases here : other = names
    · rw [here, free, Fs.fileAt_of_isDirAt put.isDirAt]
    · exact Fs.fileAt_congr (put.others here)
  refine ⟨⟨put.cwd.trans partway.cwd, partway.ofTree, ?_, ?_, ?_, ?_, ?_, ?_⟩, fun _ => kept⟩
  · intro other member
    rw [inRoot]
    exact partway.gone other member
  · intro other waits
    rw [inRoot]
    exact partway.waiting other waits
  · intro other member otherNode otherFile
    have differ := mergeable.placeOf_ne_dir otherFile inTree
    rw [put.others differ]
    exact partway.arrived other member otherNode otherFile
  · intro other outside untaken
    rw [fileKept]
    exact partway.others other outside untaken
  · exact fun other wasDir => kept (partway.dirs other wasDir)
  · intro other isDirNext
    by_cases here : other = names
    · exact .inr (here ▸ inTree)
    · rw [Fs.isDirAt, put.others here] at isDirNext
      exact partway.onlyDirs other isDirNext

/-- No file is in the place of a directory of the tree. -/
theorem fileAt_dir {names : Path} (inTree : start.isDirAt (root ++ names) = true) :
    fs.fileAt names = none := by
  have away : ¬ root <+: names := fun inside => by
    have present := Fs.isSome_of_isDirAt inTree
    rw [mergeable.missing inside] at present
    cases present
  rw [partway.others names away, mergeable.dirs names inTree]
  intro source member
  obtain ⟨node, file⟩ := Option.isSome_iff_exists.mp (partway.ofTree source member)
  exact mergeable.placeOf_ne_dir file inTree

theorem noLink_dir {names front : Path} (inTree : start.isDirAt (root ++ names) = true)
    (isFront : front <+: names) : fs.targetAt front = none := by
  have noFile := partway.fileAt_dir mergeable (Fs.isDirAt_of_isPrefix inTree isFront)
  rcases Fs.fileAt_eq_none_iff.mp noFile with missing | isDir
  · exact Fs.targetAt_of_none missing
  · exact Fs.targetAt_of_isDirAt isDir

/-- The tree keeps its directories, and no other is made in it. -/
theorem isDirAt_tree (names : Path) : fs.isDirAt (root ++ names) = start.isDirAt (root ++ names) := by
  rw [Bool.eq_iff_iff]
  constructor
  · intro isDirNow
    rcases partway.onlyDirs _ isDirNow with wasDir | inTree
    · exact wasDir
    · have present := Fs.isSome_of_isDirAt inTree
      rw [mergeable.missing (List.prefix_append _ _)] at present
      cases present
  · exact partway.dirs _

/-- The text of the tree leads to it. -/
theorem leads {src : Str} (lead : Fs.Leads start src root) : Fs.Leads fs src root := by
  refine lead.of_kept partway.cwd (fun names _ wasDir => partway.dirs names wasDir) ?_
  intro names target away link
  obtain ⟨node, found, isTarget⟩ := Option.bind_eq_some_iff.mp link
  have isLink : node.isSymlink = true := by rw [Node.isSymlink, isTarget]; rfl
  have isFile := isDirectory_of_target isTarget
  have there : start.fileAt names = some node := Fs.fileAt_eq_some_iff.mpr ⟨found, isFile⟩
  have same : fs.fileAt names = some node := by
    rw [partway.others names away, there]
    rintro source member rfl
    obtain ⟨other, file⟩ := Option.isSome_iff_exists.mp (partway.ofTree source member)
    have noLink := (mergeable.links source other node file there).2
    rw [isLink] at noLink
    cases noLink
  rw [Fs.targetAt, (Fs.fileAt_eq_some_iff.mp same).1]
  exact isTarget

variable (isDir : start.isDirAt root = true)
include isDir

/-- The place of a file that was not moved is as it was. -/
theorem node_placeOf (file : start.fileAt (root ++ path) = some node) (waits : path ∉ moved) :
    fs.node (placeOf path) = start.node (placeOf path) := by
  rw [Fs.node_of_fileAt (partway.notDir_placeOf mergeable file),
    Fs.node_of_fileAt (mergeable.files path node file)]
  apply partway.others _ (mergeable.outside isDir file)
  rintro source member same
  obtain ⟨other, otherFile⟩ := Option.isSome_iff_exists.mp (partway.ofTree source member)
  have isSource := mergeable.eq_of_placeOf isDir otherFile file same
  exact waits (isSource ▸ member)

/-- No link is in the place of a file. -/
theorem noLink_placeOf (file : start.fileAt (root ++ path) = some node) (waits : path ∉ moved) :
    fs.targetAt (placeOf path) = none := by
  rw [Fs.targetAt, partway.node_placeOf mergeable isDir file waits,
    Fs.node_of_fileAt (mergeable.files path node file)]
  cases there : start.fileAt (placeOf path) with
  | none => rfl
  | some old =>
      have noLink := (mergeable.links path node old file there).2
      simpa [Node.isSymlink] using noLink

/-- A link goes to a vacant place. -/
theorem vacant_of_target {target : Str} (file : start.fileAt (root ++ path) = some node)
    (isTarget : node.target? = some target) (waits : path ∉ moved) : fs.node path = none := by
  have isLink : node.isSymlink = true := by rw [Node.isSymlink, isTarget]; rfl
  have same := partway.node_placeOf mergeable isDir file waits
  rw [Fs.node_of_fileAt (mergeable.files path node file)] at same
  cases old : start.fileAt (placeOf path) with
  | none => rwa [old, placeOf_plain (mergeable.plain_of_target file isTarget)] at same
  | some linked =>
      rw [(mergeable.links path node linked file old).1] at isLink
      cases isLink

/-- One more file goes to its place. -/
theorem deliver {result : Node} (file : start.fileAt (root ++ path) = some node)
    (waits : path ∉ moved)
    (isArrival : arrival env path node (start.node (placeOf path)) = some result)
    (isFile : result.isDirectory = false) (cwd : next.cwd = fs.cwd)
    (effect : ∀ other, next.node other =
      if other = root ++ path then none
      else if other = placeOf path then some result
      else fs.node other) :
    Partway env start root (insert path moved) next ∧
      ∀ other, fs.isDirAt other = true → next.isDirAt other = true := by
  have apart := mergeable.placeOf_ne isDir file
  have gone : next.node (root ++ path) = none := by rw [effect, if_pos rfl]
  have placed : next.node (placeOf path) = some result := by
    rw [effect, if_neg (apart path), if_pos rfl]
  have inTree {other : Path} (differ : other ≠ path) :
      next.node (root ++ other) = fs.node (root ++ other) := by
    rw [effect, if_neg (by simpa using differ), if_neg (Ne.symm (apart other))]
  have elsewhere {other : Path} (away : ¬ root <+: other) (differ : placeOf path ≠ other) :
      next.node other = fs.node other := by
    have outTree : other ≠ root ++ path := fun same => away (same ▸ List.prefix_append _ _)
    rw [effect, if_neg outTree, if_neg (Ne.symm differ)]
  have notDir : fs.isDirAt (root ++ path) = false := by
    rw [Fs.isDirAt, partway.waiting path waits]
    exact Fs.isDirAt_of_fileAt file
  refine ⟨⟨cwd.trans partway.cwd, ?_, ?_, ?_, ?_, ?_, ?_, ?_⟩, ?_⟩
  · rintro other (rfl | member)
    · rw [file]
      rfl
    · exact partway.ofTree other member
  · rintro other (rfl | member)
    · exact gone
    · rw [inTree (fun same => waits (same ▸ member))]
      exact partway.gone other member
  · intro other waitsOther
    rw [inTree (fun same => waitsOther (.inl same))]
    exact partway.waiting other fun member => waitsOther (.inr member)
  · rintro other (rfl | member) otherNode otherFile
    · rw [file] at otherFile
      obtain rfl := Option.some.inj otherFile
      rw [placed, isArrival]
    · have differ : placeOf path ≠ placeOf other := fun same =>
        waits (mergeable.eq_of_placeOf isDir file otherFile same ▸ member)
      rw [elsewhere (mergeable.outside isDir otherFile) differ]
      exact partway.arrived other member otherNode otherFile
  · intro other away untaken
    rw [Fs.fileAt_congr (elsewhere away (untaken path (Set.mem_insert _ _)))]
    exact partway.others other away fun source member => untaken source (.inr member)
  · intro other wasDir
    rw [Fs.isDirAt, effect, if_neg, if_neg]
    · exact partway.dirs other wasDir
    · rintro rfl
      rw [mergeable.files path node file] at wasDir
      cases wasDir
    · rintro rfl
      rw [Fs.isDirAt_of_fileAt file] at wasDir
      cases wasDir
  · intro other isDirNext
    rw [Fs.isDirAt, effect] at isDirNext
    split at isDirNext
    · cases isDirNext
    · split at isDirNext
      · rw [holdsDirectory, Option.any_some, isFile] at isDirNext
        cases isDirNext
      · exact partway.onlyDirs other isDirNext
  · intro other isDirThere
    rw [Fs.isDirAt, effect, if_neg, if_neg]
    · exact isDirThere
    · rintro rfl
      rw [partway.notDir_placeOf mergeable file] at isDirThere
      cases isDirThere
    · rintro rfl
      rw [notDir] at isDirThere
      cases isDirThere

end Partway

/-! ## The directories of the tree -/

section Programs

variable {options : ClientOptions} {src : Str} {names : Path} (wet : options.dryRun = false)
  (mergeable : Mergeable env start root) (lead : Fs.Leads start src root)
  (isDir : start.isDirAt root = true)

theorem unlessDryRun_of_wet {program : Prog Fs ClientError Unit} (wet : options.dryRun = false) :
    unlessDryRun options program = program := by
  rw [unlessDryRun, wet]
  rfl

include mergeable in
/-- The directory of the target tree has the names of that of the source tree. -/
theorem dstDirOf_below (partway : Partway env start root moved fs)
    (inTree : start.isDirAt (root ++ names) = true) :
    dstDirOf src (Fs.textBelow src names) fs = Path.text names := by
  rw [dstDirOf, Fs.realpath_names (Fs.named_of_isDirAt inTree)]
  exact fun front isFront _ => partway.noLink_dir mergeable inTree isFront

include mergeable lead in
/-- A directory is made with the owner and the mode of the one in the tree. -/
theorem ends_createDstDir {front : Path} {last : Str} (partway : Partway env start root moved fs)
    (inTree : start.isDirAt (root ++ (front ++ [last])) = true) (above : fs.isDirAt front = true)
    (missing : fs.node (front ++ [last]) = none) :
    ∃ next, Prog.Ends (createDstDir env (Fs.textBelow src (front ++ [last]))
        (Path.text (front ++ [last]))) fs () next ∧
      Fs.PutDir (front ++ [last]) fs next := by
  have located {state : Fs} (there : state.isDirAt (front ++ [last]) = true) :
      state.locate true (Path.text (front ++ [last])) = some (front ++ [last]) :=
    Fs.locate_text (Fs.isSome_of_isDirAt there) (.inr (Fs.targetAt_of_isDirAt there))
  obtain ⟨made, endedMake, putMade⟩ := @Fs.putDir_of_makedirs fs _ ClientError.os
    (masked env.umask 0o777) true _ _ (Fs.named_of_isDirAt inTree) above missing
  have partwayMade := (partway.make mergeable inTree putMade
    (Fs.fileAt_eq_none_iff.mpr (.inl missing))).1
  have sourceDir := partwayMade.dirs _ inTree
  obtain ⟨fstat, found⟩ := Option.isSome_iff_exists.mp (Fs.isSome_of_isDirAt sourceDir)
  have stat : made.stat (Fs.textBelow src (front ++ [last])) = some fstat := by
    rw [Fs.stat, Fs.locate_dir (partwayMade.leads mergeable lead) sourceDir true,
      Option.bind_some, found]
  obtain ⟨owned, ownerSet, putOwned⟩ := @Fs.putDir_of_setOwner _ _ _ true fstat.uid fstat.gid
    (located putMade.isDirAt) putMade.isDirAt
  obtain ⟨next, modeSet, putNext⟩ := @Fs.putDir_of_setMode _ _ _ fstat.mode
    (located putOwned.isDirAt) putOwned.isDirAt
  refine ⟨next, ?_, (putMade.trans putOwned).trans putNext⟩
  rw [createDstDir]
  simp only [Prog.bind_eq, Prog.ends_andThen_iff, Prog.ends_tryReads_iff]
  exact ⟨(), made, endedMake, fstat, made, ⟨by rw [stat], rfl⟩, (), owned,
    (Fs.ends_sys_iff _ _ _ _).mpr ownerSet, (Fs.ends_sys_iff _ _ _ _).mpr modeSet⟩

include wet mergeable lead in
/-- A directory of the tree is made where it is missing. -/
theorem ends_ensureDstDir (partway : Partway env start root moved fs)
    (inTree : start.isDirAt (root ++ names) = true)
    (above : names = [] ∨ fs.isDirAt names.dropLast = true) :
    ∃ next, Prog.Ends (ensureDstDir env options (Fs.textBelow src names) (Path.text names)) fs ()
        next ∧
      Partway env start root moved next ∧ next.isDirAt names = true ∧
        ∀ other, fs.isDirAt other = true → next.isDirAt other = true := by
  have named := Fs.named_of_isDirAt inTree
  have noFile := partway.fileAt_dir mergeable inTree
  rw [ensureDstDir]
  simp only [Prog.bind_eq, Prog.ends_andThen_iff, Prog.ends_reads_iff]
  rcases Fs.fileAt_eq_none_iff.mp noFile with missing | there
  · have more : names ≠ [] := by
      rintro rfl
      have present := Fs.isSome_of_isDirAt fs.root
      rw [missing] at present
      cases present
    obtain ⟨front, last, rfl⟩ : ∃ front last, names = front ++ [last] :=
      ⟨_, _, (List.dropLast_append_getLast more).symm⟩
    rw [List.dropLast_concat] at above
    have aboveDir := above.resolve_left more
    have leadsOn : Fs.LeadsOn fs [] (front ++ [last]) :=
      Fs.leadsOn_snoc (fun name member => named name (List.mem_append_left _ member))
        (named last (by simp)) aboveDir (Fs.targetAt_of_none missing)
    have notThere : fs.pathExists (Path.text (front ++ [last])) = false := by
      rw [Fs.pathExists, Fs.stat, Fs.locate_text_of_leadsOn leadsOn, Option.bind_some, missing]
      rfl
    obtain ⟨next, ended, put⟩ := ends_createDstDir mergeable lead partway inTree aboveDir missing
    obtain ⟨partwayNext, kept⟩ := partway.make mergeable inTree put noFile
    refine ⟨next, ⟨_, fs, ⟨notThere, rfl⟩, ?_⟩, partwayNext, put.isDirAt, kept⟩
    rw [if_neg Bool.false_ne_true, unlessDryRun_of_wet wet]
    exact ended
  · have found : fs.pathExists (Path.text names) = true := by
      rw [Fs.pathExists, Fs.stat, Fs.locate_text (Fs.isSome_of_isDirAt there)
        (.inr (Fs.targetAt_of_isDirAt there)), Option.bind_some]
      exact Fs.isSome_of_isDirAt there
    refine ⟨fs, ⟨_, fs, ⟨found, rfl⟩, ?_⟩, partway, there, fun _ same => same⟩
    rw [if_pos rfl, Prog.ends_ret_iff]
    exact ⟨rfl, rfl⟩

/-! ## The entries of the tree -/

theorem barUpdate_ends {total count : Nat} (more : count + 1 ≤ total) :
    Prog.Ends (barUpdate total count) fs () fs := by
  rw [barUpdate, if_pos more, Prog.ends_ret_iff]
  exact ⟨rfl, rfl⟩

/-- Only the name tells whether a file of the tree is a template. -/
theorem endsWith_textBelow {name : Str} (lead : Fs.Leads fs src root)
    (isDirHere : fs.isDirAt (root ++ names) = true) (isName : IsName name) :
    Str.endsWith (Fs.textBelow src (names ++ [name])) templatePathExt =
      isTemplate (names ++ [name]) := by
  have named := Fs.named_of_isDirAt isDirHere
  have open_ : Str.Open (Fs.textBelow src names) := Str.open_behind lead.isOpen (Fs.open_names named)
  have nonempty : Fs.textBelow src names ≠ [] := Str.behind_ne_nil lead.ne_nil _
  rw [← Fs.joinPath_dir lead isDirHere isName,
    Str.joinPath_of_open open_ nonempty (isAbs_of_isName isName), Fs.endsWith_behind_slash (by decide),
    isTemplate, List.getLastD_concat]

/-- The files of the tree among the entries. -/
def filesAmong (start : Fs) (root : Path) (entries : Set Path) : Set Path :=
  {path | path ∈ entries ∧ (start.fileAt (root ++ path)).isSome = true}

/-- A turn goes to its end with the files among the entries moved. -/
def TurnEnds (env : ClientEnv) (start : Fs) (root : Path) (moved : Set Path) (entries : Set Path)
    (program : Prog Fs ClientError Unit) (fs : Fs) : Prop :=
  ∃ next, Prog.Ends program fs () next ∧
    Partway env start root (moved ∪ filesAmong start root entries) next ∧
      ∀ other, fs.isDirAt other = true → next.isDirAt other = true

theorem union_filesAmong_file (file : start.fileAt (root ++ path) = some node) :
    moved ∪ filesAmong start root {path} = insert path moved := by
  have only : filesAmong start root {path} = {path} := by
    ext other
    constructor
    · exact fun member => member.1
    · rintro rfl
      exact ⟨rfl, by rw [file]; rfl⟩
  rw [only, Set.union_singleton]

theorem union_filesAmong_dir (inTree : start.isDirAt (root ++ path) = true) :
    moved ∪ filesAmong start root {path} = moved := by
  have none : filesAmong start root {path} = ∅ := by
    rw [Set.eq_empty_iff_forall_notMem]
    rintro other ⟨rfl, isFile⟩
    rw [Fs.fileAt_of_isDirAt inTree] at isFile
    cases isFile
  rw [none, Set.union_empty]

/-- The file made of a template. -/
theorem ends_replacePlaceholders {vars : TemplateVars} (umask : Nat) {template output : Str}
    {bytes new : List UInt8} {target : Path} (read : fs.readFile template = some bytes)
    (instantiated : instantiation vars bytes = some new)
    (located : fs.locate true output = some target)
    (takes : ∀ old, fs.node target = some old → old.isRegular = true) :
    ∃ next, Prog.Ends (TemplateFile.replacePlaceholdersWithValues vars umask template output) fs ()
        next ∧
      Fs.SameShape fs next ∧
        ∀ other, next.node other =
          if other = target then some (Fs.written (masked umask 0o666) new (fs.node target))
          else fs.node other := by
  obtain ⟨text, decoded, rfl⟩ := Option.map_eq_some_iff.mp instantiated
  obtain ⟨opened, next, opens, writes, shape, effect⟩ := Fs.writes_to_place _ located takes
  refine ⟨next, ?_, shape, effect⟩
  rw [TemplateFile.replacePlaceholdersWithValues]
  simp only [Prog.bind_eq, Prog.ends_andThen_iff, Prog.ends_tryReads_iff]
  refine ⟨bytes, fs, ⟨by rw [read], rfl⟩, (), opened, (Fs.ends_sys_iff _ _ _ _).mpr opens, ?_⟩
  rw [decoded]
  exact (Fs.ends_sys_iff _ _ _ _).mpr writes

/-- The text of the path without the ending of a template. -/
theorem text_take {name : Str} (template : isTemplate (names ++ [name]) = true) :
    (Path.text (names ++ [name])).take
      ((Path.text (names ++ [name])).length - templatePathExt.length) =
        Path.text (names ++ [bareName name]) := by
  rw [isTemplate, List.getLastD_concat] at template
  have whole : Path.text (names ++ [name]) =
      Path.text (names ++ [bareName name]) ++ templatePathExt := by
    rw [Path.text_snoc, Path.text_snoc, List.append_assoc, List.cons_append,
      bareName_append template]
  rw [whole, List.length_append, Nat.add_sub_cancel, List.take_left]

section Entry

variable {name : Str} (partway : Partway env start root moved fs)
  (inTree : start.isDirAt (root ++ names) = true) (there : fs.isDirAt names = true)
  (waits : names ++ [name] ∉ moved)
include mergeable lead isDir partway inTree there waits

/-- A file that is no template is moved. -/
theorem turnEnds_move (file : start.fileAt (root ++ (names ++ [name])) = some node)
    (plain : isTemplate (names ++ [name]) = false) :
    TurnEnds env start root moved {names ++ [name]}
      (sys .os (Fs.move (Fs.textBelow src (names ++ [name])) (Path.text (names ++ [name])))) fs := by
  obtain ⟨present, isFile⟩ := Fs.fileAt_eq_some_iff.mp file
  have here : fs.node (root ++ (names ++ [name])) = some node := by
    rw [partway.waiting _ waits, present]
  have isSome : (fs.node (root ++ (names ++ [name]))).isSome = true := by rw [here]; rfl
  have isName : IsName name := Fs.isName_of_mem isSome (by simp)
  have place : placeOf (names ++ [name]) = names ++ [name] := placeOf_plain plain
  have noLink := partway.noLink_placeOf mergeable isDir file waits
  have free := partway.notDir_placeOf mergeable file
  have apart := mergeable.placeOf_ne isDir file (names ++ [name])
  rw [place] at noLink free apart
  have leadsOn : Fs.LeadsOn fs [] (names ++ [name]) :=
    Fs.leadsOn_snoc (Fs.named_of_isDirAt inTree) isName there noLink
  have located := Fs.locate_textBelow_of_present (partway.leads mergeable lead)
    (Fs.targetAt_of_isDirAt (partway.dirs _ isDir)) (by simp) isSome
  obtain ⟨next, moves, cwd, effect⟩ := Fs.moves_to_place located here isFile
    (Fs.locate_text_of_leadsOn leadsOn) free (Ne.symm apart)
  have isArrival : arrival env (names ++ [name]) node (start.node (placeOf (names ++ [name]))) =
      some node := if_neg (by simp [plain])
  obtain ⟨partwayNext, kept⟩ := partway.deliver mergeable isDir file waits isArrival isFile cwd
    (by rwa [place])
  refine ⟨next, (Fs.ends_sys_iff _ _ _ _).mpr moves, ?_, kept⟩
  rwa [union_filesAmong_file file]

/-- A file is made of a template, and the template is removed. -/
theorem turnEnds_template (file : start.fileAt (root ++ (names ++ [name])) = some node)
    (template : isTemplate (names ++ [name]) = true) :
    TurnEnds env start root moved {names ++ [name]}
      (do
        TemplateFile.replacePlaceholdersWithValues env.vars env.umask
          (Fs.textBelow src (names ++ [name]))
          ((Path.text (names ++ [name])).take
            ((Path.text (names ++ [name])).length - templatePathExt.length))
        sys .os (Fs.remove (Fs.textBelow src (names ++ [name]))))
      fs := by
  obtain ⟨present, isFile⟩ := Fs.fileAt_eq_some_iff.mp file
  have here : fs.node (root ++ (names ++ [name])) = some node := by
    rw [partway.waiting _ waits, present]
  have isSome : (fs.node (root ++ (names ++ [name]))).isSome = true := by rw [here]; rfl
  have place : placeOf (names ++ [name]) = names ++ [bareName name] := by
    rw [placeOf_template template, List.dropLast_concat, List.getLastD_concat]
  obtain ⟨isBare, _, makes, takes⟩ := mergeable.templates _ node file template
  have noLink := partway.noLink_placeOf mergeable isDir file waits
  have notDir := partway.notDir_placeOf mergeable file
  have old := partway.node_placeOf mergeable isDir file waits
  have oldFile := mergeable.files _ node file
  have apart := mergeable.placeOf_ne isDir file (names ++ [name])
  rw [List.getLastD_concat] at isBare
  rw [place] at noLink notDir old oldFile apart takes
  obtain ⟨new, made⟩ := Option.isSome_iff_exists.mp makes
  obtain ⟨bytes, content, instantiated⟩ := Option.bind_eq_some_iff.mp made
  have regular : node.isRegular = true := by rw [Node.isRegular, content]; rfl
  have named : Fs.NamesFile fs (Fs.textBelow src (names ++ [name])) (root ++ (names ++ [name])) node :=
    ⟨Fs.locate_textBelow_of_present (partway.leads mergeable lead)
      (Fs.targetAt_of_isDirAt (partway.dirs _ isDir)) (by simp) isSome, here, regular⟩
  have leadsOn : Fs.LeadsOn fs [] (names ++ [bareName name]) :=
    Fs.leadsOn_snoc (Fs.named_of_isDirAt inTree) isBare there noLink
  obtain ⟨middle, replaces, shape, effect⟩ := ends_replacePlaceholders env.umask
    (named.readFile.trans content) instantiated (Fs.locate_text_of_leadsOn leadsOn true)
    (by
      intro node found
      rw [old, Fs.node_of_fileAt oldFile] at found
      exact takes node found)
  have namedMiddle : Fs.NamesFile middle (Fs.textBelow src (names ++ [name]))
      (root ++ (names ++ [name])) node := by
    refine named.congr shape ?_ regular
    rw [effect, if_neg (Ne.symm apart), here]
  obtain ⟨next, removes⟩ := Option.isSome_iff_exists.mp ((Fs.remove_isSome_iff _ _).mpr
    ⟨node, namedMiddle.lstat, isFile⟩)
  obtain ⟨shapeNext, effectNext⟩ := Fs.removed_of_remove namedMiddle removes
  obtain ⟨partwayNext, kept⟩ := @Partway.deliver env start fs next root (names ++ [name]) node moved
    partway mergeable isDir
    (Fs.written (masked env.umask 0o666) new (start.node (names ++ [bareName name]))) file waits
    (by rw [arrival, if_pos template, made, place]; rfl) rfl
    (shapeNext.cwd.symm.trans shape.cwd.symm) (fun other => by rw [effectNext, effect, place, old])
  refine ⟨next, ?_, ?_, kept⟩
  · rw [Prog.bind_eq, Prog.ends_andThen_iff, text_take template]
    exact ⟨(), middle, replaces, (Fs.ends_sys_iff _ _ _ _).mpr removes⟩
  · rwa [union_filesAmong_file file]

include wet in
/-- A file of the tree goes to its place. -/
theorem turnEnds_moveAndReplaceTemplate
    (file : start.fileAt (root ++ (names ++ [name])) = some node) :
    TurnEnds env start root moved {names ++ [name]}
      (moveAndReplaceTemplate env options (Fs.textBelow src (names ++ [name]))
        (Path.text (names ++ [name]))) fs := by
  have isName : IsName name :=
    Fs.isName_of_mem (by rw [(Fs.fileAt_eq_some_iff.mp file).1]; rfl) (by simp)
  rw [moveAndReplaceTemplate, unlessDryRun_of_wet wet,
    endsWith_textBelow (partway.leads mergeable lead) (partway.dirs _ inTree) isName]
  split
  · rename_i template
    exact turnEnds_template mergeable lead isDir partway inTree there waits file template
  · rename_i plain
    exact turnEnds_move mergeable lead isDir partway inTree there waits file (by simpa using plain)

include wet in
/-- A link to a directory goes to its place. -/
theorem turnEnds_moveSymdir_of_target {target : Str}
    (file : start.fileAt (root ++ (names ++ [name])) = some node)
    (isTarget : node.target? = some target) :
    TurnEnds env start root moved {names ++ [name]}
      (moveSymdir options (Fs.textBelow src (names ++ [name])) (Path.text (names ++ [name]))) fs := by
  have found := (Fs.fileAt_eq_some_iff.mp file).1
  have isLink : node.isSymlink = true := by rw [Node.isSymlink, isTarget]; rfl
  have isName : IsName name := Fs.isName_of_mem (by rw [found]; rfl) (by simp)
  have vacant := partway.vacant_of_target mergeable isDir file isTarget waits
  have noneThere : ∀ follow, (fs.locate follow (Path.text (names ++ [name]))).bind fs.node = none := by
    intro follow
    have leadsOn : Fs.LeadsOn fs [] (names ++ [name]) :=
      Fs.leadsOn_snoc (Fs.named_of_isDirAt inTree) isName there (Fs.targetAt_of_none vacant)
    rw [Fs.locate_text_of_leadsOn leadsOn, Option.bind_some, vacant]
  obtain ⟨next, moves, partwayNext⟩ := turnEnds_move mergeable lead isDir partway inTree there waits
    file (mergeable.plain_of_target file isTarget)
  refine ⟨next, ?_, partwayNext⟩
  rw [moveSymdir]
  simp only [Prog.bind_eq, Prog.ends_andThen_iff, Prog.ends_reads_iff]
  refine ⟨true, fs, ⟨?_, rfl⟩, true, fs, ⟨?_, rfl⟩, ?_⟩
  · rw [Fs.islink, Fs.lstat_entry (partway.leads mergeable lead) (partway.dirs _ inTree) isName,
      partway.waiting _ waits, found]
    exact isLink
  · rw [Fs.islink, Fs.lstat, Fs.pathExists, Fs.stat, noneThere, noneThere]
    rfl
  · rw [Bool.and_self, if_pos rfl, unlessDryRun_of_wet wet]
    exact moves

include wet in
/-- A link to a directory goes to its place, a directory stays. -/
theorem turnEnds_moveSymdir
    (dirOrLink : start.isDirAt (root ++ (names ++ [name])) = true ∨
      ∃ target, start.targetAt (root ++ (names ++ [name])) = some target) :
    TurnEnds env start root moved {names ++ [name]}
      (moveSymdir options (Fs.textBelow src (names ++ [name])) (Path.text (names ++ [name]))) fs := by
  rcases dirOrLink with isDirBelow | ⟨target, link⟩
  · have isName : IsName name := Fs.isName_of_mem (Fs.isSome_of_isDirAt isDirBelow) (by simp)
    have noLink := Fs.islink_dir (partway.leads mergeable lead) (partway.dirs _ inTree) isName
      (partway.dirs _ isDirBelow)
    refine ⟨fs, ?_, ?_, fun _ same => same⟩
    · rw [moveSymdir]
      simp only [Prog.bind_eq, Prog.ends_andThen_iff, Prog.ends_reads_iff]
      refine ⟨_, fs, ⟨noLink, rfl⟩, _, fs, ⟨rfl, rfl⟩, ?_⟩
      rw [Bool.false_and, if_neg Bool.false_ne_true]
      exact (Prog.ends_ret_iff _ _ _ _).mpr ⟨rfl, rfl⟩
    · rwa [union_filesAmong_dir isDirBelow]
  · obtain ⟨node, found, isTarget⟩ := Option.bind_eq_some_iff.mp link
    have file : start.fileAt (root ++ (names ++ [name])) = some node :=
      Fs.fileAt_eq_some_iff.mpr ⟨found, isDirectory_of_target isTarget⟩
    exact turnEnds_moveSymdir_of_target wet mergeable lead isDir partway inTree there waits file
      isTarget

end Entry

/-! ## The loops over the entries of a directory -/

/-- The paths of the entries of a directory. -/
def entriesOf (names : Path) (entries : List Str) : Set Path :=
  {path | ∃ name ∈ entries, path = names ++ [name]}

theorem filesAmong_union (left right : Set Path) :
    filesAmong start root (left ∪ right) =
      filesAmong start root left ∪ filesAmong start root right := by
  ext path
  constructor
  · rintro ⟨inLeft | inRight, isFile⟩
    · exact .inl ⟨inLeft, isFile⟩
    · exact .inr ⟨inRight, isFile⟩
  · rintro (⟨inLeft, isFile⟩ | ⟨inRight, isFile⟩)
    · exact ⟨.inl inLeft, isFile⟩
    · exact ⟨.inr inRight, isFile⟩

theorem entriesOf_cons (name : Str) (rest : List Str) :
    entriesOf names (name :: rest) = {names ++ [name]} ∪ entriesOf names rest := by
  ext path
  simp [entriesOf]

theorem entriesOf_append (left right : List Str) :
    entriesOf names (left ++ right) = entriesOf names left ∪ entriesOf names right := by
  ext path
  simp [entriesOf, or_and_right, exists_or]

/-- A turn with the step of the progress bar behind it. -/
theorem ends_turn {total count : Nat} {entries : Set Path} {program : Prog Fs ClientError Unit}
    (ends : TurnEnds env start root moved entries program fs) (room : count + 1 ≤ total) :
    ∃ next, Prog.Ends
        (do
          program
          barUpdate total count
          return count + 1) fs (count + 1) next ∧
      Partway env start root (moved ∪ filesAmong start root entries) next ∧
        ∀ other, fs.isDirAt other = true → next.isDirAt other = true := by
  obtain ⟨next, ended, kept⟩ := ends
  refine ⟨next, ?_, kept⟩
  simp only [Prog.bind_eq, Prog.ends_andThen_iff, Prog.pure_eq, Prog.ends_ret_iff]
  exact ⟨(), next, ended, (), next, barUpdate_ends room, trivial, rfl⟩

/-- A loop over entries, every one of which is where it was. -/
theorem ends_entries {total : Nat} {entry : Nat → Str → Prog Fs ClientError Nat} {entries : List Str}
    (turns : ∀ name ∈ entries, ∀ moved fs count, Partway env start root moved fs →
      fs.isDirAt names = true → names ++ [name] ∉ moved → count + 1 ≤ total →
        ∃ next, Prog.Ends (entry count name) fs (count + 1) next ∧
          Partway env start root (moved ∪ filesAmong start root {names ++ [name]}) next ∧
            ∀ other, fs.isDirAt other = true → next.isDirAt other = true)
    (nodup : entries.Nodup) {count : Nat} (partway : Partway env start root moved fs)
    (there : fs.isDirAt names = true) (waits : ∀ name ∈ entries, names ++ [name] ∉ moved)
    (room : count + entries.length ≤ total) :
    ∃ next, Prog.Ends (Prog.foldOver entry count entries) fs (count + entries.length) next ∧
      Partway env start root (moved ∪ filesAmong start root (entriesOf names entries)) next ∧
        ∀ other, fs.isDirAt other = true → next.isDirAt other = true := by
  induction entries generalizing moved fs count with
  | nil =>
      have none : filesAmong start root (entriesOf names []) = ∅ := by
        simp [filesAmong, entriesOf]
      rw [none, Set.union_empty]
      exact ⟨fs, (Prog.ends_ret_iff _ _ _ _).mpr ⟨rfl, rfl⟩, partway, fun _ same => same⟩
  | cons name rest inductionHypothesis =>
      obtain ⟨fresh, nodupRest⟩ := List.nodup_cons.mp nodup
      rw [List.length_cons] at room
      obtain ⟨middle, ended, partwayMiddle, keptMiddle⟩ := turns name List.mem_cons_self moved fs count
        partway there (waits name List.mem_cons_self) (by omega)
      have waitsRest : ∀ other ∈ rest,
          names ++ [other] ∉ moved ∪ filesAmong start root {names ++ [name]} := by
        rintro other member (inMoved | ⟨same, _⟩)
        · exact waits other (List.mem_cons_of_mem _ member) inMoved
        · obtain rfl : other = name := by simpa using same
          exact fresh member
      have roomRest : count + 1 + rest.length ≤ total := by omega
      obtain ⟨next, endedRest, partwayNext, keptNext⟩ := inductionHypothesis
        (fun other member => turns other (List.mem_cons_of_mem _ member)) nodupRest partwayMiddle
        (keptMiddle _ there) waitsRest roomRest
      refine ⟨next, ?_, ?_, fun other same => keptNext other (keptMiddle other same)⟩
      · rw [Prog.foldOver, Prog.ends_andThen_iff, List.length_cons]
        refine ⟨count + 1, middle, ended, ?_⟩
        rwa [Nat.add_assoc, Nat.add_comm 1] at endedRest
      · rwa [entriesOf_cons, filesAmong_union, ← Set.union_assoc]

include wet mergeable lead isDir in
/-- The visit of a directory moves its files. -/
theorem ends_moveDirContent {total count : Nat} {dirs files : List Str}
    (partway : Partway env start root moved fs) (inTree : start.isDirAt (root ++ names) = true)
    (above : names = [] ∨ fs.isDirAt names.dropLast = true)
    (waits : ∀ name ∈ dirs ++ files, names ++ [name] ∉ moved)
    (scanned : Fs.Scanned start root names dirs files)
    (room : count + (dirs.length + files.length) ≤ total) :
    ∃ next, Prog.Ends
        (moveDirContent env options src total count (Fs.textBelow src names) dirs files)
        fs (count + (dirs.length + files.length)) next ∧
      Partway env start root
        (moved ∪ filesAmong start root (entriesOf names (dirs ++ files))) next ∧
      next.isDirAt names = true ∧ ∀ other, fs.isDirAt other = true → next.isDirAt other = true := by
  have named := Fs.named_of_isDirAt inTree
  obtain ⟨made, ensures, partwayMade, there, keptMade⟩ :=
    ends_ensureDstDir wet mergeable lead partway inTree above
  obtain ⟨nodupDirs, nodupFiles, apart⟩ := List.nodup_append.mp scanned.nodup
  have texts {state : Fs} {moved : Set Path} (partway : Partway env start root moved state)
      {name : Str} (isName : IsName name) :
      Str.joinPath (Fs.textBelow src names) name = Fs.textBelow src (names ++ [name]) ∧
        Str.joinPath (Path.text names) name = Path.text (names ++ [name]) :=
    ⟨Fs.joinPath_dir (partway.leads mergeable lead) (partway.dirs _ inTree) isName,
      Fs.joinPath_names named isName⟩
  obtain ⟨linked, links, partwayLinked, keptLinked⟩ := @ends_entries env start made root moved names
    total (moveDirEntry options total (Fs.textBelow src names) (Path.text names)) dirs (by
      intro name member moved fs count partway there waits room
      have inEntries := List.mem_append_left files member
      obtain ⟨srcText, dstText⟩ := texts partway (scanned.isName inEntries)
      have turn := ends_turn (turnEnds_moveSymdir wet mergeable lead isDir partway inTree there waits
        (scanned.dirOrLink name member)) room
      rwa [moveDirEntry, srcText, dstText]) nodupDirs count partwayMade there
    (fun name member => waits name (List.mem_append_left _ member)) (by omega)
  obtain ⟨next, moves, partwayNext, keptNext⟩ := @ends_entries env start linked root
    (moved ∪ filesAmong start root (entriesOf names dirs)) names total
    (moveFileEntry env options total (Fs.textBelow src names) (Path.text names)) files (by
      intro name member moved fs count partway there waits room
      have inEntries := List.mem_append_right dirs member
      obtain ⟨srcText, dstText⟩ := texts partway (scanned.isName inEntries)
      obtain ⟨node, found⟩ := Option.isSome_iff_exists.mp ((scanned.mem_iff name).mp inEntries)
      have notDir := scanned.notDir name member
      rw [Fs.isDirAt_of_node found] at notDir
      have turn := ends_turn (turnEnds_moveAndReplaceTemplate wet mergeable lead isDir partway inTree
        there waits (Fs.fileAt_eq_some_iff.mpr ⟨found, notDir⟩)) room
      rwa [moveFileEntry, srcText, dstText]) nodupFiles (count + dirs.length) partwayLinked
    (keptLinked _ there) (by
      rintro name member (inMoved | ⟨⟨other, inDirs, same⟩, _⟩)
      · exact waits name (List.mem_append_right _ member) inMoved
      · obtain rfl : name = other := by simpa using same
        exact apart name inDirs name member rfl) (by omega)
  refine ⟨next, ?_, ?_, keptNext _ (keptLinked _ there), fun other same =>
    keptNext other (keptLinked other (keptMade other same))⟩
  · rw [moveDirContent]
    simp only [Prog.bind_eq, Prog.ends_andThen_iff, Prog.ends_reads_iff]
    rw [← Nat.add_assoc]
    exact ⟨_, fs, ⟨dstDirOf_below mergeable partway inTree, rfl⟩, (), made, ensures, _, linked, links,
      moves⟩
  · rwa [entriesOf_append, filesAmong_union, ← Set.union_assoc]

/-! ## The walk -/

/-- The paths below the directories among the entries that are still to be walked. -/
def toWalk (start : Fs) (root names : Path) (entries : List Str) : Set Path :=
  {path | ∃ name ∈ entries, start.isDirAt (root ++ (names ++ [name])) = true ∧
    names ++ [name] <+: path}

theorem eq_of_snoc_isPrefix {name other : Str} (isFront : names ++ [name] <+: path)
    (otherFront : names ++ [other] <+: path) : name = other := by
  have same := (List.prefix_of_prefix_length_le isFront otherFront (by simp)).eq_of_length (by simp)
  simpa using same

/-- Behind the visit of a directory, the files below its directories are still in the tree. -/
theorem moved_of_visit {dirs files : List Str} (inTree : start.isDirAt (root ++ names) = true)
    (scanned : Fs.Scanned start root names dirs files) (fresh : ∀ path ∈ moved, ¬ names <+: path) :
    moved ∪ filesAmong start root (entriesOf names (dirs ++ files)) =
      (moved ∪ filesAmong start root {path | names <+: path}) \ toWalk start root names dirs := by
  ext path
  constructor
  · rintro (inMoved | ⟨⟨name, member, rfl⟩, isFile⟩)
    · refine ⟨.inl inMoved, ?_⟩
      rintro ⟨name, _, _, below⟩
      exact fresh path inMoved ((List.prefix_append _ _).trans below)
    · refine ⟨.inr ⟨List.prefix_append _ _, isFile⟩, ?_⟩
      rintro ⟨other, _, isDirBelow, below⟩
      obtain rfl := eq_of_snoc_isPrefix below List.prefix_rfl
      rw [Fs.fileAt_of_isDirAt isDirBelow] at isFile
      cases isFile
  · rintro ⟨inMoved | ⟨⟨rest, rfl⟩, isFile⟩, notToWalk⟩
    · exact .inl inMoved
    · right
      obtain ⟨node, file⟩ := Option.isSome_iff_exists.mp isFile
      obtain ⟨found, notDir⟩ := Fs.fileAt_eq_some_iff.mp file
      cases rest with
      | nil =>
          rw [List.append_nil, Fs.fileAt_of_isDirAt inTree] at file
          cases file
      | cons name later =>
          have split : root ++ (names ++ name :: later) = root ++ (names ++ [name]) ++ later := by simp
          by_cases last : later = []
          · subst last
            exact ⟨⟨name, (scanned.mem_iff name).mpr (by rw [found]; rfl), rfl⟩, isFile⟩
          · have isDirBelow : start.isDirAt (root ++ (names ++ [name])) = true :=
              Fs.isDirAt_of_extends (by rw [← split, found]; rfl) last
            have member := (scanned.mem_iff name).mpr (Fs.isSome_of_isDirAt isDirBelow)
            rcases List.mem_append.mp member with inDirs | inFiles
            · exact absurd ⟨name, inDirs, isDirBelow, by simp⟩ notToWalk
            · rw [scanned.notDir name inFiles] at isDirBelow
              cases isDirBelow

/-- Behind the walk of one directory, the files below the others are still in the tree. -/
theorem moved_of_walk {name : Str} {rest : List Str} (nodup : (name :: rest).Nodup)
    (fresh : ∀ path ∈ moved, ¬ names <+: path)
    (isDirBelow : start.isDirAt (root ++ (names ++ [name])) = true) :
    ((moved ∪ filesAmong start root {path | names <+: path}) \
        toWalk start root names (name :: rest)) ∪
      filesAmong start root {path | names ++ [name] <+: path} =
        (moved ∪ filesAmong start root {path | names <+: path}) \ toWalk start root names rest := by
  have notInRest := (List.nodup_cons.mp nodup).1
  ext path
  constructor
  · rintro (⟨inAll, notToWalk⟩ | ⟨below, isFile⟩)
    · refine ⟨inAll, ?_⟩
      rintro ⟨other, member, otherDir, otherBelow⟩
      exact notToWalk ⟨other, List.mem_cons_of_mem _ member, otherDir, otherBelow⟩
    · refine ⟨.inr ⟨(List.prefix_append _ _).trans below, isFile⟩, ?_⟩
      rintro ⟨other, member, _, otherBelow⟩
      exact notInRest (eq_of_snoc_isPrefix below otherBelow ▸ member)
  · rintro ⟨inAll, notToWalk⟩
    by_cases below : names ++ [name] <+: path
    · right
      rcases inAll with inMoved | ⟨_, isFile⟩
      · exact absurd ((List.prefix_append _ _).trans below) (fresh path inMoved)
      · exact ⟨below, isFile⟩
    · left
      refine ⟨inAll, ?_⟩
      rintro ⟨other, member, otherDir, otherBelow⟩
      rcases List.mem_cons.mp member with rfl | inRest
      · exact below otherBelow
      · exact notToWalk ⟨other, inRest, otherDir, otherBelow⟩

/-- What is no directory is passed over by the walk. -/
theorem toWalk_of_not_dir {name : Str} {rest : List Str}
    (notDir : start.isDirAt (root ++ (names ++ [name])) = false) :
    toWalk start root names (name :: rest) = toWalk start root names rest := by
  ext path
  constructor
  · rintro ⟨other, member, otherDir, below⟩
    rcases List.mem_cons.mp member with rfl | inRest
    · rw [notDir] at otherDir
      cases otherDir
    · exact ⟨other, inRest, otherDir, below⟩
  · rintro ⟨other, member, otherDir, below⟩
    exact ⟨other, List.mem_cons_of_mem _ member, otherDir, below⟩

/-- A walk from the directory moves the files below it, from wherever the files of `moved` were
moved and none of them is below it. -/
def WalkMoves (env : ClientEnv) (options : ClientOptions) (src : Str) (start : Fs) (root : Path)
    (total levels : Nat) (names : Path) : Prop :=
  ∀ {moved : Set Path} {fs : Fs} {count : Nat}, Partway env start root moved fs →
    (names = [] ∨ fs.isDirAt names.dropLast = true) → (∀ path ∈ moved, ¬ names <+: path) →
      count + start.entriesBelow levels (root ++ names) ≤ total →
        ∃ next, Prog.Ends
            (osWalk (moveDirContent env options src total) levels count (Fs.textBelow src names))
            fs (count + start.entriesBelow levels (root ++ names)) next ∧
          Partway env start root (moved ∪ filesAmong start root {path | names <+: path}) next ∧
            ∀ other, fs.isDirAt other = true → next.isDirAt other = true

/-- In the loop over the directories of a visited directory: the files below those that are still to
be walked are in the tree, and `goal` will have been counted. -/
structure Walking (env : ClientEnv) (start : Fs) (root names : Path) (moved : Set Path)
    (dirs : List Str) (visited : Fs) (levels goal : Nat) (rest : List Str) (acc : Nat) (state : Fs) :
    Prop where
  sum : acc + (rest.map fun name => start.entriesIn levels (root ++ (names ++ [name]))).sum = goal
  inDirs : rest ⊆ dirs
  nodup : rest.Nodup
  partway : Partway env start root
    ((moved ∪ filesAmong start root {path | names <+: path}) \ toWalk start root names rest) state
  kept : ∀ other, visited.isDirAt other = true → state.isDirAt other = true

include mergeable lead in
/-- The walk of one of the directories. -/
theorem Walking.turn {dirs files rest : List Str} {visited state : Fs} {total levels goal acc : Nat}
    {name : Str} (inTree : start.isDirAt (root ++ names) = true)
    (scanned : Fs.Scanned start root names dirs files) (fresh : ∀ path ∈ moved, ¬ names <+: path)
    (there : visited.isDirAt names = true) (within : goal ≤ total)
    (moves : start.isDirAt (root ++ (names ++ [name])) = true →
      WalkMoves env options src start root total levels (names ++ [name]))
    (walking : Walking env start root names moved dirs visited levels goal (name :: rest) acc state) :
    ∃ next finish, Prog.Ends
        (Fs.walkEntry (moveDirContent env options src total) levels (Fs.textBelow src names) acc name)
        state next finish ∧
      Walking env start root names moved dirs visited levels goal rest next finish := by
  obtain ⟨sum, inDirs, nodup, partway, kept⟩ := walking
  have isName := scanned.isName (List.mem_append_left files (inDirs List.mem_cons_self))
  have leads := partway.leads mergeable lead
  have inTreeNow := partway.dirs _ inTree
  have inRest : rest ⊆ dirs := fun other later => inDirs (List.mem_cons_of_mem _ later)
  have nodupRest := (List.nodup_cons.mp nodup).2
  rw [List.map_cons, List.sum_cons] at sum
  cases isDirBelow : start.isDirAt (root ++ (names ++ [name])) with
  | false =>
      have notDir := (partway.isDirAt_tree mergeable (names ++ [name])).trans isDirBelow
      rw [Fs.entriesIn, isDirBelow, if_neg Bool.false_ne_true, Nat.zero_add] at sum
      rw [toWalk_of_not_dir isDirBelow] at partway
      exact ⟨acc, state, Fs.ends_walkEntry_of_not_dir leads inTreeNow isName levels acc notDir,
        sum, inRest, nodupRest, partway, kept⟩
  | true =>
      rw [Fs.entriesIn, if_pos isDirBelow] at sum
      have above : names ++ [name] = [] ∨ state.isDirAt (names ++ [name]).dropLast = true := by
        rw [List.dropLast_concat]
        exact .inr (kept _ there)
      have freshBelow : ∀ path ∈ (moved ∪ filesAmong start root {path | names <+: path}) \
          toWalk start root names (name :: rest), ¬ names ++ [name] <+: path :=
        fun path inAll below => inAll.2 ⟨name, List.mem_cons_self, isDirBelow, below⟩
      obtain ⟨next, walks, partwayNext, keptNext⟩ := moves isDirBelow partway above freshBelow
        (show acc + start.entriesBelow levels (root ++ (names ++ [name])) ≤ total by omega)
      rw [moved_of_walk nodup fresh isDirBelow] at partwayNext
      rw [← Nat.add_assoc] at sum
      exact ⟨_, next,
        Fs.ends_walkEntry_of_dir leads inTreeNow isName (partway.dirs _ isDirBelow) walks,
        sum, inRest, nodupRest, partwayNext, fun other same => keptNext other (kept other same)⟩

include wet mergeable lead isDir in
/-- The walk of a directory of the tree moves the files below it. -/
theorem walkMoves {total : Nat} (levels : Nat) (deep : levels + names.length = pathMax)
    (inTree : start.isDirAt (root ++ names) = true) :
    WalkMoves env options src start root total levels names := by
  induction levels generalizing names with
  | zero =>
      have shallow := mergeable.shallow names inTree
      omega
  | succ levels inductionHypothesis =>
      intro moved fs count partway above fresh room
      have waits (name : Str) : names ++ [name] ∉ moved := fun member =>
        fresh _ member (List.prefix_append _ _)
      obtain ⟨dirs, files, listed, scannedNow⟩ :=
        Fs.exists_scanned (partway.leads mergeable lead) (partway.dirs _ inTree)
      have scanned : Fs.Scanned start root names dirs files :=
        scannedNow.congr fun name => partway.waiting _ (waits name)
      rw [Fs.entriesBelow_of_scanned levels scanned] at room ⊢
      obtain ⟨visited, visits, partwayVisited, there, keptVisited⟩ :=
        ends_moveDirContent wet mergeable lead isDir partway inTree above (fun name _ => waits name)
          scanned (show count + (dirs.length + files.length) ≤ total by omega)
      rw [moved_of_visit inTree scanned fresh] at partwayVisited
      have deepBelow (name : Str) : levels + (names ++ [name]).length = pathMax := by
        rw [List.length_append, List.length_singleton]
        omega
      obtain ⟨last, next, walks, ⟨sum, _, _, partwayNext, keptNext⟩⟩ :=
        @Prog.exists_ends_foldOver Fs ClientError Nat Str
          (Fs.walkEntry (moveDirContent env options src total) levels (Fs.textBelow src names))
          (Walking env start root names moved dirs visited levels _)
          (fun name _ _ _ => Walking.turn mergeable lead inTree scanned fresh there room
            (inductionHypothesis (deepBelow name)))
          dirs (count + (dirs.length + files.length)) visited
          ⟨Nat.add_assoc _ _ _, List.Subset.refl _, (List.nodup_append.mp scanned.nodup).1,
            partwayVisited, fun _ same => same⟩
      rw [List.map_nil, List.sum_nil, Nat.add_zero] at sum
      refine ⟨next, ?_, ?_, fun other same => keptNext other (keptVisited other same)⟩
      · rw [Fs.osWalk_succ, Prog.ends_andThen_iff, ← sum]
        refine ⟨_, fs, (Prog.ends_reads_iff _ _ _ _).mpr ⟨listed, rfl⟩, ?_⟩
        exact (Prog.ends_andThen_iff _ _ _ _ _).mpr ⟨_, visited, visits, walks⟩
      · have none : toWalk start root names [] = ∅ := by simp [toWalk]
        rwa [none, Set.sdiff_empty] at partwayNext

/-! ## The whole of it -/

/-- What goes to a place is a file. -/
theorem exists_arrival (mergeable : Mergeable env start root)
    (file : start.fileAt (root ++ path) = some node) (old : Option Node) :
    ∃ result, arrival env path node old = some result ∧ result.isDirectory = false := by
  cases template : isTemplate path with
  | false => exact ⟨node, if_neg (by simp [template]), (Fs.fileAt_eq_some_iff.mp file).2⟩
  | true =>
      obtain ⟨new, made⟩ := Option.isSome_iff_exists.mp
        (mergeable.templates path node file template).2.2.1
      exact ⟨Fs.written (masked env.umask 0o666) new old,
        by rw [arrival, if_pos template, made, Option.map_some], rfl⟩

/-- Behind the last move, and behind any removal of directories. -/
theorem merged_of_partway (mergeable : Mergeable env start root)
    (partway : Partway env start root (filesAmong start root Set.univ) fs)
    (sameFiles : ∀ path, next.fileAt path = fs.fileAt path) : Merged env start root next where
  arrived path node file := by
    have here := partway.arrived path ⟨Set.mem_univ _, by rw [file]; rfl⟩ node file
    obtain ⟨result, isArrival, isFile⟩ :=
      exists_arrival mergeable file (start.node (placeOf path))
    rw [isArrival] at here ⊢
    have found : next.fileAt (placeOf path) = some result := by
      rw [sameFiles]
      exact Fs.fileAt_eq_some_iff.mpr ⟨here, isFile⟩
    exact (Fs.fileAt_eq_some_iff.mp found).1
  others path away untaken := by
    rw [sameFiles]
    exact partway.others path away fun source member => untaken source member.2
  gone path := by
    rw [sameFiles]
    cases file : start.fileAt (root ++ path) with
    | none =>
        have waits : path ∉ filesAmong start root Set.univ := by
          rintro ⟨_, isFile⟩
          rw [file] at isFile
          cases isFile
        rw [Fs.fileAt_congr (partway.waiting path waits), file]
    | some node =>
        have gone := partway.gone path ⟨Set.mem_univ _, by rw [file]; rfl⟩
        exact Fs.fileAt_eq_none_iff.mpr (.inl gone)

include wet in
/-- The removal of empty directories ends, and leaves the files. -/
theorem ends_removeEmptyDirs (src : Str) :
    ∃ next, Prog.Ends (removeEmptyDirs options src) fs () next ∧
      ∀ path, next.fileAt path = fs.fileAt path := by
  rw [removeEmptyDirs, unlessDryRun_of_wet wet]
  have completes : Prog.Completes
      (osWalkUp (fun path => Prog.handle (removedirs ClientError.os path) fun _ => Prog.ret ())
        pathMax src) fs := by
    refine Fs.completes_osWalkUp (fun top state => ?_) pathMax src fs
    rw [Prog.completes_handle_iff]
    exact fun _ _ => Prog.completes_ret _ _
  obtain ⟨_, next, ends⟩ := completes
  refine ⟨next, ends, ?_⟩
  have always := @Fs.always_osWalkUp_removedirs ClientError .os
    (fun state => ∀ path, state.fileAt path = fs.fileAt path)
    (fun _ _ _ same removed path => (Fs.fileAt_of_rmdir removed path).trans (same path)) pathMax src
  exact always.ends (fun _ => rfl) ends

end Programs

/-! ## A tree over a client -/

/-- A client with an extracted image that adds a directory with a file, a link to it, and a template
of a file that is there. -/
def addingClient : Fs :=
  Fs.ofNodes
    [(["x".toList], ⟨.directory, 0o755, 0, 0, 2⟩),
      (["x".toList, "ADDED".toList], ⟨.directory, 0o700, 0, 0, 2⟩),
      (["x".toList, "ADDED".toList, "d".toList], ⟨.directory, 0o750, 7, 7, 2⟩),
      (["x".toList, "ADDED".toList, "d".toList, "f".toList], ⟨.regular [1, 2], 0o640, 7, 8, 1⟩),
      (["x".toList, "ADDED".toList, "l".toList], ⟨.symlink "d".toList, 0o777, 0, 0, 1⟩),
      (["x".toList, "ADDED".toList, "t.myscm-template".toList],
        ⟨.regular (Utf8.encode ['n']), 0o600, 0, 0, 1⟩),
      (["t".toList], ⟨.regular [9], 0o644, 3, 3, 1⟩)]

end SysImgExtractor

end Myscm.Client
