import Myscm.Library.AbsPaths
import Myscm.Library.EmptyDirs
import Myscm.Library.FileEffects

/-!
Owns what stands at a path where no directory does, and how it gets there.

Owns: files by their paths; texts that lead on to a directory while files come and go elsewhere;
texts of paths whose last name may be vacant; a file moved or written to a place.

Does not own: which files are moved, and in which order.
-/

namespace Myscm.Library

namespace Fs

/-- The node at a path, if it is no directory. -/
def fileAt (fs : Fs) (path : Path) : Option Node :=
  (fs.node path).filter fun node => !node.isDirectory

variable {fs next : Fs} {s : Str} {path root : Path} {node : Node}

theorem fileAt_eq_some_iff :
    fs.fileAt path = some node ↔ fs.node path = some node ∧ node.isDirectory = false := by
  simp [fileAt, Option.filter_eq_some_iff]

theorem fileAt_eq_none_iff :
    fs.fileAt path = none ↔ fs.node path = none ∨ fs.isDirAt path = true := by
  rw [fileAt, isDirAt, holdsDirectory]
  cases fs.node path with
  | none => simp
  | some node => simp

theorem fileAt_of_isDirAt (isDir : fs.isDirAt path = true) : fs.fileAt path = none :=
  fileAt_eq_none_iff.mpr (.inr isDir)

theorem isDirAt_of_fileAt (file : fs.fileAt path = some node) : fs.isDirAt path = false := by
  obtain ⟨found, notDir⟩ := fileAt_eq_some_iff.mp file
  exact (isDirAt_of_node found).trans notDir

/-- A path holds a file, a directory or nothing. -/
theorem node_of_fileAt (notDir : fs.isDirAt path = false) : fs.node path = fs.fileAt path := by
  rw [fileAt]
  cases found : fs.node path with
  | none => rfl
  | some node =>
      rw [isDirAt_of_node found] at notDir
      rw [Option.filter_some, notDir]
      rfl

theorem fileAt_congr (same : next.node path = fs.node path) : next.fileAt path = fs.fileAt path := by
  rw [fileAt, fileAt, same]

/-- `os.rmdir` leaves the files. -/
theorem fileAt_of_rmdir (removed : fs.rmdir s = some next) (path : Path) :
    next.fileAt path = fs.fileAt path := by
  obtain ⟨place, _, removed⟩ := Option.bind_eq_some_iff.mp removed
  split at removed
  · rename_i isDir
    by_cases here : path = place
    · subst here
      have gone : next.node path = none := by rw [node_of_eraseAt removed, if_pos rfl]
      rw [fileAt_of_isDirAt isDir, fileAt_eq_none_iff.mpr (.inl gone)]
    · apply fileAt_congr
      rw [node_of_eraseAt removed, if_neg here]
  · cases removed

/-! ## Texts that lead on -/

/-- A file system without what stands at `root` and below. -/
def pruned (fs : Fs) (root : Path) (proper : root ≠ []) : Fs where
  node path := if root <+: path then none else fs.node path
  support := fs.support
  cwd := fs.cwd
  order := fs.order
  supported path present := by
    by_cases below : root <+: path
    · simp [below] at present
    · rw [if_neg below] at present
      exact fs.supported _ present
  root := by
    rw [if_neg (proper <| List.prefix_nil.mp ·)]
    exact fs.root
  grounded path name present := by
    by_cases below : root <+: path ++ [name]
    · simp [below] at present
    · have above : ¬ root <+: path := fun higher => below (higher.trans (List.prefix_append _ _))
      rw [if_neg below] at present
      rw [if_neg above]
      exact fs.grounded path name present
  order_perm := fs.order_perm

theorem sameOutside_pruned (proper : root ≠ []) : SameOutside root (fs.pruned root proper) fs where
  cwd := rfl
  node _ outside := (if_neg outside).symm

/-- A walk to a place that is vacant goes the same way where its directories and links are kept. -/
theorem walks_of_kept {base : Fs} {follow : Bool} {links : Nat} {current finish : Path}
    {pieces : List Str} (dirs : ∀ path, base.isDirAt path = true → fs.isDirAt path = true)
    (kept : ∀ path target, base.targetAt path = some target → fs.targetAt path = some target)
    (vacant : base.node finish = none) (free : fs.targetAt finish = none)
    (walks : Walks base follow links current pieces finish) :
    Walks fs follow links current pieces finish := by
  induction walks with
  | nil => exact .nil
  | idle isDir idle _ inductionHypothesis =>
      exact .idle (dirs _ isDir) idle (inductionHypothesis vacant free)
  | up isDir up _ inductionHypothesis =>
      exact .up (dirs _ isDir) up (inductionHypothesis vacant free)
  | @name links current finish piece rest isDir named notUp noLink later inductionHypothesis =>
      have noLinkHere : fs.targetAt (current ++ [piece]) = none := by
        cases later with
        | nil => exact free
        | idle isDir _ _ => exact targetAt_of_isDirAt (dirs _ isDir)
        | up isDir _ _ => exact targetAt_of_isDirAt (dirs _ isDir)
        | name isDir _ _ _ _ => exact targetAt_of_isDirAt (dirs _ isDir)
        | last isDir _ _ _ _ => exact targetAt_of_isDirAt (dirs _ isDir)
        | link isDir _ _ _ _ _ => exact targetAt_of_isDirAt (dirs _ isDir)
      exact .name (dirs _ isDir) named notUp noLinkHere (inductionHypothesis vacant free)
  | last _ _ _ link _ =>
      rw [targetAt_of_none vacant] at link
      cases link
  | link isDir named notUp link followed _ inductionHypothesis =>
      exact .link (dirs _ isDir) named notUp (kept _ _ link) followed
        (inductionHypothesis vacant free)

/-- A text leads on to `root` where the directories and the links outside of it are kept. -/
theorem Leads.of_kept (lead : Leads fs s root) (cwd : next.cwd = fs.cwd)
    (dirs : ∀ path, ¬ root <+: path → fs.isDirAt path = true → next.isDirAt path = true)
    (kept : ∀ path target, ¬ root <+: path → fs.targetAt path = some target →
      next.targetAt path = some target) : Leads next s root := by
  have proper : root ≠ [] := lead.root_ne_nil
  obtain ⟨base, same, missing, walked⟩ := lead
  have outside {path : Path} (present : (base.node path).isSome = true) : ¬ root <+: path := by
    intro below
    rw [node_of_missing missing below] at present
    cases present
  have prunedNode {path : Path} (away : ¬ root <+: path) :
      (next.pruned root proper).node path = next.node path := if_neg away
  have gone : (next.pruned root proper).node root = none := if_pos List.prefix_rfl
  have walksNext : Walks (next.pruned root proper) false maxSymlinks (fs.textStart s)
      (s.splitOn '/') root := by
    refine walks_of_kept (fun path isDir => ?_) (fun path target link => ?_) missing
      (targetAt_of_none gone) (walks_of_walk walked)
    · have away := outside (isSome_of_isDirAt isDir)
      rw [isDirAt, prunedNode away]
      apply dirs path away
      rwa [isDirAt, same.node path away]
    · obtain ⟨node, found, _⟩ := Option.bind_eq_some_iff.mp link
      have away : ¬ root <+: path := outside (by rw [found]; rfl)
      rw [targetAt, prunedNode away]
      apply kept path target away
      rwa [targetAt, same.node path away]
  have start : next.textStart s = fs.textStart s := by
    rw [textStart, textStart, cwd]
  refine ⟨next.pruned root proper, sameOutside_pruned proper, gone, ?_⟩
  rw [start]
  exact walk_of_walks walksNext

theorem splitOn_text_names {names : Path} (named : ∀ name ∈ names, IsName name) (more : names ≠ []) :
    (Path.text names).splitOn '/' = [] :: names := by
  cases names with
  | nil => exact absurd rfl more
  | cons name later => exact splitOn_text fun part member => (named part member).2.2.2

/-- The text of a directory leads to it. -/
theorem leads_text (proper : root ≠ []) (isDir : fs.isDirAt root = true) :
    Leads fs (Path.text root) root := by
  have named : ∀ name ∈ root, IsName name := fun name member =>
    isName_of_mem (isSome_of_isDirAt isDir) member
  have gone : (fs.pruned root proper).node root = none := if_pos List.prefix_rfl
  have dirs : ∀ front, front <+: root → front ≠ root →
      (fs.pruned root proper).isDirAt ([] ++ front) = true := by
    intro front isFront differ
    have away : ¬ root <+: front := fun below =>
      differ (isFront.eq_of_length_le below.length_le)
    obtain ⟨rest, rfl⟩ := isFront
    have more : rest ≠ [] := by
      rintro rfl
      simp at differ
    rw [List.nil_append, isDirAt]
    exact (congrArg holdsDirectory (if_neg away)).trans
      (isDirAt_of_extends (isSome_of_isDirAt isDir) more)
  have start : fs.textStart (Path.text root) = [] := by
    cases root with
    | nil => exact absurd rfl proper
    | cons first later => simp [textStart, Path.text]
  refine ⟨fs.pruned root proper, sameOutside_pruned proper, gone, ?_⟩
  rw [start, splitOn_text_names named proper, walk_idle (fs.pruned root proper).root (.inl rfl)]
  exact walk_down named dirs (targetAt_of_none gone)

/-- What stands below the directory is found by its text, if no last link is followed. -/
theorem locate_textBelow_of_present (lead : Leads fs s root) (noLinkAbove : fs.targetAt root = none)
    {names : Path} (below : names ≠ []) (present : (fs.node (root ++ names)).isSome = true) :
    fs.locate false (textBelow s names) = some (root ++ names) := by
  have named : ∀ name ∈ names, IsName name := fun name member =>
    isName_of_mem present (List.mem_append_right root member)
  obtain ⟨fewer, further⟩ := @PiecesLead.append _ _ _ _ lead noLinkAbove false names (.inl below)
  rw [locate_below_eq lead named below, further]
  cases fewer with
  | zero => exact walkWith_of_node present (.inl rfl)
  | succ fewer => exact walkWith_of_node present (.inl rfl)

/-! ## Texts of paths -/

theorem text_eq_piecesText {names : Path} (named : ∀ name ∈ names, IsName name) :
    Path.text names = piecesText true names := by
  have proper : ∀ name ∈ names, ¬ Idle name ∧ '/' ∉ name := fun name member =>
    ⟨(named name member).notIdle, (named name member).2.2.2⟩
  exact (AbsPath.text_eq ⟨names, proper⟩).symm

/-- Where names lead from the root directory to a place that may be vacant. -/
theorem locate_text_of_leadsOn {names : Path} (leadsOn : LeadsOn fs [] names) (follow : Bool) :
    fs.locate follow (Path.text names) = some names := by
  by_cases more : names = []
  · subst more
    exact locate_text (isSome_of_isDirAt fs.root) (.inr (targetAt_of_isDirAt fs.root))
  · obtain ⟨first, later, rfl⟩ := List.exists_cons_of_ne_nil more
    have start : fs.textStart (Path.text (first :: later)) = [] := by simp [textStart, Path.text]
    rw [locate_eq (by simp [Path.text]), start, splitOn_text_names leadsOn.named more,
      walk_idle fs.root (.inl rfl)]
    exact walk_down leadsOn.named leadsOn.dirs leadsOn.noLink

theorem joinPath_names {names : Path} {name : Str} (named : ∀ name ∈ names, IsName name)
    (isName : IsName name) : Str.joinPath (Path.text names) name = Path.text (names ++ [name]) :=
  joinPath_text [] (fun other member => ⟨(named other member).notIdle, (named other member).2.2.2⟩) isName

/-- Only the last name tells how a path text ends, up to its slash. -/
theorem endsWith_behind_slash {front name back : Str} (noSlash : '/' ∉ back) :
    Str.endsWith (front ++ '/' :: name) back = Str.endsWith name back := by
  rw [Bool.eq_iff_iff, Str.endsWith, Str.endsWith, List.isSuffixOf_iff_suffix,
    List.isSuffixOf_iff_suffix]
  have nameEnds : name <:+ front ++ '/' :: name := ⟨front ++ ['/'], by simp⟩
  constructor
  · intro ends
    rcases List.suffix_or_suffix_of_suffix ends nameEnds with shorter | longer
    · exact shorter
    · obtain ⟨rest, rfl⟩ := longer
      obtain ⟨before, whole⟩ := ends
      cases rest using List.reverseRecOn with
      | nil => exact List.suffix_rfl
      | append_singleton init c =>
          have same : (before ++ init ++ [c]) ++ name = (front ++ ['/']) ++ name := by
            simpa using whole
          have slash := (List.append_inj' (List.append_cancel_right same) rfl).2
          obtain rfl := (List.cons.inj slash).1
          exact absurd (by simp) noSlash
  · exact fun ends => ends.trans nameEnds

theorem realpathWith_names {resolve : List Path → Path → List Str → Path × Bool}
    {pending : List Path} {current rest : Path} (named : ∀ name ∈ rest, IsName name)
    (free : ∀ front, front <+: rest → front ≠ [] → fs.targetAt (current ++ front) = none) :
    fs.realpathWith resolve pending current rest = (current ++ rest, true) := by
  induction rest generalizing current with
  | nil => simp [realpathWith]
  | cons name later inductionHypothesis =>
      have isName := named name List.mem_cons_self
      have noLink := free [name] (List.cons_prefix_cons.mpr ⟨rfl, List.nil_prefix⟩) (by simp)
      rw [realpathWith, if_neg isName.notIdle, if_neg isName.2.2.1, noLink]
      dsimp only
      rw [inductionHypothesis (fun other member => named other (List.mem_cons_of_mem _ member))]
      · simp
      · intro front isFront _
        rw [List.append_assoc]
        exact free (name :: front) (List.cons_prefix_cons.mpr ⟨rfl, isFront⟩) (by simp)

/-- The names behind a text, read from the root directory, are their own real path. -/
theorem realpath_names {names : Path} (named : ∀ name ∈ names, IsName name)
    (free : ∀ front, front <+: names → front ≠ [] → fs.targetAt front = none) :
    fs.realpath ('/' :: (textBelow s names).drop s.length) = names := by
  have goesOn (resolve : List Path → Path → List Str → Path × Bool) :
      fs.realpathWith resolve [] [] names = (names, true) :=
    realpathWith_names named free
  by_cases more : names = []
  · subst more
    rw [textBelow, List.intercalate_nil, Str.behind_nil, List.drop_length, realpath, realpathDepth]
    have split : (['/'] : Str).splitOn '/' = [[], []] := by decide
    rw [split, realpathWith, if_pos (.inl rfl), realpathWith, if_pos (.inl rfl), goesOn]
  · rw [textBelow, Str.behind_of_ne (intercalate_ne_nil named more), List.drop_left, realpath,
      realpathDepth]
    have split : ('/' :: '/' :: ['/'].intercalate names).splitOn '/' = [] :: [] :: names := by
      have slash (rest : Str) : ('/' :: rest).splitOn '/' = [] :: rest.splitOn '/' :=
        List.splitOn_append_cons_self [] rest
      rw [slash, slash, splitOn_names named more]
    rw [split, realpathWith, if_pos (.inl rfl), realpathWith, if_pos (.inl rfl), goesOn]

/-! ## A file that goes to a place -/

/-- A file is moved to a place that holds no directory and no link. -/
theorem moves_to_place {src dst : Str} {source target : Path} (located : fs.locate false src = some source)
    (found : fs.node source = some node) (file : node.isDirectory = false)
    (locatedDst : ∀ follow, fs.locate follow dst = some target) (free : fs.isDirAt target = false)
    (differ : source ≠ target) :
    ∃ next, fs.move src dst = some next ∧ next.cwd = fs.cwd ∧
      ∀ other, next.node other =
        if other = source then none else if other = target then some node else fs.node other := by
  have notDir : fs.isdir dst = false := by
    rw [isdir, stat, locatedDst, Option.bind_some]
    exact free
  obtain ⟨next, moved⟩ := Option.isSome_iff_exists.mp
    (move_step_isSome found file (locatedDst false) free differ)
  obtain ⟨middle, placed, erased⟩ := Option.bind_eq_some_iff.mp moved
  refine ⟨next, ?_, (cwd_of_eraseAt erased).trans (cwd_of_place placed), fun other => ?_⟩
  · rw [move, moveTarget, if_neg (by simp [notDir]), Option.bind_some, rename, located,
      Option.bind_some, locatedDst, Option.bind_some, found, Option.bind_some,
      if_neg (by simp [file, free]), if_neg differ]
    exact moved
  · rw [node_of_eraseAt erased, node_of_place placed]

/-- The node that a file is written to: the one that is there, or a new one. -/
def written (mode : Nat) (content : List UInt8) (old : Option Node) : Node :=
  { old.getD ⟨.regular [], mode, 0, 0, 1⟩ with kind := .regular content }

/-- A file is emptied or made, then written to. -/
theorem writes_to_place {mode : Nat} (content : List UInt8) {target : Path}
    (located : fs.locate true s = some target)
    (takes : ∀ old, fs.node target = some old → old.isRegular = true) :
    ∃ opened next, fs.openTruncating mode s = some opened ∧ opened.setContent content s = some next ∧
      SameShape fs next ∧
        ∀ other, next.node other =
          if other = target then some (written mode content (fs.node target)) else fs.node other := by
  have fits : (fs.place target (written mode [] (fs.node target))).isSome = true := by
    refine place_isSome_of_locate _ located fun isDir => ?_
    obtain ⟨old, found⟩ := Option.isSome_iff_exists.mp (isSome_of_isDirAt isDir)
    rw [isDirAt_of_node found, isDirectory_of_isRegular (takes old found)] at isDir
    cases isDir
  obtain ⟨opened, placed⟩ := Option.isSome_iff_exists.mp fits
  have ofOpen : fs.openTruncating mode s = some opened := by
    rw [openTruncating, located, Option.bind_some, ← placed]
    cases found : fs.node target with
    | none => rfl
    | some old => exact if_pos (takes old found)
  have here : opened.node target = some (written mode [] (fs.node target)) := by
    rw [node_of_place placed, if_pos rfl]
  have shape := (grown_of_openTruncating ofOpen).toSameShape
  have isFile : opened.isfile s = true := by
    rw [isfile, stat, ← locate_congr shape, located, Option.bind_some, here]
    rfl
  obtain ⟨next, set⟩ := Option.isSome_iff_exists.mp ((setContent_isSome_iff content s opened).mpr isFile)
  have effect := node_of_setContent ((locate_congr shape true s).symm.trans located) here set
  refine ⟨opened, next, ofOpen, set, shape.trans (sameShape_of_setContent set), fun other => ?_⟩
  · rw [effect, node_of_place placed]
    split
    · rfl
    · rfl

/-! ## A directory that is made -/

/-- A directory was put where nothing or a directory was, and nothing else changed. -/
structure PutDir (path : Path) (fs next : Fs) : Prop where
  cwd : next.cwd = fs.cwd
  node : ∃ dir : Node, dir.isDirectory = true ∧
    ∀ other, next.node other = if other = path then some dir else fs.node other

theorem PutDir.trans {middle : Fs} (first : PutDir path fs middle)
    (second : PutDir path middle next) : PutDir path fs next where
  cwd := second.cwd.trans first.cwd
  node := by
    obtain ⟨_, _, before⟩ := first.node
    obtain ⟨dir, isDir, behind⟩ := second.node
    refine ⟨dir, isDir, fun other => ?_⟩
    rw [behind, before]
    split
    · rfl
    · rfl

theorem PutDir.isDirAt (put : PutDir path fs next) : next.isDirAt path = true := by
  obtain ⟨dir, isDir, node⟩ := put.node
  rw [Fs.isDirAt, node, if_pos rfl]
  exact isDir

theorem PutDir.others (put : PutDir path fs next) {other : Path} (differ : other ≠ path) :
    next.node other = fs.node other := by
  obtain ⟨_, _, node⟩ := put.node
  rw [node, if_neg differ]

theorem putDir_of_place (placed : fs.place path node = some next) (isDir : node.isDirectory = true) :
    PutDir path fs next where
  cwd := cwd_of_place placed
  node := ⟨node, isDir, node_of_place placed⟩

theorem putDir_of_setMode {mode : Nat} (located : fs.locate true s = some path)
    (isDir : fs.isDirAt path = true) :
    ∃ next, fs.setMode mode s = some next ∧ PutDir path fs next := by
  obtain ⟨node, found⟩ := Option.isSome_iff_exists.mp (isSome_of_isDirAt isDir)
  rw [isDirAt_of_node found] at isDir
  obtain ⟨next, placed⟩ := Option.isSome_iff_exists.mp
    (place_isSome_of_locate { node with mode := mode % 4096 } located fun _ => isDir)
  refine ⟨next, ?_, putDir_of_place placed isDir⟩
  rw [setMode, located, Option.bind_some, found]
  exact placed

theorem putDir_of_setOwner {follow : Bool} {uid gid : Nat} (located : fs.locate follow s = some path)
    (isDir : fs.isDirAt path = true) :
    ∃ next, fs.setOwner follow uid gid s = some next ∧ PutDir path fs next := by
  obtain ⟨node, found⟩ := Option.isSome_iff_exists.mp (isSome_of_isDirAt isDir)
  rw [isDirAt_of_node found] at isDir
  obtain ⟨next, placed⟩ := Option.isSome_iff_exists.mp (place_isSome_of_locate
    { node with mode := modeBehindChown node, uid := uid, gid := gid } located fun _ => isDir)
  refine ⟨next, ?_, putDir_of_place placed isDir⟩
  rw [setOwner, located, Option.bind_some, found]
  exact placed

/-- `os.makedirs` in a directory that is there. -/
theorem putDir_of_makedirs {ε : Type} {osError : ε} {mode : Nat} {existOk : Bool} {front : Path}
    {last : Str} (named : ∀ name ∈ front ++ [last], IsName name) (above : fs.isDirAt front = true)
    (vacant : fs.node (front ++ [last]) = none) :
    ∃ next, Prog.Ends (makedirs osError mode existOk (Path.text (front ++ [last]))) fs () next ∧
      PutDir (front ++ [last]) fs next := by
  have namedFront : ∀ name ∈ front, IsName name := fun name member =>
    named name (List.mem_append_left _ member)
  have leadsOn : LeadsOn fs [] (front ++ [last]) :=
    leadsOn_snoc namedFront (named last (by simp)) above (targetAt_of_none vacant)
  have there : fs.pathExists (piecesText true front) = true := by
    rw [← text_eq_piecesText namedFront, pathExists, stat,
      locate_text (isSome_of_isDirAt above) (.inr (targetAt_of_isDirAt above)), Option.bind_some]
    exact isSome_of_isDirAt above
  obtain ⟨next, ended, placed⟩ := @ends_makeLast_of_vacant fs _ osError mode existOk _ _
    (locate_text_of_leadsOn leadsOn false) vacant
  refine ⟨next, ?_, putDir_of_place placed rfl⟩
  have pieces : (([] :: (front ++ [last])).filter (· ≠ ([] : Str))).reverse = last :: front.reverse := by
    rw [List.filter_cons_of_neg (by simp),
      List.filter_eq_self.mpr fun name member => decide_eq_true (named name member).1,
      List.reverse_append, List.reverse_singleton, List.singleton_append]
  have isAbs : Str.isAbs (Path.text (front ++ [last])) = true := by
    rw [text_eq_piecesText named]
    rfl
  rw [makedirs, isAbs, splitOn_text_names named (by simp), pieces, ends_makedirsPieces_iff,
    List.reverse_reverse, if_pos (.inr there), List.reverse_cons, List.reverse_reverse,
    ← text_eq_piecesText named]
  exact ended

end Fs

end Myscm.Library
