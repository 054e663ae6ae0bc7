import Myscm.Library.TarAdd
import Myscm.Library.Confined

/-!
Owns `shutil.copy2` and `shutil.copytree`, and what they leave below a directory that
holds no links.

Owns: both calls; texts of names behind the text of a directory; what `os.makedirs`
leaves there; what `copytree` leaves where the entries it does not ignore are files.

Does not own: times and extended attributes; special files.
-/

namespace Myscm.Library

namespace Fs

section Calls

variable {ε : Type} (osError : ε)

/-- `shutil.copystat`: the mode of what `src` names. -/
def copystat (src dst : Str) : Prog Fs ε Unit := do
  let mode ← Prog.tryReads fun fs => (fs.stat src).elim (.error osError) fun node => .ok node.mode
  sys osError (Fs.setMode mode dst)

/-- `shutil.copy2`. A file that is made has `mode` first. -/
def copy2 (mode : Nat) (src dst : Str) : Prog Fs ε Unit := do
  let dst ← Prog.reads fun fs =>
    if fs.isdir dst then Str.joinPath dst (Str.basename src) else dst
  let content ← Prog.tryReads fun fs =>
    if fs.samefile src dst then .error osError else (fs.readFile src).elim (.error osError) .ok
  sys osError (Fs.openTruncating mode dst)
  sys osError (Fs.setContent content dst)
  copystat osError src dst

/-- An entry in `shutil.copytree`, a link followed; the flag tells whether one failed. -/
def copyEntry (fileMode : Nat) (copyDir : Str → Str → Prog Fs ε Unit) (ignored : List Str)
    (src dst : Str) (failed : Bool) (name : Str) : Prog Fs ε Bool :=
  if name ∈ ignored then
    Prog.ret failed
  else
    Prog.handle
      (Prog.andThen
        (Prog.andThen (Prog.reads fun fs => fs.isdir (Str.joinPath src name)) fun isDir =>
          if isDir then copyDir (Str.joinPath src name) (Str.joinPath dst name)
          else copy2 osError fileMode (Str.joinPath src name) (Str.joinPath dst name))
        fun _ => Prog.ret failed)
      fun _ => Prog.ret true

/-- `shutil.copytree(src, dst, ignore)`. It goes on behind an entry that fails, and raises in the
end. -/
def copytree (dirMode fileMode : Nat) (ignore : Fs → Str → List Str → List Str) :
    Nat → Str → Str → Prog Fs ε Unit
  | 0, _, _ => Prog.raise osError
  | levels + 1, src, dst => do
      let names ← Prog.tryReads fun fs => (fs.listdir src).elim (.error osError) .ok
      let ignored ← Prog.reads fun fs => ignore fs src names
      makedirs osError dirMode false dst
      let failed ← Prog.foldOver
        (copyEntry osError fileMode (copytree dirMode fileMode ignore levels) ignored src dst)
        false names
      let failed ← Prog.handle (Prog.andThen (copystat osError src dst) fun _ => Prog.ret failed)
        fun _ => Prog.ret true
      if failed then Prog.raise osError else Prog.ret ()

end Calls

/-! ## Names behind a directory -/

/-- The text of names behind a text. -/
def textBelow (s : Str) (names : Path) : Str :=
  Str.behind s (['/'].intercalate names)

variable {fs next : Fs} {s : Str} {root : Path}

/-- A walk down along directories. -/
theorem walk_down {follow : Bool} {links : Nat} {current rest : Path}
    (named : ∀ name ∈ rest, IsName name)
    (dirs : ∀ front, front <+: rest → front ≠ rest → fs.isDirAt (current ++ front) = true)
    (noLink : fs.targetAt (current ++ rest) = none) :
    fs.walk follow links current rest = some (current ++ rest) := by
  induction rest generalizing current with
  | nil => rw [walk_nil, List.append_nil]
  | cons name later inductionHypothesis =>
      have isDir := dirs [] List.nil_prefix (by simp)
      rw [List.append_nil] at isDir
      have isName := named name List.mem_cons_self
      have reassoc (rest : Path) : current ++ name :: rest = (current ++ [name]) ++ rest := by simp
      have noLinkHere : fs.targetAt (current ++ [name]) = none := by
        by_cases last : later = []
        · rwa [last] at noLink
        · refine targetAt_of_isDirAt (dirs [name] ?_ ?_)
          · exact List.cons_prefix_cons.mpr ⟨rfl, List.nil_prefix⟩
          · simp [Ne.symm last]
      rw [walk_name isDir isName.notIdle isName.2.2.1 noLinkHere, reassoc later]
      refine inductionHypothesis (fun other member => named other (List.mem_cons_of_mem _ member))
        (fun front isFront differ => ?_) (by rwa [← reassoc])
      rw [← reassoc]
      exact dirs (name :: front) (List.cons_prefix_cons.mpr ⟨rfl, isFront⟩) (by simpa using differ)

theorem splitOn_names {names : Path} (named : ∀ name ∈ names, IsName name) (more : names ≠ []) :
    (['/'].intercalate names).splitOn '/' = names :=
  List.splitOn_intercalate '/' (fun name member => (named name member).2.2.2) more

theorem intercalate_ne_nil {names : Path} (named : ∀ name ∈ names, IsName name) (more : names ≠ []) :
    ['/'].intercalate names ≠ [] := by
  intro empty
  have split := splitOn_names named more
  rw [empty, List.splitOn_nil] at split
  exact (named [] (split ▸ List.mem_singleton_self _)).1 rfl

theorem filter_splitOn_names {names : Path} (named : ∀ name ∈ names, IsName name) :
    ((['/'].intercalate names).splitOn '/').filter (· ≠ []) = names := by
  by_cases more : names = []
  · subst more
    decide
  · rw [splitOn_names named more]
    exact List.filter_eq_self.mpr fun name member => decide_eq_true (named name member).1

/-- A text of names does not end in a slash. -/
theorem open_names {names : Path} (named : ∀ name ∈ names, IsName name) :
    Str.Open (['/'].intercalate names) := by
  cases names using List.reverseRecOn with
  | nil => exact fun c last => by cases last
  | append_singleton front last =>
      obtain ⟨nonempty, _, _, noSlash⟩ := named last (by simp)
      have ending : (['/'].intercalate (front ++ [last])).getLast? = last.getLast? := by
        by_cases alone : front = []
        · rw [alone, List.nil_append, List.intercalate_singleton]
        · rw [intercalate_append alone (by simp), List.intercalate_singleton,
            List.getLast?_append_of_ne_nil _ (by simp), ← List.singleton_append,
            List.getLast?_append_of_ne_nil _ nonempty]
      intro c isLast
      rintro rfl
      rw [ending] at isLast
      exact noSlash (List.mem_of_mem_getLast? isLast)

theorem joinPath_textBelow {names : Path} {name : Str} (isOpen : Str.Open s) (nonempty : s ≠ [])
    (named : ∀ name ∈ names, IsName name) (isName : IsName name) :
    Str.joinPath (textBelow s names) name = textBelow s (names ++ [name]) := by
  rw [textBelow, textBelow, Str.joinPath_of_open (Str.open_behind isOpen (open_names named))
    (Str.behind_ne_nil nonempty _) (isAbs_of_isName isName)]
  by_cases none : names = []
  · rw [none, List.intercalate_nil, Str.behind_nil, List.nil_append, List.intercalate_singleton,
      Str.behind_of_ne isName.1]
  · have text := intercalate_ne_nil named none
    rw [Str.behind_of_ne text, intercalate_append none (by simp), List.intercalate_singleton,
      Str.behind_of_ne (by simp)]
    simp

/-- The names lead on from the directory: through directories, and to no link. -/
structure LeadsOn (fs : Fs) (root names : Path) : Prop where
  named : ∀ name ∈ names, IsName name
  dirs : ∀ front, front <+: names → front ≠ names → fs.isDirAt (root ++ front) = true
  noLink : fs.targetAt (root ++ names) = none

theorem isDirAt_of_isPrefix {names front : Path} (top : fs.isDirAt (root ++ names) = true)
    (isFront : front <+: names) : fs.isDirAt (root ++ front) = true := by
  obtain ⟨rest, rfl⟩ := isFront
  by_cases last : rest = []
  · rwa [last, List.append_nil] at top
  · rw [← List.append_assoc] at top
    exact isDirAt_of_extends (isSome_of_isDirAt top) last

theorem leadsOn_of_isDirAt {names : Path} (named : ∀ name ∈ names, IsName name)
    (top : fs.isDirAt (root ++ names) = true) : LeadsOn fs root names where
  named := named
  dirs _ isFront _ := isDirAt_of_isPrefix top isFront
  noLink := targetAt_of_isDirAt top

/-- Names lead on from a directory to an entry that is no link. -/
theorem leadsOn_snoc {names : Path} {name : Str} (named : ∀ name ∈ names, IsName name)
    (isName : IsName name) (top : fs.isDirAt (root ++ names) = true)
    (noLink : fs.targetAt (root ++ (names ++ [name])) = none) :
    LeadsOn fs root (names ++ [name]) where
  named := by
    intro other member
    rcases List.mem_append.mp member with earlier | here
    · exact named other earlier
    · rw [List.mem_singleton.mp here]
      exact isName
  dirs := by
    intro front isFront differ
    rcases List.prefix_concat_iff.mp isFront with same | inNames
    · exact absurd same differ
    · exact isDirAt_of_isPrefix top inNames
  noLink := noLink

section Leading

variable {names : Path} (lead : Leads fs s root) (isDir : fs.isDirAt root = true)
  (leadsOn : LeadsOn fs root names)
include lead isDir leadsOn

theorem locate_textBelow (follow : Bool) :
    fs.locate follow (textBelow s names) = some (root ++ names) := by
  have noLink := targetAt_of_isDirAt isDir
  by_cases more : names = []
  · subst more
    rw [List.append_nil, textBelow, List.intercalate_nil, Str.behind_nil]
    exact lead.locate noLink follow
  · rw [textBelow, Str.behind_of_ne (intercalate_ne_nil leadsOn.named more), lead.locate_slash,
      splitOn_names leadsOn.named more]
    obtain ⟨fewer, further⟩ := @PiecesLead.append _ _ _ _ lead noLink follow names (.inl more)
    rw [further]
    exact walk_down leadsOn.named leadsOn.dirs leadsOn.noLink

theorem locate_piecesBelow (follow : Bool) :
    fs.locate follow (piecesText (Str.isAbs s) ((s.splitOn '/').filter (· ≠ []) ++ names)) =
      some (root ++ names) := by
  have noLink := targetAt_of_isDirAt isDir
  rw [lead.locate_pieces fun name member =>
    ⟨(leadsOn.named name member).1, (leadsOn.named name member).2.2.2⟩]
  by_cases more : names = []
  · subst more
    rw [List.append_nil, List.append_nil]
    exact lead.filter.walk noLink follow
  · obtain ⟨fewer, further⟩ := @PiecesLead.append _ _ _ _ lead.filter noLink follow names (.inl more)
    rw [further]
    exact walk_down leadsOn.named leadsOn.dirs leadsOn.noLink

end Leading

/-! ## Directories -/

/-- The directories on the way down from `root` by the names were made where they were missing, and
nothing else changed. -/
structure MadeDown (mode : Nat) (root names : Path) (fs next : Fs) : Prop where
  cwd : next.cwd = fs.cwd
  node : ∀ path, next.node path =
    if fs.node path = none ∧ root <+: path ∧ path <+: root ++ names then
      some ⟨.directory, mode, 0, 0, 2⟩
    else
      fs.node path

theorem MadeDown.outside {mode : Nat} {names : Path} (made : MadeDown mode root names fs next) :
    SameOutside root fs next where
  cwd := made.cwd
  node path outside := by
    rw [made.node, if_neg fun changed => outside changed.2.1]

theorem MadeDown.kept {mode : Nat} {names path : Path} {node : Node}
    (made : MadeDown mode root names fs next) (found : fs.node path = some node) :
    next.node path = some node := by
  have there : ¬ (fs.node path = none ∧ root <+: path ∧ path <+: root ++ names) := by
    rintro ⟨missing, _⟩
    rw [found] at missing
    cases missing
  rw [made.node, if_neg there, found]

/-- Walks go the way they went. -/
theorem MadeDown.extends {mode : Nat} {names : Path} (made : MadeDown mode root names fs next) :
    Extends fs next where
  isDirAt path isDir := by
    obtain ⟨node, found⟩ := Option.isSome_iff_exists.mp (isSome_of_isDirAt isDir)
    rw [Fs.isDirAt, made.kept found, ← found]
    exact isDir
  link path target isLink := by
    obtain ⟨node, found, _⟩ := Option.bind_eq_some_iff.mp isLink
    rw [targetAt, made.kept found, ← found]
    exact isLink
  free dir name _ noLink := by
    rw [targetAt, made.node]
    split
    · rfl
    · exact noLink

theorem MadeDown.stat {mode : Nat} {names : Path} {node : Node}
    (made : MadeDown mode root names fs next) (found : fs.stat s = some node) :
    next.stat s = some node := by
  obtain ⟨path, located, here⟩ := Option.bind_eq_some_iff.mp found
  have nonempty : s ≠ [] := by
    rintro rfl
    cases located
  rw [locate_eq nonempty] at located
  have same := walk_of_extends made.extends (walks_of_walk located)
  rw [textStart, ← made.cwd] at same
  rw [Fs.stat, locate_eq nonempty, textStart, same, Option.bind_some, made.kept here]

/-- Where the last directory is there, nothing is made. -/
theorem MadeDown.self {mode : Nat} {names : Path} (isDir : fs.isDirAt (root ++ names) = true) :
    MadeDown mode root names fs fs where
  cwd := rfl
  node path := by
    rw [if_neg]
    rintro ⟨missing, _, rest, whole⟩
    rw [← whole] at isDir
    have here : fs.isDirAt path = true := by
      by_cases last : rest = []
      · rwa [last, List.append_nil] at isDir
      · exact isDirAt_of_extends (isSome_of_isDirAt isDir) last
    rw [isDirAt_of_none missing] at here
    cases here

/-- One more directory is made. -/
theorem MadeDown.snoc {mode : Nat} {front : Path} {last : Str} {middle : Fs}
    (made : MadeDown mode root front fs middle)
    (missing : fs.node (root ++ (front ++ [last])) = none)
    (placed : middle.place (root ++ (front ++ [last])) ⟨.directory, mode, 0, 0, 2⟩ = some next) :
    MadeDown mode root (front ++ [last]) fs next where
  cwd := (cwd_of_place placed).trans made.cwd
  node path := by
    rw [node_of_place placed, made.node, ← List.append_assoc]
    by_cases here : path = root ++ front ++ [last]
    · rw [if_pos here, if_pos]
      refine ⟨by rwa [here, List.append_assoc], ?_, here ▸ List.prefix_rfl⟩
      rw [here, List.append_assoc]
      exact List.prefix_append _ _
    · rw [if_neg here]
      have above : path <+: root ++ front ++ [last] ↔ path <+: root ++ front := by
        rw [List.prefix_concat_iff]
        exact or_iff_right here
      simp only [above]

theorem MadeDown.isDirAt {mode : Nat} {names front : Path}
    (made : MadeDown mode root names fs next)
    (free : ∀ front, front <+: names → fs.node (root ++ front) = none ∨
      fs.isDirAt (root ++ front) = true) (isFront : front <+: names) :
    next.isDirAt (root ++ front) = true := by
  rcases free front isFront with missing | isDir
  · rw [Fs.isDirAt, made.node, if_pos]
    · rfl
    · exact ⟨missing, List.prefix_append _ _, List.prefix_append_right_inj root |>.mpr isFront⟩
  · obtain ⟨node, found⟩ := Option.isSome_iff_exists.mp (isSome_of_isDirAt isDir)
    rw [Fs.isDirAt, made.kept found, ← found]
    exact isDir

theorem noLink_of_free {path : Path} (free : fs.node path = none ∨ fs.isDirAt path = true) :
    fs.targetAt path = none := by
  rcases free with missing | isDir
  · exact targetAt_of_none missing
  · exact targetAt_of_isDirAt isDir

section Makedirs

variable {ε : Type} {osError : ε}

theorem ends_makeLast_of_vacant {mode : Nat} {existOk : Bool} {name : Str} {path : Path}
    (located : fs.locate false name = some path) (vacant : fs.node path = none) :
    ∃ next, Prog.Ends (makedirsPieces.makeLast osError mode existOk name) fs () next ∧
      fs.place path ⟨.directory, mode, 0, 0, 2⟩ = some next := by
  obtain ⟨next, placed⟩ := Option.isSome_iff_exists.mp (place_isSome_of_locate
    ⟨.directory, mode, 0, 0, 2⟩ located fun _ => rfl)
  have made : fs.mkdir mode name = some next := by
    rw [mkdir, create, located, Option.bind_some, vacant]
    exact placed
  refine ⟨next, ?_, placed⟩
  rw [makedirsPieces.makeLast, Prog.ends_handle_iff]
  exact .inl ((ends_sys_iff osError _ _ _).mpr made)

theorem ends_makeLast_of_dir_iff {mode : Nat} {existOk : Bool} {name : Str} {path : Path}
    (located : ∀ follow, fs.locate follow name = some path) (isDir : fs.isDirAt path = true)
    {finish : Fs} :
    Prog.Ends (makedirsPieces.makeLast osError mode existOk name) fs () finish ↔
      existOk = true ∧ finish = fs := by
  have taken : fs.mkdir mode name = none := by
    rw [mkdir, create, located, Option.bind_some, isSome_of_isDirAt isDir]
    rfl
  have dirHere : fs.isdir name = true := by
    rw [isdir, stat, located, Option.bind_some]
    exact isDir
  have failed : sys osError (Fs.mkdir mode name) fs = ⟨[], .error osError⟩ := by
    rw [sys, Prog.step, taken]
    rfl
  rw [makedirsPieces.makeLast, Prog.ends_handle_iff, ends_sys_iff, taken, failed]
  simp only [Prog.bind_eq, Prog.ends_andThen_iff, Prog.ends_reads_iff, Prog.final_nil]
  cases existOk <;> simp [dirHere, eq_comm]

/-- `os.makedirs` on the pieces of a text: where the directory above is missing, it is made first. -/
theorem ends_makedirsPieces_iff {mode : Nat} {existOk absolute : Bool} {tail : Str}
    {head : List Str} {finish : Fs} :
    Prog.Ends (makedirsPieces osError mode existOk absolute (tail :: head)) fs () finish ↔
      if piecesText absolute head.reverse = [] ∨
          fs.pathExists (piecesText absolute head.reverse) = true then
        Prog.Ends (makedirsPieces.makeLast osError mode existOk
          (piecesText absolute (tail :: head).reverse)) fs () finish
      else
        ∃ middle, Prog.Ends (makedirsPieces osError mode existOk absolute head) fs () middle ∧
          if tail = ['.'] then
            finish = middle
          else
            Prog.Ends (makedirsPieces.makeLast osError mode existOk
              (piecesText absolute (tail :: head).reverse)) middle () finish := by
  have view : (decide (piecesText absolute head.reverse = []) ||
      fs.pathExists (piecesText absolute head.reverse)) = true ↔
        piecesText absolute head.reverse = [] ∨
          fs.pathExists (piecesText absolute head.reverse) = true := by
    rw [Bool.or_eq_true, decide_eq_true_eq]
  rw [makedirsPieces, Prog.bind_eq, Prog.ends_andThen_iff]
  simp only [Prog.ends_reads_iff]
  by_cases there : piecesText absolute head.reverse = [] ∨
      fs.pathExists (piecesText absolute head.reverse) = true
  · rw [if_pos there]
    constructor
    · rintro ⟨value, middle, ⟨rfl, rfl⟩, ended⟩
      rwa [if_pos (view.mpr there)] at ended
    · intro ended
      refine ⟨_, fs, ⟨rfl, rfl⟩, ?_⟩
      rwa [if_pos (view.mpr there)]
  · rw [if_neg there]
    have step {middle : Fs} : Prog.Ends (if tail = ['.'] then Prog.ret () else
          makedirsPieces.makeLast osError mode existOk
            (piecesText absolute (tail :: head).reverse)) middle () finish ↔
        if tail = ['.'] then finish = middle else
          Prog.Ends (makedirsPieces.makeLast osError mode existOk
            (piecesText absolute (tail :: head).reverse)) middle () finish := by
      split
      · simp [eq_comm]
      · exact Iff.rfl
    constructor
    · rintro ⟨value, middle, ⟨rfl, rfl⟩, ended⟩
      rw [if_neg (view.not.mpr there), Prog.bind_eq, Prog.ends_andThen_iff] at ended
      obtain ⟨_, middle, endedHead, ended⟩ := ended
      exact ⟨middle, endedHead, step.mp ended⟩
    · rintro ⟨middle, endedHead, ended⟩
      refine ⟨_, fs, ⟨rfl, rfl⟩, ?_⟩
      rw [if_neg (view.not.mpr there), Prog.bind_eq, Prog.ends_andThen_iff]
      exact ⟨(), middle, endedHead, step.mpr ended⟩

/-- `os.makedirs` below a directory makes what is missing, where nothing but directories is in the
way. -/
theorem ends_makedirs {names : Path} (lead : Leads fs s root) (isDir : fs.isDirAt root = true)
    (named : ∀ name ∈ names, IsName name) {mode : Nat} {existOk : Bool}
    (free : ∀ front, front <+: names → fs.node (root ++ front) = none ∨
      fs.isDirAt (root ++ front) = true)
    (may : existOk = true ∨ fs.node (root ++ names) = none) :
    ∃ next, Prog.Ends (makedirs osError mode existOk (textBelow s names)) fs () next ∧
      MadeDown mode root names fs next := by
  rw [textBelow, makedirs_behind lead, filter_splitOn_names named]
  have noLink := targetAt_of_isDirAt isDir
  induction names using List.reverseRecOn with
  | nil =>
      have self : LeadsOn fs root [] := by
        refine ⟨named, fun front isFront differ => absurd (List.prefix_nil.mp isFront) differ, ?_⟩
        rwa [List.append_nil]
      have located := locate_piecesBelow lead isDir self
      rw [List.append_nil, List.append_nil] at located
      have again : existOk = true := by
        refine may.resolve_right fun missing => ?_
        rw [List.append_nil] at missing
        rw [isDirAt_of_none missing] at isDir
        cases isDir
      have ended := (@ends_makeLast_of_dir_iff _ _ osError mode existOk _ _ located isDir fs).mpr
        ⟨again, rfl⟩
      rw [Prog.Ends, ← makedirsPieces_self lead noLink] at ended
      rw [List.append_nil]
      refine ⟨fs, ended, rfl, fun path => ?_⟩
      rw [if_neg]
      rintro ⟨missing, below, above⟩
      rw [List.append_nil] at above
      rw [← below.eq_of_length_le above.length_le, ← Option.not_isSome_iff_eq_none] at missing
      exact missing (isSome_of_isDirAt isDir)
  | append_singleton front last inductionHypothesis =>
      have namedFront : ∀ name ∈ front, IsName name :=
        fun name member => named name (List.mem_append_left _ member)
      have isNameLast : IsName last := named last (by simp)
      have freeFront : ∀ other, other <+: front → fs.node (root ++ other) = none ∨
          fs.isDirAt (root ++ other) = true :=
        fun other isFront => free other (isFront.trans (List.prefix_append _ _))
      obtain ⟨more, allSolid⟩ := @Leads.solid_append _ _ _ lead front fun name member =>
        ⟨(namedFront name member).1, (namedFront name member).2.2.2⟩
      have text := @piecesText_ne_nil (Str.isAbs s) _ more allSolid
      rw [← List.append_assoc, List.reverse_append, List.reverse_singleton, List.singleton_append]
      simp only [ends_makedirsPieces_iff, List.reverse_reverse, List.reverse_cons]
      by_cases above : fs.isDirAt (root ++ front) = true
      · have there : fs.pathExists
            (piecesText (Str.isAbs s) ((s.splitOn '/').filter (· ≠ []) ++ front)) = true := by
          rw [pathExists, stat, locate_piecesBelow lead isDir
            (leadsOn_of_isDirAt namedFront above), Option.bind_some]
          exact isSome_of_isDirAt above
        have located := locate_piecesBelow lead isDir (leadsOn_snoc namedFront isNameLast above
          (noLink_of_free (free _ List.prefix_rfl)))
        rw [← List.append_assoc] at located
        simp only [there, or_true, if_true]
        rcases free (front ++ [last]) List.prefix_rfl with missing | isDirLast
        · obtain ⟨next, ended, placed⟩ := ends_makeLast_of_vacant (located false) missing
          exact ⟨next, ended, (MadeDown.self above).snoc missing placed⟩
        · have again : existOk = true := by
            refine may.resolve_right fun missing => ?_
            rw [isDirAt_of_none missing] at isDirLast
            cases isDirLast
          exact ⟨fs, (ends_makeLast_of_dir_iff located isDirLast).mpr ⟨again, rfl⟩,
            MadeDown.self isDirLast⟩
      · have missing := (freeFront front List.prefix_rfl).resolve_right above
        have notThere : fs.pathExists
            (piecesText (Str.isAbs s) ((s.splitOn '/').filter (· ≠ []) ++ front)) = false := by
          have alone : Myscm.Library.names front = front :=
            List.filter_eq_self.mpr fun name member =>
              decide_eq_true (namedFront name member).notIdle
          cases located : fs.locate true
              (piecesText (Str.isAbs s) ((s.splitOn '/').filter (· ≠ []) ++ front)) with
          | none =>
              rw [pathExists, stat, located]
              rfl
          | some finish =>
              have noUp : ['.', '.'] ∉ Myscm.Library.names front := by
                rw [alone]
                exact fun member => (namedFront _ member).2.2.1 rfl
              have clear : Clear fs root (Myscm.Library.names front) := by
                rw [alone]
                intro other isFront
                exact noLink_of_free (freeFront other isFront)
              have walked := located
              rw [lead.locate_pieces fun name member =>
                ⟨(namedFront name member).1, (namedFront name member).2.2.2⟩] at walked
              have here := lead.filter.walk_names (.inr rfl) noUp clear walked
              rw [alone] at here
              rw [pathExists, stat, located, Option.bind_some, here, missing]
              rfl
        obtain ⟨middle, endedFront, made⟩ := inductionHypothesis namedFront freeFront (.inr missing)
        have missingLast : fs.node (root ++ (front ++ [last])) = none := by
          rw [← List.append_assoc]
          exact node_of_missing missing (List.prefix_append _ _)
        have aboveMade : middle.isDirAt (root ++ front) = true :=
          made.isDirAt freeFront List.prefix_rfl
        have missingMade : middle.node (root ++ (front ++ [last])) = none := by
          have behind : ¬ root ++ (front ++ [last]) <+: root ++ front := by
            intro above
            have longer := above.length_le
            simp only [List.length_append, List.length_singleton] at longer
            omega
          rw [made.node, if_neg fun changed => behind changed.2.2, missingLast]
        have rootMade : middle.isDirAt root = true := by
          have here := made.isDirAt freeFront List.nil_prefix
          rwa [List.append_nil] at here
        have located := locate_piecesBelow (lead.congr made.outside) rootMade
          (leadsOn_snoc namedFront isNameLast aboveMade (targetAt_of_none missingMade)) false
        rw [← List.append_assoc] at located
        obtain ⟨next, ended, placed⟩ := @ends_makeLast_of_vacant _ _ osError mode existOk _ _ located
          missingMade
        have notDot : last ≠ ['.'] := isNameLast.2.1
        simp only [notThere, text, notDot, or_self, if_false, Bool.false_eq_true]
        exact ⟨next, ⟨middle, endedFront, ended⟩, made.snoc missingLast placed⟩

end Makedirs

/-! ## Files -/

/-- A regular file was put where nothing was. -/
structure PutFile (content : List UInt8) (path : Path) (fs next : Fs) : Prop where
  vacant : fs.node path = none
  shape : SameShape fs next
  others : ∀ other, other ≠ path → next.node other = fs.node other
  node : ∃ node, next.node path = some node ∧ node.kind = .regular content

/-- What was found is still there. -/
theorem PutFile.stat {content : List UInt8} {path : Path} {node : Node}
    (put : PutFile content path fs next) (found : fs.stat s = some node) :
    next.stat s = some node := by
  obtain ⟨other, located, here⟩ := Option.bind_eq_some_iff.mp found
  have differ : other ≠ path := by
    rintro rfl
    rw [put.vacant] at here
    cases here
  rw [Fs.stat, ← locate_congr put.shape, located, Option.bind_some, put.others other differ, here]

theorem PutFile.readFile {content bytes : List UInt8} {path : Path}
    (put : PutFile content path fs next) (read : fs.readFile s = some bytes) :
    next.readFile s = some bytes := by
  obtain ⟨node, found, isContent⟩ := Option.bind_eq_some_iff.mp read
  rw [Fs.readFile, put.stat found, Option.bind_some, isContent]

section Copying

variable {ε : Type} {osError : ε}

/-- Making a file, and writing to it. -/
theorem putFile_of_write {mode : Nat} {content : List UInt8} {path : Path}
    (located : fs.locate true s = some path) (vacant : fs.node path = none) :
    ∃ opened next, fs.openTruncating mode s = some opened ∧
      opened.setContent content s = some next ∧ PutFile content path fs next := by
  have takes : TakesContent s fs := ⟨path, located, by simp [vacant]⟩
  obtain ⟨opened, ofOpen⟩ := Option.isSome_iff_exists.mp ((openTruncating_isSome_iff mode s fs).mpr takes)
  have placed : fs.place path ⟨.regular [], mode, 0, 0, 1⟩ = some opened := by
    rw [openTruncating, located, Option.bind_some, vacant] at ofOpen
    exact ofOpen
  have shape : SameShape fs opened := sameShape_of_place placed (isDirAt_of_none vacant)
    (targetAt_of_none vacant)
  have locatedOpened := (locate_congr shape true s).symm.trans located
  have here : opened.node path = some ⟨.regular [], mode, 0, 0, 1⟩ := by
    rw [node_of_place placed, if_pos rfl]
  have isFile : opened.isfile s = true := by
    rw [isfile, stat, locatedOpened, Option.bind_some, here]
    rfl
  obtain ⟨next, written⟩ := Option.isSome_iff_exists.mp ((setContent_isSome_iff content s opened).mpr isFile)
  have placedNext : opened.place path ⟨.regular content, mode, 0, 0, 1⟩ = some next := by
    rw [setContent, locatedOpened, Option.bind_some, here] at written
    exact written
  refine ⟨opened, next, ofOpen, written, vacant, ?_, fun other differ => ?_, ?_⟩
  · have second := sameShape_of_setContent written
    exact ⟨shape.cwd.trans second.cwd, fun path => (shape.isDirAt path).trans (second.isDirAt path),
      fun path => (shape.targetAt path).trans (second.targetAt path)⟩
  · rw [node_of_place placedNext, if_neg differ, node_of_place placed, if_neg differ]
  · exact ⟨⟨.regular content, mode, 0, 0, 1⟩, by rw [node_of_place placedNext, if_pos rfl], rfl⟩

/-- Setting the mode of a regular file that was put. -/
theorem PutFile.setMode {content : List UInt8} {path : Path} {mode : Nat}
    (put : PutFile content path fs next) (located : fs.locate true s = some path) :
    ∃ finish, next.setMode mode s = some finish ∧ PutFile content path fs finish := by
  obtain ⟨node, here, kind⟩ := put.node
  have located := (locate_congr put.shape true s).symm.trans located
  have isSome : (next.setMode mode s).isSome = true := by
    rw [setMode_isSome_iff, pathExists, Fs.stat, located, Option.bind_some, here]
    rfl
  obtain ⟨finish, set⟩ := Option.isSome_iff_exists.mp isSome
  have placed : next.place path { node with mode := mode % 4096 } = some finish := by
    rw [Fs.setMode, located, Option.bind_some, here] at set
    exact set
  have second : SameShape next finish := sameShape_of_place placed
    ((isDirAt_of_node here).trans rfl) ((targetAt_of_node here).trans rfl)
  refine ⟨finish, set, put.vacant, ?_, fun other differ => ?_, ?_⟩
  · exact ⟨put.shape.cwd.trans second.cwd,
      fun path => (put.shape.isDirAt path).trans (second.isDirAt path),
      fun path => (put.shape.targetAt path).trans (second.targetAt path)⟩
  · rw [node_of_place placed, if_neg differ, put.others other differ]
  · exact ⟨{ node with mode := mode % 4096 }, by rw [node_of_place placed, if_pos rfl], kind⟩

/-- `copy2` of a file that can be read to a name where nothing is. -/
theorem ends_copy2 {mode : Nat} {src dst : Str} {content : List UInt8} {path : Path}
    (read : fs.readFile src = some content) (located : fs.locate true dst = some path)
    (vacant : fs.node path = none) :
    ∃ next, Prog.Ends (copy2 osError mode src dst) fs () next ∧ PutFile content path fs next := by
  have missing : fs.stat dst = none := by rw [Fs.stat, located, Option.bind_some, vacant]
  have notDir : fs.isdir dst = false := by rw [isdir, missing]; rfl
  have notSame : fs.samefile src dst = false := by simp [samefile, pathExists, missing]
  obtain ⟨node, found, _⟩ := Option.bind_eq_some_iff.mp read
  obtain ⟨opened, written, ofOpen, ofWrite, put⟩ := putFile_of_write located vacant
  obtain ⟨finish, ofMode, putMode⟩ := put.setMode located
  refine ⟨finish, ?_, putMode⟩
  rw [copy2]
  simp only [Prog.bind_eq, Prog.ends_andThen_iff, Prog.ends_reads_iff, Prog.ends_tryReads_iff]
  refine ⟨dst, fs, ⟨by rw [notDir]; rfl, rfl⟩, content, fs, ⟨?_, rfl⟩,
    (), opened, (ends_sys_iff osError _ _ _).mpr ofOpen,
    (), written, (ends_sys_iff osError _ _ _).mpr ofWrite, ?_⟩
  · rw [notSame, read]
    rfl
  · rw [copystat]
    simp only [Prog.bind_eq, Prog.ends_andThen_iff, Prog.ends_tryReads_iff]
    exact ⟨node.mode, written, ⟨by rw [put.stat found]; rfl, rfl⟩,
      (ends_sys_iff osError _ _ _).mpr ofMode⟩

/-- The files were put into the directory, and nothing else changed. -/
structure PutFiles (target : Path) (files : Str → List UInt8 → Prop) (fs next : Fs) : Prop where
  shape : SameShape fs next
  others : ∀ path, (∀ name content, files name content → path ≠ target ++ [name]) →
    next.node path = fs.node path
  node : ∀ name content, files name content →
    ∃ node, next.node (target ++ [name]) = some node ∧ node.kind = .regular content

/-- The entries that `copytree` copies as files. -/
def Copies (fs : Fs) (src : Str) (names ignored : List Str) (name : Str)
    (content : List UInt8) : Prop :=
  name ∈ names ∧ name ∉ ignored ∧ fs.readFile (Str.joinPath src name) = some content

variable {copyDir : Str → Str → Prog Fs ε Unit} {mode : Nat} {src dst : Str}
  {ignored : List Str} {target : Path}

theorem ends_copyEntry {failed : Bool} {name : Str} {content : List UInt8}
    (kept : name ∉ ignored) (read : fs.readFile (Str.joinPath src name) = some content)
    (located : fs.locate true (Str.joinPath dst name) = some (target ++ [name]))
    (vacant : fs.node (target ++ [name]) = none) :
    ∃ next, Prog.Ends (copyEntry osError mode copyDir ignored src dst failed name) fs failed next ∧
      PutFile content (target ++ [name]) fs next := by
  obtain ⟨next, ended, put⟩ := @ends_copy2 _ _ osError mode _ _ _ _ read located vacant
  refine ⟨next, ?_, put⟩
  have notDir : fs.isdir (Str.joinPath src name) = false := by
    obtain ⟨node, found, isContent⟩ := Option.bind_eq_some_iff.mp read
    rw [isdir, found]
    exact isDirectory_of_isRegular (by rw [Node.isRegular, isContent]; rfl)
  rw [copyEntry, if_neg kept, Prog.ends_handle_iff]
  left
  simp only [Prog.ends_andThen_iff, Prog.ends_reads_iff, Prog.ends_ret_iff]
  refine ⟨(), next, ⟨false, fs, ⟨notDir, rfl⟩, ?_⟩, trivial, rfl⟩
  rwa [if_neg Bool.false_ne_true]

/-- The loop over the entries of a directory that are files where they are not ignored. -/
theorem ends_copyEntries {names : List Str} (distinct : names.Nodup)
    (ready : ∀ name ∈ names, name ∉ ignored →
      (∃ content, fs.readFile (Str.joinPath src name) = some content) ∧
        fs.locate true (Str.joinPath dst name) = some (target ++ [name]) ∧
        fs.node (target ++ [name]) = none) :
    ∃ next, Prog.Ends (Prog.foldOver (copyEntry osError mode copyDir ignored src dst) false names)
        fs false next ∧
      PutFiles target (Copies fs src names ignored) fs next := by
  induction names generalizing fs with
  | nil =>
      refine ⟨fs, (Prog.ends_ret_iff _ _ _ _).mpr ⟨rfl, rfl⟩, ?_, fun _ _ => rfl, ?_⟩
      · exact ⟨rfl, fun _ => rfl, fun _ => rfl⟩
      · exact fun name content copied => absurd copied.1 List.not_mem_nil
  | cons name rest inductionHypothesis =>
      obtain ⟨notInRest, distinctRest⟩ := List.nodup_cons.mp distinct
      by_cases kept : name ∈ ignored
      · obtain ⟨next, ended, put⟩ := inductionHypothesis distinctRest
          fun other member => ready other (List.mem_cons_of_mem _ member)
        have same : Copies fs src (name :: rest) ignored = Copies fs src rest ignored := by
          funext other content
          rw [Copies, Copies, List.mem_cons]
          refine propext ⟨fun ⟨member, keptOther, read⟩ => ⟨?_, keptOther, read⟩,
            fun ⟨member, both⟩ => ⟨.inr member, both⟩⟩
          exact member.resolve_left fun here => keptOther (here ▸ kept)
        rw [same]
        refine ⟨next, (Prog.ends_andThen_iff _ _ _ _ _).mpr ⟨false, fs, ?_, ended⟩, put⟩
        rw [copyEntry, if_pos kept]
        exact (Prog.ends_ret_iff _ _ _ _).mpr ⟨rfl, rfl⟩
      · obtain ⟨⟨content, read⟩, located, vacant⟩ := ready name List.mem_cons_self kept
        obtain ⟨middle, endedFirst, put⟩ :=
          @ends_copyEntry _ _ osError copyDir mode _ _ _ _ false _ _ kept read located vacant
        have others {other : Str} (member : other ∈ rest) : other ≠ name :=
          fun same => notInRest (same ▸ member)
        obtain ⟨next, endedRest, putRest⟩ := @inductionHypothesis middle distinctRest
          fun other member keptOther => by
            obtain ⟨⟨bytes, readOther⟩, locatedOther, vacantOther⟩ :=
              ready other (List.mem_cons_of_mem _ member) keptOther
            refine ⟨⟨bytes, put.readFile readOther⟩, ?_, ?_⟩
            · rw [← locate_congr put.shape, locatedOther]
            · rw [put.others _ (by simpa using others member), vacantOther]
        have copies {other : Str} {bytes : List UInt8} :
            Copies fs src (name :: rest) ignored other bytes ↔
              (other = name ∧ bytes = content) ∨ Copies middle src rest ignored other bytes := by
          constructor
          · rintro ⟨member, keptOther, readOther⟩
            rcases List.mem_cons.mp member with rfl | inRest
            · exact .inl ⟨rfl, Option.some.inj (readOther.symm.trans read)⟩
            · exact .inr ⟨inRest, keptOther, put.readFile readOther⟩
          · rintro (⟨rfl, rfl⟩ | ⟨inRest, keptOther, readMiddle⟩)
            · exact ⟨List.mem_cons_self, kept, read⟩
            · obtain ⟨⟨before, readOther⟩, _⟩ :=
                ready other (List.mem_cons_of_mem _ inRest) keptOther
              have same := (put.readFile readOther).symm.trans readMiddle
              exact ⟨List.mem_cons_of_mem _ inRest, keptOther, readOther.trans same⟩
        refine ⟨next, (Prog.ends_andThen_iff _ _ _ _ _).mpr ⟨false, middle, endedFirst, endedRest⟩,
          ?_, fun path away => ?_, fun other bytes copied => ?_⟩
        · exact ⟨put.shape.cwd.trans putRest.shape.cwd,
            fun path => (put.shape.isDirAt path).trans (putRest.shape.isDirAt path),
            fun path => (put.shape.targetAt path).trans (putRest.shape.targetAt path)⟩
        · rw [putRest.others path fun other bytes copied => away other bytes (copies.mpr (.inr copied)),
            put.others path (away name content (copies.mpr (.inl ⟨rfl, rfl⟩)))]
        · rcases copies.mp copied with ⟨rfl, rfl⟩ | copiedRest
          · rw [putRest.others _ fun other' bytes' copied' => by
              simpa using (others copied'.1).symm]
            exact put.node
          · exact putRest.node other bytes copiedRest

/-- A directory was copied with those of its entries that are files. -/
structure TreeCopied (target : Path) (files : Str → List UInt8 → Prop) (fs next : Fs) : Prop where
  cwd : next.cwd = fs.cwd
  others : ∀ path, ¬ target <+: path → next.node path = fs.node path
  top : next.isDirAt target = true
  node : ∀ name content, files name content →
    ∃ node, next.node (target ++ [name]) = some node ∧ node.kind = .regular content
  only : ∀ path node, target <+: path → path ≠ target → next.node path = some node →
    ∃ name content, files name content ∧ path = target ++ [name]

/-- Setting the mode of a directory. -/
theorem setMode_of_dir {mode : Nat} {path : Path} (located : fs.locate true s = some path)
    (isDir : fs.isDirAt path = true) :
    ∃ next, fs.setMode mode s = some next ∧ SameShape fs next ∧
      ∀ other, other ≠ path → next.node other = fs.node other := by
  obtain ⟨node, here⟩ := Option.isSome_iff_exists.mp (isSome_of_isDirAt isDir)
  have isSome : (fs.setMode mode s).isSome = true := by
    rw [setMode_isSome_iff, pathExists, Fs.stat, located, Option.bind_some, here]
    rfl
  obtain ⟨next, set⟩ := Option.isSome_iff_exists.mp isSome
  have placed : fs.place path { node with mode := mode % 4096 } = some next := by
    rw [Fs.setMode, located, Option.bind_some, here] at set
    exact set
  exact ⟨next, set, sameShape_of_place placed ((isDirAt_of_node here).trans rfl)
    ((targetAt_of_node here).trans rfl),
    fun other differ => by rw [node_of_place placed, if_neg differ]⟩

/-- Below a place that was vacant, nothing but the directory was made. -/
theorem MadeDown.empty {names path : Path} (made : MadeDown mode root names fs next)
    (vacant : fs.node (root ++ names) = none) (below : root ++ names <+: path)
    (differ : path ≠ root ++ names) : next.node path = none := by
  rw [made.node, if_neg, node_of_missing vacant below]
  rintro ⟨_, _, higher⟩
  exact differ (higher.eq_of_length_le below.length_le)

theorem MadeDown.readFile {names : Path} {content : List UInt8}
    (made : MadeDown mode root names fs next) (read : fs.readFile s = some content) :
    next.readFile s = some content := by
  obtain ⟨node, found, isContent⟩ := Option.bind_eq_some_iff.mp read
  rw [Fs.readFile, made.stat found, Option.bind_some, isContent]

/-- The way to a vacant place in a directory is free. -/
theorem free_of_vacant {names : Path} (more : names ≠ [])
    (above : fs.isDirAt (root ++ names.dropLast) = true) (vacant : fs.node (root ++ names) = none)
    {front : Path} (isFront : front <+: names) :
    fs.node (root ++ front) = none ∨ fs.isDirAt (root ++ front) = true := by
  rw [← List.dropLast_append_getLast more] at isFront
  rcases List.prefix_concat_iff.mp isFront with whole | inFront
  · rw [whole, List.dropLast_append_getLast more]
    exact .inl vacant
  · exact .inr (isDirAt_of_isPrefix above inFront)

/-- `copytree` of a directory to a place below `root` where nothing is, where every entry that is
not ignored is a file that can be read. -/
theorem ends_copytree {names source : Path} {dirMode fileMode levels : Nat}
    {ignore : Fs → Str → List Str → List Str} (lead : Leads fs s root)
    (isDir : fs.isDirAt root = true) (named : ∀ name ∈ names, IsName name) (more : names ≠ [])
    (above : fs.isDirAt (root ++ names.dropLast) = true) (vacant : fs.node (root ++ names) = none)
    (located : fs.locate true src = some source) (sourceDir : fs.isDirAt source = true)
    (files : ∀ name ∈ fs.listing source, name ∉ ignore fs src (fs.listing source) →
      ∃ content, fs.readFile (Str.joinPath src name) = some content) :
    ∃ next, Prog.Ends (copytree osError dirMode fileMode ignore (levels + 1) src
        (textBelow s names)) fs () next ∧
      TreeCopied (root ++ names)
        (Copies fs src (fs.listing source) (ignore fs src (fs.listing source))) fs next := by
  have free {front : Path} (isFront : front <+: names) := free_of_vacant more above vacant isFront
  -- The directory itself is made first, and nothing is in it.
  obtain ⟨made, endedMake, isMade⟩ := @ends_makedirs _ _ _ _ osError _ lead isDir named dirMode false
    (fun _ => free) (.inr vacant)
  have topMade : made.isDirAt (root ++ names) = true := isMade.isDirAt (fun _ => free) List.prefix_rfl
  have rootMade : made.isDirAt root = true := by
    have here := isDirAt_of_isPrefix topMade List.nil_prefix
    rwa [List.append_nil] at here
  have leadMade := lead.congr isMade.outside
  have emptyMade {path : Path} := @MadeDown.empty _ _ _ _ _ path isMade vacant
  have goesOn {name : Str} (isName : IsName name) :
      made.locate true (Str.joinPath (textBelow s names) name) = some (root ++ names ++ [name]) := by
    have missing : made.node (root ++ (names ++ [name])) = none := by
      rw [← List.append_assoc]
      exact emptyMade (List.prefix_append _ _) (by simp)
    rw [joinPath_textBelow lead.isOpen lead.ne_nil named isName, locate_textBelow leadMade rootMade
      (leadsOn_snoc named isName topMade (targetAt_of_none missing)) true, List.append_assoc]
  -- Then its entries are copied, which read as they did before.
  obtain ⟨filled, endedFold, put⟩ := @ends_copyEntries made _ osError
    (copytree osError dirMode fileMode ignore levels) fileMode src (textBelow s names)
    (ignore fs src (fs.listing source)) (root ++ names) (fs.listing source)
    (fs.nodup_listing source) fun name isEntry kept => by
      have isName := (fs.grounded source name (mem_listing.mp isEntry)).2
      obtain ⟨content, read⟩ := files name isEntry kept
      exact ⟨⟨content, isMade.readFile read⟩, goesOn isName,
        emptyMade (List.prefix_append _ _) (by simp)⟩
  have copies {name : Str} {content : List UInt8} :
      Copies made src (fs.listing source) (ignore fs src (fs.listing source)) name content ↔
        Copies fs src (fs.listing source) (ignore fs src (fs.listing source)) name content := by
    refine and_congr_right fun isEntry => and_congr_right fun kept => ?_
    obtain ⟨before, read⟩ := files name isEntry kept
    rw [read, isMade.readFile read]
  -- At last it gets the mode of the source.
  have topFilled : filled.isDirAt (root ++ names) = true := (put.shape.isDirAt _).symm.trans topMade
  have locatedTop : filled.locate true (textBelow s names) = some (root ++ names) := by
    rw [← locate_congr put.shape]
    exact locate_textBelow leadMade rootMade (leadsOn_of_isDirAt named topMade) true
  obtain ⟨node, sourceNode⟩ := Option.isSome_iff_exists.mp (isSome_of_isDirAt sourceDir)
  have found : made.stat src = some node :=
    isMade.stat (by rw [Fs.stat, located, Option.bind_some, sourceNode])
  have foundFilled : filled.stat src = some node := by
    obtain ⟨path, locatedMade, here⟩ := Option.bind_eq_some_iff.mp found
    rw [Fs.stat, ← locate_congr put.shape, locatedMade, Option.bind_some, put.others path ?_, here]
    rintro name content _ rfl
    rw [emptyMade (List.prefix_append _ _) (by simp)] at here
    cases here
  obtain ⟨next, set, shape, others⟩ := @setMode_of_dir _ _ node.mode _ locatedTop topFilled
  refine ⟨next, ?_, ?_⟩
  · have listed : fs.listdir src = some (fs.listing source) := by
      rw [listdir, located, Option.bind_some, if_pos sourceDir]
    rw [copytree]
    simp only [Prog.bind_eq, Prog.ends_andThen_iff, Prog.ends_tryReads_iff, Prog.ends_reads_iff]
    refine ⟨fs.listing source, fs, ⟨by rw [listed]; rfl, rfl⟩, _, fs, ⟨rfl, rfl⟩, (), made, endedMake,
      false, filled, endedFold, false, next, ?_, by simp⟩
    rw [Prog.ends_handle_iff]
    left
    rw [Prog.ends_andThen_iff]
    refine ⟨(), next, ?_, by simp⟩
    rw [copystat]
    simp only [Prog.bind_eq, Prog.ends_andThen_iff, Prog.ends_tryReads_iff]
    exact ⟨node.mode, filled, ⟨by rw [foundFilled]; rfl, rfl⟩, (ends_sys_iff osError _ _ _).mpr set⟩
  · refine ⟨?_, fun path outside => ?_, (shape.isDirAt _).symm.trans topFilled,
      fun name content copied => ?_, fun path here below differ there => ?_⟩
    · exact shape.cwd.symm.trans (put.shape.cwd.symm.trans isMade.cwd)
    · have away : path ≠ root ++ names := fun same => outside (same ▸ List.prefix_rfl)
      rw [others path away, put.others path ?_, isMade.node, if_neg]
      · rintro ⟨missing, ⟨front, rfl⟩, inside⟩
        have isFront := (List.prefix_append_right_inj root).mp inside
        rcases free isFront with _ | isDirHere
        · rw [← List.dropLast_append_getLast more] at isFront
          rcases List.prefix_concat_iff.mp isFront with whole | inFront
          · rw [List.dropLast_append_getLast more] at whole
            exact away (by rw [whole])
          · have isDirHere := isDirAt_of_isPrefix above inFront
            rw [isDirAt_of_none missing] at isDirHere
            cases isDirHere
        · rw [isDirAt_of_none missing] at isDirHere
          cases isDirHere
      · rintro name content _ rfl
        exact outside (List.prefix_append _ _)
    · rw [others _ (by simp)]
      exact put.node name content (copies.mpr copied)
    · rw [others path differ] at there
      by_contra alone
      simp only [not_exists, not_and] at alone
      rw [put.others path fun name content copied => alone name content (copies.mp copied),
        emptyMade below differ] at there
      cases there

/-- `copytree` raises where its target is there. -/
theorem not_ends_copytree {dirMode fileMode levels : Nat}
    {ignore : Fs → Str → List Str → List Str} {finish : Fs} (lead : Leads fs s root)
    (isDir : fs.isDirAt root = true)
    (pieces : (dst.splitOn '/').filter (· ≠ []) = (s.splitOn '/').filter (· ≠ []))
    (absolute : Str.isAbs dst = Str.isAbs s) :
    ¬ Prog.Ends (copytree osError dirMode fileMode ignore levels src dst) fs () finish := by
  intro ended
  cases levels with
  | zero => exact absurd ended (Prog.not_ends_raise _ _ _ _)
  | succ levels =>
      have self : LeadsOn fs root [] := leadsOn_of_isDirAt (fun _ member => by cases member)
        (by rwa [List.append_nil])
      have located := locate_piecesBelow lead isDir self
      rw [List.append_nil, List.append_nil] at located
      rw [copytree] at ended
      simp only [Prog.bind_eq, Prog.ends_andThen_iff, Prog.ends_tryReads_iff, Prog.ends_reads_iff]
        at ended
      obtain ⟨_, _, ⟨_, rfl⟩, _, _, ⟨_, rfl⟩, _, made, endedMake, _⟩ := ended
      rw [makedirs, pieces, absolute, Prog.Ends,
        makedirsPieces_self lead (targetAt_of_isDirAt isDir)] at endedMake
      exact absurd ((ends_makeLast_of_dir_iff located isDir).mp endedMake).1 Bool.false_ne_true

end Copying

end Fs

end Myscm.Library
