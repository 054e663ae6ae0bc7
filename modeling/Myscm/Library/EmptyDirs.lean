import Myscm.Library.CopyTree
import Myscm.Library.Frames

/-!
Owns what is left where the empty directories of a tree are removed from the bottom
up, each with those above it that become empty.

Owns: erasures of directories below a directory; that `os.removedirs` climbs no higher
than a directory that holds a file; the walk that calls it.

Does not own: which tree that is.
-/

namespace Myscm.Library

namespace Fs

open Prog

/-- Directories below `root` are gone, and nothing else changed. -/
structure DirsErased (root : Path) (start fs : Fs) : Prop where
  outside : SameOutside root start fs
  node : ∀ path, fs.node path = start.node path ∨
    (start.isDirAt path = true ∧ fs.node path = none)

namespace DirsErased

variable {root : Path} {start fs next : Fs}

theorem refl (root : Path) (start : Fs) : DirsErased root start start :=
  ⟨SameOutside.refl root start, fun _ => .inl rfl⟩

theorem of_rmdir {s : Str} (erased : DirsErased root start fs)
    (within : LeadsTo (root <+: ·) false s fs) (removed : fs.rmdir s = some next) :
    DirsErased root start next := by
  obtain ⟨place, located, removed⟩ := Option.bind_eq_some_iff.mp removed
  split at removed
  · rename_i isDir
    have touches := touches_of_eraseAt removed
    constructor
    · refine erased.outside.trans ⟨touches.cwd, fun path outside => touches.others path ?_⟩
      rintro rfl
      exact outside (within path located)
    · intro path
      by_cases here : path = place
      · subst here
        right
        refine ⟨?_, by rw [node_of_eraseAt removed, if_pos rfl]⟩
        rcases erased.node path with same | ⟨wasDir, _⟩
        · rwa [isDirAt, ← same]
        · exact wasDir
      · rw [node_of_eraseAt removed, if_neg here]
        exact erased.node path
  · cases removed

/-- Where no link was, none is. -/
theorem clear {names : Path} (erased : DirsErased root start fs) (wasClear : Clear start root names) :
    Clear fs root names := by
  intro front isFront
  rcases erased.node (root ++ front) with same | ⟨_, gone⟩
  · rw [targetAt, same]
    exact wasClear front isFront
  · exact targetAt_of_none gone

theorem noLink_start {path : Path} (erased : DirsErased root start fs)
    (noLink : fs.targetAt path = none) : start.targetAt path = none := by
  rcases erased.node path with same | ⟨wasDir, _⟩
  · rwa [targetAt, same] at noLink
  · exact targetAt_of_isDirAt wasDir

/-- A directory that holds a file stays. -/
theorem isDirAt_root {file : Str} (erased : DirsErased root start fs)
    (present : (start.node (root ++ [file])).isSome = true)
    (isFile : start.isDirAt (root ++ [file]) = false) :
    (fs.node (root ++ [file])).isSome = true ∧ fs.isDirAt root = true := by
  rcases erased.node (root ++ [file]) with same | ⟨wasDir, _⟩
  · rw [← same] at present
    exact ⟨present, isDirAt_of_extends present (by simp)⟩
  · rw [isFile] at wasDir
    cases wasDir

end DirsErased

/-- A directory that holds an entry is not removed. -/
theorem rmdir_eq_none {fs : Fs} {s : Str} {path : Path} {name : Str}
    (located : fs.locate false s = some path) (present : (fs.node (path ++ [name])).isSome = true) :
    fs.rmdir s = none := by
  have notLoose : ¬ fs.Loose path := fun loose => by
    have member := mem_children.mpr present
    rw [loose.2] at member
    cases member
  rw [rmdir, located, Option.bind_some]
  split
  · rw [eraseAt]
    simp [notLoose]
  · rfl

theorem names_of_isName {names : Path} (named : ∀ name ∈ names, IsName name) :
    Library.names names = names :=
  List.filter_eq_self.mpr fun name member => decide_eq_true (named name member).notIdle

theorem isName_of_scandir {fs : Fs} {top : Str} {dirs files : List Str}
    (listed : fs.scandir top = some (dirs, files)) {name : Str} (member : name ∈ dirs) :
    IsName name := by
  unfold scandir at listed
  obtain ⟨place, _, inside⟩ := Option.bind_eq_some_iff.mp listed
  split at inside
  · rw [List.partition_eq_filter_filter] at inside
    have parts := congrArg Prod.fst (Option.some.inj inside)
    dsimp only at parts
    rw [← parts] at member
    have entry := mem_listing.mp (List.mem_filter.mp member).1
    exact isName_of_mem entry (by simp)
  · cases inside

theorem Clear.snoc {fs : Fs} {root names : Path} {name : Str} (clear : Clear fs root names)
    (noLink : fs.targetAt (root ++ (names ++ [name])) = none) : Clear fs root (names ++ [name]) := by
  intro front isFront
  rcases List.prefix_concat_iff.mp isFront with whole | shorter
  · rw [whole]
    exact noLink
  · exact clear front shorter

/-! ## Files -/

/-- `os.rmdir` takes no file. -/
theorem node_of_rmdir {fs next : Fs} {s : Str} {path : Path} {node : Node}
    (found : fs.node path = some node) (isFile : node.isDirectory = false)
    (removed : fs.rmdir s = some next) : next.node path = some node := by
  obtain ⟨place, _, removed⟩ := Option.bind_eq_some_iff.mp removed
  split at removed
  · rename_i isDir
    rw [node_of_eraseAt removed, if_neg]
    · exact found
    · rintro rfl
      rw [isDirAt, holdsDirectory, found, Option.any_some, isFile] at isDir
      cases isDir
  · cases removed

section Files

variable {ε : Type} {osError : ε} {keep : Fs → Prop}
  (rmdirKeeps : ∀ fs next s, keep fs → fs.rmdir s = some next → keep next)
include rmdirKeeps

theorem always_removedirs (s : Str) : Prog.Always keep (removedirs osError s) := by
  have above (absolute : Bool) (pieces : List Str) :
      Prog.Always keep (removedirsAbove osError absolute pieces) := by
    induction pieces with
    | nil => exact Prog.always_ret _ _
    | cons tail head inductionHypothesis =>
        rw [removedirsAbove]
        apply Prog.always_handle
        · apply Prog.always_andThen
          · exact always_sys fun fs next kept removed => rmdirKeeps fs next _ kept removed
          · exact fun _ => inductionHypothesis
        · exact fun _ => Prog.always_ret _ _
  apply Prog.always_andThen
  · exact always_sys fun fs next kept removed => rmdirKeeps fs next s kept removed
  · exact fun _ => above _ _

theorem always_osWalkUp_removedirs (levels : Nat) (top : Str) :
    Prog.Always keep
      (osWalkUp (fun path => Prog.handle (removedirs osError path) fun _ => Prog.ret ()) levels
        top) := by
  induction levels generalizing top with
  | zero => exact Prog.always_ret _ _
  | succ levels inductionHypothesis =>
      rw [osWalkUp]
      refine Prog.always_andThen (Prog.always_reads _ _) fun listed => ?_
      split
      · exact Prog.always_ret _ _
      · apply Prog.always_andThen
        · apply Prog.always_forEach
          intro name _
          refine Prog.always_andThen (Prog.always_reads _ _) fun link => ?_
          split
          · exact Prog.always_ret _ _
          · exact inductionHypothesis _
        · intro _
          apply Prog.always_handle (always_removedirs rmdirKeeps top)
          exact fun _ => Prog.always_ret _ _

end Files

section Below

variable {fs : Fs} {dir : Str} {root : Path} (lead : Leads fs dir root) {names : Path}
  (named : ∀ name ∈ names, IsName name) (below : names ≠ [])
include lead named below

theorem locate_below_eq (follow : Bool) :
    fs.locate follow (textBelow dir names) =
      fs.walk follow maxSymlinks (fs.textStart dir) (dir.splitOn '/' ++ names) := by
  rw [textBelow, Str.behind_of_ne (intercalate_ne_nil named below), lead.locate_slash,
    splitOn_names named below]

/-- Where a text below the directory leads, if no link is on the way. -/
theorem locate_below {follow : Bool} {place : Path} (clear : Clear fs root names)
    (located : fs.locate follow (textBelow dir names) = some place) : place = root ++ names := by
  rw [locate_below_eq lead named below] at located
  have same := names_of_isName named
  rw [← same] at clear ⊢
  apply PiecesLead.walk_names lead (.inl below) _ clear located
  rw [same]
  exact fun up => (named _ up).2.2.1 rfl

/-- An entry that is walked into is no link. -/
theorem noLink_of_islink (noLinkAbove : fs.targetAt root = none)
    (noLink : fs.islink (textBelow dir names) = false) : fs.targetAt (root ++ names) = none := by
  cases found : fs.node (root ++ names) with
  | none => exact targetAt_of_none found
  | some node =>
      have there : (fs.node (root ++ names)).isSome = true := by rw [found]; rfl
      have located : fs.locate false (textBelow dir names) = some (root ++ names) := by
        obtain ⟨fewer, further⟩ :=
          @PiecesLead.append _ _ _ _ lead noLinkAbove false names (.inl below)
        rw [locate_below_eq lead named below, further]
        cases fewer with
        | zero => exact walkWith_of_node there (.inl rfl)
        | succ fewer => exact walkWith_of_node there (.inl rfl)
      rw [islink, lstat, located, Option.bind_some, found] at noLink
      rw [targetAt, found]
      simpa [Node.isSymlink] using noLink

end Below

section Removal

variable {ε : Type} {osError : ε} {start : Fs} {dir : Str} {root : Path} {file : Str}
  (lead : Leads start dir root) (present : (start.node (root ++ [file])).isSome = true)
  (isFile : start.isDirAt (root ++ [file]) = false)
include lead present isFile

/-- The climb stops at the directory. -/
theorem keeps_removedirsAbove {names : Path} (named : ∀ name ∈ names, IsName name)
    (clear : Clear start root names) {fs : Fs} (erased : DirsErased root start fs) :
    Keeps (DirsErased root start)
      (removedirsAbove osError (Str.isAbs dir) ((dir.splitOn '/').filter (· ≠ []) ++ names).reverse)
      fs := by
  induction names using List.reverseRecOn generalizing fs with
  | nil =>
      obtain ⟨here, isDir⟩ := erased.isDirAt_root present isFile
      have leadHere := lead.congr erased.outside
      have leadsOn : LeadsOn fs root [] := leadsOn_of_isDirAt (by simp) (by rwa [List.append_nil])
      have located := locate_piecesBelow leadHere isDir leadsOn false
      rw [List.append_nil] at located ⊢
      rw [List.append_nil] at located
      cases pieces : ((dir.splitOn '/').filter (· ≠ [])).reverse with
      | nil => exact (quiet_ret ()).keeps fs
      | cons tail head =>
          have whole : (tail :: head).reverse = (dir.splitOn '/').filter (· ≠ []) := by
            rw [← pieces, List.reverse_reverse]
          have kept : fs.rmdir (piecesText (Str.isAbs dir) (tail :: head).reverse) = none := by
            rw [whole]
            exact rmdir_eq_none located here
          rw [removedirsAbove]
          refine keeps_handle erased (keeps_andThen erased (keeps_sys fun next removed => ?_) ?_)
            fun _ => Prog.always_ret _ _
          · rw [kept] at removed
            cases removed
          · intro _ middle ends
            have removed := (ends_sys_iff _ _ _ _).mp ends
            rw [kept] at removed
            cases removed
  | append_singleton front last inductionHypothesis =>
      have namedFront : ∀ name ∈ front, IsName name := fun name member =>
        named name (List.mem_append_left _ member)
      have clearFront := clear.mono (List.prefix_append front [last])
      have within : LeadsTo (root <+: ·) false
          (piecesText (Str.isAbs dir) ((dir.splitOn '/').filter (· ≠ []) ++ (front ++ [last]))) fs := by
        intro place located
        have leadHere := lead.congr erased.outside
        rw [leadHere.locate_pieces fun name member =>
          ⟨(named name member).1, (named name member).2.2.2⟩] at located
        have clearHere := erased.clear clear
        rw [← names_of_isName named] at clearHere
        have here := leadHere.filter.walk_names (.inl (by simp)) (by
          rw [names_of_isName named]
          exact fun up => (named _ up).2.2.1 rfl) clearHere located
        exact here ▸ List.prefix_append _ _
      rw [← List.append_assoc, List.reverse_append, List.reverse_singleton, List.singleton_append,
        removedirsAbove]
      have text : (last :: ((dir.splitOn '/').filter (· ≠ []) ++ front).reverse).reverse =
          (dir.splitOn '/').filter (· ≠ []) ++ (front ++ [last]) := by
        rw [List.reverse_cons, List.reverse_reverse, List.append_assoc]
      rw [text]
      refine keeps_handle erased (keeps_andThen erased (keeps_sys fun next removed => ?_) ?_)
        fun _ => Prog.always_ret _ _
      · exact erased.of_rmdir within removed
      · intro _ middle _ erasedMiddle
        exact inductionHypothesis namedFront clearFront erasedMiddle

/-- `os.removedirs` on a directory below. -/
theorem keeps_removedirs {names : Path} (named : ∀ name ∈ names, IsName name) (below : names ≠ [])
    (clear : Clear start root names) {fs : Fs} (erased : DirsErased root start fs) :
    Keeps (DirsErased root start) (removedirs osError (textBelow dir names)) fs := by
  have within : LeadsTo (root <+: ·) false (textBelow dir names) fs := by
    intro place located
    have here := locate_below (lead.congr erased.outside) named below (erased.clear clear) located
    exact here ▸ List.prefix_append _ _
  have above : (((textBelow dir names).splitOn '/').filter (· ≠ [])).reverse.drop 1 =
      ((dir.splitOn '/').filter (· ≠ []) ++ names.dropLast).reverse := by
    rw [textBelow, filter_splitOn_behind, filter_splitOn_names named]
    nth_rewrite 1 [← List.dropLast_append_getLast below]
    rw [← List.append_assoc, List.reverse_append]
    rfl
  rw [removedirs, above, textBelow, isAbs_behind lead]
  apply keeps_andThen erased (keeps_sys fun next removed => erased.of_rmdir within removed)
  intro _ middle _ erasedMiddle
  apply keeps_removedirsAbove lead present isFile
  · exact fun name member => named name (List.mem_of_mem_dropLast member)
  · exact clear.mono (List.dropLast_prefix names)
  · exact erasedMiddle

/-- `_remove_empty_dirs`: each directory of the tree, from the bottom up. -/
theorem keeps_osWalkUp_removedirs (levels : Nat) {names : Path}
    (named : ∀ name ∈ names, IsName name) (below : names ≠ []) (clear : Clear start root names)
    {fs : Fs} (erased : DirsErased root start fs) :
    Keeps (DirsErased root start)
      (osWalkUp (fun path => Prog.handle (removedirs osError path) fun _ => Prog.ret ())
        levels (textBelow dir names)) fs := by
  induction levels generalizing names fs with
  | zero => exact (quiet_ret ()).keeps fs
  | succ levels inductionHypothesis =>
      rw [osWalkUp]
      apply keeps_andThen erased ((quiet_reads _).keeps fs)
      intro entries middle ends _
      obtain ⟨listed, rfl⟩ := (ends_reads_iff _ _ _ _).mp ends
      cases entries with
      | none => exact (quiet_ret ()).keeps fs
      | some entries =>
          obtain ⟨dirs, files⟩ := entries
          apply keeps_andThen erased
          · apply keeps_forEach _ dirs erased
              (eachReady_of_forall fun name member _ => isName_of_scandir listed member)
            intro name here erasedHere isName
            apply keeps_andThen erasedHere ((quiet_reads _).keeps here)
            intro link same linkRead _
            obtain ⟨isLink, rfl⟩ := (ends_reads_iff _ _ _ _).mp linkRead
            cases link with
            | true => exact (quiet_ret ()).keeps here
            | false =>
                have join : Str.joinPath (textBelow dir names) name =
                    textBelow dir (names ++ [name]) :=
                  joinPath_textBelow lead.isOpen lead.ne_nil named isName
                have namedMore : ∀ other ∈ names ++ [name], IsName other := by
                  intro other member
                  rcases List.mem_append.mp member with earlier | last
                  · exact named other earlier
                  · rw [List.mem_singleton.mp last]
                    exact isName
                rw [join] at isLink ⊢
                have noLink := noLink_of_islink (lead.congr erasedHere.outside) namedMore (by simp)
                  (erasedHere.clear clear).noLink isLink
                exact inductionHypothesis namedMore (by simp)
                  (clear.snoc (erasedHere.noLink_start noLink)) erasedHere
          · intro _ behind _ erasedBehind
            apply keeps_handle erasedBehind
            · exact keeps_removedirs lead present isFile named below clear erasedBehind
            · exact fun _ => Prog.always_ret _ _

end Removal

end Fs

end Myscm.Library
