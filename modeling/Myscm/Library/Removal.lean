import Myscm.Library.Confined

/-!
Owns the removal of a whole tree.

Owns: the paths below a directory; that they are erased one by one, entries before their
directory; what is left behind.

Does not own: anything a removal could fail at but the directory itself.
-/

namespace Myscm.Library

namespace Fs

/-! ## Erasing below a directory -/

theorem prefix_of_mem_below {fs : Fs} {root path : Path} (member : path ∈ fs.below root) :
    root <+: path := by
  have levels (levels : Nat) (top : Path) (isPrefix : root <+: top)
      (member : path ∈ fs.belowLevels levels top) : root <+: path := by
    induction levels generalizing top with
    | zero => cases member
    | succ levels inductionHypothesis =>
        obtain ⟨name, _, inside⟩ := List.mem_flatMap.mp member
        have deeper : root <+: top ++ [name] := isPrefix.trans (List.prefix_append _ _)
        rcases List.mem_append.mp inside with below | here
        · exact inductionHypothesis (top ++ [name]) deeper below
        · rwa [List.mem_singleton.mp here]
  exact levels fs.depth root (List.prefix_refl root) member

/-- Erase the paths of a list in turn. -/
def eraseAll {ε : Type} (osError : ε) (paths : List Path) : Prog Fs ε Unit :=
  Prog.forEach (fun path => sys osError (Fs.eraseAt · path)) paths

/-- A node without entries is erased. -/
theorem eraseAt_of_empty {fs : Fs} {path : Path} (present : (fs.node path).isSome = true)
    (notRoot : path ≠ []) (empty : ∀ name, fs.node (path ++ [name]) = none) :
    ∃ next, fs.eraseAt path = some next ∧
      ∀ other, next.node other = if other = path then none else fs.node other := by
  have loose : fs.Loose path := by
    refine ⟨notRoot, List.eq_nil_iff_forall_not_mem.mpr fun name member => ?_⟩
    have isThere := mem_children.mp member
    rw [empty name] at isThere
    cases isThere
  have erased : fs.eraseAt path = some (fs.erase path loose) := by
    rw [eraseAt, if_pos present, dif_pos loose]
  exact ⟨_, erased, node_of_eraseAt erased⟩

/-- What is left where everything strictly below a path is erased. -/
structure Emptied (top : Path) (fs finish : Fs) : Prop where
  gone : ∀ rest, rest ≠ [] → finish.node (top ++ rest) = none
  others : ∀ path, (∀ rest, rest ≠ [] → path ≠ top ++ rest) → finish.node path = fs.node path

/-- The two file systems hold the same below a path. -/
def SameBelow (top : Path) (fs other : Fs) : Prop :=
  ∀ rest, rest ≠ [] → fs.node (top ++ rest) = other.node (top ++ rest)

section

variable {ε : Type} {osError : ε}

theorem ends_eraseAll_append {left right : List Path} {fs middle finish : Fs}
    (first : Prog.Ends (eraseAll osError left) fs () middle)
    (second : Prog.Ends (eraseAll osError right) middle () finish) :
    Prog.Ends (eraseAll osError (left ++ right)) fs () finish := by
  rw [eraseAll, Prog.forEach_append]
  exact (Prog.ends_andThen_iff _ _ _ _ _).mpr ⟨(), middle, first, second⟩

theorem ends_eraseAll_single {path : Path} {fs next : Fs} (erased : fs.eraseAt path = some next) :
    Prog.Ends (eraseAll osError [path]) fs () next :=
  (Prog.ends_andThen_iff _ _ _ _ _).mpr
    ⟨(), next, (ends_sys_iff osError _ _ _).mpr erased, rfl, rfl⟩

/-- One entry after the other is emptied and erased. -/
theorem ends_eraseAll_entries {levels : Nat} {top : Path} {listed : Fs}
    (deeper : ∀ name fs, SameBelow (top ++ [name]) fs listed →
      (listed.node (top ++ [name])).isSome = true →
      ∃ finish, Prog.Ends (eraseAll osError (listed.belowLevels levels (top ++ [name]))) fs ()
        finish ∧ Emptied (top ++ [name]) fs finish)
    {names : List Str} (distinct : names.Nodup)
    (present : ∀ name ∈ names, (listed.node (top ++ [name])).isSome = true) {fs : Fs}
    (same : ∀ name ∈ names, ∀ rest, fs.node (top ++ name :: rest) = listed.node (top ++ name :: rest)) :
    ∃ finish,
      Prog.Ends
        (eraseAll osError (names.flatMap fun name =>
          listed.belowLevels levels (top ++ [name]) ++ [top ++ [name]])) fs () finish ∧
        (∀ name ∈ names, ∀ rest, finish.node (top ++ name :: rest) = none) ∧
        ∀ path, (∀ name ∈ names, ∀ rest, path ≠ top ++ name :: rest) →
          finish.node path = fs.node path := by
  induction names generalizing fs with
  | nil => exact ⟨fs, ⟨rfl, rfl⟩, by simp, fun _ _ => rfl⟩
  | cons name names inductionHypothesis =>
      obtain ⟨notLater, distinctLater⟩ := List.nodup_cons.mp distinct
      have isThere := present name List.mem_cons_self
      have sameHere (rest : Path) :
          fs.node ((top ++ [name]) ++ rest) = listed.node ((top ++ [name]) ++ rest) := by
        rw [List.append_assoc]
        exact same name List.mem_cons_self rest
      obtain ⟨middle, endsBelow, emptied⟩ := deeper name fs (fun rest _ => sameHere rest) isThere
      have middleHere : (middle.node (top ++ [name])).isSome = true := by
        have unchanged := emptied.others (top ++ [name]) fun rest more isBelow =>
          more (List.self_eq_append_right.mp isBelow)
        have before := sameHere []
        rw [List.append_nil] at before
        rw [unchanged, before]
        exact isThere
      obtain ⟨next, erased, nodes⟩ := eraseAt_of_empty middleHere (by simp)
        fun entry => emptied.gone [entry] (by simp)
      have apart {path : Path} (away : ∀ rest, path ≠ top ++ name :: rest) :
          next.node path = fs.node path := by
        rw [nodes, if_neg (away []), emptied.others path fun rest _ isBelow => away rest (by
          rw [isBelow, List.append_assoc]
          rfl)]
      have distinctNames {other : Str} (member : other ∈ names) (rest : Path) :
          ∀ rest', top ++ other :: rest ≠ top ++ name :: rest' := by
        intro rest' equal
        obtain ⟨rfl, _⟩ := List.cons.inj (List.append_cancel_left equal)
        exact notLater member
      obtain ⟨finish, endsLater, gone, others⟩ := @inductionHypothesis distinctLater
        (fun other member => present other (List.mem_cons_of_mem _ member)) next
        fun other member rest => by
          rw [apart (distinctNames member rest)]
          exact same other (List.mem_cons_of_mem _ member) rest
      have keptLater {path : Path} (rest : Path) (here : path = top ++ name :: rest) :
          finish.node path = next.node path := by
        apply others
        intro other member rest' equal
        exact distinctNames member rest' rest (equal.symm.trans here)
      refine ⟨finish, ?_, ?_, ?_⟩
      · rw [List.flatMap_cons]
        exact ends_eraseAll_append
          (ends_eraseAll_append endsBelow (ends_eraseAll_single erased)) endsLater
      · intro other member rest
        rcases List.mem_cons.mp member with rfl | later
        · rw [keptLater rest rfl, nodes]
          split
          · rfl
          · rename_i deeperPath
            have more : rest ≠ [] := fun empty => deeperPath (by rw [empty])
            have reassoc : top ++ other :: rest = (top ++ [other]) ++ rest := by simp
            rw [reassoc]
            exact emptied.gone rest more
        · exact gone other later rest
      · intro path away
        rw [others path fun other member => away other (List.mem_cons_of_mem _ member)]
        exact apart (away name List.mem_cons_self)

theorem ends_eraseAll_below {listed : Fs} {levels : Nat} {top : Path}
    (bounded : ∀ rest, (listed.node (top ++ rest)).isSome = true → rest.length ≤ levels) {fs : Fs}
    (same : SameBelow top fs listed) :
    ∃ finish, Prog.Ends (eraseAll osError (listed.belowLevels levels top)) fs () finish ∧
      Emptied top fs finish := by
  induction levels generalizing top fs with
  | zero =>
      refine ⟨fs, ⟨rfl, rfl⟩, fun rest more => ?_, fun _ _ => rfl⟩
      rw [same rest more]
      by_contra present
      have short := bounded rest (Option.isSome_iff_ne_none.mpr present)
      exact more (List.length_eq_zero_iff.mp (Nat.le_zero.mp short))
  | succ levels inductionHypothesis =>
      have distinct : (listed.listing top).Nodup :=
        (listed.order_perm _).nodup_iff.mpr (List.nodup_dedup _)
      obtain ⟨finish, ends, gone, others⟩ := ends_eraseAll_entries
        (fun name fs sameDeeper _ => @inductionHypothesis (top ++ [name])
          (fun rest present => by
            rw [List.append_assoc] at present
            exact Nat.le_of_succ_le_succ (bounded (name :: rest) present)) fs sameDeeper)
        distinct (fun name member => mem_listing.mp member)
        fun name _ rest => same (name :: rest) (by simp)
      refine ⟨finish, ends, fun rest more => ?_, fun path away => ?_⟩
      · obtain ⟨name, deeper, rfl⟩ := List.exists_cons_of_ne_nil more
        by_cases member : name ∈ listed.listing top
        · exact gone name member deeper
        · have missing : listed.node (top ++ [name]) = none := by
            by_contra present
            exact member (mem_listing.mpr (Option.isSome_iff_ne_none.mpr present))
          rw [others, same _ more]
          · apply node_of_missing missing
            exact ⟨deeper, by simp⟩
          · intro other inListing rest' equal
            obtain ⟨rfl, _⟩ := List.cons.inj (List.append_cancel_left equal)
            exact member inListing
      · exact others path fun name _ rest => away (name :: rest) (by simp)

theorem length_le_depth {fs : Fs} {path : Path} (present : (fs.node path).isSome = true) :
    path.length ≤ fs.depth := by
  have bound {lengths : List Nat} {n : Nat} (member : n ∈ lengths) : n ≤ lengths.foldr max 0 := by
    induction lengths with
    | nil => cases member
    | cons first rest inductionHypothesis =>
        rcases List.mem_cons.mp member with rfl | later
        · exact Nat.le_max_left _ _
        · exact (inductionHypothesis later).trans (Nat.le_max_right _ _)
  exact bound (List.mem_map_of_mem (fs.supported path present))

/-- A tree is erased. -/
theorem ends_eraseAll_tree {fs : Fs} {top : Path} (present : (fs.node top).isSome = true)
    (notRoot : top ≠ []) :
    ∃ finish, Prog.Ends (eraseAll osError (fs.below top ++ [top])) fs () finish := by
  obtain ⟨middle, endsBelow, emptied⟩ := @ends_eraseAll_below _ osError fs fs.depth top
    (fun rest present => by
      have short := length_le_depth present
      rw [List.length_append] at short
      omega)
    fs (fun _ _ => rfl)
  have middleHere : (middle.node top).isSome = true := by
    rw [emptied.others top fun rest more isBelow => more (List.self_eq_append_right.mp isBelow)]
    exact present
  obtain ⟨finish, erased, _⟩ := eraseAt_of_empty middleHere notRoot
    fun name => emptied.gone [name] (by simp)
  exact ⟨finish, ends_eraseAll_append endsBelow (ends_eraseAll_single erased)⟩

end

/-! ## `shutil.rmtree` -/

section Removal

variable {ε : Type} {osError : ε} {fs : Fs} {s : Str} {root : Path} (lead : Leads fs s root)
  (noLink : fs.targetAt root = none)
include lead noLink

theorem rmtree_run :
    rmtree osError s fs =
      if fs.isDirAt root then eraseAll osError (fs.below root ++ [root]) fs
      else ⟨[], .error osError⟩ := by
  have located := lead.locate noLink false
  rw [rmtree, Prog.bind_eq]
  cases isDir : fs.isDirAt root with
  | false =>
      apply Prog.andThen_error
      rw [Prog.tryReads_run, located]
      simp [isDir]
  | true =>
      rw [@Prog.tryReads_andThen _ _ _ _ _ _ root (by simp [located, isDir])]
      rfl

theorem sameOutside_rmtree : ∀ state ∈ (rmtree osError s fs).states, SameOutside root fs state := by
  intro state member
  rw [rmtree_run lead noLink] at member
  split at member
  · refine Prog.always_forEach _ (fun path inTree => ?_) fs (SameOutside.refl root fs) state member
    apply always_sys
    intro before next same erased
    have touches := touches_of_eraseAt erased
    have inside : root <+: path := by
      rcases List.mem_append.mp inTree with below | here
      · exact prefix_of_mem_below below
      · rw [List.mem_singleton.mp here]
    exact same.trans ⟨touches.cwd, fun other outside => touches.others other fun isPath =>
      outside (isPath ▸ inside)⟩
  · cases member

/-- No link comes to stand there. -/
theorem targetAt_rmtree : ∀ state ∈ (rmtree osError s fs).states, state.targetAt root = none := by
  intro state member
  rw [rmtree_run lead noLink] at member
  split at member
  · have erases : Prog.Always (fun next : Fs => next.targetAt root = none)
        (eraseAll osError (fs.below root ++ [root])) :=
      Prog.always_forEach _ fun path _ => always_sys fun before next free erased =>
        (touches_of_eraseAt erased).free free
    exact erases fs noLink state member
  · cases member

/-- Behind it there is nothing. -/
theorem node_of_rmtree {finish : Fs} (ends : Prog.Ends (rmtree osError s) fs () finish) :
    finish.node root = none := by
  rw [Prog.Ends, rmtree_run lead noLink] at ends
  split at ends
  · rw [eraseAll, Prog.forEach_append] at ends
    obtain ⟨_, middle, _, last⟩ := (Prog.ends_andThen_iff _ _ _ _ _).mp ends
    obtain ⟨_, erased, removal, rest⟩ := (Prog.ends_andThen_iff _ _ _ _ _).mp last
    obtain ⟨_, rfl⟩ := (Prog.ends_ret_iff _ _ _ _).mp rest
    rw [node_of_eraseAt ((ends_sys_iff _ _ _ _).mp removal), if_pos rfl]
  · cases ends.1

/-- A directory that is there is removed. -/
theorem ends_rmtree (isDir : fs.isDirAt root = true) (notRoot : root ≠ []) :
    ∃ finish, Prog.Ends (rmtree osError s) fs () finish := by
  obtain ⟨finish, ends⟩ := @ends_eraseAll_tree _ osError _ _ (isSome_of_isDirAt isDir) notRoot
  refine ⟨finish, ?_⟩
  rw [Prog.Ends, rmtree_run lead noLink, if_pos isDir]
  exact ends

end Removal


end Fs

end Myscm.Library
