import Myscm.Library.CopyTree

/-!
Owns what removing files one after another does: which texts name an entry of a
directory, and which nodes are gone in the end.

Owns: the text of an entry of a directory; erasures of files; removing a list of
texts.

Does not own: where the texts come from.
-/

namespace Myscm.Library

/-- The text of an entry of a directory, the name as it is written. -/
def entryText (dir : Path) (last : Str) : Str := piecesText true (dir ++ [last])

namespace Fs

variable {fs next : Fs}

/-! ## Texts of entries -/

/-- A walk along the names of a directory goes on from there. -/
theorem walk_along {follow : Bool} {links : Nat} {current names : Path} (rest : List Str)
    (isDir : fs.isDirAt (current ++ names) = true) :
    fs.walk follow links current (names ++ rest) = fs.walk follow links (current ++ names) rest := by
  induction names generalizing current with
  | nil => rw [List.nil_append, List.append_nil]
  | cons name later inductionHypothesis =>
      have reassoc : current ++ name :: later = (current ++ [name]) ++ later := by simp
      have present := isSome_of_isDirAt isDir
      have above : fs.isDirAt current = true := isDirAt_of_extends present (by simp)
      have isName : IsName name := isName_of_extends present
      have here : fs.isDirAt (current ++ [name]) = true :=
        isDirAt_of_isPrefix isDir (List.cons_prefix_cons.mpr ⟨rfl, List.nil_prefix⟩)
      rw [List.cons_append, walk_name above isName.notIdle isName.2.2.1 (targetAt_of_isDirAt here),
        reassoc]
      apply inductionHypothesis
      rwa [← reassoc]

variable {dir : Path} {last : Str} (isDir : fs.isDirAt dir = true) (noSlash : '/' ∉ last)
include isDir noSlash

theorem locate_entryText :
    fs.locate false (entryText dir last) =
      some (if Idle last then dir else if Up last then dir.dropLast else dir ++ [last]) := by
  have proper : ∀ piece ∈ dir ++ [last], '/' ∉ piece := by
    intro piece member
    rcases List.mem_append.mp member with inDir | here
    · exact (isName_of_mem (isSome_of_isDirAt isDir) inDir).2.2.2
    · rwa [List.mem_singleton.mp here]
  have split : (entryText dir last).splitOn '/' = [] :: (dir ++ [last]) :=
    splitOn_piecesText true (by simp) proper
  have root : fs.isDirAt [] = true := fs.root
  have start : fs.textStart (entryText dir last) = [] := rfl
  rw [locate_eq (by simp [entryText, piecesText]), start, split, walk_idle root (.inl rfl),
    walk_along [last] (by rwa [List.nil_append]), List.nil_append]
  split_ifs with idle up
  · rw [walk_idle isDir idle, walk_nil]
  · rw [walk_up isDir up, walk_nil]
  · cases link : fs.targetAt (dir ++ [last]) with
    | none => rw [walk_name isDir idle up link, walk_nil]
    | some target => exact walk_last isDir idle up link

/-- Where such a text is removed, a file of the directory is: neither the directory itself
nor the one above is removed. -/
theorem remove_entryText (removed : fs.remove (entryText dir last) = some next) :
    fs.isDirAt (dir ++ [last]) = false ∧ fs.eraseAt (dir ++ [last]) = some next := by
  unfold remove at removed
  rw [locate_entryText isDir noSlash, Option.bind_some] at removed
  by_cases idle : Idle last
  · rw [if_pos idle, isDir] at removed
    cases removed
  · rw [if_neg idle] at removed
    by_cases up : Up last
    · have above : fs.isDirAt dir.dropLast = true := (placeable_of_isSome (isSome_of_isDirAt isDir)).1
      rw [if_pos up, above] at removed
      cases removed
    · rw [if_neg up] at removed
      split at removed
      · cases removed
      · rename_i file
        exact ⟨by simpa using file, removed⟩

omit noSlash in
/-- A file in the directory is removed by its text. -/
theorem remove_eq_eraseAt (isName : IsName last) (file : fs.isDirAt (dir ++ [last]) = false) :
    fs.remove (entryText dir last) = fs.eraseAt (dir ++ [last]) := by
  rw [remove, locate_entryText isDir isName.2.2.2, if_neg isName.notIdle, if_neg isName.2.2.1,
    Option.bind_some, file]
  rfl

end Fs

/-! ## Erasures of files -/

namespace Fs

/-- The nodes at these paths are gone, files all of them, and nothing else changed. -/
structure FilesErased (gone : List Path) (fs next : Fs) : Prop where
  node : ∀ path, next.node path = if path ∈ gone then none else fs.node path
  file : ∀ path ∈ gone, fs.isDirAt path = false

theorem FilesErased.none (fs : Fs) : FilesErased [] fs fs where
  node path := by simp
  file path member := by cases member

theorem filesErased_of_eraseAt {fs next : Fs} {path : Path} (erased : fs.eraseAt path = some next)
    (file : fs.isDirAt path = false) : FilesErased [path] fs next where
  node other := by
    rw [node_of_eraseAt erased]
    simp only [List.mem_singleton]
  file other member := by rwa [List.mem_singleton.mp member]

theorem FilesErased.isDirAt {gone : List Path} {fs next : Fs} (erased : FilesErased gone fs next)
    (path : Path) : next.isDirAt path = fs.isDirAt path := by
  by_cases member : path ∈ gone
  · rw [erased.file path member, isDirAt_of_none]
    rw [erased.node, if_pos member]
  · rw [Fs.isDirAt, Fs.isDirAt, erased.node, if_neg member]

theorem FilesErased.trans {early late : List Path} {fs middle next : Fs}
    (first : FilesErased early fs middle) (second : FilesErased late middle next) :
    FilesErased (early ++ late) fs next where
  node path := by
    rw [second.node, first.node]
    by_cases inLate : path ∈ late
    · rw [if_pos inLate, if_pos (List.mem_append_right _ inLate)]
    · rw [if_neg inLate]
      simp only [List.mem_append, inLate, or_false]
  file path member := by
    rcases List.mem_append.mp member with inEarly | inLate
    · exact first.file path inEarly
    · rw [← first.isDirAt]
      exact second.file path inLate

/-! ## Removing a list of texts -/

/-- `os.remove` of one text after another. -/
def removeAll : List Str → Fs → Option Fs
  | [], fs => some fs
  | s :: rest, fs => (fs.remove s).bind (removeAll rest)

/-- Names written below directories, which hold no slash. -/
def EntriesOf (entries : List (Path × Str)) (fs : Fs) : Prop :=
  ∀ entry ∈ entries, fs.isDirAt entry.1 = true ∧ '/' ∉ entry.2

/-- The texts of the entries. -/
def entryTexts (entries : List (Path × Str)) : List Str :=
  entries.map fun entry => entryText entry.1 entry.2

/-- The places of the entries. -/
def entryPlaces (entries : List (Path × Str)) : List Path :=
  entries.map fun entry => entry.1 ++ [entry.2]

theorem EntriesOf.erased {entries : List (Path × Str)} {gone : List Path} {fs next : Fs}
    (known : EntriesOf entries fs) (erased : FilesErased gone fs next) : EntriesOf entries next := by
  intro entry member
  rw [erased.isDirAt]
  exact known entry member

/-- What is removed are the files at the places of the entries. -/
theorem filesErased_of_removeAll {entries : List (Path × Str)} {fs finish : Fs}
    (known : EntriesOf entries fs) (removed : removeAll (entryTexts entries) fs = some finish) :
    FilesErased (entryPlaces entries) fs finish := by
  induction entries generalizing fs with
  | nil =>
      obtain rfl := Option.some.inj removed
      exact FilesErased.none fs
  | cons entry rest inductionHypothesis =>
      obtain ⟨isDir, noSlash⟩ := known entry List.mem_cons_self
      obtain ⟨middle, here, later⟩ := Option.bind_eq_some_iff.mp removed
      obtain ⟨file, erased⟩ := remove_entryText isDir noSlash here
      have first := filesErased_of_eraseAt erased file
      have knownRest : EntriesOf rest fs := fun other member =>
        known other (List.mem_cons_of_mem _ member)
      exact first.trans (inductionHypothesis (knownRest.erased first) later)

/-- Files at different places are removed one after another. -/
theorem exists_removeAll {entries : List (Path × Str)} {fs : Fs} (known : EntriesOf entries fs)
    (distinct : (entryPlaces entries).Nodup)
    (files : ∀ place ∈ entryPlaces entries,
      (fs.node place).isSome = true ∧ fs.isDirAt place = false) :
    ∃ finish, removeAll (entryTexts entries) fs = some finish := by
  induction entries generalizing fs with
  | nil => exact ⟨fs, rfl⟩
  | cons entry rest inductionHypothesis =>
      obtain ⟨isDir, _⟩ := known entry List.mem_cons_self
      obtain ⟨present, file⟩ := files (entry.1 ++ [entry.2]) List.mem_cons_self
      obtain ⟨notHere, distinctRest⟩ := List.nodup_cons.mp distinct
      obtain ⟨node, found⟩ := Option.isSome_iff_exists.mp present
      have erasable := eraseAt_isSome_of_file found ((isDirAt_of_node found).symm.trans file)
      obtain ⟨middle, erased⟩ := Option.isSome_iff_exists.mp erasable
      have first := filesErased_of_eraseAt erased file
      have knownRest : EntriesOf rest fs := fun other member =>
        known other (List.mem_cons_of_mem _ member)
      have filesRest : ∀ place ∈ entryPlaces rest,
          (middle.node place).isSome = true ∧ middle.isDirAt place = false := by
        intro place member
        have elsewhere : place ∉ [entry.1 ++ [entry.2]] := by
          rw [List.mem_singleton]
          rintro rfl
          exact notHere member
        rw [first.node, if_neg elsewhere, first.isDirAt]
        exact files place (List.mem_cons_of_mem _ member)
      obtain ⟨finish, later⟩ := inductionHypothesis (knownRest.erased first) distinctRest filesRest
      have isName : IsName entry.2 := (fs.grounded _ _ present).2
      refine ⟨finish, ?_⟩
      show (fs.remove (entryText entry.1 entry.2)).bind (removeAll (entryTexts rest)) = some finish
      rw [remove_eq_eraseAt isDir isName file, erased, Option.bind_some, later]

end Fs

end Myscm.Library
