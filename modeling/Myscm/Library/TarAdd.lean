import Myscm.Library.Removal
import Myscm.Library.Subtree

/-!
Owns `TarFile.add`: the members that a file, or a directory with all below it, adds
to an archive.

Owns: `add` with its filter; which paths it reaches, and that each of them becomes
one member.

Does not own: the bytes of an archive; an archive that lies in the tree added to it.
-/

namespace Myscm.Library

/-- A path text can be put together from the names. -/
def Path.Proper (path : Path) : Prop :=
  ∀ name ∈ path, ¬ Idle name ∧ '/' ∉ name

theorem IsName.notIdle {name : Str} (named : IsName name) : ¬ Idle name := by
  rintro (empty | dot)
  · exact named.1 empty
  · exact named.2.1 dot

theorem Path.Proper.snoc {path : Path} (proper : path.Proper) {name : Str} (named : IsName name) :
    Path.Proper (path ++ [name]) := by
  intro other member
  rcases List.mem_append.mp member with inPath | last
  · exact proper other inPath
  · rw [List.mem_singleton.mp last]
    exact ⟨named.notIdle, named.2.2.2⟩

theorem isAbs_of_isName {name : Str} (named : IsName name) : Str.isAbs name = false := by
  cases name with
  | nil => rfl
  | cons c rest =>
      have differ : '/' ≠ c := fun same => named.2.2.2 (same ▸ List.mem_cons_self)
      simp [Str.isAbs, Str.startsWith, List.isPrefixOf, differ]

theorem Path.text_snoc (front : Path) (last : Str) :
    Path.text (front ++ [last]) = front.flatMap ('/' :: ·) ++ '/' :: last := by
  cases front <;> simp [Path.text]

/-- A text that ends in a name does not end in a slash. -/
theorem endsWith_slash {front last : Str} (nonempty : last ≠ []) (noSlash : '/' ∉ last) :
    Str.endsWith (front ++ '/' :: last) ['/'] = false := by
  rw [Str.endsWith, Bool.eq_false_iff]
  intro isSuffix
  obtain ⟨before, same⟩ := List.isSuffixOf_iff_suffix.mp isSuffix
  rw [← List.dropLast_append_getLast nonempty, ← List.cons_append, ← List.append_assoc] at same
  have lastChar := (List.append_inj' same rfl).2
  rw [List.cons.injEq] at lastChar
  exact noSlash (lastChar.1 ▸ List.getLast_mem nonempty)

/-- `os.path.join` of the text of a path, behind any front, and a name. -/
theorem joinPath_text (front : Str) {path : Path} {entry : Str} (proper : path.Proper)
    (named : IsName entry) :
    Str.joinPath (front ++ path.text) entry = front ++ Path.text (path ++ [entry]) := by
  rw [Str.joinPath, isAbs_of_isName named]
  simp only [Bool.false_eq_true, if_false]
  cases path using List.reverseRecOn with
  | nil =>
      have slash : Str.endsWith (front ++ ['/']) ['/'] = true :=
        List.isSuffixOf_iff_suffix.mpr (List.suffix_append _ _)
      rw [if_pos (.inr slash), List.append_assoc]
      simp [Path.text]
  | append_singleton path last =>
      obtain ⟨notIdle, noSlash⟩ := proper last (by simp)
      have nonempty : last ≠ [] := fun empty => notIdle (.inl empty)
      have notSlash : Str.endsWith (front ++ Path.text (path ++ [last])) ['/'] = false := by
        rw [Path.text_snoc, ← List.append_assoc]
        exact endsWith_slash nonempty noSlash
      rw [notSlash, if_neg (by simp [Path.text_snoc]), Path.text_snoc, Path.text_snoc]
      simp

namespace Fs

/-- `os.listdir`. -/
def listdir (fs : Fs) (s : Str) : Option (List Str) :=
  (fs.locate true s).bind fun path => if fs.isDirAt path then some (fs.listing path) else none

/-- `TarFile.add(name, arcname, filter)`: the members by name, or none where a call fails.
`keep` is the filter, which sees the name in the archive. A socket is left out. -/
def tarAdd (fs : Fs) (keep : Str → Bool) : Nat → Str → Str → Option (List (Str × Node))
  | 0, _, _ => none
  | levels + 1, name, arcname => do
      let node ← fs.lstat name
      if node.kind = .socket ∨ keep arcname = false then
        some []
      else if node.isDirectory then do
        let entries ← fs.listdir name
        let below ← entries.mapM fun entry =>
          tarAdd fs keep levels (Str.joinPath name entry) (Str.joinPath arcname entry)
        some ((arcname, node) :: below.flatten)
      else
        some [(arcname, node)]

/-! ## Entries behind a path text -/

/-- The text names a directory itself, not a link to one. -/
def isRealDir (fs : Fs) (path : Path) : Bool :=
  (fs.lstat path.text).any Node.isDirectory

/-- The names of the entries of a directory, and none for another node. -/
def entries (fs : Fs) (path : Path) : List Str :=
  if fs.isRealDir path then (fs.listdir path.text).getD [] else []

/-- The text of a path is walked from the root by the names. -/
theorem locate_text_eq (fs : Fs) (follow : Bool) {path : Path} (proper : path.Proper) :
    fs.locate follow path.text = fs.walk follow maxSymlinks [] path := by
  cases path with
  | nil =>
      have split : (Path.text []).splitOn '/' = [[], []] := by decide
      have start : fs.textStart (Path.text []) = [] := if_pos rfl
      rw [locate_eq (by decide), split, start, walk_idle fs.root (.inl rfl),
        walk_idle fs.root (.inl rfl)]
  | cons name rest =>
      have nonempty : Path.text (name :: rest) ≠ [] := by simp [Path.text]
      have start : fs.textStart (Path.text (name :: rest)) = [] := by
        rw [textStart, if_pos]
        simp [Path.text]
      rw [locate_eq nonempty, start, splitOn_text fun part member => (proper part member).2,
        walk_idle fs.root (.inl rfl)]

section Entries

variable {fs : Fs} {path : Path} (proper : path.Proper)

/-- What the text of a directory leads to, links at the end followed or not. -/
theorem exists_isDirAt (isDir : fs.isRealDir path = true) :
    ∃ dir, (∀ follow, fs.locate follow path.text = some dir) ∧ fs.isDirAt dir = true := by
  unfold isRealDir lstat at isDir
  cases located : fs.locate false path.text with
  | none => simp [located] at isDir
  | some dir =>
      rw [located] at isDir
      have isDir : fs.isDirAt dir = true := isDir
      refine ⟨dir, fun follow => ?_, isDir⟩
      cases follow with
      | false => exact located
      | true => exact locate_follow (targetAt_of_isDirAt isDir) located

include proper

/-- Behind a directory, the text of an entry names the entry. -/
theorem locate_entry {dir : Path} (located : fs.locate true path.text = some dir)
    (isDir : fs.isDirAt dir = true) {name : Str} (named : IsName name) :
    fs.locate false (Path.text (path ++ [name])) = some (dir ++ [name]) := by
  have same : Extends fs fs := ⟨fun _ h => h, fun _ _ h => h, fun _ _ _ h => h⟩
  rw [locate_text_eq fs true proper] at located
  obtain ⟨fewer, further⟩ := @walk_append fs false _ _ _ same _ [name] _ (.inl (by simp))
    (walks_of_walk located)
  rw [locate_text_eq fs false (proper.snoc named), further]
  cases link : fs.targetAt (dir ++ [name]) with
  | none => rw [walk_name isDir named.notIdle named.2.2.1 link, walk_nil]
  | some target => exact walk_last isDir named.notIdle named.2.2.1 link

theorem mem_entries {name : Str} :
    name ∈ fs.entries path ↔ fs.isRealDir path = true ∧ IsName name ∧
      (fs.lstat (Path.text (path ++ [name]))).isSome = true := by
  unfold entries
  by_cases isDir : fs.isRealDir path = true
  · obtain ⟨dir, located, dirHere⟩ := exists_isDirAt isDir
    rw [if_pos isDir, listdir, located true, Option.bind_some, if_pos dirHere, Option.getD_some,
      mem_listing]
    constructor
    · intro present
      have named : IsName name := (fs.grounded dir name present).2
      refine ⟨isDir, named, ?_⟩
      rw [lstat, locate_entry proper (located true) dirHere named]
      exact present
    · rintro ⟨_, named, present⟩
      rw [lstat, locate_entry proper (located true) dirHere named] at present
      exact present
  · rw [if_neg isDir]
    exact ⟨fun member => absurd member List.not_mem_nil, fun found => absurd found.1 isDir⟩

end Entries

theorem nodup_listing (fs : Fs) (path : Path) : (fs.listing path).Nodup :=
  (fs.order_perm _).nodup_iff.mpr (List.nodup_dedup _)

theorem nodup_entries (fs : Fs) (path : Path) : (fs.entries path).Nodup := by
  unfold entries listdir
  split
  · cases fs.locate true path.text with
    | none => exact List.nodup_nil
    | some dir =>
        rw [Option.bind_some]
        split
        · exact fs.nodup_listing dir
        · exact List.nodup_nil
  · exact List.nodup_nil

/-! ## The paths that are reached -/

/-- The path is `top`, or lies below it and is come to through directories alone. -/
inductive Contains (fs : Fs) (top : Path) : Path → Prop
  | top : (fs.lstat top.text).isSome = true → Contains fs top top
  | entry {path : Path} {name : Str} : Contains fs top path → name ∈ fs.entries path →
      Contains fs top (path ++ [name])

/-- A node that is added. -/
def Added (fs : Fs) (keep : Path → Bool) (path : Path) : Prop :=
  ∃ node, fs.lstat path.text = some node ∧ node.kind ≠ .socket ∧ keep path = true

/-- The path lies in the tree of `top`, and all on the way to it is added. -/
def Reaches (fs : Fs) (keep : Path → Bool) (top path : Path) : Prop :=
  fs.Contains top path ∧ ∀ middle, top <+: middle → middle <+: path → fs.Added keep middle

/-- The paths below `top` that are added, the top first. -/
def addedPaths (fs : Fs) (keep : Path → Bool) : Nat → Path → List Path
  | 0, _ => []
  | levels + 1, top =>
      match fs.lstat top.text with
      | none => []
      | some node =>
          if node.kind = .socket ∨ keep top = false then
            []
          else
            top :: (fs.entries top).flatMap fun entry => addedPaths fs keep levels (top ++ [entry])

variable {fs : Fs} {keep : Path → Bool} {top path : Path}

theorem Added.isSome (added : fs.Added keep path) : (fs.lstat path.text).isSome = true := by
  obtain ⟨node, found, _⟩ := added
  rw [found]
  rfl

theorem Contains.isPrefix (contains : fs.Contains top path) : top <+: path := by
  induction contains with
  | top => exact List.prefix_rfl
  | entry _ _ inductionHypothesis => exact inductionHypothesis.trans (List.prefix_append _ _)

theorem Contains.proper (contains : fs.Contains top path) (proper : top.Proper) : path.Proper := by
  induction contains with
  | top => exact proper
  | entry _ isEntry inductionHypothesis =>
      exact inductionHypothesis.snoc ((mem_entries inductionHypothesis).mp isEntry).2.1

theorem Contains.isSome (contains : fs.Contains top path) (proper : top.Proper) :
    (fs.lstat path.text).isSome = true := by
  cases contains with
  | top present => exact present
  | entry contains isEntry => exact ((mem_entries (contains.proper proper)).mp isEntry).2.2

theorem Contains.trans {middle : Path} (first : fs.Contains top middle)
    (second : fs.Contains middle path) : fs.Contains top path := by
  induction second with
  | top => exact first
  | entry _ isEntry inductionHypothesis => exact .entry inductionHypothesis isEntry

/-- All on the way from `top` to a path in its tree lies in the tree, and has the path in its own. -/
theorem Contains.split (contains : fs.Contains top path) (proper : top.Proper) {middle : Path}
    (below : top <+: middle) (above : middle <+: path) :
    fs.Contains top middle ∧ fs.Contains middle path := by
  induction contains with
  | top present =>
      obtain rfl : middle = top := above.eq_of_length_le below.length_le
      exact ⟨.top present, .top present⟩
  | @entry path name contains isEntry inductionHypothesis =>
      rcases List.prefix_concat_iff.mp above with rfl | higher
      · exact ⟨.entry contains isEntry, .top ((Contains.entry contains isEntry).isSome proper)⟩
      · obtain ⟨first, second⟩ := inductionHypothesis higher
        exact ⟨first, .entry second isEntry⟩

/-- A path in a tree is its top, or lies in the tree of one of the entries of the top. -/
theorem Contains.cases_top (contains : fs.Contains top path) (proper : top.Proper) :
    path = top ∨ ∃ entry ∈ fs.entries top, fs.Contains (top ++ [entry]) path := by
  induction contains with
  | top => exact .inl rfl
  | @entry path name contains isEntry inductionHypothesis =>
      rcases inductionHypothesis with rfl | ⟨first, inTop, below⟩
      · exact .inr ⟨name, isEntry, .top ((Contains.entry contains isEntry).isSome proper)⟩
      · exact .inr ⟨first, inTop, .entry below isEntry⟩

/-- The tree of a node that is no directory is the node alone. -/
theorem Contains.eq_top (contains : fs.Contains top path) (proper : top.Proper)
    (notDir : fs.isRealDir top = false) : path = top := by
  rcases contains.cases_top proper with here | ⟨entry, isEntry, _⟩
  · exact here
  · rw [mem_entries proper, notDir] at isEntry
    cases isEntry.1

theorem Reaches.first (reaches : fs.Reaches keep top path) : fs.Added keep top :=
  reaches.2 top List.prefix_rfl reaches.1.isPrefix

theorem Reaches.last (reaches : fs.Reaches keep top path) : fs.Added keep path :=
  reaches.2 path reaches.1.isPrefix List.prefix_rfl

theorem Reaches.trans {middle : Path} (first : fs.Reaches keep top middle)
    (second : fs.Reaches keep middle path) : fs.Reaches keep top path := by
  refine ⟨first.1.trans second.1, fun other below above => ?_⟩
  rcases List.prefix_or_prefix_of_prefix above second.1.isPrefix with higher | lower
  · exact first.2 other below higher
  · exact second.2 other lower above

theorem Reaches.split (reaches : fs.Reaches keep top path) (proper : top.Proper) {middle : Path}
    (below : top <+: middle) (above : middle <+: path) :
    fs.Reaches keep top middle ∧ fs.Reaches keep middle path := by
  obtain ⟨first, second⟩ := reaches.1.split proper below above
  exact ⟨⟨first, fun other lower higher => reaches.2 other lower (higher.trans above)⟩,
    ⟨second, fun other lower higher => reaches.2 other (below.trans lower) higher⟩⟩

/-- What is reached from a path is the path, or reached from one of its entries. -/
theorem reaches_iff (proper : top.Proper) :
    fs.Reaches keep top path ↔ fs.Added keep top ∧
      (path = top ∨ ∃ entry ∈ fs.entries top, fs.Reaches keep (top ++ [entry]) path) := by
  constructor
  · intro reaches
    refine ⟨reaches.first, ?_⟩
    rcases reaches.1.cases_top proper with here | ⟨entry, isEntry, below⟩
    · exact .inl here
    · refine .inr ⟨entry, isEntry, below, fun middle lower higher => ?_⟩
      exact reaches.2 middle ((List.prefix_append top [entry]).trans lower) higher
  · rintro ⟨added, rfl | ⟨entry, isEntry, reaches⟩⟩
    · refine ⟨.top added.isSome, fun middle lower higher => ?_⟩
      rwa [higher.eq_of_length_le lower.length_le]
    · have step : fs.Reaches keep top (top ++ [entry]) := by
        refine ⟨.entry (.top added.isSome) isEntry, fun middle lower higher => ?_⟩
        rcases List.prefix_concat_iff.mp higher with rfl | above
        · exact reaches.first
        · rwa [above.eq_of_length_le lower.length_le]
      exact step.trans reaches

theorem mem_addedPaths_succ {levels : Nat} :
    path ∈ fs.addedPaths keep (levels + 1) top ↔ fs.Added keep top ∧
      (path = top ∨ ∃ entry ∈ fs.entries top, path ∈ fs.addedPaths keep levels (top ++ [entry])) := by
  rw [addedPaths]
  cases found : fs.lstat top.text with
  | none =>
      simp only [List.not_mem_nil, false_iff]
      rintro ⟨⟨node, isNode, _⟩, _⟩
      rw [found] at isNode
      cases isNode
  | some node =>
      dsimp only
      by_cases leftOut : node.kind = .socket ∨ keep top = false
      · rw [if_pos leftOut]
        simp only [List.not_mem_nil, false_iff]
        rintro ⟨⟨other, isOther, notSocket, kept⟩, _⟩
        obtain rfl : node = other := Option.some.inj (found.symm.trans isOther)
        rcases leftOut with socket | dropped
        · exact notSocket socket
        · rw [dropped] at kept
          cases kept
      · rw [if_neg leftOut, List.mem_cons, List.mem_flatMap]
        rw [not_or, Bool.not_eq_false] at leftOut
        exact (and_iff_right ⟨node, found, leftOut⟩).symm

/-- The levels are enough for the tree of `top`. -/
def Deep (fs : Fs) (levels : Nat) (top : Path) : Prop :=
  ∀ address, fs.locate false top.text = some address → fs.depth < address.length + levels

theorem Deep.entry {levels : Nat} (deep : fs.Deep (levels + 1) top) (proper : top.Proper)
    {name : Str} (isEntry : name ∈ fs.entries top) : fs.Deep levels (top ++ [name]) := by
  intro address located
  obtain ⟨isDir, named, _⟩ := (mem_entries proper).mp isEntry
  obtain ⟨dir, toDir, dirHere⟩ := exists_isDirAt isDir
  rw [locate_entry proper (toDir true) dirHere named] at located
  rw [← Option.some.inj located, List.length_append, List.length_singleton]
  have := deep dir (toDir false)
  omega

/-- With levels enough for the tree, just what is reached is added. -/
theorem mem_addedPaths_iff {levels : Nat} (proper : top.Proper) (deep : fs.Deep levels top) :
    path ∈ fs.addedPaths keep levels top ↔ fs.Reaches keep top path := by
  induction levels generalizing top with
  | zero =>
      constructor
      · intro member
        exact absurd member List.not_mem_nil
      · intro reaches
        obtain ⟨address, located, present⟩ := Option.bind_eq_some_iff.mp
          (Option.eq_some_of_isSome reaches.first.isSome)
        have bound := length_le_depth (Option.isSome_iff_exists.mpr ⟨_, present⟩)
        have := deep address located
        omega
  | succ levels inductionHypothesis =>
      rw [mem_addedPaths_succ, reaches_iff proper]
      refine and_congr_right fun _ => or_congr_right ?_
      refine exists_congr fun entry => and_congr_right fun isEntry => ?_
      have named := ((mem_entries proper).mp isEntry).2.1
      exact inductionHypothesis (proper.snoc named) (deep.entry proper isEntry)

theorem prefix_of_mem_addedPaths {levels : Nat} (member : path ∈ fs.addedPaths keep levels top) :
    top <+: path := by
  induction levels generalizing top with
  | zero => exact absurd member List.not_mem_nil
  | succ levels inductionHypothesis =>
      obtain ⟨_, rfl | ⟨entry, _, below⟩⟩ := mem_addedPaths_succ.mp member
      · exact List.prefix_rfl
      · exact (List.prefix_append top [entry]).trans (inductionHypothesis below)

/-- Each path is added once. -/
theorem nodup_addedPaths (levels : Nat) (top : Path) : (fs.addedPaths keep levels top).Nodup := by
  induction levels generalizing top with
  | zero => exact List.nodup_nil
  | succ levels inductionHypothesis =>
      rw [addedPaths]
      split
      · exact List.nodup_nil
      · split
        · exact List.nodup_nil
        · rw [List.nodup_cons, List.nodup_flatMap]
          refine ⟨?_, fun entry _ => inductionHypothesis _, ?_⟩
          · intro member
            obtain ⟨entry, _, below⟩ := List.mem_flatMap.mp member
            have longer := (prefix_of_mem_addedPaths below).length_le
            rw [List.length_append, List.length_singleton] at longer
            omega
          · refine List.Pairwise.imp ?_ (fs.nodup_entries top)
            intro left right differ path inLeft inRight
            obtain ⟨more, rfl⟩ := prefix_of_mem_addedPaths inLeft
            obtain ⟨more', same⟩ := prefix_of_mem_addedPaths inRight
            rw [List.append_assoc, List.append_assoc] at same
            have := List.append_cancel_left same
            simp only [List.singleton_append, List.cons.injEq] at this
            exact differ this.1.symm

/-! ## The members -/

/-- The member of a path. -/
def member (fs : Fs) (arc : Path → Str) (path : Path) : Option (Str × Node) :=
  (fs.lstat path.text).map fun node => (arc path, node)

/-- The members have the names of the paths. -/
theorem map_fst_members (arc : Path → Str) (levels : Nat) (top : Path) :
    ((fs.addedPaths keep levels top).filterMap (fs.member arc)).map Prod.fst =
      (fs.addedPaths keep levels top).map arc := by
  have present : ∀ path ∈ fs.addedPaths keep levels top, (fs.lstat path.text).isSome = true := by
    induction levels generalizing top with
    | zero => exact fun path member => absurd member List.not_mem_nil
    | succ levels inductionHypothesis =>
        intro path member
        obtain ⟨added, rfl | ⟨entry, _, below⟩⟩ := mem_addedPaths_succ.mp member
        · exact added.isSome
        · exact inductionHypothesis _ path below
  revert present
  induction fs.addedPaths keep levels top with
  | nil => exact fun _ => rfl
  | cons first rest inductionHypothesis =>
      intro present
      obtain ⟨node, found⟩ := Option.isSome_iff_exists.mp (present first List.mem_cons_self)
      rw [List.filterMap_cons, member, found, Option.map_some, List.map_cons, List.map_cons,
        inductionHypothesis fun path member => present path (List.mem_cons_of_mem first member)]

private theorem mapM_eq_some {α β : Type} {f : α → Option β} {g : α → β} {xs : List α}
    (each : ∀ x ∈ xs, f x = some (g x)) : xs.mapM f = some (xs.map g) := by
  induction xs with
  | nil => rfl
  | cons x xs inductionHypothesis =>
      rw [List.mapM_cons, each x List.mem_cons_self,
        inductionHypothesis fun y member => each y (List.mem_cons_of_mem x member)]
      rfl

/-- `add` of a node makes one member of each path that is reached. -/
theorem tarAdd_text {keep : Str → Bool} {arc : Path → Str}
    (join : ∀ (path : Path) (entry : Str), path.Proper → IsName entry →
      Str.joinPath (arc path) entry = arc (path ++ [entry]))
    {levels : Nat} (proper : top.Proper) (deep : fs.Deep levels top)
    (present : (fs.lstat top.text).isSome = true) :
    fs.tarAdd keep levels top.text (arc top) =
      some ((fs.addedPaths (keep ∘ arc) levels top).filterMap (fs.member arc)) := by
  induction levels generalizing top with
  | zero =>
      obtain ⟨address, located, there⟩ := Option.bind_eq_some_iff.mp
        (Option.eq_some_of_isSome present)
      have bound := length_le_depth (Option.isSome_iff_exists.mpr ⟨_, there⟩)
      have := deep address located
      omega
  | succ levels inductionHypothesis =>
      obtain ⟨node, found⟩ := Option.isSome_iff_exists.mp present
      rw [tarAdd, addedPaths, found]
      dsimp only [bind, Option.bind, Function.comp]
      by_cases leftOut : node.kind = .socket ∨ keep (arc top) = false
      · rw [if_pos leftOut, if_pos leftOut]
        rfl
      · rw [if_neg leftOut, if_neg leftOut, List.filterMap_cons, member, found]
        have entries : ∀ entry ∈ fs.entries top,
            fs.tarAdd keep levels (Str.joinPath top.text entry) (Str.joinPath (arc top) entry) =
              some ((fs.addedPaths (keep ∘ arc) levels (top ++ [entry])).filterMap
                (fs.member arc)) := by
          intro entry isEntry
          obtain ⟨_, named, here⟩ := (mem_entries proper).mp isEntry
          have text := joinPath_text [] proper named
          rw [List.nil_append, List.nil_append] at text
          rw [text, join top entry proper named]
          exact inductionHypothesis (proper.snoc named) (deep.entry proper isEntry) here
        have isDirEq : fs.isRealDir top = node.isDirectory := by
          rw [isRealDir, found]
          rfl
        cases isDir : node.isDirectory with
        | true =>
            obtain ⟨dir, located, dirHere⟩ := exists_isDirAt (isDirEq.trans isDir)
            have listed : fs.listdir top.text = some (fs.listing dir) := by
              rw [listdir, located true, Option.bind_some, if_pos dirHere]
            have same : fs.entries top = fs.listing dir := by
              rw [Fs.entries, if_pos (isDirEq.trans isDir), listed, Option.getD_some]
            rw [if_pos rfl, listed]
            dsimp only
            rw [← same, mapM_eq_some entries, List.filterMap_flatMap]
            rfl
        | false =>
            have none : fs.entries top = [] := by
              rw [Fs.entries, isDirEq, isDir]
              rfl
            rw [if_neg Bool.false_ne_true, none]
            rfl

end Fs

end Myscm.Library
