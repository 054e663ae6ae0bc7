import Myscm.Library.FileMoves
import Myscm.Library.TarAdd

/-!
Owns walks of `os.walk` that go to their end.

Owns: the rule of a loop that goes to its end; what a walk finds in a directory; the number of
entries below a directory, and the walk that counts them.

Does not own: what a walk does with the entries.
-/

namespace Myscm.Library

/-- A loop goes to its end where each turn does, and keeps what the next one needs. -/
theorem Prog.exists_ends_foldOver {σ ε α β : Type} {body : α → β → Prog σ ε α}
    {inv : List β → α → σ → Prop}
    (turn : ∀ item rest acc start, inv (item :: rest) acc start →
      ∃ next finish, Ends (body acc item) start next finish ∧ inv rest next finish)
    {items : List β} {acc : α} {start : σ} (begins : inv items acc start) :
    ∃ last finish, Ends (foldOver body acc items) start last finish ∧ inv [] last finish := by
  induction items generalizing acc start with
  | nil => exact ⟨acc, start, (ends_ret_iff _ _ _ _).mpr ⟨rfl, rfl⟩, begins⟩
  | cons item rest inductionHypothesis =>
      obtain ⟨next, middle, ended, kept⟩ := turn item rest acc start begins
      obtain ⟨last, finish, endedRest, keptRest⟩ := inductionHypothesis kept
      exact ⟨last, finish, (ends_andThen_iff _ _ _ _ _).mpr ⟨next, middle, ended, endedRest⟩, keptRest⟩

namespace Fs

/-- The entries below a directory, down to `levels` levels. -/
def entriesBelow (fs : Fs) : Nat → Path → Nat
  | 0, _ => 0
  | levels + 1, path =>
      ((fs.children path).map fun name =>
        1 + if fs.isDirAt (path ++ [name]) then fs.entriesBelow levels (path ++ [name]) else 0).sum

/-- The entries below an entry, if it is a directory. -/
def entriesIn (fs : Fs) (levels : Nat) (path : Path) : Nat :=
  if fs.isDirAt path then fs.entriesBelow levels path else 0

variable {fs tree : Fs} {s : Str} {root names : Path}

/-! ## The entries of a directory -/

/-- A walk finds the entries of a directory: the directories, links to directories among them, and
the others. -/
structure Scanned (fs : Fs) (root names : Path) (dirs files : List Str) : Prop where
  nodup : (dirs ++ files).Nodup
  mem_iff : ∀ name, name ∈ dirs ++ files ↔ (fs.node (root ++ (names ++ [name]))).isSome = true
  dirOrLink : ∀ name ∈ dirs, fs.isDirAt (root ++ (names ++ [name])) = true ∨
    ∃ target, fs.targetAt (root ++ (names ++ [name])) = some target
  notDir : ∀ name ∈ files, fs.isDirAt (root ++ (names ++ [name])) = false

theorem Scanned.isName {dirs files : List Str} (scanned : Scanned fs root names dirs files)
    {name : Str} (member : name ∈ dirs ++ files) : IsName name :=
  isName_of_mem ((scanned.mem_iff name).mp member) (by simp)

/-- Where the same entries stand, the same are found. -/
theorem Scanned.congr {dirs files : List Str} (scanned : Scanned fs root names dirs files)
    (same : ∀ name, fs.node (root ++ (names ++ [name])) = tree.node (root ++ (names ++ [name]))) :
    Scanned tree root names dirs files where
  nodup := scanned.nodup
  mem_iff name := by rw [scanned.mem_iff, same]
  dirOrLink name member := by
    rw [isDirAt, targetAt, ← same]
    exact scanned.dirOrLink name member
  notDir name member := by
    rw [isDirAt, ← same]
    exact scanned.notDir name member

theorem isDirAt_root_of_below (isDir : fs.isDirAt (root ++ names) = true) :
    fs.isDirAt root = true := by
  have here := isDirAt_of_isPrefix isDir List.nil_prefix
  rwa [List.append_nil] at here

theorem named_of_isDirAt (isDir : fs.isDirAt (root ++ names) = true) : ∀ name ∈ names, IsName name :=
  fun _ member => isName_of_mem (isSome_of_isDirAt isDir) (List.mem_append_right root member)

section Leading

variable (lead : Leads fs s root) (isDir : fs.isDirAt (root ++ names) = true)
include lead isDir

theorem locate_dir (follow : Bool) : fs.locate follow (textBelow s names) = some (root ++ names) :=
  locate_textBelow lead (isDirAt_root_of_below isDir)
    (leadsOn_of_isDirAt (named_of_isDirAt isDir) isDir) follow

theorem joinPath_dir {name : Str} (isName : IsName name) :
    Str.joinPath (textBelow s names) name = textBelow s (names ++ [name]) :=
  joinPath_textBelow lead.isOpen lead.ne_nil (named_of_isDirAt isDir) isName

/-- A walk that comes to a directory finds its entries. -/
theorem exists_scanned :
    ∃ dirs files, fs.scandir (textBelow s names) = some (dirs, files) ∧
      Scanned fs root names dirs files := by
  refine ⟨_, _, by rw [scandir, locate_dir lead isDir true, Option.bind_some, if_pos isDir,
    List.partition_eq_filter_filter], ?_, ?_, ?_, ?_⟩
  · exact (List.filter_append_perm _ _).nodup_iff.mpr (fs.nodup_listing _)
  · intro name
    refine (List.filter_append_perm _ _).mem_iff.trans ?_
    rw [mem_listing, List.append_assoc]
  · intro name member
    obtain ⟨entry, found⟩ := List.mem_filter.mp member
    have isName : IsName name := (fs.grounded _ name (mem_listing.mp entry)).2
    rw [joinPath_dir lead isDir isName] at found
    cases link : fs.targetAt (root ++ (names ++ [name])) with
    | some target => exact .inr ⟨target, rfl⟩
    | none =>
        left
        rw [isdir, stat, locate_textBelow lead (isDirAt_root_of_below isDir) (leadsOn_snoc
          (named_of_isDirAt isDir) isName isDir link), Option.bind_some] at found
        exact found
  · intro name member
    obtain ⟨entry, isFile⟩ := List.mem_filter.mp member
    have isName : IsName name := (fs.grounded _ name (mem_listing.mp entry)).2
    cases isDirBelow : fs.isDirAt (root ++ (names ++ [name])) with
    | false => rfl
    | true =>
        have found : fs.isdir (textBelow s (names ++ [name])) = true := by
          rw [isdir, stat, locate_dir lead isDirBelow true, Option.bind_some]
          exact isDirBelow
        rw [Function.comp_apply, joinPath_dir lead isDir isName, found] at isFile
        cases isFile

/-- What the text of an entry names, if no last link is followed. -/
theorem lstat_entry {name : Str} (isName : IsName name) :
    fs.lstat (textBelow s (names ++ [name])) = fs.node (root ++ (names ++ [name])) := by
  have noLinkAbove := targetAt_of_isDirAt (isDirAt_root_of_below isDir)
  cases found : fs.node (root ++ (names ++ [name])) with
  | some node =>
      rw [lstat, locate_textBelow_of_present lead noLinkAbove (by simp) (by rw [found]; rfl),
        Option.bind_some, found]
  | none =>
      rw [lstat, locate_textBelow lead (isDirAt_root_of_below isDir) (leadsOn_snoc
        (named_of_isDirAt isDir) isName isDir (targetAt_of_none found)), Option.bind_some, found]

theorem islink_dir {name : Str} (isName : IsName name)
    (isDirBelow : fs.isDirAt (root ++ (names ++ [name])) = true) :
    fs.islink (textBelow s (names ++ [name])) = false := by
  have noTarget := targetAt_of_isDirAt isDirBelow
  rw [targetAt] at noTarget
  rw [islink, lstat_entry lead isDir isName]
  cases found : fs.node (root ++ (names ++ [name])) with
  | none => rfl
  | some node =>
      rw [found, Option.bind_some] at noTarget
      rw [Option.any_some, Node.isSymlink, noTarget]
      rfl

/-- What is no directory cannot be listed, if it is no link. -/
theorem scandir_entry {name : Str} (isName : IsName name)
    (notDir : fs.isDirAt (root ++ (names ++ [name])) = false)
    (noLink : fs.targetAt (root ++ (names ++ [name])) = none) :
    fs.scandir (textBelow s (names ++ [name])) = none := by
  rw [scandir, locate_textBelow lead (isDirAt_root_of_below isDir) (leadsOn_snoc
    (named_of_isDirAt isDir) isName isDir noLink), Option.bind_some, if_neg (by simp [notDir])]

section Entries

variable {ε α : Type} {visit : α → Str → List Str → List Str → Prog Fs ε α} {name : Str}
  (isName : IsName name)
include isName

/-- An entry that is no directory is passed over. -/
theorem ends_walkEntry_of_not_dir (levels : Nat) (acc : α)
    (notDir : fs.isDirAt (root ++ (names ++ [name])) = false) :
    Prog.Ends (walkEntry visit levels (textBelow s names) acc name) fs acc fs := by
  rw [walkEntry, Prog.bind_eq, Prog.ends_andThen_iff, joinPath_dir lead isDir isName]
  refine ⟨_, fs, (Prog.ends_reads_iff _ _ _ _).mpr ⟨rfl, rfl⟩, ?_⟩
  split
  · exact (Prog.ends_ret_iff _ _ _ _).mpr ⟨rfl, rfl⟩
  · rename_i isNoLink
    have noLink : fs.targetAt (root ++ (names ++ [name])) = none := by
      rw [islink, lstat_entry lead isDir isName] at isNoLink
      rw [targetAt]
      cases found : fs.node (root ++ (names ++ [name])) with
      | none => rfl
      | some node =>
          rw [found, Option.any_some, Node.isSymlink, Bool.not_eq_true] at isNoLink
          simpa using isNoLink
    cases levels with
    | zero => exact (Prog.ends_ret_iff _ _ _ _).mpr ⟨rfl, rfl⟩
    | succ levels =>
        rw [osWalk_succ, Prog.ends_andThen_iff]
        refine ⟨_, fs, (Prog.ends_reads_iff _ _ _ _).mpr ⟨scandir_entry lead isDir isName notDir
          noLink, rfl⟩, ?_⟩
        exact (Prog.ends_ret_iff _ _ _ _).mpr ⟨rfl, rfl⟩

/-- A directory is walked. -/
theorem ends_walkEntry_of_dir {levels : Nat} {acc last : α} {finish : Fs}
    (isDirBelow : fs.isDirAt (root ++ (names ++ [name])) = true)
    (ends : Prog.Ends (osWalk visit levels acc (textBelow s (names ++ [name]))) fs last finish) :
    Prog.Ends (walkEntry visit levels (textBelow s names) acc name) fs last finish := by
  rw [walkEntry, Prog.bind_eq, Prog.ends_andThen_iff, joinPath_dir lead isDir isName]
  refine ⟨_, fs, (Prog.ends_reads_iff _ _ _ _).mpr
    ⟨islink_dir lead isDir isName isDirBelow, rfl⟩, ?_⟩
  rwa [if_neg Bool.false_ne_true]

end Entries

end Leading

/-! ## Counting -/

/-- The entries below a directory are its own, and those below its directories. -/
theorem entriesBelow_of_scanned {dirs files : List Str} (levels : Nat)
    (scanned : Scanned fs root names dirs files) :
    fs.entriesBelow (levels + 1) (root ++ names) = dirs.length + files.length +
      (dirs.map fun name => fs.entriesIn levels (root ++ (names ++ [name]))).sum := by
  have nodup : (fs.children (root ++ names)).Nodup := List.nodup_dedup _
  have perm : (fs.children (root ++ names)).Perm (dirs ++ files) := by
    refine (List.perm_ext_iff_of_nodup nodup scanned.nodup).mpr fun name => ?_
    rw [mem_children, scanned.mem_iff, List.append_assoc]
  have single (below : Str → Nat) (entries : List Str) :
      (entries.map fun name => 1 + below name).sum = entries.length + (entries.map below).sum := by
    induction entries with
    | nil => rfl
    | cons name rest inductionHypothesis =>
        simp only [List.map_cons, List.sum_cons, List.length_cons, inductionHypothesis]
        omega
  have noneBelow : (files.map fun name => fs.entriesIn levels (root ++ (names ++ [name]))).sum = 0 := by
    refine List.sum_eq_zero_iff_forall_eq_nat.mpr fun count member => ?_
    obtain ⟨name, inFiles, rfl⟩ := List.mem_map.mp member
    rw [entriesIn, scanned.notDir name inFiles, if_neg Bool.false_ne_true]
  have whole : fs.entriesBelow (levels + 1) (root ++ names) =
      ((dirs ++ files).map fun name =>
        1 + fs.entriesIn levels (root ++ (names ++ [name]))).sum := by
    rw [entriesBelow, (perm.map _).sum_nat]
    simp only [entriesIn, List.append_assoc]
  rw [whole, single, List.map_append, List.sum_append, noneBelow, List.length_append, Nat.add_zero]

end Fs

/-! ## The walk that counts -/

section Counting

open Fs

variable {ε : Type} {fs : Fs} {s : Str} {root : Path}

/-- A walk that adds up the entries of the directories it visits. -/
theorem ends_osWalk_count (lead : Leads fs s root) (levels : Nat) {names : Path} (count : Nat)
    (isDir : fs.isDirAt (root ++ names) = true) :
    Prog.Ends
      (osWalk (fun count _ dirs files => (Prog.ret (count + (dirs.length + files.length)) :
        Prog Fs ε Nat)) levels count (textBelow s names))
      fs (count + fs.entriesBelow levels (root ++ names)) fs := by
  induction levels generalizing names count with
  | zero => simp [osWalk, entriesBelow]
  | succ levels inductionHypothesis =>
      obtain ⟨dirs, files, listed, scanned⟩ := exists_scanned lead isDir
      -- What is still to be counted goes down with every directory that is walked.
      obtain ⟨last, finish, ended, ⟨_, total⟩, same⟩ := @Prog.exists_ends_foldOver Fs ε Nat Str
        (walkEntry (fun count _ dirs files => Prog.ret (count + (dirs.length + files.length)))
          levels (textBelow s names))
        (fun rest acc state =>
          (rest ⊆ dirs ∧
            acc + (rest.map fun name => fs.entriesIn levels (root ++ (names ++ [name]))).sum =
              count + fs.entriesBelow (levels + 1) (root ++ names)) ∧ state = fs)
        (by
          rintro name rest acc state ⟨⟨inDirs, sum⟩, same⟩
          rw [same]
          have isName := scanned.isName (List.mem_append_left files (inDirs List.mem_cons_self))
          rw [List.map_cons, List.sum_cons] at sum
          refine ⟨acc + fs.entriesIn levels (root ++ (names ++ [name])), fs, ?_,
            ⟨fun other later => inDirs (List.mem_cons_of_mem _ later), by omega⟩, rfl⟩
          rw [entriesIn]
          split
          · rename_i isDirBelow
            exact ends_walkEntry_of_dir lead isDir isName isDirBelow (inductionHypothesis _ isDirBelow)
          · rename_i notDir
            exact ends_walkEntry_of_not_dir lead isDir isName levels acc (by simpa using notDir))
        dirs (count + (dirs.length + files.length)) fs
        ⟨⟨List.Subset.refl _, by rw [entriesBelow_of_scanned levels scanned]; omega⟩, rfl⟩
      rw [List.map_nil, List.sum_nil, Nat.add_zero] at total
      rw [same] at ended
      rw [osWalk_succ, Prog.ends_andThen_iff]
      refine ⟨_, fs, (Prog.ends_reads_iff _ _ _ _).mpr ⟨listed, rfl⟩, ?_⟩
      rw [Prog.ends_andThen_iff, ← total]
      exact ⟨_, fs, (Prog.ends_ret_iff _ _ _ _).mpr ⟨rfl, rfl⟩, ended⟩

end Counting

end Myscm.Library
