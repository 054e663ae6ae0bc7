import Mathlib.Data.Finmap
import Mathlib.Data.Finset.Sort
import Mathlib.Data.List.Lex
import Mathlib.Data.Char
import Myscm.Library.Text

/-!
Owns one directory as a finite map from entry names to entries, and the
rename of an entry within it.

Owns: `os.replace` inside a directory, with its rules for files and
directories, and what a rename leaves at every name.

Does not own: paths, links, permissions.
-/

namespace Myscm.Library

/-- What `os.replace` asks about a directory entry. -/
class FileNode (ν : Type) where
  isDirectory : ν → Bool
  isEmptyDirectory : ν → Bool

/-- A directory: entry names and what stands there. -/
abbrev Directory (ν : Type) : Type :=
  Finmap fun _ : Str => ν

namespace Directory

variable {ν : Type}

section Replace

variable [FileNode ν]

/-- A file takes the place of a file, a directory that of an empty directory. -/
def mayReplace (node target : ν) : Bool :=
  if FileNode.isDirectory node then
    FileNode.isDirectory target && FileNode.isEmptyDirectory target
  else
    !FileNode.isDirectory target

/-- `os.replace` of entry `a` to entry `b`, or none where it raises `OSError`. -/
def replace (a b : Str) (directory : Directory ν) : Option (Directory ν) :=
  match directory.lookup a with
  | none => none
  | some node =>
      if a = b then
        some directory
      else
        match directory.lookup b with
        | none => some ((directory.erase a).insert b node)
        | some target =>
            if mayReplace node target then some ((directory.erase a).insert b node) else none

theorem replace_missing {a b : Str} {directory : Directory ν}
    (missing : directory.lookup a = none) : directory.replace a b = none := by
  simp [replace, missing]

theorem replace_to_new {a b : Str} {directory : Directory ν} {node : ν}
    (found : directory.lookup a = some node) (differ : a ≠ b)
    (free : directory.lookup b = none) :
    directory.replace a b = some ((directory.erase a).insert b node) := by
  simp [replace, found, differ, free]

theorem replace_over {a b : Str} {directory : Directory ν} {node target : ν}
    (found : directory.lookup a = some node) (differ : a ≠ b)
    (taken : directory.lookup b = some target) :
    directory.replace a b =
      if mayReplace node target then some ((directory.erase a).insert b node) else none := by
  simp [replace, found, differ, taken]

/-- What a successful rename has done. -/
theorem replace_cases {a b : Str} {directory result : Directory ν}
    (renamed : directory.replace a b = some result) :
    ∃ node, directory.lookup a = some node ∧
      ((a = b ∧ result = directory) ∨
        (a ≠ b ∧ result = (directory.erase a).insert b node)) := by
  unfold replace at renamed
  split at renamed
  · cases renamed
  · rename_i node found
    refine ⟨node, found, ?_⟩
    split at renamed
    · rename_i same
      exact .inl ⟨same, (Option.some.inj renamed).symm⟩
    · rename_i differ
      refine .inr ⟨differ, ?_⟩
      split at renamed
      · exact (Option.some.inj renamed).symm
      · split at renamed
        · exact (Option.some.inj renamed).symm
        · cases renamed

/-- After a rename the target holds what the source held. -/
theorem lookup_replace_target {a b : Str} {directory result : Directory ν}
    (renamed : directory.replace a b = some result) : result.lookup b = directory.lookup a := by
  obtain ⟨node, found, ⟨rfl, rfl⟩ | ⟨_, rfl⟩⟩ := replace_cases renamed
  · rfl
  · rw [Finmap.lookup_insert, found]

/-- A rename leaves every third name alone. -/
theorem lookup_replace_other {a b name : Str} {directory result : Directory ν}
    (renamed : directory.replace a b = some result) (notSource : name ≠ a)
    (notTarget : name ≠ b) : result.lookup name = directory.lookup name := by
  obtain ⟨node, _, ⟨_, rfl⟩ | ⟨_, rfl⟩⟩ := replace_cases renamed
  · rfl
  · rw [Finmap.lookup_insert_of_ne _ notTarget, Finmap.lookup_erase_ne notSource]

/-- A rename to another name leaves nothing at the source. -/
theorem lookup_replace_source {a b : Str} {directory result : Directory ν}
    (renamed : directory.replace a b = some result) (differ : a ≠ b) :
    result.lookup a = none := by
  obtain ⟨node, _, ⟨same, _⟩ | ⟨_, rfl⟩⟩ := replace_cases renamed
  · exact absurd same differ
  · rw [Finmap.lookup_insert_of_ne _ differ, Finmap.lookup_erase]

end Replace

/-- `os.listdir`: the entry names. The order is the system's own; here it is
the sorted one. -/
def listdir (directory : Directory ν) : List Str :=
  directory.keys.sort

theorem mem_listdir {directory : Directory ν} {name : Str} :
    name ∈ directory.listdir ↔ ∃ node, directory.lookup name = some node := by
  rw [listdir, Finset.mem_sort, Finmap.mem_keys, Finmap.mem_iff]

end Directory

end Myscm.Library
