import Myscm.Library.AbsPaths
import Myscm.Server.ImageReports

/-!
Owns the pass over sorted paths with which the server leaves out what lies below a
path it has dealt with, and removed.txt.

Owns: `topPaths`, the loop that scanner and generator share; the lines of
removed.txt; the exact condition under which the listed paths cover the removed ones
once.

Does not own: warnings about templates without their files.
-/

namespace Myscm.Server

open Myscm.Library

/-- `/non-existing-path-to-initialize-loop`. -/
def nonExistingPath : AbsPath :=
  ⟨["non-existing-path-to-initialize-loop".toList], by decide⟩

/-- The loop over the sorted paths, with `common_path`. Absolute paths always have a
`commonpath`. -/
def keepTopPaths (commonPath : AbsPath) : List AbsPath → List AbsPath
  | [] => []
  | path :: rest =>
      if Str.commonpath path.text commonPath.text = some commonPath.text then
        keepTopPaths commonPath rest
      else
        path :: keepTopPaths path rest

/-- The paths that are not skipped. -/
def topPaths (paths : List AbsPath) : List AbsPath :=
  keepTopPaths nonExistingPath (paths.insertionSort (· ≤ ·))

namespace SystemImageGenerator

/-- The lines of `_append_removed_entry_line` and of `_append_added_entry_line`. -/
def entryLine (packageName : Str → Except GeneratorError Str) (path : AbsPath) :
    Except GeneratorError Str := do
  let pkgName ← packageName path.text
  return appendEntryLine path.text pkgName

/-- `_add_to_img_file_removed_entries`: the lines of removed.txt. -/
def addToImgFileRemovedEntries (header : ReportHeader)
    (packageName : Str → Except GeneratorError Str) (removed : List AbsPath) :
    Except GeneratorError (List Str) := do
  let lines ← (topPaths removed).mapM (entryLine packageName)
  return appendRemovedEntriesHeader header ++ lines

end SystemImageGenerator

theorem keepTopPaths_eq_collapse (commonPath : AbsPath) (paths : List AbsPath) :
    keepTopPaths commonPath paths = collapse AbsPath.IsAbove commonPath paths := by
  induction paths generalizing commonPath with
  | nil => rfl
  | cons path rest inductionHypothesis =>
      rw [keepTopPaths, collapse_cons, inductionHypothesis, inductionHypothesis]
      simp only [AbsPath.commonpath_eq_iff]

theorem mem_of_mem_topPaths {added : List AbsPath} {path : AbsPath} (isTop : path ∈ topPaths added) :
    path ∈ added := by
  rw [topPaths, keepTopPaths_eq_collapse] at isTop
  exact (List.mem_insertionSort (· ≤ ·)).mp (mem_of_mem_collapse isTop)

/-- Covering once looks at the entries as a set. -/
theorem coversOnce_congr {entries entries' kept : List AbsPath}
    (same : ∀ path, path ∈ entries ↔ path ∈ entries') :
    CoversOnce AbsPath.IsAbove entries kept ↔ CoversOnce AbsPath.IsAbove entries' kept := by
  simp only [CoversOnce, same]

/-- The path the loop starts with lies above the first of the paths. -/
def StartsBelow (paths : List AbsPath) : Prop :=
  ∃ least ∈ paths, (∀ path ∈ paths, least ≤ path) ∧ nonExistingPath.IsAbove least

theorem mem_sorted_iff {paths : List AbsPath} {path : AbsPath} :
    path ∈ paths.insertionSort (· ≤ ·) ↔ path ∈ paths :=
  List.mem_insertionSort (· ≤ ·)

theorem topPaths_coversOnce_iff (paths : List AbsPath) :
    CoversOnce AbsPath.IsAbove paths (topPaths paths) ↔
      ¬ StartsBelow paths ∧ ¬ Interleaved AbsPath.IsAbove paths := by
  rw [topPaths, keepTopPaths_eq_collapse, ← coversOnce_congr fun _ => mem_sorted_iff,
    coversOnce_collapse_iff AbsPath.ancestry (List.pairwise_insertionSort (· ≤ ·) paths)]
  simp only [StartsBelow, Interleaved, Topmost, mem_sorted_iff]
  refine and_congr_left fun _ => ?_
  constructor
  · rintro start ⟨least, member, isLeast, below⟩
    exact start least member isLeast below
  · exact fun start least member isLeast below => start ⟨least, member, isLeast, below⟩

theorem pairwise_topPaths (paths : List AbsPath) : (topPaths paths).Pairwise (· < ·) := by
  rw [topPaths, keepTopPaths_eq_collapse]
  exact pairwise_lt_collapse AbsPath.ancestry.refl (List.pairwise_insertionSort (· ≤ ·) paths)

/-- A path with none above it is kept, unless the loop starts above the first. -/
theorem mem_topPaths_of_topmost {paths : List AbsPath} (start : ¬ StartsBelow paths) {top : AbsPath}
    (topmost : Topmost AbsPath.IsAbove paths top) : top ∈ topPaths paths := by
  rw [topPaths, keepTopPaths_eq_collapse]
  refine mem_collapse_of_topmost AbsPath.ancestry (List.pairwise_insertionSort (· ≤ ·) paths)
    (fun least member isLeast below => start ?_) ?_
  · exact ⟨least, mem_sorted_iff.mp member, fun path isPath => isLeast path (mem_sorted_iff.mpr isPath),
      below⟩
  · exact ⟨mem_sorted_iff.mpr topmost.1, fun other member => topmost.2 other (mem_sorted_iff.mp member)⟩

/-- The first path is not kept where the loop starts above it. -/
theorem not_isAbove_of_least_mem_topPaths {paths : List AbsPath} {least : AbsPath}
    (isLeast : ∀ path ∈ paths, least ≤ path) (isTop : least ∈ topPaths paths) :
    ¬ nonExistingPath.IsAbove least := by
  rw [topPaths, keepTopPaths_eq_collapse] at isTop
  refine not_above_of_least_mem_collapse AbsPath.ancestry
    (List.pairwise_insertionSort (· ≤ ·) paths) (fun path member => ?_) isTop
  exact isLeast path (mem_sorted_iff.mp member)

namespace SystemImageGenerator

/-- The paths that removed.txt lists cover the removed ones once just where the first of these
is not at or below the path the loop starts with, and none without a removed directory above it
sorts between such a directory and what lies below that. -/
theorem removedEntries_coversOnce_iff (header : ReportHeader)
    (packageName : Str → Except GeneratorError Str) (removed : List AbsPath) :
    addToImgFileRemovedEntries header packageName removed =
        (appendRemovedEntriesHeader header ++ ·) <$>
          (topPaths removed).mapM (entryLine packageName) ∧
      (CoversOnce AbsPath.IsAbove removed (topPaths removed) ↔
        ¬ StartsBelow removed ∧ ¬ Interleaved AbsPath.IsAbove removed) :=
  ⟨rfl, topPaths_coversOnce_iff removed⟩

/-- A removed directory with a file in it, and a removed sibling that sorts between them. -/
def siblingPaths : List AbsPath :=
  [⟨["a".toList], by decide⟩, ⟨["a-b".toList], by decide⟩, ⟨["a".toList, "c".toList], by decide⟩]

theorem not_coversOnce_siblingPaths :
    ¬ CoversOnce AbsPath.IsAbove siblingPaths (topPaths siblingPaths) := by
  decide

end SystemImageGenerator

end Myscm.Server
