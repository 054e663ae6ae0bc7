import Mathlib.Data.Finset.Max
import Mathlib.Data.List.Sort

/-!
Owns the pass over a sorted list that leaves out what lies below the entry it kept
last, for any order and any relation of lying above.

Owns: the pass; what it keeps and leaves out; the topmost entries of a list; the
exact condition under which it keeps just the topmost ones, which is when the kept
entries cover the list and none lies above another.

Does not own: paths.
-/

namespace Myscm.Library

/-- `above a b` says that `a` is `b` or lies above it: what lies above one entry forms a
chain, and comes before it in the order. -/
structure Ancestry {α : Type} [LinearOrder α] (above : α → α → Prop) : Prop where
  refl : ∀ a, above a a
  trans : ∀ {a b c}, above a b → above b c → above a c
  le : ∀ {a b}, above a b → a ≤ b
  chain : ∀ {a b c}, above a c → above b c → above a b ∨ above b a

/-- The entries kept by a pass that leaves out what lies below the entry kept last.
`common` is that entry. -/
def collapse {α : Type} (above : α → α → Prop) [DecidableRel above] (common : α) :
    List α → List α
  | [] => []
  | entry :: rest =>
      if above common entry then collapse above common rest
      else entry :: collapse above entry rest

/-- The entry is in the list, and no other entry of the list lies above it. -/
def Topmost {α : Type} (above : α → α → Prop) (entries : List α) (entry : α) : Prop :=
  entry ∈ entries ∧ ∀ other ∈ entries, above other entry → other = entry

/-- Every entry has a kept one above it, and no kept entry lies above another. -/
def CoversOnce {α : Type} (above : α → α → Prop) (entries kept : List α) : Prop :=
  (∀ entry ∈ entries, ∃ top ∈ kept, above top entry) ∧
    ∀ left ∈ kept, ∀ right ∈ kept, above left right → left = right

instance {α : Type} [DecidableEq α] (above : α → α → Prop) [DecidableRel above]
    (entries kept : List α) : Decidable (CoversOnce above entries kept) :=
  inferInstanceAs (Decidable (_ ∧ _))

/-- Another topmost entry comes between a topmost entry and one that lies below it. -/
def Interleaved {α : Type} [LinearOrder α] (above : α → α → Prop) (entries : List α) : Prop :=
  ∃ top other entry, Topmost above entries top ∧ Topmost above entries other ∧
    entry ∈ entries ∧ top < other ∧ other < entry ∧ above top entry

namespace Ancestry

variable {α : Type} [LinearOrder α] {above : α → α → Prop} (ancestry : Ancestry above)
include ancestry

theorem antisymm {a b : α} (left : above a b) (right : above b a) : a = b :=
  le_antisymm (ancestry.le left) (ancestry.le right)

/-- Every entry has a topmost one above it. -/
theorem exists_topmost {entries : List α} {entry : α} (member : entry ∈ entries) :
    ∃ top, Topmost above entries top ∧ above top entry := by
  classical
  have nonempty : (entries.filter (above · entry)).toFinset.Nonempty :=
    ⟨entry, by simp [member, ancestry.refl]⟩
  obtain ⟨top, isTop, least⟩ := Finset.exists_min_image _ id nonempty
  obtain ⟨inEntries, isAbove⟩ : top ∈ entries ∧ above top entry := by simpa using isTop
  refine ⟨top, ⟨inEntries, fun other isEntry higher => ?_⟩, isAbove⟩
  have inFilter : other ∈ (entries.filter (above · entry)).toFinset := by
    simp [isEntry, ancestry.trans higher isAbove]
  exact le_antisymm (ancestry.le higher) (least other inFilter)

end Ancestry

section Pass

variable {α : Type} [LinearOrder α] {above : α → α → Prop} [DecidableRel above]

omit [LinearOrder α] in
theorem collapse_cons (common entry : α) (rest : List α) :
    collapse above common (entry :: rest) =
      if above common entry then collapse above common rest
      else entry :: collapse above entry rest := rfl

omit [LinearOrder α] in
theorem collapse_cons_of_above {common entry : α} (below : above common entry) (rest : List α) :
    collapse above common (entry :: rest) = collapse above common rest := by
  rw [collapse_cons, if_pos below]

omit [LinearOrder α] in
theorem collapse_cons_of_not_above {common entry : α} (notBelow : ¬ above common entry)
    (rest : List α) :
    collapse above common (entry :: rest) = entry :: collapse above entry rest := by
  rw [collapse_cons, if_neg notBelow]

omit [LinearOrder α] in
theorem mem_of_mem_collapse {common entry : α} {entries : List α}
    (kept : entry ∈ collapse above common entries) : entry ∈ entries := by
  induction entries generalizing common with
  | nil => exact kept
  | cons first rest inductionHypothesis =>
      rw [collapse_cons] at kept
      split at kept
      · exact List.mem_cons_of_mem _ (inductionHypothesis kept)
      · rcases List.mem_cons.mp kept with rfl | later
        · exact List.mem_cons_self
        · exact List.mem_cons_of_mem _ (inductionHypothesis later)

/-- `last` is what a pass that has come to `entry` kept last, or what it started with. -/
def KeptLast (above : α → α → Prop) [DecidableRel above] (common : α) (entries : List α)
    (entry last : α) : Prop :=
  (last = common ∧ ∀ kept ∈ collapse above common entries, entry ≤ kept) ∨
    (last ∈ collapse above common entries ∧ last ≤ entry ∧
      ∀ kept ∈ collapse above common entries, kept < entry → kept ≤ last)

theorem keptLast_cons_of_above {common first entry last : α} {rest : List α}
    (below : above common first) (keptLast : KeptLast above common rest entry last) :
    KeptLast above common (first :: rest) entry last := by
  rw [KeptLast, collapse_cons_of_above below]
  exact keptLast

theorem keptLast_cons_of_kept {common first entry last : α} {rest : List α}
    (sorted : (first :: rest).Pairwise (· ≤ ·)) (member : entry ∈ rest)
    (notBelow : ¬ above common first) (keptLast : KeptLast above first rest entry last) :
    KeptLast above common (first :: rest) entry last := by
  have firstLe := (List.pairwise_cons.mp sorted).1
  rw [KeptLast, collapse_cons_of_not_above notBelow]
  rcases keptLast with ⟨rfl, none⟩ | ⟨isKept, before, latest⟩
  · refine .inr ⟨List.mem_cons_self, firstLe entry member, fun kept isKept smaller => ?_⟩
    rcases List.mem_cons.mp isKept with rfl | later
    · exact le_rfl
    · exact absurd smaller (not_lt.mpr (none kept later))
  · refine .inr ⟨List.mem_cons_of_mem _ isKept, before, fun kept isKept' smaller => ?_⟩
    rcases List.mem_cons.mp isKept' with rfl | later
    · exact firstLe last (mem_of_mem_collapse isKept)
    · exact latest kept later smaller

/-- An entry that is left out lies below what was kept last. -/
theorem exists_keptLast_of_not_mem {common entry : α} {entries : List α}
    (sorted : entries.Pairwise (· ≤ ·)) (member : entry ∈ entries)
    (leftOut : entry ∉ collapse above common entries) :
    ∃ last, above last entry ∧ KeptLast above common entries entry last := by
  induction entries generalizing common with
  | nil => exact absurd member List.not_mem_nil
  | cons first rest inductionHypothesis =>
      have later := (List.pairwise_cons.mp sorted).2
      by_cases below : above common first
      · rw [collapse_cons_of_above below] at leftOut
        by_cases inRest : entry ∈ rest
        · obtain ⟨last, isAbove, keptLast⟩ := inductionHypothesis later inRest leftOut
          exact ⟨last, isAbove, keptLast_cons_of_above below keptLast⟩
        · obtain rfl : entry = first := (List.mem_cons.mp member).resolve_right inRest
          refine ⟨common, below, keptLast_cons_of_above below (.inl ⟨rfl, fun kept isKept => ?_⟩)⟩
          exact (List.pairwise_cons.mp sorted).1 kept (mem_of_mem_collapse isKept)
      · rw [collapse_cons_of_not_above below, List.mem_cons, not_or] at leftOut
        have inRest : entry ∈ rest := (List.mem_cons.mp member).resolve_left leftOut.1
        obtain ⟨last, isAbove, keptLast⟩ := inductionHypothesis later inRest leftOut.2
        exact ⟨last, isAbove, keptLast_cons_of_kept sorted inRest below keptLast⟩

/-- An entry that is kept does not lie below what was kept last before it. -/
theorem exists_keptLast_of_mem {common entry : α} {entries : List α}
    (sorted : entries.Pairwise (· ≤ ·)) (kept : entry ∈ collapse above common entries) :
    ∃ last, ¬ above last entry ∧ KeptLast above common entries entry last := by
  induction entries generalizing common with
  | nil => exact absurd kept List.not_mem_nil
  | cons first rest inductionHypothesis =>
      have later := (List.pairwise_cons.mp sorted).2
      by_cases below : above common first
      · rw [collapse_cons_of_above below] at kept
        obtain ⟨last, notAbove, keptLast⟩ := inductionHypothesis later kept
        exact ⟨last, notAbove, keptLast_cons_of_above below keptLast⟩
      · rw [collapse_cons_of_not_above below] at kept
        by_cases inRest : entry ∈ collapse above first rest
        · obtain ⟨last, notAbove, keptLast⟩ := inductionHypothesis later inRest
          exact ⟨last, notAbove,
            keptLast_cons_of_kept sorted (mem_of_mem_collapse inRest) below keptLast⟩
        · obtain rfl : entry = first := (List.mem_cons.mp kept).resolve_right inRest
          refine ⟨common, below, .inl ⟨rfl, fun other isKept => ?_⟩⟩
          rcases List.mem_cons.mp (mem_of_mem_collapse isKept) with rfl | inRest
          · exact le_rfl
          · exact (List.pairwise_cons.mp sorted).1 other inRest

/-- What is kept of a sorted list behind an entry comes after it. -/
theorem lt_of_mem_collapse (reflexive : ∀ a, above a a) {common entry : α} {entries : List α}
    (sorted : (common :: entries).Pairwise (· ≤ ·)) (kept : entry ∈ collapse above common entries) :
    common < entry := by
  induction entries generalizing common with
  | nil => exact absurd kept List.not_mem_nil
  | cons first rest inductionHypothesis =>
      obtain ⟨isLeast, sortedRest⟩ := List.pairwise_cons.mp sorted
      have firstLe := isLeast first List.mem_cons_self
      by_cases below : above common first
      · rw [collapse_cons_of_above below] at kept
        refine inductionHypothesis (List.pairwise_cons.mpr ⟨fun other member => ?_, ?_⟩) kept
        · exact isLeast other (List.mem_cons_of_mem _ member)
        · exact (List.pairwise_cons.mp sortedRest).2
      · have before : common < first := by
          refine lt_of_le_of_ne firstLe ?_
          rintro rfl
          exact below (reflexive _)
        rw [collapse_cons_of_not_above below] at kept
        rcases List.mem_cons.mp kept with rfl | later
        · exact before
        · exact before.trans (inductionHypothesis sortedRest later)

/-- The entries that are kept of a sorted list are in strict order. -/
theorem pairwise_lt_collapse (reflexive : ∀ a, above a a) {common : α} {entries : List α}
    (sorted : entries.Pairwise (· ≤ ·)) : (collapse above common entries).Pairwise (· < ·) := by
  induction entries generalizing common with
  | nil => exact List.Pairwise.nil
  | cons first rest inductionHypothesis =>
      rw [collapse_cons]
      split
      · exact inductionHypothesis (List.pairwise_cons.mp sorted).2
      · refine List.pairwise_cons.mpr ⟨fun entry kept => ?_, ?_⟩
        · exact lt_of_mem_collapse reflexive sorted kept
        · exact inductionHypothesis (List.pairwise_cons.mp sorted).2

/-! ## Covering once -/

section Covering

variable (ancestry : Ancestry above) {common : α} {entries : List α}
include ancestry

/-- The first entry of a sorted list is kept, unless the pass starts above it. -/
theorem mem_collapse_of_least (sorted : entries.Pairwise (· ≤ ·)) {least : α}
    (member : least ∈ entries) (isLeast : ∀ entry ∈ entries, least ≤ entry)
    (notBelow : ¬ above common least) : least ∈ collapse above common entries := by
  by_contra leftOut
  obtain ⟨last, isAbove, ⟨rfl, _⟩ | ⟨isKept, _, _⟩⟩ :=
    exists_keptLast_of_not_mem sorted member leftOut
  · exact notBelow isAbove
  · have same : last = least :=
      le_antisymm (ancestry.le isAbove) (isLeast last (mem_of_mem_collapse isKept))
    exact leftOut (same ▸ isKept)

/-- The first entry of a sorted list is left out where the pass starts above it. -/
theorem not_above_of_least_mem_collapse (sorted : entries.Pairwise (· ≤ ·)) {least : α}
    (isLeast : ∀ entry ∈ entries, least ≤ entry) (kept : least ∈ collapse above common entries) :
    ¬ above common least := by
  intro below
  obtain ⟨last, notAbove, ⟨rfl, _⟩ | ⟨lastKept, lastLe, _⟩⟩ := exists_keptLast_of_mem sorted kept
  · exact notAbove below
  · have same := le_antisymm lastLe (isLeast last (mem_of_mem_collapse lastKept))
    exact notAbove (same ▸ ancestry.refl last)

/-- Where the pass does not start above the first entry, topmost entries are kept. -/
theorem mem_collapse_of_topmost (sorted : entries.Pairwise (· ≤ ·))
    (start : ∀ least ∈ entries, (∀ entry ∈ entries, least ≤ entry) → ¬ above common least)
    {top : α} (topmost : Topmost above entries top) : top ∈ collapse above common entries := by
  by_contra leftOut
  obtain ⟨last, isAbove, ⟨rfl, none⟩ | ⟨isKept, _, _⟩⟩ :=
    exists_keptLast_of_not_mem sorted topmost.1 leftOut
  · obtain ⟨least, isEntry, smallest⟩ :=
      Finset.exists_min_image entries.toFinset id ⟨top, by simpa using topmost.1⟩
    have inEntries : least ∈ entries := by simpa using isEntry
    have isLeast : ∀ entry ∈ entries, least ≤ entry := fun entry member =>
      smallest entry (by simpa using member)
    have kept := mem_collapse_of_least ancestry sorted inEntries isLeast (start least inEntries isLeast)
    have same : top = least := le_antisymm (none least kept) (isLeast top topmost.1)
    exact leftOut (same ▸ kept)
  · have same := topmost.2 last (mem_of_mem_collapse isKept) isAbove
    exact leftOut (same ▸ isKept)

/-- Without interleaved entries, only topmost ones are kept. -/
theorem topmost_of_mem_collapse (sorted : entries.Pairwise (· ≤ ·))
    (start : ∀ least ∈ entries, (∀ entry ∈ entries, least ≤ entry) → ¬ above common least)
    (apart : ¬ Interleaved above entries) {kept : α} (isKept : kept ∈ collapse above common entries) :
    Topmost above entries kept := by
  classical
  by_contra notTopmost
  obtain ⟨entry, isEntry, smallest⟩ := Finset.exists_min_image
    ((collapse above common entries).filter fun entry => ¬ Topmost above entries entry).toFinset id
    ⟨kept, by simp [isKept, notTopmost]⟩
  obtain ⟨entryKept, entryLow⟩ :
      entry ∈ collapse above common entries ∧ ¬ Topmost above entries entry := by
    simpa using isEntry
  obtain ⟨top, topmost, isAbove⟩ := ancestry.exists_topmost (mem_of_mem_collapse entryKept)
  have before : top < entry := by
    refine lt_of_le_of_ne (ancestry.le isAbove) ?_
    rintro rfl
    exact entryLow topmost
  have topKept := mem_collapse_of_topmost ancestry sorted start topmost
  obtain ⟨last, notAbove, ⟨rfl, none⟩ | ⟨lastKept, lastLe, latest⟩⟩ :=
    exists_keptLast_of_mem sorted entryKept
  · exact absurd before (not_lt.mpr (none top topKept))
  · have lastBefore : last < entry := by
      refine lt_of_le_of_ne lastLe ?_
      rintro rfl
      exact notAbove (ancestry.refl last)
    have lastTopmost : Topmost above entries last := by
      by_contra low
      exact absurd lastBefore (not_lt.mpr (smallest last (by simp [lastKept, low])))
    have behindTop : top < last := by
      refine lt_of_le_of_ne (latest top topKept before) ?_
      rintro rfl
      exact notAbove isAbove
    exact apart ⟨top, last, entry, topmost, lastTopmost, mem_of_mem_collapse entryKept, behindTop,
      lastBefore, isAbove⟩

/-- The pass covers a sorted list once just where it does not start above the first entry and
no topmost entry comes between another one and what lies below that. -/
theorem coversOnce_collapse_iff (sorted : entries.Pairwise (· ≤ ·)) :
    CoversOnce above entries (collapse above common entries) ↔
      (∀ least ∈ entries, (∀ entry ∈ entries, least ≤ entry) → ¬ above common least) ∧
        ¬ Interleaved above entries := by
  constructor
  · rintro ⟨covers, once⟩
    have topKept : ∀ top, Topmost above entries top → top ∈ collapse above common entries := by
      intro top topmost
      obtain ⟨kept, isKept, isAbove⟩ := covers top topmost.1
      exact topmost.2 kept (mem_of_mem_collapse isKept) isAbove ▸ isKept
    have keptTop : ∀ kept ∈ collapse above common entries, Topmost above entries kept := by
      intro kept isKept
      refine ⟨mem_of_mem_collapse isKept, fun other member higher => ?_⟩
      obtain ⟨top, isTop, isAbove⟩ := covers other member
      have same := once top isTop kept isKept (ancestry.trans isAbove higher)
      exact ancestry.antisymm higher (same ▸ isAbove)
    constructor
    · intro least member isLeast below
      have leastKept : least ∈ collapse above common entries :=
        topKept least ⟨member, fun other isEntry higher =>
          le_antisymm (ancestry.le higher) (isLeast other isEntry)⟩
      exact not_above_of_least_mem_collapse ancestry sorted isLeast leastKept below
    · rintro ⟨top, other, entry, topmost, otherTopmost, member, firstGap, secondGap, isAbove⟩
      have leftOut : entry ∉ collapse above common entries := fun isKept =>
        (ne_of_lt (firstGap.trans secondGap)) ((keptTop entry isKept).2 top topmost.1 isAbove)
      obtain ⟨last, higher, ⟨rfl, none⟩ | ⟨lastKept, _, latest⟩⟩ :=
        exists_keptLast_of_not_mem sorted member leftOut
      · exact absurd secondGap (not_lt.mpr (none other (topKept other otherTopmost)))
      · have otherLe := latest other (topKept other otherTopmost) secondGap
        have same : top = last := by
          rcases ancestry.chain isAbove higher with topAbove | lastAbove
          · exact (keptTop last lastKept).2 top topmost.1 topAbove
          · exact (topmost.2 last (mem_of_mem_collapse lastKept) lastAbove).symm
        exact absurd firstGap (not_lt.mpr (same ▸ otherLe))
  · rintro ⟨start, apart⟩
    refine ⟨fun entry member => ?_, fun left leftKept right rightKept isAbove => ?_⟩
    · obtain ⟨top, topmost, isAbove⟩ := ancestry.exists_topmost member
      exact ⟨top, mem_collapse_of_topmost ancestry sorted start topmost, isAbove⟩
    · exact (topmost_of_mem_collapse ancestry sorted start apart rightKept).2 left
        (mem_of_mem_collapse leftKept) isAbove

end Covering

end Pass

end Myscm.Library
