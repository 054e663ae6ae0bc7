import Myscm.Library.Collapse
import Myscm.Library.PathTexts
import Mathlib.Data.Char
import Mathlib.Data.List.Lex

/-!
Owns absolute paths in normal form, ordered as their texts are, and what
`os.path.commonpath` says about two of them.

Owns: the text of a path; one path above another; that this is an ancestry for the
order of the texts.

Does not own: nodes.
-/

namespace Myscm.Library

/-- An absolute path in normal form: between its slashes stands no empty text and no `.`. -/
@[ext]
structure AbsPath where
  names : Path
  proper : ∀ name ∈ names, ¬ Idle name ∧ '/' ∉ name
  deriving DecidableEq

/-- The longest list that both lists start with. -/
def commonPrefix {α : Type} [DecidableEq α] : List α → List α → List α
  | a :: left, b :: right => if a = b then a :: commonPrefix left right else []
  | _, _ => []

theorem commonPrefix_isPrefix {α : Type} [DecidableEq α] (left right : List α) :
    commonPrefix left right <+: left := by
  induction left generalizing right with
  | nil => simp [commonPrefix]
  | cons a left inductionHypothesis =>
      cases right with
      | nil => exact List.nil_prefix
      | cons b right =>
          rw [commonPrefix]
          split
          · exact List.cons_prefix_cons.mpr ⟨rfl, inductionHypothesis right⟩
          · exact List.nil_prefix

theorem commonPrefix_eq_right_iff {α : Type} [DecidableEq α] {left right : List α} :
    commonPrefix left right = right ↔ right <+: left := by
  induction right generalizing left with
  | nil => cases left <;> simp [commonPrefix]
  | cons b right inductionHypothesis =>
      cases left with
      | nil => simp [commonPrefix]
      | cons a left =>
          rw [commonPrefix, List.cons_prefix_cons]
          by_cases same : a = b
          · rw [if_pos same, same, List.cons.injEq, inductionHypothesis]
          · rw [if_neg same]
            simp [Ne.symm same]

namespace Str

/-- `os.path.commonpath([a, b])`, or none where one of them is absolute and the other is not. -/
def commonpath (a b : Str) : Option Str :=
  if isAbs a = isAbs b then
    some ((if isAbs a then ['/'] else []) ++ ['/'].intercalate (commonPrefix (parts a) (parts b)))
  else
    none

theorem isAbs_lstripSlash (s : Str) : isAbs (lstripChars ['/'] s) = false := by
  induction s with
  | nil => rfl
  | cons c rest inductionHypothesis =>
      rw [lstripChars, List.dropWhile_cons]
      split
      · exact inductionHypothesis
      · rename_i kept
        have differ : '/' ≠ c := by
          rintro rfl
          exact kept (by decide)
        simp [isAbs, startsWith, List.isPrefixOf, differ]

end Str

namespace AbsPath

/-- The text of a path. -/
def text (path : AbsPath) : Str := '/' :: ['/'].intercalate path.names

/-- The first path is the second, or a directory above it. -/
def IsAbove (above path : AbsPath) : Prop := above.names <+: path.names

instance : DecidableRel IsAbove := fun above path =>
  inferInstanceAs (Decidable (above.names <+: path.names))

theorem isAbs_text (path : AbsPath) : Str.isAbs path.text = true := rfl

theorem parts_intercalate {names : Path} (proper : ∀ name ∈ names, ¬ Idle name ∧ '/' ∉ name) :
    Str.parts (['/'].intercalate names) = names := by
  by_cases empty : names = []
  · subst empty
    decide
  · rw [Str.parts, List.splitOn_intercalate '/' (fun name member => (proper name member).2) empty]
    exact List.filter_eq_self.mpr fun name member => decide_eq_true (proper name member).1

/-- The names of a path are read off its text. -/
theorem parts_text (path : AbsPath) : Str.parts path.text = path.names := by
  have split := Str.parts_append_slash [] (['/'].intercalate path.names)
  rw [Str.parts_nil, List.nil_append, List.nil_append] at split
  rw [text, split, parts_intercalate path.proper]

/-- The text is that of the path of its names. -/
theorem text_eq (path : AbsPath) : path.text = Path.text path.names := by
  obtain ⟨names, _⟩ := path
  cases names with
  | nil => rfl
  | cons first rest =>
      have slashes (rest : Path) (first : Str) :
          ['/'].intercalate (first :: rest) = first ++ rest.flatMap ('/' :: ·) := by
        induction rest generalizing first with
        | nil => simp [List.intercalate]
        | cons second rest inductionHypothesis =>
            rw [List.intercalate_cons_cons, inductionHypothesis, List.flatMap_cons]
            simp
      simp [text, Path.text, slashes]

/-- Without its slash, the text is that of the names. -/
theorem lstripChars_text (path : AbsPath) :
    Str.lstripChars ['/'] path.text = ['/'].intercalate path.names := by
  rw [text, Str.lstripChars, List.dropWhile_cons_of_pos (by decide)]
  obtain ⟨names, proper⟩ := path
  cases names with
  | nil => rfl
  | cons first rest =>
      obtain ⟨notIdle, noSlash⟩ := proper first List.mem_cons_self
      cases first with
      | nil => exact absurd (.inl rfl) notIdle
      | cons c later =>
          have differ : c ≠ '/' := fun same => noSlash (same ▸ List.mem_cons_self)
          cases rest <;> simp [List.intercalate, differ]

theorem text_injective : Function.Injective text := fun left right same =>
  AbsPath.ext (by rw [← parts_text left, ← parts_text right, same])

/-- Paths are ordered as their texts. -/
instance : LinearOrder AbsPath := LinearOrder.lift' text text_injective

theorem le_iff {left right : AbsPath} : left ≤ right ↔ left.text ≤ right.text := Iff.rfl

theorem prefix_le {s t : Str} (isPrefix : s <+: t) : s ≤ t := by
  obtain ⟨more, rfl⟩ := isPrefix
  induction s with
  | nil =>
      cases more with
      | nil => exact le_rfl
      | cons c rest => exact le_of_lt (List.Lex.nil : [] < c :: rest)
  | cons c rest inductionHypothesis => exact List.cons_le_cons c inductionHypothesis

theorem text_prefix_of_isAbove {above path : AbsPath} (isAbove : above.IsAbove path) :
    above.text <+: path.text := by
  obtain ⟨more, split⟩ := isAbove
  rw [text, text, ← split, List.cons_prefix_cons]
  refine ⟨rfl, ?_⟩
  by_cases root : above.names = []
  · rw [root]
    exact List.nil_prefix
  · by_cases last : more = []
    · rw [last, List.append_nil]
    · rw [intercalate_append root last]
      exact List.prefix_append _ _

/-- A directory comes before what lies below it. -/
theorem ancestry : Ancestry IsAbove where
  refl _ := List.prefix_rfl
  trans := List.IsPrefix.trans
  le := fun isAbove => prefix_le (text_prefix_of_isAbove isAbove)
  chain := List.prefix_or_prefix_of_prefix

/-- The test for a path below another one. -/
theorem commonpath_eq_iff {path common : AbsPath} :
    Str.commonpath path.text common.text = some common.text ↔ common.IsAbove path := by
  rw [Str.commonpath, isAbs_text, isAbs_text, if_pos rfl, if_pos rfl, Option.some.injEq,
    parts_text, parts_text, text, List.singleton_append, List.cons.injEq, IsAbove,
    ← commonPrefix_eq_right_iff]
  constructor
  · rintro ⟨_, same⟩
    have proper : ∀ name ∈ commonPrefix path.names common.names, ¬ Idle name ∧ '/' ∉ name :=
      fun name member => path.proper name ((commonPrefix_isPrefix _ _).subset member)
    rw [← parts_intercalate proper, same, parts_intercalate common.proper]
  · intro same
    rw [same]
    exact ⟨rfl, rfl⟩

end AbsPath

end Myscm.Library
