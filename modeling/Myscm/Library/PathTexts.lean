import Myscm.Library.Walks

/-!
Owns what the texts of paths below a text pass: their pieces and their names.

Owns: the names of a text; a text behind another one; what stripping slashes,
`dirname` and `join` make of it; texts put together from pieces.

Does not own: where a walk along them ends.
-/

namespace Myscm.Library

theorem names_filter (pieces : List Str) : names (pieces.filter (· ≠ [])) = names pieces := by
  rw [names, names, List.filter_filter]
  apply List.filter_congr
  intro piece _
  by_cases empty : piece = [] <;> simp [empty]

theorem not_up_of_names {pieces : List Str} (noUp : ['.', '.'] ∉ names pieces) :
    ∀ piece ∈ pieces, ¬ Up piece := by
  rintro piece member rfl
  exact noUp (List.mem_filter.mpr ⟨member, by decide⟩)

theorem intercalate_append {left right : List Str} (leftMore : left ≠ []) (rightMore : right ≠ []) :
    ['/'].intercalate (left ++ right) =
      ['/'].intercalate left ++ '/' :: ['/'].intercalate right := by
  induction left with
  | nil => exact absurd rfl leftMore
  | cons first rest inductionHypothesis =>
      by_cases last : rest = []
      · rw [last, List.singleton_append, List.intercalate_cons_of_ne_nil rightMore,
          List.intercalate_singleton, List.append_assoc, List.singleton_append]
      · rw [List.cons_append, List.intercalate_cons_of_ne_nil (by simp [last]),
          List.intercalate_cons_of_ne_nil last, inductionHypothesis last]
        simp [List.append_assoc]

namespace Str

/-- The names a text passes. -/
def parts (s : Str) : Path := names (s.splitOn '/')

theorem parts_nil : parts [] = [] := by decide

theorem parts_append_slash (front back : Str) :
    parts (front ++ '/' :: back) = parts front ++ parts back := by
  rw [parts, List.splitOn_append_cons_self, names_append]
  rfl

theorem rstripChars_slash (s : Str) :
    rstripChars ['/'] ('/' :: s) =
      if rstripChars ['/'] s = [] then [] else '/' :: rstripChars ['/'] s := by
  unfold rstripChars List.rdropWhile
  rw [List.reverse_cons, List.dropWhile_append]
  by_cases all : s.reverse.dropWhile (['/'].contains ·) = []
  · rw [all]
    simp
  · rw [if_neg (by simpa using all), if_neg (by simpa using all), List.reverse_append]
    simp

/-- Slashes at the end separate no names. -/
theorem parts_rstripChars (s : Str) : parts (rstripChars ['/'] s) = parts s := by
  induction s using List.reverseRecOn with
  | nil => rfl
  | append_singleton front c inductionHypothesis =>
      by_cases slash : c = '/'
      · subst slash
        rw [rstripChars, List.rdropWhile_concat_pos _ _ _ (by decide)]
        rw [parts_append_slash front [], parts_nil, List.append_nil]
        exact inductionHypothesis
      · rw [rstripChars, List.rdropWhile_concat_neg _ _ _ (by simpa using slash)]

/-- A text that does not end in a slash. -/
def Open (s : Str) : Prop := ∀ c ∈ s.getLast?, c ≠ '/'

theorem open_rstripChars (s : Str) : Open (rstripChars ['/'] s) := by
  unfold rstripChars
  intro c last
  obtain ⟨nonempty, isLast⟩ := List.mem_getLast?_eq_getLast last
  have stays := List.rdropWhile_last_not _ _ nonempty
  rw [← isLast] at stays
  rintro rfl
  exact stays (by decide)

/-- A relative text is no text of slashes alone. -/
theorem rstripChars_ne_nil {s : Str} (relative : isAbs s = false) (nonempty : s ≠ []) :
    rstripChars ['/'] s ≠ [] := by
  intro empty
  have allSlashes := List.rdropWhile_eq_nil_iff.mp empty
  cases s with
  | nil => exact nonempty rfl
  | cons c rest =>
      have slash : c = '/' := by simpa using allSlashes c List.mem_cons_self
      rw [slash] at relative
      cases relative

theorem rstripChars_of_open {s : Str} (isOpen : Open s) : rstripChars ['/'] s = s := by
  have stripped := @rstripChars_append ['/'] s
    (fun c last => by simpa using isOpen c last) []
  have none : rstripChars ['/'] [] = [] := rfl
  rwa [none, List.append_nil] at stripped

/-- The text `back` behind `front`, which it leaves as it is where it is empty. -/
def behind (front back : Str) : Str :=
  if back = [] then front else front ++ '/' :: back

theorem behind_nil (front : Str) : behind front [] = front := if_pos rfl

theorem behind_of_ne {back : Str} (more : back ≠ []) (front : Str) :
    behind front back = front ++ '/' :: back := if_neg more

theorem behind_ne_nil {front : Str} (nonempty : front ≠ []) (back : Str) : behind front back ≠ [] := by
  unfold behind
  split
  · exact nonempty
  · simp

theorem open_behind {front back : Str} (frontOpen : Open front) (backOpen : Open back) :
    Open (behind front back) := by
  unfold behind
  split
  · exact frontOpen
  · rename_i more
    intro c last
    have split : front ++ '/' :: back = (front ++ ['/']) ++ back := by simp
    rw [split, List.getLast?_append_of_ne_nil _ more] at last
    exact backOpen c last

/-- Stripping slashes off a text behind another one. -/
theorem rstripChars_behind {front : Str} (isOpen : Open front) (back : Str) :
    rstripChars ['/'] (front ++ '/' :: back) = behind front (rstripChars ['/'] back) := by
  rw [rstripChars_append (fun c last => by simpa using isOpen c last), rstripChars_slash, behind]
  split
  · rw [List.append_nil]
  · rfl

theorem joinPath_of_open {front : Str} (isOpen : Open front) (nonempty : front ≠ []) {back : Str}
    (relative : isAbs back = false) : joinPath front back = front ++ '/' :: back := by
  have noSlash : ¬ (front = [] ∨ endsWith front ['/'] = true) := by
    rintro (empty | slashed)
    · exact nonempty empty
    · obtain ⟨middle, rfl⟩ := List.isSuffixOf_iff_suffix.mp slashed
      exact isOpen '/' (by simp) rfl
  rw [joinPath, relative, if_neg (by simp), if_neg noSlash]

/-- The directory of a text behind another one is behind it again. -/
theorem dirname_behind {front back : Str} (isOpen : Open front) (nonempty : front ≠ [])
    (more : back ≠ []) :
    ∃ above, dirname (behind front back) = behind front above ∧ Open above ∧
      parts above = names (back.splitOn '/').dropLast := by
  let above := ['/'].intercalate (back.splitOn '/').dropLast
  have pieces : (behind front back).splitOn '/' = front.splitOn '/' ++ back.splitOn '/' := by
    rw [behind_of_ne more, List.splitOn_append_cons_self]
  have head : ['/'].intercalate ((behind front back).splitOn '/').dropLast ++ ['/'] =
      (if (back.splitOn '/').dropLast = [] then front else front ++ '/' :: above) ++ ['/'] := by
    rw [pieces, List.dropLast_append_of_ne_nil (List.splitOn_ne_nil _ _)]
    split
    · rename_i single
      rw [single, List.append_nil, List.intercalate_splitOn]
    · rename_i several
      rw [intercalate_append (List.splitOn_ne_nil _ _) several, List.intercalate_splitOn]
  have single : ((behind front back).splitOn '/').length ≠ 1 := by
    rw [pieces, List.length_append]
    have left := List.length_pos_iff.mpr (List.splitOn_ne_nil '/' front)
    have right := List.length_pos_iff.mpr (List.splitOn_ne_nil '/' back)
    omega
  by_cases last : (back.splitOn '/').dropLast = []
  · refine ⟨[], ?_, (fun c isLast => by cases isLast), ?_⟩
    · have stripped := rstripChars_behind isOpen []
      simp only [dirname, if_neg single]
      rw [head, if_pos last, stripped, if_neg (behind_ne_nil nonempty _)]
      rfl
    · rw [last, parts_nil]
      rfl
  · have stripped : rstripChars ['/'] (front ++ '/' :: above ++ ['/']) =
        behind front (rstripChars ['/'] above) := by
      rw [List.append_assoc, List.cons_append, rstripChars_behind isOpen]
      congr 1
      rw [rstripChars, List.rdropWhile_concat_pos _ _ _ (by decide)]
      rfl
    refine ⟨rstripChars ['/'] above, ?_, open_rstripChars _, ?_⟩
    · simp only [dirname, if_neg single]
      rw [head, if_neg last, stripped, if_neg (behind_ne_nil nonempty _)]
    · rw [parts_rstripChars, parts, List.splitOn_intercalate _ ?_ last]
      intro piece member
      exact Fs.not_mem_of_mem_splitOn (List.mem_of_mem_dropLast member)

/-- The directory of a text that has a slash. -/
theorem dirname_slash {front last : Str} (noSlash : '/' ∉ last) :
    dirname (front ++ '/' :: last) =
      if rstripChars ['/'] front = [] then front ++ ['/'] else rstripChars ['/'] front := by
  have pieces : (front ++ '/' :: last).splitOn '/' = front.splitOn '/' ++ [last] := by
    rw [List.splitOn_append_cons_self, List.splitOn_eq_singleton noSlash]
  have several : ((front ++ '/' :: last).splitOn '/').length ≠ 1 := by
    have more := List.length_pos_iff.mpr (List.splitOn_ne_nil '/' front)
    rw [pieces, List.length_append, List.length_singleton]
    omega
  have stripped : rstripChars ['/'] (front ++ ['/']) = rstripChars ['/'] front := by
    rw [rstripChars, List.rdropWhile_concat_pos _ _ _ (by decide)]
    rfl
  simp only [dirname, if_neg several]
  rw [pieces, List.dropLast_concat, List.intercalate_splitOn, stripped]

end Str

end Myscm.Library
