import Myscm.Library.Text

/-!
Owns lines: splitting a sequence at a line end, and text mode with universal
newlines.

Owns: `splitLines` over bytes or characters; `universalNewlines`; how the
lines of a text read with universal newlines lie in its line-feed lines.

Does not own: encodings, files.
-/

namespace Myscm.Library

/-- The pieces between line ends; a final line end opens no further line. -/
def splitLines {α : Type} [BEq α] (lineEnd : α) (s : List α) : List (List α) :=
  let pieces := s.splitOn lineEnd
  if (pieces.getLast?.map List.isEmpty).getD false then pieces.dropLast else pieces

namespace Str

/-- Text mode with universal newlines: `\r\n` and `\r` become `\n`. -/
def universalNewlines : Str → Str
  | [] => []
  | '\r' :: '\n' :: rest => '\n' :: universalNewlines rest
  | '\r' :: rest => '\n' :: universalNewlines rest
  | c :: rest => c :: universalNewlines rest

theorem not_mem_universalNewlines (s : Str) : '\r' ∉ universalNewlines s := by
  induction s using universalNewlines.induct with
  | case1 => exact List.not_mem_nil
  | case2 rest inductionHypothesis => simpa [universalNewlines] using inductionHypothesis
  | case3 rest notPair inductionHypothesis =>
      rw [universalNewlines]
      · simpa using inductionHypothesis
      · exact notPair
  | case4 c rest notPair notReturn inductionHypothesis =>
      rw [universalNewlines]
      · intro member
        rcases List.mem_cons.mp member with here | later
        · exact notReturn here.symm
        · exact inductionHypothesis later
      · exact notPair
      · exact notReturn

theorem universalNewlines_eq_self {s : Str} (noReturn : '\r' ∉ s) : universalNewlines s = s := by
  induction s with
  | nil => rfl
  | cons c rest inductionHypothesis =>
      have differs : c ≠ '\r' := fun here => noReturn (here ▸ List.mem_cons_self)
      rw [universalNewlines, inductionHypothesis fun later =>
        noReturn (List.mem_cons_of_mem c later)]
      · exact fun _ isReturn => absurd isReturn differs
      · exact differs

/-- Universal newlines keep a text without carriage returns, and no other. -/
theorem universalNewlines_eq_self_iff {s : Str} : universalNewlines s = s ↔ '\r' ∉ s := by
  constructor
  · intro same
    rw [← same]
    exact not_mem_universalNewlines s
  · exact universalNewlines_eq_self

end Str

section Split

variable {α : Type}

/-- A piece without the separator is a front of the first piece. -/
theorem splitOnP_append {p : α → Bool} {front : List α} (free : ∀ x ∈ front, p x = false)
    (rest : List α) :
    (front ++ rest).splitOnP p = (rest.splitOnP p).modifyHead (front ++ ·) := by
  induction front with
  | nil =>
      cases split : rest.splitOnP p with
      | nil => simp [split]
      | cons => simp [split]
  | cons x front inductionHypothesis =>
      have here : p x = false := free x (by simp)
      rw [List.cons_append, List.splitOnP_cons_eq_if_modifyHead, here,
        inductionHypothesis fun y member => free y (by simp [member])]
      cases rest.splitOnP p <;> rfl

/-- Dropping the last piece when it is empty drops nothing that is not empty. -/
theorem filter_splitLines [BEq α] (lineEnd : α) (s : List α) (keep : List α → Bool)
    (empty : keep [] = false) :
    (splitLines lineEnd s).filter keep = (s.splitOn lineEnd).filter keep := by
  unfold splitLines
  dsimp only
  split
  · rename_i last
    cases found : (s.splitOn lineEnd).getLast? with
    | none => simp [found] at last
    | some piece =>
        have isEmpty : piece = [] := by simpa [found] using last
        rw [isEmpty] at found
        have nonempty := List.splitOn_ne_nil lineEnd s
        rw [List.getLast?_eq_some_getLast nonempty, Option.some.injEq] at found
        conv_rhs => rw [← List.dropLast_append_getLast nonempty, found]
        simp [empty]
  · rfl

/-- Splitting at one separator and then every piece at another is splitting at
both. -/
theorem flatMap_splitOnP (p q : α → Bool) (s : List α) :
    (s.splitOnP p).flatMap (List.splitOnP q) = s.splitOnP fun x => p x || q x := by
  induction s with
  | nil => simp
  | cons x rest inductionHypothesis =>
      cases split : rest.splitOnP p with
      | nil => exact absurd split (List.splitOnP_ne_nil p rest)
      | cons piece pieces =>
          rw [split, List.flatMap_cons] at inductionHypothesis
          rw [List.splitOnP_cons_eq_if_modifyHead, List.splitOnP_cons_eq_if_modifyHead,
            ← inductionHypothesis, split]
          by_cases isP : p x = true
          · simp [isP]
          · have notP : p x = false := by simpa using isP
            simp only [notP, Bool.false_eq_true, if_false, Bool.false_or, List.modifyHead_cons,
              List.flatMap_cons, List.splitOnP_cons_eq_if_modifyHead]
            split
            · simp
            · cases splitPiece : piece.splitOnP q with
              | nil => exact absurd splitPiece (List.splitOnP_ne_nil q piece)
              | cons => rfl

/-- What stands in a piece stands in the whole. -/
theorem mem_of_mem_splitOnP {p : α → Bool} {s piece : List α} {x : α}
    (isPiece : piece ∈ s.splitOnP p) (member : x ∈ piece) : x ∈ s := by
  induction s generalizing piece with
  | nil =>
      rw [List.splitOnP_nil, List.mem_singleton] at isPiece
      rw [isPiece] at member
      exact member
  | cons y rest inductionHypothesis =>
      rw [List.splitOnP_cons_eq_if_modifyHead] at isPiece
      split at isPiece
      · rcases List.mem_cons.mp isPiece with rfl | later
        · simp at member
        · exact List.mem_cons_of_mem _ (inductionHypothesis later member)
      · cases splitRest : rest.splitOnP p with
        | nil => exact absurd splitRest (List.splitOnP_ne_nil p rest)
        | cons head pieces =>
            rw [splitRest, List.modifyHead_cons] at isPiece
            rcases List.mem_cons.mp isPiece with rfl | later
            · rcases List.mem_cons.mp member with rfl | inHead
              · simp
              · exact List.mem_cons_of_mem _
                  (inductionHypothesis (by simp [splitRest]) inHead)
            · exact List.mem_cons_of_mem _
                (inductionHypothesis (by simp [splitRest, later]) member)

/-- A piece stands between two separators or the ends, with no separator in it. -/
theorem mem_splitOn_iff [DecidableEq α] {sep : α} {piece s : List α} :
    piece ∈ s.splitOn sep ↔
      sep ∉ piece ∧ ∃ front back, s = front ++ piece ++ back ∧
        (front = [] ∨ front.getLast? = some sep) ∧ (back = [] ∨ back.head? = some sep) := by
  constructor
  · -- The induction is on the length: the first piece is taken off at each separator.
    induction length : s.length using Nat.strong_induction_on generalizing s with
    | _ n inductionHypothesis =>
      intro isPiece
      by_cases present : sep ∈ s
      · obtain ⟨first, rest, rfl, isFirst⟩ := List.eq_append_cons_of_mem present
        rw [List.splitOn_append_cons_self_of_not_mem isFirst] at isPiece
        rcases List.mem_cons.mp isPiece with rfl | later
        · exact ⟨isFirst, [], sep :: rest, by simp, .inl rfl, .inr rfl⟩
        · have shorter : rest.length < n := by
            rw [← length, List.length_append, List.length_cons]
            omega
          obtain ⟨noSep, front, back, rfl, isFront, isBack⟩ :=
            inductionHypothesis _ shorter rfl later
          refine ⟨noSep, first ++ sep :: front, back, by simp, .inr ?_, isBack⟩
          rcases isFront with rfl | last
          · rw [List.getLast?_concat]
          · rw [← List.concat_append, List.getLast?_append, last]
            rfl
      · rw [List.splitOn_eq_singleton present, List.mem_singleton] at isPiece
        subst isPiece
        exact ⟨present, [], [], by simp, .inl rfl, .inl rfl⟩
  · rintro ⟨noSep, front, back, rfl, isFront, isBack⟩
    have behind : piece ∈ (piece ++ back).splitOn sep := by
      rcases isBack with rfl | first
      · rw [List.append_nil, List.splitOn_eq_singleton noSep]
        exact List.mem_singleton.mpr rfl
      · obtain ⟨rest, rfl⟩ := List.head?_eq_some_iff.mp first
        rw [List.splitOn_append_cons_self_of_not_mem noSep]
        exact List.mem_cons_self
    rw [List.append_assoc]
    rcases isFront with rfl | last
    · exact behind
    · obtain ⟨rest, rfl⟩ := List.getLast?_eq_some_iff.mp last
      rw [List.append_assoc, List.singleton_append, List.splitOn_append_cons_self]
      exact List.mem_append_right _ behind

end Split

namespace Str

/-- The pieces that hold more than white space. -/
def solid (s : Str) : Bool := !decide (Blank s)

/-- The lines of a text in text mode are, blank ones apart, the pieces of its
line-feed lines between carriage returns. -/
private theorem splitOn_universalNewlines (s : Str) :
    ∃ piece pieces pieces',
      (universalNewlines s).splitOnP (· == '\n') = piece :: pieces ∧
      s.splitOnP (fun c => c == '\n' || c == '\r') = piece :: pieces' ∧
      pieces.filter solid = pieces'.filter solid := by
  induction s using universalNewlines.induct with
  | case1 => exact ⟨[], [], [], rfl, rfl, rfl⟩
  | case2 rest inductionHypothesis =>
      obtain ⟨piece, pieces, pieces', left, right, same⟩ := inductionHypothesis
      refine ⟨[], piece :: pieces, [] :: piece :: pieces', ?_, ?_, ?_⟩
      · simp [universalNewlines, List.splitOnP_cons_eq_if_modifyHead, left]
      · simp [List.splitOnP_cons_eq_if_modifyHead, right]
      · have blank : solid [] = false := by decide
        simp [List.filter_cons, blank, same]
  | case3 rest notPair inductionHypothesis =>
      obtain ⟨piece, pieces, pieces', left, right, same⟩ := inductionHypothesis
      refine ⟨[], piece :: pieces, piece :: pieces', ?_, ?_, ?_⟩
      · rw [universalNewlines]
        · simp [List.splitOnP_cons_eq_if_modifyHead, left]
        · exact notPair
      · simp [List.splitOnP_cons_eq_if_modifyHead, right]
      · simp [List.filter_cons, same]
  | case4 c rest notPair notReturn inductionHypothesis =>
      obtain ⟨piece, pieces, pieces', left, right, same⟩ := inductionHypothesis
      have isNotReturn : (c == '\r') = false := by simpa using notReturn
      have unfolded : universalNewlines (c :: rest) = c :: universalNewlines rest := by
        rw [universalNewlines]
        · exact notPair
        · exact notReturn
      by_cases isFeed : c = '\n'
      · subst isFeed
        refine ⟨[], piece :: pieces, piece :: pieces', ?_, ?_, ?_⟩
        · simp [unfolded, List.splitOnP_cons_eq_if_modifyHead, left]
        · simp [List.splitOnP_cons_eq_if_modifyHead, right]
        · simp [List.filter_cons, same]
      · refine ⟨c :: piece, pieces, pieces', ?_, ?_, same⟩
        · simp [unfolded, List.splitOnP_cons_eq_if_modifyHead, left, isFeed]
        · simp [List.splitOnP_cons_eq_if_modifyHead, right, isFeed, isNotReturn]

theorem solid_lines_universalNewlines (s : Str) :
    (splitLines '\n' (universalNewlines s)).filter solid =
      ((splitLines '\n' s).filter solid).flatMap fun line =>
        (line.splitOn '\r').filter solid := by
  have blank : solid [] = false := by decide
  obtain ⟨piece, pieces, pieces', left, right, same⟩ := splitOn_universalNewlines s
  have allPieces : ((universalNewlines s).splitOn '\n').filter solid =
      ((s.splitOn '\n').flatMap (List.splitOn '\r')).filter solid := by
    have both := flatMap_splitOnP (· == '\n') (· == '\r') s
    rw [List.splitOn_eq_splitOnP, left]
    have flat : (s.splitOn '\n').flatMap (List.splitOn '\r') = piece :: pieces' := by
      rw [← right, ← both]
      rfl
    rw [flat, List.filter_cons, List.filter_cons, same]
  have dropBlank : ∀ lines : List Str,
      (lines.flatMap (List.splitOn '\r')).filter solid =
        (lines.filter solid).flatMap fun line => (line.splitOn '\r').filter solid := by
    intro lines
    induction lines with
    | nil => rfl
    | cons line lines inductionHypothesis =>
        rw [List.flatMap_cons, List.filter_append, inductionHypothesis, List.filter_cons]
        cases isSolid : solid line with
        | true => simp
        | false =>
            have lineBlank : Blank line := by simpa [solid] using isSolid
            have none : (line.splitOn '\r').filter solid = [] := by
              rw [List.filter_eq_nil_iff]
              intro piece isPiece
              have pieceBlank : Blank piece :=
                fun c member => lineBlank c (mem_of_mem_splitOnP isPiece member)
              simp [solid, pieceBlank]
            simp [none]
  rw [filter_splitLines _ _ _ blank, filter_splitLines _ _ _ blank, allPieces, dropBlank]

end Str

/-! ## Writing lines -/

/-- A text of complete lines. -/
def unlines (lines : List Str) : Str := lines.flatMap (· ++ ['\n'])

theorem mem_unlines {lines : List Str} {c : Char} :
    c ∈ unlines lines → c = '\n' ∨ ∃ line ∈ lines, c ∈ line := by
  intro member
  obtain ⟨line, lineMember, inLine⟩ := List.mem_flatMap.mp member
  rcases List.mem_append.mp inLine with inside | lineEnd
  · exact .inr ⟨line, lineMember, inside⟩
  · exact .inl (List.mem_singleton.mp lineEnd)

/-- A line that is written is read again up to its first line end. -/
theorem mem_splitLines_unlines {lines : List Str} {line : Str} (member : line ∈ lines) :
    line.takeWhile (· ≠ '\n') ∈ splitLines '\n' (unlines lines) := by
  have pieces : ∀ lines : List Str, (unlines lines).splitOn '\n' =
      lines.flatMap (List.splitOn '\n') ++ [[]] := by
    intro lines
    induction lines with
    | nil => rfl
    | cons first rest inductionHypothesis =>
        have shape : unlines (first :: rest) = first ++ '\n' :: unlines rest := by simp [unlines]
        rw [shape, List.splitOn_append_cons_self, inductionHypothesis]
        simp
  have start (l : Str) : l.takeWhile (· ≠ '\n') ∈ l.splitOn '\n' := by
    by_cases ends : '\n' ∈ l
    · obtain ⟨part, rest, rfl, noEnd⟩ := List.eq_append_cons_of_mem ends
      rw [List.splitOn_append_cons_self_of_not_mem noEnd, List.takeWhile_append_of_pos]
      · simp
      · intro c inPart
        simpa using fun here : c = '\n' => noEnd (here ▸ inPart)
    · rw [List.splitOn_eq_singleton ends, List.takeWhile_eq_self_iff.mpr]
      · exact List.mem_singleton_self l
      · intro c inLine
        simpa using fun here : c = '\n' => ends (here ▸ inLine)
  unfold splitLines
  rw [pieces]
  simp only [List.getLast?_append, List.getLast?_singleton, Option.some_or, Option.map_some,
    List.isEmpty_nil, Option.getD_some, if_true, List.dropLast_concat]
  exact List.mem_flatMap.mpr ⟨line, member, start line⟩

/-- Lines that are written are read again. -/
theorem splitLines_unlines {lines : List Str} (single : ∀ line ∈ lines, '\n' ∉ line) :
    splitLines '\n' (unlines lines) = lines := by
  have pieces : (unlines lines).splitOn '\n' = lines ++ [[]] := by
    induction lines with
    | nil => rfl
    | cons line rest inductionHypothesis =>
        rw [unlines, List.flatMap_cons, List.append_assoc, List.singleton_append,
          List.splitOn_append_cons_self_of_not_mem (single line List.mem_cons_self), ← unlines,
          inductionHypothesis fun other member => single other (List.mem_cons_of_mem _ member)]
        rfl
  unfold splitLines
  rw [pieces]
  simp

end Myscm.Library
