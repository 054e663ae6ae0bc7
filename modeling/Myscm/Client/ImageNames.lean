import Myscm.Client.SysImgManager

/-!
Owns the names that are taken for those of images: what `MYSCM_IMG_FILE_NAME_REGEX` accepts
where it is meant to accept `myscm-img.X.Y.tar.gz`.

Owns: the reading of a name whose dots stand for any character; `_get_all_img_paths`; when an
accepted name has the form it is meant to have.

Does not own: the images behind the names.
-/

namespace Myscm.Client

open Myscm.Library Myscm.Server

/-- `_get_all_img_paths`, of the names in the directory. -/
def getAllImgPaths (listing : List Str) : List Str :=
  listing.filter fun fname => (SysImgManager.myscmImgFileNameRegex.fullmatch fname).isSome

/-- A text that reads as a part of a file name in an expression: a dot stands for any character
but a line feed. -/
def FitsPattern (part text : Str) : Prop :=
  List.Forall₂ (fun c d => if c = '.' then d ≠ '\n' else d = c) part text

instance (part text : Str) : Decidable (FitsPattern part text) :=
  inferInstanceAs (Decidable (List.Forall₂ _ part text))

/-- The expression of a part of a file name. -/
def unescaped (part : Str) (last : Regex) : Regex :=
  Regex.chars (part.map fun c d => if c = '.' then decide (d ≠ '\n') else decide (d = c)) last

/-- The front of the name of an image. -/
def imgFront : Str := "myscm-img.".toList

/-- The form that the name of an image is meant to have, with its second number. -/
def ImageForm (name second : Str) : Prop :=
  ∃ first, Str.Digits first ∧ Str.Digits second ∧
    name = imgFront ++ first ++ '.' :: (second ++ SystemImageGenerator.myscmImgExt)

/-- A name has its dots: it begins with `myscm-img.`, ends with `.tar.gz`, and has a dot in
between. -/
def Dotted (name : Str) : Prop :=
  imgFront <+: name ∧ SystemImageGenerator.myscmImgExt <:+ name ∧
    '.' ∈ (name.take (name.length - SystemImageGenerator.myscmImgExt.length)).drop imgFront.length

/-! ## What the expressions read -/

theorem fitsPattern_length {part text : Str} (reads : FitsPattern part text) :
    text.length = part.length := (List.Forall₂.length_eq reads).symm

theorem fitsPattern_self {part : Str} (single : '\n' ∉ part) : FitsPattern part part := by
  rw [FitsPattern, List.forall₂_same]
  intro c member
  split
  · rintro rfl
    exact single member
  · rfl

theorem mem_ways_unescaped {part s : Str} {last : Regex} {way : Regex.Way} :
    way ∈ (unescaped part last).ways s ↔
      ∃ front rest, s = front ++ rest ∧ FitsPattern part front ∧ way ∈ last.ways rest := by
  have same : ∀ front, List.Forall₂ (fun accept c => accept c = true)
      (part.map fun c d => if c = '.' then decide (d ≠ '\n') else decide (d = c)) front ↔
      FitsPattern part front := by
    intro front
    have reads : (fun c d => (if c = '.' then decide (d ≠ '\n') else decide (d = c)) = true) =
        fun c d => if c = '.' then d ≠ '\n' else d = c := by
      funext c d
      split <;> simp
    rw [List.forall₂_map_left_iff, reads]
    rfl
  rw [unescaped, Regex.mem_ways_chars]
  simp only [same]

/-- The class of `\d+`. -/
theorem mem_ways_digits {s : Str} {way : Regex.Way} :
    way ∈ (Regex.group (.many 1 fun c => (Str.decimalValue c).isSome)).ways s ↔
      ∃ digits, s = digits ++ way.2 ∧ Str.Digits digits ∧ way.1 = [digits] := by
  rw [Regex.mem_ways_group_many]
  simp only [Str.Digits, Nat.succ_le_iff, List.length_pos_iff, and_assoc]

theorem mem_ways_empty {s : Str} {way : Regex.Way} :
    way ∈ Regex.empty.ways s ↔ way = ([], s) := by
  rw [Regex.ways_empty, List.mem_singleton]

/-- The names that the expression of an image accepts, with what it captures. -/
theorem reading_of_fullmatch {name : Str} {groups : List Str}
    (isMatch : SysImgManager.myscmImgFileNameRegex.fullmatch name = some groups) :
    ∃ front first between second back, name = front ++ (first ++ between :: (second ++ back)) ∧
      FitsPattern imgFront front ∧ Str.Digits first ∧ Str.Digits second ∧
      FitsPattern SystemImageGenerator.myscmImgExt back ∧ groups = [first, second] := by
  have member := Regex.mem_ways_of_fullmatch isMatch
  obtain ⟨front, behindFront, rfl, isFront, member⟩ :=
    (@mem_ways_unescaped imgFront _ _ _).mp member
  obtain ⟨before, isBefore, next, isNext, same⟩ := Regex.mem_ways_seq.mp member
  obtain ⟨first, rfl, isFirst, captured⟩ := mem_ways_digits.mp isBefore
  obtain ⟨dot, isDot, behindDot, isBehind, rfl⟩ := Regex.mem_ways_seq.mp isNext
  obtain ⟨between, atDot, _, noGroups⟩ := Regex.mem_ways_one.mp isDot
  obtain ⟨two, isTwo, last, isLast, rfl⟩ := Regex.mem_ways_seq.mp isBehind
  obtain ⟨second, atSecond, isSecond, capturedSecond⟩ := mem_ways_digits.mp isTwo
  obtain ⟨back, rest, atBack, isBack, ending⟩ :=
    (@mem_ways_unescaped SystemImageGenerator.myscmImgExt _ _ _).mp isLast
  obtain rfl := mem_ways_empty.mp ending
  obtain ⟨rfl, consumed⟩ := Prod.mk.inj same
  obtain rfl : rest = [] := consumed.symm
  refine ⟨front, first, between, second, back, ?_, isFront, isFirst, isSecond, isBack, ?_⟩
  · rw [atDot, atSecond, atBack, List.append_nil]
  · rw [captured, noGroups, capturedSecond]
    rfl

/-! ## Names with their dots -/

theorem dotted_of_imageForm {name second : Str} (form : ImageForm name second) : Dotted name := by
  obtain ⟨first, _, _, rfl⟩ := form
  refine ⟨⟨first ++ '.' :: (second ++ SystemImageGenerator.myscmImgExt), by simp⟩,
    ⟨imgFront ++ first ++ '.' :: second, by simp⟩, ?_⟩
  have front : imgFront ++ first ++ '.' :: (second ++ SystemImageGenerator.myscmImgExt) =
      (imgFront ++ (first ++ '.' :: second)) ++ SystemImageGenerator.myscmImgExt := by simp
  rw [front, List.length_append, Nat.add_sub_cancel, List.take_left, List.drop_left]
  simp

/-- A name that is read has the form where it has its dots. -/
theorem imageForm_iff_dotted {front first second back : Str} {between : Char}
    (isFront : FitsPattern imgFront front) (isFirst : Str.Digits first) (isSecond : Str.Digits second)
    (isBack : FitsPattern SystemImageGenerator.myscmImgExt back) :
    ImageForm (front ++ (first ++ between :: (second ++ back))) second ↔
      Dotted (front ++ (first ++ between :: (second ++ back))) := by
  refine ⟨dotted_of_imageForm, ?_⟩
  rintro ⟨isPrefix, isSuffix, dot⟩
  have whole : front ++ (first ++ between :: (second ++ back)) =
      (front ++ (first ++ between :: second)) ++ back := by simp
  have frontIs : front = imgFront :=
    (List.prefix_of_prefix_length_le ⟨_, rfl⟩ isPrefix
      (le_of_eq (fitsPattern_length isFront))).eq_of_length (fitsPattern_length isFront)
  have backIs : back = SystemImageGenerator.myscmImgExt := by
    rw [whole] at isSuffix
    exact (List.suffix_of_suffix_length_le ⟨_, rfl⟩ isSuffix
      (le_of_eq (fitsPattern_length isBack))).eq_of_length (fitsPattern_length isBack)
  rw [whole, ← backIs, ← frontIs, List.length_append, Nat.add_sub_cancel, List.take_left,
    List.drop_left, List.mem_append, List.mem_cons] at dot
  have noDigit : (Str.decimalValue '.').isSome = false := by decide
  have betweenIs : '.' = between := by
    rcases dot with inFirst | isBetween | inSecond
    · exact absurd (isFirst.2 '.' inFirst) (by rw [noDigit]; decide)
    · exact isBetween
    · exact absurd (isSecond.2 '.' inSecond) (by rw [noDigit]; decide)
  refine ⟨first, isFirst, isSecond, ?_⟩
  rw [← betweenIs, frontIs, backIs, List.append_assoc]

/-- What is accepted as the name of an image is read as one, and gives its second number. -/
theorem reading_of_getTarget {fname : Str} {ver : Int}
    (accepted : SysImgManager.getTargetSysImgVerFromFname fname = .ok ver) :
    ∃ first second, SysImgManager.myscmImgFileNameRegex.fullmatch (Str.basename fname) =
      some [first, second] ∧ Str.parseInt second = some ver := by
  unfold SysImgManager.getTargetSysImgVerFromFname at accepted
  dsimp only at accepted
  split at accepted
  · rename_i first second isMatch
    split at accepted
    · rename_i parsed
      obtain rfl := Except.ok.inj accepted
      exact ⟨first, second, isMatch, parsed⟩
    · cases accepted
  · cases accepted

/-- The name that is built from two versions gives the second one, and an accepted or listed
name has the form of an image, with the version of its second number, where it has its dots. -/
theorem imageNames_exact_iff (x y : Nat) (fname : Str) (listing : List Str) :
    SysImgManager.getTargetSysImgVerFromFname
      (SystemImageGenerator.myscmImgFileName x y) = .ok (y : Int) ∧
    (∀ ver, SysImgManager.getTargetSysImgVerFromFname fname = .ok ver →
      ((∃ second, ImageForm (Str.basename fname) second ∧ (Str.digitsValue 10 second : Int) = ver) ↔
        Dotted (Str.basename fname))) ∧
    ∀ name ∈ getAllImgPaths listing, ((∃ second, ImageForm name second) ↔ Dotted name) := by
  refine ⟨?_, fun ver accepted => ?_, fun name listed => ?_⟩
  · exact SysImgManager.getTargetSysImgVerFromFname_myscmImgFileName [] x y
  · obtain ⟨one, two, isMatch, parsed⟩ := reading_of_getTarget accepted
    obtain ⟨front, first, between, second, back, whole, isFront, isFirst, isSecond, isBack, same⟩ :=
      reading_of_fullmatch isMatch
    obtain ⟨rfl, rfl⟩ : one = first ∧ two = second := by simpa using same
    rw [Str.parseInt_of_digits isSecond, Option.some.injEq] at parsed
    rw [whole]
    constructor
    · rintro ⟨_, form, _⟩
      exact dotted_of_imageForm form
    · exact fun dotted =>
        ⟨_, (imageForm_iff_dotted isFront isFirst isSecond isBack).mpr dotted, parsed⟩
  · obtain ⟨groups, isMatch⟩ := Option.isSome_iff_exists.mp (List.mem_filter.mp listed).2
    obtain ⟨front, first, between, second, back, whole, isFront, isFirst, isSecond, isBack, _⟩ :=
      reading_of_fullmatch isMatch
    rw [whole]
    constructor
    · rintro ⟨_, form⟩
      exact dotted_of_imageForm form
    · exact fun dotted => ⟨_, (imageForm_iff_dotted isFront isFirst isSecond isBack).mpr dotted⟩

theorem imageNames_exact_iff_first :
    (∃ second, ImageForm "myscm-img.0.1.tar.gz".toList second ∧
      (Str.digitsValue 10 second : Int) = 1) ∧
    ∃ second, ImageForm "myscm-img.0.1.tar.gz".toList second := by
  have exact := imageNames_exact_iff 0 1 "myscm-img.0.1.tar.gz".toList
    ["myscm-img.0.1.tar.gz".toList]
  refine ⟨(exact.2.1 1 (by decide)).mpr ?_, (exact.2.2 _ (by decide)).mpr ?_⟩ <;>
  exact ⟨by decide, by decide, by decide⟩

theorem not_imageNames_exact :
    ¬ ∀ fname ver, SysImgManager.getTargetSysImgVerFromFname fname = .ok ver →
      ∃ second, ImageForm (Str.basename fname) second ∧
        (Str.digitsValue 10 second : Int) = ver := by
  intro isExact
  obtain ⟨second, form, _⟩ := isExact "myscm-img-0.1.tar.gz".toList 1 (by decide)
  have isPrefix := (dotted_of_imageForm form).1
  revert isPrefix
  decide

end Myscm.Client
