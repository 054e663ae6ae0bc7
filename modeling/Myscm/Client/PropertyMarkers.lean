import Myscm.Client.SysImgExtractor
import Myscm.Server.AideEntry

/-!
Owns the question whether the client reads a property of changed.txt as the
server meant it.

Owns: the property string between its writer and its reader; what the client
takes for the previous value and for a change; when both sides agree.

Does not own: the columns around a property.
-/

namespace Myscm.Client

open Myscm.Library Myscm.Server

/-- A value as it stands in a report: not empty, without white space and brackets. -/
def PlainValue (value : Str) : Prop :=
  value ≠ [] ∧ ∀ c ∈ value, Str.isSpace c = false ∧ c ≠ '(' ∧ c ≠ ')'

instance (value : Str) : Decidable (PlainValue value) :=
  inferInstanceAs (Decidable (_ ∧ _))

/-- The server accepts the character in the column of `refC`. -/
def AcceptedChar (curC refC : Char) (value prevValue : Str) : Prop :=
  curC = refC ∨ (curC ∈ AIDEEntry.allowedInfoStrChars ∧ value = prevValue)

/-- The client reads the value, its predecessor and whether it changed off the
property string. -/
def FieldUnderstood (curC refC : Char) (value prevValue path : Str) : Prop :=
  ∃ field marker,
    AIDEEntry.propertyLine curC refC value prevValue = .ok field ∧
      getNewOldPropertyFromString field path = .ok (value, marker) ∧
      SysImgValidator.getExpectedValFromPropertyString field path = .ok prevValue ∧
      (refC = 'p' → ∀ options : ClientOptions, options.dryRun = false →
        (SysImgExtractor.changeFilePermissions options value marker path ≠ Prog.ret () ↔
          curC = refC)) ∧
      (refC = 'u' ∨ refC = 'g' →
        SysImgExtractor.ownerArg value marker =
          if curC = refC then Str.parseInt value else some (-1))

/-- When the client does: a change is marked by the previous value, unless that reads
as a marker; of the markers only the dot says that nothing changed. -/
def MarkerClear (curC refC : Char) (value prevValue : Str) : Prop :=
  if refC = 'p' ∨ refC = 'u' ∨ refC = 'g' then
    curC = '.' ∨ (curC = refC ∧ prevValue ≠ ['.'] ∧ (prevValue = ['='] → value = ['=']))
  else if curC = refC then
    prevValue = ['.'] ∨ prevValue = ['='] → value = prevValue
  else
    curC = '.' ∨ (curC ≠ ' ' ∧ prevValue = [curC])

/-! ## Reading a property string -/

private theorem strip_brackets {marker : Str} (plain : ∀ c ∈ marker, c ≠ '(' ∧ c ≠ ')') :
    Str.rstripChars [')'] (Str.lstripChars ['('] ('(' :: (marker ++ [')']))) = marker := by
  have left : Str.lstripChars ['('] ('(' :: (marker ++ [')'])) = marker ++ [')'] := by
    cases marker with
    | nil => rfl
    | cons c rest =>
        have other : c ≠ '(' := (plain c (by simp)).1
        simp [Str.lstripChars, other]
  rw [left, Str.rstripChars, List.rdropWhile_concat_pos _ _ _ (by simp)]
  rw [List.rdropWhile_eq_self_iff]
  intro nonempty last
  have other := (plain _ (List.getLast_mem nonempty)).2
  simp [other] at last

theorem getNewOldProperty_propertyString {value marker : Str} (path : Str)
    (plainValue : PlainValue value) (plainMarker : PlainValue marker) :
    getNewOldPropertyFromString (AIDEEntry.propertyString value marker) path =
      .ok (value, marker) := by
  have solidBrackets : ∀ c ∈ '(' :: (marker ++ [')']), Str.isSpace c = false := by
    intro c member
    simp only [List.mem_cons, List.mem_append, List.not_mem_nil, or_false] at member
    rcases member with rfl | inside | rfl
    · decide
    · exact (plainMarker.2 c inside).1
    · decide
  have words : Str.words (AIDEEntry.propertyString value marker) =
      [value, '(' :: (marker ++ [')'])] := by
    rw [AIDEEntry.propertyString,
      Str.words_cons plainValue.1 (fun c member => (plainValue.2 c member).1) (by decide),
      Str.words_single (by simp) solidBrackets]
  rw [getNewOldPropertyFromString, words]
  dsimp only
  rw [strip_brackets fun c member => (plainMarker.2 c member).2]

/-- A blank between brackets makes two words of them. -/
theorem getNewOldProperty_blank {value path : Str} (plainValue : PlainValue value)
    (result : Str × Str) :
    getNewOldPropertyFromString (AIDEEntry.propertyString value [' ']) path ≠ .ok result := by
  have words : Str.words (AIDEEntry.propertyString value [' ']) = [value, ['('], [')']] := by
    rw [AIDEEntry.propertyString,
      Str.words_cons plainValue.1 (fun c member => (plainValue.2 c member).1) (by decide)]
    rfl
  rw [getNewOldPropertyFromString, words]
  simp

/-- The value the validator expects: the new one behind a dot or an equals sign. -/
theorem getExpectedVal_propertyString {value marker : Str} (path : Str)
    (plainValue : PlainValue value) (plainMarker : PlainValue marker) :
    SysImgValidator.getExpectedValFromPropertyString (AIDEEntry.propertyString value marker) path =
      .ok (if marker = ['.'] ∨ marker = ['='] then value else marker) := by
  unfold SysImgValidator.getExpectedValFromPropertyString
  rw [getNewOldProperty_propertyString path plainValue plainMarker]
  rfl

/-- Without `--dry-run` the extractor goes on to set the mode unless a dot stands behind it. -/
theorem changeFilePermissions_ne_ret {options : ClientOptions} (wet : options.dryRun = false)
    (value marker path : Str) :
    SysImgExtractor.changeFilePermissions options value marker path ≠ Prog.ret () ↔
      marker ≠ ['.'] := by
  unfold SysImgExtractor.changeFilePermissions
  split
  · rename_i changed
    refine iff_of_true (fun same => ?_) changed
    have onBare := congrFun same Fs.bare
    cases parsed : Str.parseOctal value with
    | none => simp [parsed] at onBare
    | some mode =>
        simp only [parsed, SysImgExtractor.unlessDryRun, wet, Bool.false_eq_true, if_false, sys,
          Prog.step, Prog.ret_run] at onBare
        cases called : Fs.chmod mode path Fs.bare with
        | none => simp [called] at onBare
        | some next => simp [called] at onBare
  · rename_i unchanged
    simp [unchanged]

/-! ## Agreement -/

theorem plain_marker {c : Char} (allowed : c ∈ AIDEEntry.allowedInfoStrChars)
    (notBlank : c ≠ ' ') : PlainValue [c] := by
  simp only [AIDEEntry.allowedInfoStrChars, List.mem_cons, List.not_mem_nil, or_false] at allowed
  rcases allowed with rfl | rfl | rfl | rfl | rfl
  · decide
  · decide
  · exact absurd rfl notBlank
  · decide
  · decide

/-- Of the values that are a marker themselves none is a number. -/
private theorem parseInt_marker {c : Char} (allowed : c ∈ AIDEEntry.allowedInfoStrChars) :
    Str.parseInt [c] = none := by
  simp only [AIDEEntry.allowedInfoStrChars, List.mem_cons, List.not_mem_nil, or_false] at allowed
  rcases allowed with rfl | rfl | rfl | rfl | rfl <;> decide

section Agreement

variable {curC refC : Char} {value prevValue path : Str}

/-- What is left of the agreement where the property string has two words. -/
private theorem fieldUnderstood_of_plain {marker : Str} (plainValue : PlainValue value)
    (plainMarker : PlainValue marker)
    (written : AIDEEntry.propertyLine curC refC value prevValue =
      .ok (AIDEEntry.propertyString value marker)) :
    FieldUnderstood curC refC value prevValue path ↔
      (if marker = ['.'] ∨ marker = ['='] then value else marker) = prevValue ∧
        (refC = 'p' → (marker ≠ ['.'] ↔ curC = refC)) ∧
        (refC = 'u' ∨ refC = 'g' →
          SysImgExtractor.ownerArg value marker =
            if curC = refC then Str.parseInt value else some (-1)) := by
  have wet : ∃ options : ClientOptions, options.dryRun = false :=
    ⟨⟨false, false, [], [], [], [], 0⟩, rfl⟩
  unfold FieldUnderstood
  constructor
  · rintro ⟨field, other, written', decoded, expected, mode, owner⟩
    rw [written] at written'
    obtain rfl := Except.ok.inj written'
    rw [getNewOldProperty_propertyString path plainValue plainMarker] at decoded
    obtain ⟨_, rfl⟩ := Prod.mk.inj (Except.ok.inj decoded)
    rw [getExpectedVal_propertyString path plainValue plainMarker] at expected
    refine ⟨Except.ok.inj expected, fun isPerm => ?_, owner⟩
    obtain ⟨options, wet⟩ := wet
    rw [← changeFilePermissions_ne_ret wet value marker path]
    exact mode isPerm options wet
  · rintro ⟨expected, mode, owner⟩
    refine ⟨_, marker, written, getNewOldProperty_propertyString path plainValue plainMarker, ?_,
      fun isPerm options wet => ?_, owner⟩
    · rw [getExpectedVal_propertyString path plainValue plainMarker, expected]
    · rw [changeFilePermissions_ne_ret wet]
      exact mode isPerm

private theorem expected_own_iff :
    (if prevValue = ['.'] ∨ prevValue = ['='] then value else prevValue) = prevValue ↔
      (prevValue = ['.'] ∨ prevValue = ['='] → value = prevValue) := by
  split
  · rename_i marker
    simp [marker]
  · rename_i noMarker
    simp [noMarker]

/-- A property marked by its own letter. -/
private theorem fieldUnderstood_own (mapped : (AIDEEntry.propTypes refC).isSome = true)
    (plainValue : PlainValue value) (plainPrev : PlainValue prevValue) :
    FieldUnderstood refC refC value prevValue path ↔ MarkerClear refC refC value prevValue := by
  have notDot : refC ≠ '.' := by
    rintro rfl
    cases mapped
  have written : AIDEEntry.propertyLine refC refC value prevValue =
      .ok (AIDEEntry.propertyString value prevValue) := by
    simp [AIDEEntry.propertyLine]
  have dotIsNoNumber : Str.parseInt ['.'] = none := by decide
  rw [fieldUnderstood_of_plain plainValue plainPrev written, expected_own_iff]
  unfold MarkerClear SysImgExtractor.ownerArg
  by_cases perm : refC = 'p'
  · subst perm
    grind
  · by_cases owner : refC = 'u' ∨ refC = 'g'
    · grind
    · grind

/-- A property marked as unchanged. -/
private theorem fieldUnderstood_marker (allowed : curC ∈ AIDEEntry.allowedInfoStrChars)
    (other : curC ≠ refC) (plainValue : PlainValue value) :
    FieldUnderstood curC refC value value path ↔ MarkerClear curC refC value value := by
  have written : AIDEEntry.propertyLine curC refC value value =
      .ok (AIDEEntry.propertyString value [curC]) := by
    simp [AIDEEntry.propertyLine, other]
  by_cases blank : curC = ' '
  · subst blank
    refine iff_of_false ?_ ?_
    · rintro ⟨field, marker, written', decoded, _⟩
      rw [written] at written'
      obtain rfl := Except.ok.inj written'
      exact getNewOldProperty_blank plainValue _ decoded
    · simp [MarkerClear, other]
  · have notEquals : curC ≠ '=' := by
      rintro rfl
      exact absurd allowed (by decide)
    have noNumber := parseInt_marker allowed
    rw [fieldUnderstood_of_plain plainValue (plain_marker allowed blank) written]
    unfold MarkerClear SysImgExtractor.ownerArg
    grind

end Agreement

end Myscm.Client
