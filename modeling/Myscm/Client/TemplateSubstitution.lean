import Mathlib.Data.List.Find
import Mathlib.Data.List.Infix
import Myscm.Client.TemplateFile
import Myscm.Library.Dict

/-!
Owns what the replacement of placeholders in a template means: each placeholder of the template
becomes its value, and all else stays.

Owns: the pieces of a template; the passes of `_append_line_to_file` over its pieces; the values
computed once for a file; when the passes make what the pieces mean.

Does not own: reading and writing the files.
-/

namespace Myscm.Client

open Myscm.Library

namespace TemplateFile

/-! ## The pieces of a template -/

/-- The names of the predefined variables. -/
def predefinedNames : List Str :=
  ["HOSTNAME".toList, "USERNAME".toList, "USER_ID".toList, "HOME".toList, "UNIX_TIME".toList]

/-- The front of the placeholder of an environment variable. -/
def envOpening : Str := "<MYSCM:ENV:".toList

/-- A character of a template that stands for itself, or a placeholder. -/
inductive Piece where
  | char (c : Char)
  | predefined (name : Str)
  | env (name : Str)
  deriving DecidableEq

namespace Piece

/-- The piece as it stands in the template. -/
def text : Piece → Str
  | .char c => [c]
  | .predefined name => getFullVarName name
  | .env name => envOpening ++ name ++ "/>".toList

/-- What the piece becomes. -/
def value (vars : TemplateVars) : Piece → Str
  | .char c => [c]
  | .predefined name => ((getTemplatesVars vars).lookup name).getD []
  | .env name => getEnvValue vars (vars.upper name)

def isEnv : Piece → Bool
  | .env _ => true
  | _ => false

end Piece

/-- The name of an environment variable whose placeholder a text begins with. -/
def envNameAt (s : Str) : Option Str :=
  if envOpening.isPrefixOf s then untilEnd (s.drop envOpening.length) else none

/-- The placeholder that a text begins with. -/
def placeholderAt (s : Str) : Option Piece :=
  match predefinedNames.find? fun name => (getFullVarName name).isPrefixOf s with
  | some name => some (.predefined name)
  | none => (envNameAt s).map .env

/-- The pieces of a text behind `skip` characters of a placeholder. -/
def piecesFrom : Nat → Str → List Piece
  | _, [] => []
  | skip + 1, _ :: rest => piecesFrom skip rest
  | 0, c :: rest =>
      match placeholderAt (c :: rest) with
      | some piece => piece :: piecesFrom (piece.text.length - 1) rest
      | none => .char c :: piecesFrom 0 rest

/-- The pieces of a text. -/
def pieces (s : Str) : List Piece := piecesFrom 0 s

/-- The text in which each placeholder of the template is replaced by its value, and all else is
as in the template. -/
def substituted (vars : TemplateVars) (template : Str) : Str :=
  (pieces template).flatMap (Piece.value vars)

/-! ## The ends of placeholders -/

/-- A name ends at the first `/>`. -/
def EndsFirst (name : Str) : Prop := ∀ rest, untilEnd (name ++ '/' :: '>' :: rest) = some name

theorem untilEnd_eq_some {s name : Str} (found : untilEnd s = some name) :
    (∃ rest, s = name ++ '/' :: '>' :: rest) ∧ EndsFirst name ∧ '\n' ∉ name := by
  induction s using untilEnd.induct generalizing name with
  | case1 rest =>
      obtain rfl := Option.some.inj found
      exact ⟨⟨rest, rfl⟩, fun _ => rfl, List.not_mem_nil⟩
  | case2 rest =>
      rw [untilEnd] at found
      cases found
  | case3 c rest notEnd notLine inductionHypothesis =>
      rw [untilEnd.eq_3 _ _ notEnd notLine] at found
      obtain ⟨later, foundLater, rfl⟩ := Option.map_eq_some_iff.mp found
      obtain ⟨⟨behind, rfl⟩, endsFirst, noLine⟩ := inductionHypothesis foundLater
      refine ⟨⟨behind, rfl⟩, fun other => ?_, ?_⟩
      · have differs : ∀ tail, c = '/' → later ++ '/' :: '>' :: other = '>' :: tail → False := by
          intro tail isSlash isClosing
          cases later with
          | nil => cases isClosing
          | cons d later =>
              obtain ⟨rfl, _⟩ := List.cons.inj isClosing
              exact notEnd _ isSlash rfl
        rw [List.cons_append, untilEnd.eq_3 _ _ differs notLine, endsFirst other]
        rfl
      · rw [List.mem_cons, not_or]
        exact ⟨fun isLine => notLine isLine.symm, noLine⟩
  | case4 => cases found

/-- A text behind which no placeholder goes on: it is empty, or white space begins it, and no
name ends in its first line. -/
structure Closing (tail : Str) : Prop where
  space : ∀ c ∈ tail.head?, Str.isSpace c = true
  noEnd : untilEnd tail = none

theorem closing_of_newline (rest : Str) : Closing ('\n' :: rest) :=
  ⟨by rintro c ⟨⟩; decide, rfl⟩

theorem closing_of_blank {tail : Str} (blank : Str.Blank tail) : Closing tail := by
  refine ⟨fun c member => blank c (List.mem_of_mem_head? member), ?_⟩
  induction tail using untilEnd.induct with
  | case1 rest => exact absurd (blank '/' List.mem_cons_self) (by decide)
  | case2 rest => rfl
  | case3 c rest notEnd notLine inductionHypothesis =>
      rw [untilEnd.eq_3 _ _ notEnd notLine,
        inductionHypothesis fun d member => blank d (List.mem_cons_of_mem c member)]
      rfl
  | case4 => rfl

theorem untilEnd_append {tail : Str} (closing : Closing tail) (s : Str) :
    untilEnd (s ++ tail) = untilEnd s := by
  induction s using untilEnd.induct with
  | case1 rest => rfl
  | case2 rest => rfl
  | case3 c rest notEnd notLine inductionHypothesis =>
      have differs : ∀ behind, c = '/' → rest ++ tail = '>' :: behind → False := by
        intro behind isSlash isClosing
        cases rest with
        | nil =>
            have space := closing.space '>' (by rw [show tail = '>' :: behind from isClosing]; rfl)
            exact absurd space (by decide)
        | cons d rest =>
            obtain ⟨rfl, _⟩ := List.cons.inj isClosing
            exact notEnd _ isSlash rfl
      rw [List.cons_append, untilEnd.eq_3 _ _ differs notLine, untilEnd.eq_3 _ _ notEnd notLine,
        inductionHypothesis]
  | case4 => exact closing.noEnd

/-- A text without white space does not reach into what follows. -/
theorem isPrefix_append_iff {old s tail : Str} (solid : ∀ c ∈ old, Str.isSpace c = false)
    (closing : Closing tail) : old <+: s ++ tail ↔ old <+: s := by
  refine ⟨fun isPrefix => ?_, fun isPrefix => isPrefix.trans (List.prefix_append s tail)⟩
  induction old generalizing s with
  | nil => exact List.nil_prefix
  | cons c old inductionHypothesis =>
      cases s with
      | nil =>
          obtain ⟨rest, whole⟩ := isPrefix
          have space := closing.space c (by rw [← List.nil_append tail, ← whole]; rfl)
          rw [solid c List.mem_cons_self] at space
          cases space
      | cons d s =>
          obtain ⟨rfl, later⟩ := List.cons_prefix_cons.mp isPrefix
          exact List.cons_prefix_cons.mpr
            ⟨rfl, inductionHypothesis (fun c member => solid c (List.mem_cons_of_mem _ member))
              later⟩

theorem envNameAt_append {tail : Str} (closing : Closing tail) (s : Str) :
    envNameAt (s ++ tail) = envNameAt s := by
  have opens : envOpening.isPrefixOf (s ++ tail) = envOpening.isPrefixOf s := by
    rw [Bool.eq_iff_iff, List.isPrefixOf_iff_prefix, List.isPrefixOf_iff_prefix]
    exact isPrefix_append_iff (by decide) closing
  unfold envNameAt
  rw [opens]
  split
  · rename_i isOpening
    rw [List.drop_append_of_le_length (List.isPrefixOf_iff_prefix.mp isOpening).length_le,
      untilEnd_append closing]
  · rfl

theorem placeholderAt_append {tail : Str} (closing : Closing tail) (s : Str) :
    placeholderAt (s ++ tail) = placeholderAt s := by
  have solid : ∀ name ∈ predefinedNames, ∀ c ∈ getFullVarName name, Str.isSpace c = false := by
    decide
  have found : (predefinedNames.find? fun name => (getFullVarName name).isPrefixOf (s ++ tail)) =
      predefinedNames.find? fun name => (getFullVarName name).isPrefixOf s := by
    refine List.find?_congr fun name member => ?_
    rw [Bool.eq_iff_iff, List.isPrefixOf_iff_prefix, List.isPrefixOf_iff_prefix]
    exact isPrefix_append_iff (solid name member) closing
  rw [placeholderAt, found, envNameAt_append closing, placeholderAt]

/-! ## The pieces make the template -/

theorem env_of_envNameAt {s name : Str} (found : envNameAt s = some name) :
    (Piece.env name).text <+: s ∧ EndsFirst name := by
  unfold envNameAt at found
  split at found
  · rename_i isOpening
    obtain ⟨rest, rfl⟩ := List.isPrefixOf_iff_prefix.mp isOpening
    rw [List.drop_left] at found
    obtain ⟨⟨behind, rfl⟩, endsFirst, _⟩ := untilEnd_eq_some found
    refine ⟨⟨behind, ?_⟩, endsFirst⟩
    rw [Piece.text, List.append_assoc, List.append_assoc]
    rfl
  · cases found

theorem isPrefix_of_placeholderAt {s : Str} {piece : Piece} (found : placeholderAt s = some piece) :
    piece.text <+: s := by
  unfold placeholderAt at found
  split at found
  · rename_i name isName
    obtain rfl := Option.some.inj found
    have isPrefix := List.find?_some isName
    exact List.isPrefixOf_iff_prefix.mp isPrefix
  · obtain ⟨name, isEnv, rfl⟩ := Option.map_eq_some_iff.mp found
    exact (env_of_envNameAt isEnv).1

theorem text_ne_nil (piece : Piece) : piece.text ≠ [] := by
  cases piece with
  | char c => exact List.cons_ne_nil c []
  | predefined name =>
      exact List.append_ne_nil_of_left_ne_nil
        (List.append_ne_nil_of_left_ne_nil (by decide) name) _
  | env name =>
      exact List.append_ne_nil_of_left_ne_nil
        (List.append_ne_nil_of_left_ne_nil (by decide) name) _

/-- The pieces of a text are its characters. -/
theorem flatMap_text_piecesFrom (skip : Nat) (s : Str) :
    (piecesFrom skip s).flatMap Piece.text = s.drop skip := by
  induction s generalizing skip with
  | nil => simp [piecesFrom]
  | cons c rest inductionHypothesis =>
      cases skip with
      | succ skip =>
          rw [piecesFrom, inductionHypothesis]
          rfl
      | zero =>
          rw [piecesFrom]
          split
          · rename_i piece found
            obtain ⟨behind, whole⟩ := isPrefix_of_placeholderAt found
            rw [List.flatMap_cons, inductionHypothesis, List.drop_zero]
            cases text : piece.text with
            | nil => exact absurd text (text_ne_nil piece)
            | cons d tail =>
                rw [text, List.cons_append] at whole
                obtain ⟨rfl, rfl⟩ := List.cons.inj whole
                simp
          · rw [List.flatMap_cons, inductionHypothesis]
            rfl

theorem flatMap_text_pieces (s : Str) : (pieces s).flatMap Piece.text = s :=
  flatMap_text_piecesFrom 0 s

/-- A line that closes the placeholders splits the pieces. -/
theorem piecesFrom_append {tail : Str} (closing : Closing tail) (skip : Nat) (s : Str) :
    piecesFrom skip (s ++ tail) = piecesFrom skip s ++ piecesFrom (skip - s.length) tail := by
  induction s generalizing skip with
  | nil => simp [piecesFrom]
  | cons c rest inductionHypothesis =>
      cases skip with
      | succ skip =>
          rw [List.cons_append, piecesFrom, piecesFrom, inductionHypothesis, List.length_cons,
            Nat.add_sub_add_right]
      | zero =>
          rw [List.cons_append, piecesFrom, ← List.cons_append, placeholderAt_append closing,
            piecesFrom, Nat.zero_sub]
          split
          · rename_i piece found
            have short := (isPrefix_of_placeholderAt found).length_le
            rw [List.length_cons] at short
            rw [inductionHypothesis (piece.text.length - 1), List.cons_append,
              show piece.text.length - 1 - rest.length = 0 by omega]
          · rw [inductionHypothesis, List.cons_append, Nat.zero_sub]

/-- A piece that is no character is a placeholder somewhere. -/
theorem placeholderAt_of_mem {skip : Nat} {s : Str} {piece : Piece}
    (member : piece ∈ piecesFrom skip s) :
    (∃ c, piece = .char c) ∨ ∃ rest, placeholderAt rest = some piece := by
  induction s generalizing skip with
  | nil =>
      rw [piecesFrom] at member
      cases member
  | cons c rest inductionHypothesis =>
      cases skip with
      | succ skip => exact inductionHypothesis member
      | zero =>
          rw [piecesFrom] at member
          split at member
          · rename_i other found
            rcases List.mem_cons.mp member with rfl | later
            · exact .inr ⟨_, found⟩
            · exact inductionHypothesis later
          · rcases List.mem_cons.mp member with rfl | later
            · exact .inl ⟨c, rfl⟩
            · exact inductionHypothesis later

theorem endsFirst_of_mem {s name : Str} (member : Piece.env name ∈ pieces s) : EndsFirst name := by
  rcases placeholderAt_of_mem member with ⟨c, isChar⟩ | ⟨rest, found⟩
  · cases isChar
  · unfold placeholderAt at found
    split at found
    · cases found
    · obtain ⟨_, isEnv, same⟩ := Option.map_eq_some_iff.mp found
      obtain rfl := Piece.env.inj same
      exact (env_of_envNameAt isEnv).2

theorem mem_predefinedNames {s name : Str} (member : Piece.predefined name ∈ pieces s) :
    name ∈ predefinedNames := by
  rcases placeholderAt_of_mem member with ⟨c, isChar⟩ | ⟨rest, found⟩
  · cases isChar
  · unfold placeholderAt at found
    split at found
    · rename_i other isName
      obtain rfl := Piece.predefined.inj (Option.some.inj found)
      exact List.mem_of_find?_eq_some isName
    · obtain ⟨_, _, same⟩ := Option.map_eq_some_iff.mp found
      cases same

/-! ## One pass over the pieces -/

section Passes

variable (vars : TemplateVars)

/-- A piece where the pieces of `done` have become their values. -/
def shown (done : List Piece) (piece : Piece) : Str :=
  if piece ∈ done then piece.value vars else piece.text

/-- The text where the pieces of `done` have become their values. -/
def rendered (done ps : List Piece) : Str := ps.flatMap (shown vars done)

theorem rendered_cons (done : List Piece) (piece : Piece) (back : List Piece) :
    rendered vars done (piece :: back) = shown vars done piece ++ rendered vars done back := rfl

/-- Nothing starts within a text that `rest` follows. -/
def Absent (starts : Str → Bool) (s rest : Str) : Prop :=
  ∀ behind ∈ s.tails, behind ≠ [] → starts (behind ++ rest) = false

instance (starts : Str → Bool) (s rest : Str) : Decidable (Absent starts s rest) :=
  inferInstanceAs (Decidable (∀ behind ∈ s.tails, behind ≠ [] → starts (behind ++ rest) = false))

/-- Something starts in no piece but those that are `here`. -/
def OnlyAt (starts : Str → Bool) (here : Piece → Bool) (done : List Piece) : List Piece → Prop
  | [] => True
  | piece :: back =>
      (here piece = true ∨ Absent starts (shown vars done piece) (rendered vars done back)) ∧
        OnlyAt starts here done back

instance decidableOnlyAt (starts : Str → Bool) (here : Piece → Bool) (done : List Piece) :
    (ps : List Piece) → Decidable (OnlyAt vars starts here done ps)
  | [] => isTrue trivial
  | _ :: back =>
      have : Decidable (OnlyAt vars starts here done back) :=
        decidableOnlyAt starts here done back
      inferInstanceAs (Decidable (_ ∧ _))

/-- The passes for the placeholders of `targets` meet their placeholder in the template's pieces
alone, and there only once. -/
def PassesMeet (ps : List Piece) : List Piece → List Piece → Prop
  | _, [] => True
  | done, target :: targets =>
      OnlyAt vars target.text.isPrefixOf (fun piece => piece = target ∧ target ∉ done) done ps ∧
        PassesMeet ps (done ++ [target]) targets

instance decidablePassesMeet (ps : List Piece) :
    (done targets : List Piece) → Decidable (PassesMeet vars ps done targets)
  | _, [] => isTrue trivial
  | done, target :: targets =>
      have : Decidable (PassesMeet vars ps (done ++ [target]) targets) :=
        decidablePassesMeet ps (done ++ [target]) targets
      inferInstanceAs (Decidable (_ ∧ _))

/-- A pass for a placeholder. -/
def pass (text : Str) (target : Piece) : Str := replace target.text (target.value vars) text

variable {vars}

theorem replaceFrom_skip (old new : Str) (skip : Nat) (s : Str) :
    replaceFrom old new skip s = replaceFrom old new 0 (s.drop skip) := by
  induction s generalizing skip with
  | nil => simp [replaceFrom]
  | cons c rest inductionHypothesis =>
      cases skip with
      | zero => rfl
      | succ skip =>
          rw [replaceFrom, inductionHypothesis]
          rfl

/-- An occurrence is replaced as a whole. -/
theorem replace_hit {old : Str} (nonempty : old ≠ []) (new rest : Str) :
    replace old new (old ++ rest) = new ++ replace old new rest := by
  cases old with
  | nil => exact absurd rfl nonempty
  | cons c old =>
      have occurs : (c :: old).isPrefixOf (c :: (old ++ rest)) = true :=
        List.isPrefixOf_iff_prefix.mpr (List.prefix_append (c :: old) rest)
      rw [replace, List.cons_append, replaceFrom, if_pos occurs, replaceFrom_skip]
      simp [replace]

/-- A text in which no occurrence starts stays. -/
theorem replace_miss {old new s rest : Str} (absent : Absent old.isPrefixOf s rest) :
    replace old new (s ++ rest) = s ++ replace old new rest := by
  induction s with
  | nil => rfl
  | cons c s inductionHypothesis =>
      have here := absent (c :: s) ((List.mem_tails _ _).mpr (List.suffix_refl _)) (List.cons_ne_nil c s)
      have later := inductionHypothesis fun behind member nonempty =>
        absent behind ((List.mem_tails _ _).mpr (((List.mem_tails _ _).mp member).trans (List.suffix_cons c s)))
          nonempty
      rw [replace] at later ⊢
      rw [List.cons_append, replaceFrom, if_neg (by rw [← List.cons_append, here]; decide), later,
        List.cons_append, replace]

theorem shown_of_done {done : List Piece} {piece : Piece} (isDone : piece ∈ done) :
    shown vars done piece = piece.value vars := if_pos isDone

theorem shown_of_not_done {done : List Piece} {piece : Piece} (notDone : piece ∉ done) :
    shown vars done piece = piece.text := if_neg notDone

/-- A pass that meets its placeholder in the pieces alone gives it its value there. -/
theorem pass_rendered {done ps : List Piece} {target : Piece}
    (only : OnlyAt vars target.text.isPrefixOf (fun piece => piece = target ∧ target ∉ done) done
      ps) :
    pass vars (rendered vars done ps) target = rendered vars (done ++ [target]) ps := by
  induction ps with
  | nil => rfl
  | cons piece back inductionHypothesis =>
      have later := inductionHypothesis only.2
      rw [pass] at later ⊢
      rw [rendered_cons, rendered_cons]
      by_cases hits : piece = target ∧ target ∉ done
      · obtain ⟨rfl, notDone⟩ := hits
        rw [shown_of_not_done notDone, shown_of_done (by simp), replace_hit (text_ne_nil piece)]
        rw [later]
      · have same : shown vars (done ++ [target]) piece = shown vars done piece := by
          by_cases isTarget : piece = target
          · have isDone : piece ∈ done := by
              by_contra notDone
              exact hits ⟨isTarget, isTarget ▸ notDone⟩
            rw [shown_of_done isDone, shown_of_done (List.mem_append_left _ isDone)]
          · simp [shown, isTarget]
        have absent := only.1.resolve_left (by simpa using hits)
        rw [same, replace_miss absent, later]

/-- Passes that meet their placeholders in the pieces alone give them their values there. -/
theorem foldl_pass_rendered {ps targets : List Piece} (done : List Piece)
    (meet : PassesMeet vars ps done targets) :
    targets.foldl (pass vars) (rendered vars done ps) = rendered vars (done ++ targets) ps := by
  induction targets generalizing done with
  | nil => rw [List.foldl_nil, List.append_nil]
  | cons target targets inductionHypothesis =>
      rw [List.foldl_cons, pass_rendered meet.1, inductionHypothesis _ meet.2, List.append_assoc,
        List.singleton_append]

/-! ## The placeholders of environment variables -/

/-- The names of the environment variables among the pieces. -/
def envNames : List Piece → List Str
  | [] => []
  | .env name :: back => name :: envNames back
  | .char _ :: back => envNames back
  | .predefined _ :: back => envNames back

theorem envNamesFrom_skip (skip : Nat) (s : Str) :
    envNamesFrom skip s = envNamesFrom 0 (s.drop skip) := by
  induction s generalizing skip with
  | nil => simp [envNamesFrom]
  | cons c rest inductionHypothesis =>
      cases skip with
      | zero => rfl
      | succ skip =>
          rw [envNamesFrom, inductionHypothesis]
          rfl

theorem envNamesFrom_cons (c : Char) (rest : Str) :
    envNamesFrom 0 (c :: rest) =
      match envNameAt (c :: rest) with
      | some name => name :: envNamesFrom (envOpening.length + name.length + 1) rest
      | none => envNamesFrom 0 rest := rfl

/-- Names are found behind a text in which none starts. -/
theorem envNamesFrom_miss {s rest : Str}
    (absent : Absent (fun s => (envNameAt s).isSome) s rest) :
    envNamesFrom 0 (s ++ rest) = envNamesFrom 0 rest := by
  induction s with
  | nil => rfl
  | cons c s inductionHypothesis =>
      have here := absent (c :: s) ((List.mem_tails _ _).mpr (List.suffix_refl _))
        (List.cons_ne_nil c s)
      have none : envNameAt (c :: (s ++ rest)) = none := by simpa using here
      rw [List.cons_append, envNamesFrom_cons, none]
      exact inductionHypothesis fun behind member nonempty =>
        absent behind
          ((List.mem_tails _ _).mpr (((List.mem_tails _ _).mp member).trans (List.suffix_cons c s)))
          nonempty

/-- A placeholder is found with its name. -/
theorem envNamesFrom_hit {name : Str} (endsFirst : EndsFirst name) (rest : Str) :
    envNamesFrom 0 ((Piece.env name).text ++ rest) = name :: envNamesFrom 0 rest := by
  have whole : (Piece.env name).text ++ rest = envOpening ++ (name ++ '/' :: '>' :: rest) := by
    rw [Piece.text, List.append_assoc, List.append_assoc]
    rfl
  have found : envNameAt (envOpening ++ (name ++ '/' :: '>' :: rest)) = some name := by
    rw [envNameAt, if_pos (List.isPrefixOf_iff_prefix.mpr (List.prefix_append _ _)),
      List.drop_left, endsFirst rest]
  obtain ⟨c, tail, isOpening⟩ : ∃ c tail, envOpening = c :: tail := ⟨_, _, rfl⟩
  have length : envOpening.length + name.length + 1 = (tail ++ (name ++ ['/', '>'])).length := by
    rw [isOpening]
    simp
    omega
  have behind : tail ++ (name ++ '/' :: '>' :: rest) = (tail ++ (name ++ ['/', '>'])) ++ rest := by
    simp
  rw [whole]
  rw [isOpening, List.cons_append] at found ⊢
  rw [envNamesFrom_cons, found]
  dsimp only
  rw [envNamesFrom_skip, length, behind, List.drop_left]

/-- The names that are found are those of the pieces. -/
theorem envNamesFrom_rendered {done ps : List Piece}
    (endsFirst : ∀ name, Piece.env name ∈ ps → EndsFirst name)
    (notDone : ∀ name, Piece.env name ∉ done)
    (only : OnlyAt vars (fun s => (envNameAt s).isSome) Piece.isEnv done ps) :
    envNamesFrom 0 (rendered vars done ps) = envNames ps := by
  induction ps with
  | nil => rfl
  | cons piece back inductionHypothesis =>
      have later := inductionHypothesis
        (fun name member => endsFirst name (List.mem_cons_of_mem piece member)) only.2
      rw [rendered_cons]
      cases piece with
      | env name =>
          rw [shown_of_not_done (notDone name), envNamesFrom_hit (endsFirst name List.mem_cons_self),
            later, envNames]
      | char c => rw [envNamesFrom_miss (only.1.resolve_left (by simp [Piece.isEnv])), later, envNames]
      | predefined name =>
          rw [envNamesFrom_miss (only.1.resolve_left (by simp [Piece.isEnv])), later, envNames]

theorem envNamesFrom_append_blank {tail : Str} (blank : Str.Blank tail) (skip : Nat) (s : Str) :
    envNamesFrom skip (s ++ tail) = envNamesFrom skip s := by
  have closing := closing_of_blank blank
  have nothing : ∀ skip, envNamesFrom skip tail = [] := by
    intro skip
    rw [envNamesFrom_skip]
    have rest : Str.Blank (tail.drop skip) := fun c member => blank c (List.mem_of_mem_drop member)
    have absent : Absent (fun s => (envNameAt s).isSome) (tail.drop skip) [] := by
      intro behind member _
      have suffixBlank : Str.Blank behind := fun c inBehind =>
        rest c (((List.mem_tails _ _).mp member).subset inBehind)
      have empty := envNameAt_append (closing_of_blank suffixBlank) []
      show (envNameAt (behind ++ [])).isSome = false
      rw [List.append_nil, ← List.nil_append behind, empty]
      rfl
    have missed := envNamesFrom_miss absent
    rwa [List.append_nil] at missed
  induction s generalizing skip with
  | nil =>
      rw [List.nil_append, nothing]
      cases skip <;> rfl
  | cons c s inductionHypothesis =>
      cases skip with
      | succ skip => exact inductionHypothesis skip
      | zero =>
          rw [List.cons_append, envNamesFrom_cons, ← List.cons_append, envNameAt_append closing,
            envNamesFrom_cons]
          split
          · rw [inductionHypothesis]
          · rw [inductionHypothesis]

/-- Trimming a text leaves its names. -/
theorem envNamesFrom_strip (s : Str) : envNamesFrom 0 (Str.strip s) = envNamesFrom 0 s := by
  obtain ⟨front, tail, frontBlank, tailBlank, whole⟩ := Str.exists_blank_strip s
  have absent : Absent (fun s => (envNameAt s).isSome) front (Str.strip s ++ tail) := by
    intro behind member nonempty
    obtain ⟨c, later, rfl⟩ := List.exists_cons_of_ne_nil nonempty
    have space := frontBlank c (((List.mem_tails _ _).mp member).subset List.mem_cons_self)
    have differs : ¬ envOpening <+: c :: later ++ (Str.strip s ++ tail) := by
      rintro ⟨rest, same⟩
      have first := (List.cons.inj same).1
      rw [← first] at space
      exact absurd space (by decide)
    show (envNameAt (c :: later ++ (Str.strip s ++ tail))).isSome = false
    rw [envNameAt, if_neg (fun opens => differs (List.isPrefixOf_iff_prefix.mp opens))]
    rfl
  have found := envNamesFrom_miss absent
  rw [← List.append_assoc, ← whole, envNamesFrom_append_blank tailBlank] at found
  exact found.symm

/-! ## A line -/

/-- The placeholders of the predefined variables, in the order of their passes. -/
def predefinedPieces : List Piece := predefinedNames.map .predefined

variable (vars) in
/-- No placeholder arises in a line: the passes, over the line in which the placeholders of the
passes before have become their values, find no placeholder but those of the template. -/
structure NothingArises (line : Str) : Prop where
  predefined : PassesMeet vars (pieces line) [] predefinedPieces
  found : OnlyAt vars (fun s => (envNameAt s).isSome) Piece.isEnv predefinedPieces (pieces line)
  env : PassesMeet vars (pieces line) predefinedPieces ((envNames (pieces line)).map .env)

variable (vars) in
instance decidableNothingArises (line : Str) : Decidable (NothingArises vars line) :=
  decidable_of_iff
    (PassesMeet vars (pieces line) [] predefinedPieces ∧
      OnlyAt vars (fun s => (envNameAt s).isSome) Piece.isEnv predefinedPieces (pieces line) ∧
      PassesMeet vars (pieces line) predefinedPieces ((envNames (pieces line)).map .env))
    ⟨fun parts => ⟨parts.1, parts.2.1, parts.2.2⟩,
      fun nothing => ⟨nothing.predefined, nothing.found, nothing.env⟩⟩

/-- The passes for the predefined variables. -/
theorem foldl_predefined (line : Str) :
    (getTemplatesVars vars).foldl
      (fun text var => replace (getFullVarName var.1) var.2 text) line =
      predefinedPieces.foldl (pass vars) line := rfl

theorem mem_envNames {ps : List Piece} {name : Str} (member : Piece.env name ∈ ps) :
    name ∈ envNames ps := by
  induction ps with
  | nil => cases member
  | cons piece back inductionHypothesis =>
      rcases List.mem_cons.mp member with rfl | later
      · exact List.mem_cons_self
      · have inBack := inductionHypothesis later
        cases piece with
        | env other => exact List.mem_cons_of_mem other inBack
        | char c => exact inBack
        | predefined other => exact inBack

/-- Where all passes are done, each placeholder of a line has become its value. -/
theorem rendered_all (line : Str) :
    rendered vars (predefinedPieces ++ (envNames (pieces line)).map .env) (pieces line) =
      substituted vars line := by
  refine List.flatMap_congr fun piece member => ?_
  cases piece with
  | char c =>
      refine shown_of_not_done ?_
      simp [predefinedPieces]
  | predefined name =>
      exact shown_of_done (List.mem_append_left _
        (List.mem_map.mpr ⟨name, mem_predefinedNames member, rfl⟩))
  | env name =>
      exact shown_of_done (List.mem_append_right _
        (List.mem_map.mpr ⟨name, mem_envNames member, rfl⟩))

/-- A line in which no placeholder arises is written with its placeholders replaced. -/
theorem replaceLine_of_nothingArises {line : Str} (nothing : NothingArises vars line) :
    replaceLine vars line = substituted vars line := by
  have start : rendered vars [] (pieces line) = line := by
    rw [rendered, List.flatMap_congr fun piece _ => shown_of_not_done List.not_mem_nil]
    exact flatMap_text_pieces line
  have predefined : predefinedPieces.foldl (pass vars) line =
      rendered vars predefinedPieces (pieces line) := by
    have met := foldl_pass_rendered [] nothing.predefined
    rwa [start, List.nil_append] at met
  have names : envNamesFrom 0 (Str.strip (rendered vars predefinedPieces (pieces line))) =
      envNames (pieces line) := by
    rw [envNamesFrom_strip]
    exact envNamesFrom_rendered (fun name member => endsFirst_of_mem member)
      (fun name member => by simp [predefinedPieces] at member) nothing.found
  have env := foldl_pass_rendered predefinedPieces nothing.env
  rw [List.foldl_map] at env
  rw [replaceLine, foldl_predefined, predefined, names, ← rendered_all, ← env]
  rfl

end Passes

/-! ## The lines of a text -/

theorem placeholderAt_newline (rest : Str) : placeholderAt ('\n' :: rest) = none :=
  placeholderAt_append (closing_of_newline rest) []

/-- A line is replaced for itself. -/
theorem substituted_line (vars : TemplateVars) (line rest : Str) :
    substituted vars (line ++ '\n' :: rest) =
      substituted vars (line ++ ['\n']) ++ substituted vars rest := by
  have front (rest : Str) : pieces (line ++ '\n' :: rest) =
      pieces line ++ .char '\n' :: pieces rest := by
    rw [pieces, piecesFrom_append (closing_of_newline rest), Nat.zero_sub, piecesFrom,
      placeholderAt_newline]
    rfl
  rw [substituted, substituted, substituted, front rest, front []]
  simp [pieces, piecesFrom]

theorem linesWithEnds_of_newline {line : Str} (single : '\n' ∉ line) (rest : Str) :
    linesWithEnds (line ++ '\n' :: rest) = (line ++ ['\n']) :: linesWithEnds rest := by
  unfold linesWithEnds
  dsimp only
  rw [List.splitOn_append_cons_self_of_not_mem single]
  cases pieces : rest.splitOn '\n' with
  | nil => exact absurd pieces (List.splitOn_ne_nil '\n' rest)
  | cons first others => simp

theorem linesWithEnds_single {line : Str} (single : '\n' ∉ line) :
    linesWithEnds line = [line].filter (· ≠ []) := by
  unfold linesWithEnds
  rw [List.splitOn_eq_singleton single]
  rfl

/-- A text is replaced line by line. -/
theorem flatMap_substituted_lines (vars : TemplateVars) (text : Str) :
    (linesWithEnds text).flatMap (substituted vars) = substituted vars text := by
  induction length : text.length using Nat.strong_induction_on generalizing text with
  | _ n inductionHypothesis =>
    by_cases present : '\n' ∈ text
    · obtain ⟨line, rest, rfl, single⟩ := List.eq_append_cons_of_mem present
      have shorter : rest.length < n := by
        rw [← length, List.length_append, List.length_cons]
        omega
      rw [linesWithEnds_of_newline single, List.flatMap_cons,
        inductionHypothesis _ shorter rest rfl, substituted_line vars line rest]
    · rw [linesWithEnds_single present]
      by_cases empty : text = []
      · rw [empty]
        rfl
      · simp [empty]

/-! ## The values that are computed once -/

/-- What a function of a predefined variable returns behind a number of calls, and the
environment. -/
structure VarSource where
  call : Str → Nat → Str
  environ : Str → Option Str
  upper : Str → Str

/-- `computed_vars_values`, with the number of calls so far. -/
structure Computed where
  values : Dict Str Str
  calls : Nat

/-- The machine with the given values of the predefined variables. -/
def VarSource.varsWith (source : VarSource) (values : Str → Str) : TemplateVars where
  hostname := values "HOSTNAME".toList
  username := values "USERNAME".toList
  userId := values "USER_ID".toList
  home := values "HOME".toList
  unixTime := values "UNIX_TIME".toList
  environ := source.environ
  upper := source.upper

/-- The second loop of `_append_line_to_file`. -/
def replaceEnv (vars : TemplateVars) (line : Str) : Str :=
  (envNamesFrom 0 (Str.strip line)).foldl
    (fun text name =>
      replace ("<MYSCM:ENV:".toList ++ name ++ "/>".toList)
        (getEnvValue vars (vars.upper name)) text)
    line

section Source

variable (source : VarSource)

/-- A turn of the first loop of `_append_line_to_file`. -/
def replaceVar (state : Str × Computed) (varName : Str) : Str × Computed :=
  let fullVarName := getFullVarName varName
  if fullVarName <:+: state.1 then
    let varValue := (state.2.values.get? varName).getD (source.call varName state.2.calls)
    (replace fullVarName varValue state.1,
      ⟨state.2.values.set varName varValue, state.2.calls + 1⟩)
  else
    state

/-- `_append_line_to_file`, with the line it writes. -/
def appendLineToFile (computed : Computed) (line : Str) : Str × Computed :=
  let replaced := predefinedNames.foldl (replaceVar source) (line, computed)
  (replaceEnv (source.varsWith fun _ => []) replaced.1, replaced.2)

/-- The loop of `replace_placeholders_with_values`. -/
def appendLines : Computed → List Str → List Str × Computed
  | computed, [] => ([], computed)
  | computed, line :: lines =>
      let written := appendLineToFile source computed line
      let rest := appendLines written.2 lines
      (written.1 :: rest.1, rest.2)

/-- What `replace_placeholders_with_values` writes for the text of a template. -/
def writtenText (template : Str) : Str :=
  (appendLines source ⟨.empty, 0⟩ (linesWithEnds (Str.universalNewlines template))).1.flatten

/-- The machine has values that the functions return some time. -/
structure Realizes (vars : TemplateVars) : Prop where
  environ : vars.environ = source.environ
  upper : vars.upper = source.upper
  predefined : ∀ name ∈ predefinedNames, ∃ calls,
    (Piece.predefined name).value vars = source.call name calls

variable {source}

/-- The values agree with what is computed so far. -/
def Agrees (values : Str → Str) (computed : Computed) : Prop :=
  ∀ name value, computed.values.get? name = some value → values name = value

/-- What is computed stays. -/
def Keeps (before after : Computed) : Prop :=
  ∀ name value, before.values.get? name = some value → after.values.get? name = some value

/-- What is computed was returned by the functions. -/
def Returned (source : VarSource) (computed : Computed) : Prop :=
  ∀ name value, computed.values.get? name = some value → ∃ calls, value = source.call name calls

theorem replace_of_not_isInfix {old s : Str} (new : Str) (absent : ¬ old <:+: s) :
    replace old new s = s := by
  have missed := @replace_miss old new s [] fun behind member _ => by
    rw [Bool.eq_false_iff, ne_eq, List.isPrefixOf_iff_prefix, List.append_nil]
    exact fun isPrefix => absent
      (isPrefix.isInfix.trans ((List.mem_tails _ _).mp member).isInfix)
  rwa [List.append_nil, show replace old new [] = [] from rfl, List.append_nil] at missed

/-- A turn of the first loop replaces a variable by the value that is computed for it. -/
theorem replaceVar_spec (state : Str × Computed) (varName : Str)
    (returned : Returned source state.2) :
    Keeps state.2 (replaceVar source state varName).2 ∧
      Returned source (replaceVar source state varName).2 ∧
      ∀ values, Agrees values (replaceVar source state varName).2 →
        (replaceVar source state varName).1 =
          replace (getFullVarName varName) (values varName) state.1 := by
  unfold replaceVar
  dsimp only
  split
  · refine ⟨?_, ?_, ?_⟩
    · intro name value found
      dsimp only
      rw [Dict.get?_set]
      split
      · rename_i same
        rw [← same, found]
        rfl
      · exact found
    · intro name value found
      dsimp only at found
      rw [Dict.get?_set] at found
      split at found
      · rename_i same
        subst same
        obtain rfl := Option.some.inj found
        cases known : state.2.values.get? name with
        | none => exact ⟨_, rfl⟩
        | some value => exact returned name value known
      · exact returned name value found
    · intro values agrees
      have value := agrees varName _ (by dsimp only; rw [Dict.get?_set, if_pos rfl])
      rw [value]
  · rename_i absent
    exact ⟨fun _ _ found => found, returned, fun values _ =>
      (replace_of_not_isInfix (values varName) absent).symm⟩

/-- The first loop replaces its variables by the values that are computed for them. -/
theorem foldl_replaceVar_spec (names : List Str) (state : Str × Computed)
    (returned : Returned source state.2) :
    Keeps state.2 (names.foldl (replaceVar source) state).2 ∧
      Returned source (names.foldl (replaceVar source) state).2 ∧
      ∀ values, Agrees values (names.foldl (replaceVar source) state).2 →
        (names.foldl (replaceVar source) state).1 =
          names.foldl (fun text name => replace (getFullVarName name) (values name) text)
            state.1 := by
  induction names generalizing state with
  | nil => exact ⟨fun _ _ found => found, returned, fun _ _ => rfl⟩
  | cons name names inductionHypothesis =>
      obtain ⟨keepsHere, returnedHere, lineHere⟩ := replaceVar_spec state name returned
      obtain ⟨keeps, returnedLater, line⟩ := inductionHypothesis _ returnedHere
      refine ⟨fun other value found => keeps other value (keepsHere other value found),
        returnedLater, fun values agrees => ?_⟩
      rw [List.foldl_cons, List.foldl_cons, line values agrees,
        lineHere values fun other value found => agrees other value (keeps other value found)]

theorem replaceLine_varsWith (values : Str → Str) (line : Str) :
    replaceLine (source.varsWith values) line =
      replaceEnv (source.varsWith fun _ => []) (predefinedNames.foldl
        (fun text name => replace (getFullVarName name) (values name) text) line) := by
  have named : getTemplatesVars (source.varsWith values) =
      predefinedNames.map fun name => (name, values name) := rfl
  rw [replaceLine, named, List.foldl_map]
  rfl

theorem appendLineToFile_spec (computed : Computed) (line : Str)
    (returned : Returned source computed) :
    Keeps computed (appendLineToFile source computed line).2 ∧
      Returned source (appendLineToFile source computed line).2 ∧
      ∀ values, Agrees values (appendLineToFile source computed line).2 →
        (appendLineToFile source computed line).1 = replaceLine (source.varsWith values) line := by
  obtain ⟨keeps, returnedLater, replaced⟩ :=
    foldl_replaceVar_spec predefinedNames (line, computed) returned
  unfold appendLineToFile
  dsimp only
  refine ⟨keeps, returnedLater, fun values agrees => ?_⟩
  rw [replaced values agrees, replaceLine_varsWith]

/-- All lines are written with one value for each predefined variable. -/
theorem appendLines_spec (lines : List Str) (computed : Computed)
    (returned : Returned source computed) :
    Keeps computed (appendLines source computed lines).2 ∧
      Returned source (appendLines source computed lines).2 ∧
      ∀ values, Agrees values (appendLines source computed lines).2 →
        (appendLines source computed lines).1 =
          lines.map (replaceLine (source.varsWith values)) := by
  induction lines generalizing computed with
  | nil => exact ⟨fun _ _ found => found, returned, fun _ _ => rfl⟩
  | cons line lines inductionHypothesis =>
      obtain ⟨keepsHere, returnedHere, lineHere⟩ := appendLineToFile_spec computed line returned
      obtain ⟨keeps, returnedLater, later⟩ := inductionHypothesis _ returnedHere
      refine ⟨fun other value found => keeps other value (keepsHere other value found),
        returnedLater, fun values agrees => ?_⟩
      rw [appendLines]
      dsimp only
      rw [later values agrees, List.map_cons,
        lineHere values fun other value found => agrees other value (keeps other value found)]

/-- A file is written with one value for each predefined variable, which its function returned. -/
theorem writtenText_eq (source : VarSource) (template : Str) :
    ∃ vars, Realizes source vars ∧
      writtenText source template =
        ((linesWithEnds (Str.universalNewlines template)).map (replaceLine vars)).flatten := by
  have none : Returned source ⟨.empty, 0⟩ := fun name value found => by cases found
  obtain ⟨_, returned, written⟩ :=
    appendLines_spec (linesWithEnds (Str.universalNewlines template)) ⟨.empty, 0⟩ none
  let last := (appendLines source ⟨.empty, 0⟩ (linesWithEnds (Str.universalNewlines template))).2
  let values : Str → Str := fun name => (last.values.get? name).getD (source.call name 0)
  have agrees : Agrees values last := fun name value found => by
    show (last.values.get? name).getD _ = value
    rw [found]
    rfl
  have called : ∀ name, ∃ calls, values name = source.call name calls := by
    intro name
    cases found : last.values.get? name with
    | none =>
        refine ⟨0, ?_⟩
        show (last.values.get? name).getD _ = _
        rw [found]
        rfl
    | some value =>
        rw [agrees name value found]
        exact returned name value found
  refine ⟨source.varsWith values, ⟨rfl, rfl, ?_⟩, by rw [writtenText, written values agrees]⟩
  simp only [predefinedNames, List.forall_mem_cons]
  exact ⟨called _, called _, called _, called _, called _, by simp⟩

/-- What is written for a template without carriage returns in which no placeholder arises is the
template with each placeholder replaced, those of one variable by one value. -/
theorem writtenText_simultaneous {template : Str} (noReturn : '\r' ∉ template)
    (nothing : ∀ vars, Realizes source vars → ∀ line ∈ linesWithEnds template,
      NothingArises vars line) :
    ∃ vars, Realizes source vars ∧ writtenText source template = substituted vars template := by
  obtain ⟨vars, realizes, written⟩ := writtenText_eq source template
  refine ⟨vars, realizes, ?_⟩
  rw [written, Str.universalNewlines_eq_self noReturn, ← flatMap_substituted_lines, List.flatMap]
  congr 1
  exact List.map_congr_left fun line member =>
    replaceLine_of_nothingArises (nothing vars realizes line member)

end Source

/-- Where each function always returns one value, the machine has these values. -/
theorem eq_varsWith_of_realizes {values : Str → Str} {environ : Str → Option Str}
    {upper : Str → Str} {vars : TemplateVars}
    (realizes : Realizes ⟨fun name _ => values name, environ, upper⟩ vars) :
    vars = VarSource.varsWith ⟨fun name _ => values name, environ, upper⟩ values := by
  have each : ∀ name ∈ predefinedNames, (Piece.predefined name).value vars = values name := by
    intro name member
    obtain ⟨_, returned⟩ := realizes.predefined name member
    exact returned
  obtain ⟨hostname, username, userId, home, unixTime, environ', upper'⟩ := vars
  have hostnameIs : hostname = values "HOSTNAME".toList := each "HOSTNAME".toList (by decide)
  have usernameIs : username = values "USERNAME".toList := each "USERNAME".toList (by decide)
  have userIdIs : userId = values "USER_ID".toList := each "USER_ID".toList (by decide)
  have homeIs : home = values "HOME".toList := each "HOME".toList (by decide)
  have unixTimeIs : unixTime = values "UNIX_TIME".toList := each "UNIX_TIME".toList (by decide)
  rw [hostnameIs, usernameIs, userIdIs, homeIs, unixTimeIs, VarSource.varsWith,
    ← realizes.environ, ← realizes.upper]

/-- A machine whose host name is as given, with the home directory `/root`. -/
def namedHost (hostname : Str) : VarSource where
  call name _ := if name = "HOSTNAME".toList then hostname else "/root".toList
  environ name := if name = "P".toList then some "v".toList else none
  upper name := name.map Char.toUpper

theorem writtenText_simultaneous_env :
    ∃ vars, Realizes (namedHost "h".toList) vars ∧
      writtenText (namedHost "h".toList) "<MYSCM:HOSTNAME/> <MYSCM:ENV:p/>".toList =
        substituted vars "<MYSCM:HOSTNAME/> <MYSCM:ENV:p/>".toList := by
  refine writtenText_simultaneous (by decide) fun vars realizes => ?_
  rw [eq_varsWith_of_realizes realizes]
  decide

/-- The value of the host name is replaced once more. -/
theorem not_writtenText_simultaneous :
    ¬ ∀ source template, ∃ vars, Realizes source vars ∧
      writtenText source template = substituted vars template := by
  intro simultaneous
  obtain ⟨vars, realizes, written⟩ :=
    simultaneous (namedHost "<MYSCM:HOME/>".toList) "<MYSCM:HOSTNAME/>".toList
  rw [eq_varsWith_of_realizes realizes] at written
  revert written
  decide

end TemplateFile

end Myscm.Client
