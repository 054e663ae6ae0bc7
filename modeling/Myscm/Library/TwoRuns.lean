import Mathlib.Tactic.Common
import Myscm.Library.Prog

/-!
Owns computations that are given one secret input, and the question whether two runs on
two inputs can differ.

Owns: `Blind`, that they cannot; `Tells`, that a marked failure on one input gives it
away; both through sequences, loops and renamed failures.

Does not own: what the input is.
-/

namespace Myscm.Library

variable {γ ε ε' α β : Type}

/-- Two runs on two inputs end alike. -/
def Blind (run : γ → Except ε α) : Prop :=
  ∀ left right, run left = run right

/-- A failure that is none of the marked ones, or no failure. -/
def Unmarked (Marked : ε → Prop) (result : Except ε α) : Prop :=
  ∀ failure, result = .error failure → ¬ Marked failure

/-- The run ends with a marked failure on the one input, and not on the other. -/
structure Tells (Marked : ε → Prop) (bad good : γ) (run : γ → Except ε α) : Prop where
  fails : ∃ failure, run bad = .error failure ∧ Marked failure
  passes : Unmarked Marked (run good)

variable {Marked : ε → Prop} {bad good : γ}

theorem Tells.not_blind {run : γ → Except ε α} (tells : Tells Marked bad good run) :
    ¬ Blind run := by
  intro blind
  obtain ⟨failure, failed, marked⟩ := tells.fails
  exact tells.passes failure ((blind good bad).trans failed) marked

theorem blind_of_const {run : γ → Except ε α} {result : Except ε α}
    (const : ∀ input, run input = result) : Blind run := fun left right =>
  (const left).trans (const right).symm

theorem unmarked_ok (value : α) : Unmarked Marked (.ok value : Except ε α) := by
  intro failure failed
  cases failed

theorem unmarked_error {failure : ε} (unmarked : ¬ Marked failure) :
    Unmarked Marked (.error failure : Except ε α) := by
  intro other failed
  obtain rfl := Except.error.inj failed
  exact unmarked

theorem Unmarked.bind {first : Except ε α} {next : α → Except ε β}
    (firstUnmarked : Unmarked Marked first) (nextUnmarked : ∀ value, Unmarked Marked (next value)) :
    Unmarked Marked (first >>= next) := by
  cases first with
  | error failure => exact unmarked_error (firstUnmarked failure rfl)
  | ok value => exact nextUnmarked value

theorem Unmarked.map {result : Except ε α} (f : α → β) (unmarked : Unmarked Marked result) :
    Unmarked Marked (f <$> result) := by
  cases result with
  | ok value => exact unmarked_ok _
  | error failure => exact unmarked_error (unmarked failure rfl)

theorem unmarked_mapM {items : List α} {next : α → Except ε β}
    (each : ∀ item ∈ items, Unmarked Marked (next item)) : Unmarked Marked (items.mapM next) := by
  induction items with
  | nil => exact unmarked_ok _
  | cons item rest inductionHypothesis =>
      rw [List.mapM_cons]
      refine (each item List.mem_cons_self).bind fun value => ?_
      refine (inductionHypothesis fun other member => each other (List.mem_cons_of_mem _ member)).bind
        fun values => unmarked_ok _

theorem unmarked_foldlM {items : List α} {next : β → α → Except ε β}
    (each : ∀ acc, ∀ item ∈ items, Unmarked Marked (next acc item)) (acc : β) :
    Unmarked Marked (items.foldlM next acc) := by
  induction items generalizing acc with
  | nil => exact unmarked_ok _
  | cons item rest inductionHypothesis =>
      rw [List.foldlM_cons]
      exact (each acc item List.mem_cons_self).bind fun value =>
        inductionHypothesis (fun acc other member => each acc other (List.mem_cons_of_mem _ member))
          value

/-- What follows does not undo the failure. -/
theorem Tells.bind {run : γ → Except ε α} {next : γ → α → Except ε β}
    (tells : Tells Marked bad good run) (nextUnmarked : ∀ value, Unmarked Marked (next good value)) :
    Tells Marked bad good fun input => run input >>= next input where
  fails := by
    obtain ⟨failure, failed, marked⟩ := tells.fails
    exact ⟨failure, by rw [failed]; rfl, marked⟩
  passes := tells.passes.bind nextUnmarked

/-- Renamed failures tell what they told where marks are kept. -/
theorem Tells.mapError {Marked' : ε' → Prop} {rename : ε → ε'}
    (keeps : ∀ failure, Marked' (rename failure) ↔ Marked failure) {run : γ → Except ε α}
    (tells : Tells Marked bad good run) :
    Tells Marked' bad good fun input => (run input).mapError rename where
  fails := by
    obtain ⟨failure, failed, marked⟩ := tells.fails
    exact ⟨rename failure, by rw [failed]; rfl, (keeps failure).mpr marked⟩
  passes := by
    intro failure' failed'
    cases found : run good with
    | ok value =>
        rw [found] at failed'
        cases failed'
    | error failure =>
        rw [found] at failed'
        obtain rfl : rename failure = failure' := Except.error.inj failed'
        rw [keeps]
        exact tells.passes failure found

theorem Unmarked.mapError {Marked' : ε' → Prop} {rename : ε → ε'}
    (keeps : ∀ failure, Marked' (rename failure) ↔ Marked failure) {result : Except ε α}
    (unmarked : Unmarked Marked result) : Unmarked Marked' (result.mapError rename) := by
  intro failure' failed
  cases result with
  | ok value => cases failed
  | error failure =>
      obtain rfl : rename failure = failure' := Except.error.inj failed
      rw [keeps]
      exact unmarked failure rfl

/-! ## The first item that tells -/

/-- Some item tells, behind items that pass without a look at the input. -/
def FirstTells (Looks : β → Prop) (pass : β → Prop) (items : List β) : Prop :=
  ∃ before item after, items = before ++ item :: after ∧ Looks item ∧
    ∀ earlier ∈ before, ¬ Looks earlier ∧ pass earlier

theorem firstTells_cons_iff {Looks pass : β → Prop} {item : β} {rest : List β} :
    FirstTells Looks pass (item :: rest) ↔
      Looks item ∨ (¬ Looks item ∧ pass item ∧ FirstTells Looks pass rest) := by
  constructor
  · rintro ⟨before, looking, after, split, looks, earlier⟩
    cases before with
    | nil =>
        obtain ⟨rfl, rfl⟩ := List.cons.inj split
        exact .inl looks
    | cons first before =>
        obtain ⟨rfl, rfl⟩ := List.cons.inj split
        have here := earlier item List.mem_cons_self
        exact .inr ⟨here.1, here.2, before, looking, after, rfl, looks,
          fun other member => earlier other (List.mem_cons_of_mem _ member)⟩
  · rintro (looks | ⟨blind, passes, before, looking, after, rfl, looks, earlier⟩)
    · exact ⟨[], item, rest, rfl, looks, fun other member => absurd member List.not_mem_nil⟩
    · refine ⟨item :: before, looking, after, rfl, looks, fun other member => ?_⟩
      rcases List.mem_cons.mp member with rfl | later
      · exact ⟨blind, passes⟩
      · exact earlier other later

/-- Where everything passes, the first item that looks is one that tells. -/
theorem firstTells_of_mem {Looks pass : β → Prop} {items : List β} (passes : ∀ item ∈ items, pass item)
    {item : β} (member : item ∈ items) (looks : Looks item) : FirstTells Looks pass items := by
  induction items with
  | nil => cases member
  | cons first rest inductionHypothesis =>
      rw [firstTells_cons_iff]
      by_cases here : Looks first
      · exact .inl here
      · rcases List.mem_cons.mp member with rfl | later
        · exact absurd looks here
        · exact .inr ⟨here, passes first List.mem_cons_self,
            inductionHypothesis (fun other isLater => passes other (List.mem_cons_of_mem _ isLater))
              later⟩

section Loops

variable {step : γ → β → Except ε α} {Looks : β → Prop}
  (blind : ∀ item, ¬ Looks item → ∀ input, step input item = step good item)
include blind

/-- A loop tells where its first item that looks does. -/
theorem tells_mapM (tells : ∀ item, Looks item → Tells Marked bad good fun input => step input item)
    (unmarked : ∀ item, Unmarked Marked (step good item)) {items : List β}
    (first : FirstTells Looks (fun item => ∃ value, step good item = .ok value) items) :
    Tells Marked bad good fun input => items.mapM (step input) := by
  induction items with
  | nil =>
      obtain ⟨before, item, after, split, _⟩ := first
      simp at split
  | cons item rest inductionHypothesis =>
      simp only [List.mapM_cons]
      rcases firstTells_cons_iff.mp first with looks | ⟨notHere, ⟨value, passes⟩, later⟩
      · refine (tells item looks).bind fun value => ?_
        exact (unmarked_mapM fun other _ => unmarked other).bind fun values => unmarked_ok _
      · have same : (fun input => (do
            let y ← step input item
            let ys ← rest.mapM (step input)
            return y :: ys : Except ε (List α))) = fun input => (do
            let ys ← rest.mapM (step input)
            return value :: ys) := by
          funext input
          rw [blind item notHere, passes]
          rfl
        rw [same]
        exact (inductionHypothesis later).bind fun values => unmarked_ok _

/-- A loop without a first item that looks does not depend on the input. -/
theorem mapM_eq_of_not_firstTells {items : List β}
    (never : ¬ FirstTells Looks (fun item => ∃ value, step good item = .ok value) items) (input : γ) :
    items.mapM (step input) = items.mapM (step good) := by
  induction items with
  | nil => rfl
  | cons item rest inductionHypothesis =>
      rw [firstTells_cons_iff, not_or] at never
      rw [List.mapM_cons, List.mapM_cons, blind item never.1]
      cases here : step good item with
      | error failure => rfl
      | ok value => rw [inductionHypothesis fun later => never.2 ⟨never.1, ⟨value, here⟩, later⟩]

end Loops

end Myscm.Library
