import Mathlib.Algebra.BigOperators.Group.List.Basic
import Mathlib.Algebra.Ring.Int.Defs
import Mathlib.Tactic.Common

/-!
Owns machines whose parties take their steps in any order.

Owns: the run of a list of actions; what a run keeps if each of its steps does; runs whose
actions are all allowed, and the mark that any other leaves; sums over parties of which one
takes a step.
-/

namespace Myscm.Library

namespace Machine

variable {σ α : Type}

/-- The state behind some actions, if each of them is possible in its turn. -/
def run (step : σ → α → Option σ) : σ → List α → Option σ
  | start, [] => some start
  | start, action :: rest => (step start action).bind fun next => run step next rest

/-- Each action is allowed in the state in which it is taken. -/
def Meets (step : σ → α → Option σ) (allowed : σ → α → Prop) : σ → List α → Prop
  | _, [] => True
  | start, action :: rest =>
      allowed start action ∧
        ∀ next, step start action = some next → Meets step allowed next rest

instance decidableMeets (step : σ → α → Option σ) (allowed : σ → α → Prop)
    [∀ s action, Decidable (allowed s action)] (start : σ) :
    (actions : List α) → Decidable (Meets step allowed start actions)
  | [] => .isTrue trivial
  | action :: rest =>
      match stepped : step start action with
      | none =>
          decidable_of_iff (allowed start action) <| by
            simp [Meets, stepped]
      | some next =>
          have : Decidable (Meets step allowed next rest) := decidableMeets step allowed next rest
          decidable_of_iff (allowed start action ∧ Meets step allowed next rest) <| by
            simp [Meets, stepped]

variable {step : σ → α → Option σ} {allowed : σ → α → Prop} {start finish : σ}

theorem run_cons {action : α} {rest : List α} :
    run step start (action :: rest) = some finish ↔
      ∃ next, step start action = some next ∧ run step next rest = some finish :=
  Option.bind_eq_some_iff

/-- What every allowed step keeps holds behind every run of such steps. -/
theorem keeps_run {keep : σ → Prop}
    (keeps : ∀ {s action next}, keep s → allowed s action → step s action = some next → keep next)
    {actions : List α} (kept : keep start) (meets : Meets step allowed start actions)
    (ran : run step start actions = some finish) : keep finish := by
  induction actions generalizing start with
  | nil =>
      cases ran
      exact kept
  | cons action rest inductionHypothesis =>
      obtain ⟨next, stepped, later⟩ := run_cons.mp ran
      obtain ⟨isAllowed, restMeets⟩ := meets
      exact inductionHypothesis (keeps kept isAllowed stepped) (restMeets next stepped) later

theorem meets_of_forall (all : ∀ s action, allowed s action) (actions : List α) :
    Meets step allowed start actions := by
  induction actions generalizing start with
  | nil => trivial
  | cons action rest inductionHypothesis => exact ⟨all start action, fun _ _ => inductionHypothesis⟩

/-- A run with a step that is not allowed ends in a marked state, where such a step leaves the
mark and no step takes it away. -/
theorem marked_run {keep mark : σ → Prop}
    (keeps : ∀ {s action next}, keep s → step s action = some next → keep next)
    (stays : ∀ {s action next}, keep s → mark s → step s action = some next → mark next)
    (leaves : ∀ {s action next}, keep s → ¬ allowed s action → step s action = some next →
      mark next)
    {actions : List α} (kept : keep start) (broken : ¬ Meets step allowed start actions)
    (ran : run step start actions = some finish) : mark finish := by
  induction actions generalizing start with
  | nil => exact absurd trivial broken
  | cons action rest inductionHypothesis =>
      obtain ⟨next, stepped, later⟩ := run_cons.mp ran
      have keptNext := keeps kept stepped
      by_cases isAllowed : allowed start action
      · apply inductionHypothesis keptNext _ later
        intro restMeets
        refine broken ⟨isAllowed, fun other otherStep => ?_⟩
        rw [Option.some.inj (otherStep.symm.trans stepped)]
        exact restMeets
      · have free : Meets step (fun _ _ => True) next rest :=
          meets_of_forall (fun _ _ => trivial) rest
        have keepsBoth {s : σ} {action : α} {next : σ} (both : keep s ∧ mark s) (_ : True)
            (stepped : step s action = some next) : keep next ∧ mark next :=
          ⟨keeps both.1 stepped, stays both.1 both.2 stepped⟩
        exact (keeps_run keepsBoth ⟨keptNext, leaves kept isAllowed stepped⟩ free later).2

/-! ## Parties -/

/-- A sum over the parties changes by what it changes for the one that takes a step. -/
theorem sum_map_modify {β : Type} (weight : β → Int) (change : β → β) {parties : List β} {k : Nat}
    {party : β} (found : parties[k]? = some party) :
    ((parties.modify k change).map weight).sum =
      (parties.map weight).sum + (weight (change party) - weight party) := by
  induction parties generalizing k with
  | nil => cases found
  | cons head rest inductionHypothesis =>
      cases k with
      | zero =>
          cases found
          simp only [List.modify_zero_cons, List.map_cons, List.sum_cons]
          omega
      | succ k =>
          have later := inductionHypothesis found
          simp only [List.modify_succ_cons, List.map_cons, List.sum_cons, later]
          omega

/-- The sum over parties that weigh one or nothing is the number of those that weigh one. -/
theorem sum_map_eq_countP {β : Type} {weight : β → Int} {heavy : β → Bool} {parties : List β}
    (weighs : ∀ party ∈ parties, weight party = if heavy party then 1 else 0) :
    (parties.map weight).sum = parties.countP heavy := by
  induction parties with
  | nil => rfl
  | cons head rest inductionHypothesis =>
      have later := inductionHypothesis fun party member => weighs party (List.mem_cons_of_mem _ member)
      rw [List.map_cons, List.sum_cons, later, weighs head List.mem_cons_self, List.countP_cons]
      split <;> push_cast <;> omega

theorem forall_mem_modify {β : Type} {good : β → Prop} {change : β → β} {parties : List β} {k : Nat}
    (all : ∀ party ∈ parties, good party)
    (changed : ∀ party, parties[k]? = some party → good (change party)) :
    ∀ party ∈ parties.modify k change, good party := by
  intro party member
  obtain ⟨i, found⟩ := List.mem_iff_getElem?.mp member
  rw [List.getElem?_modify] at found
  split at found
  · rename_i same
    obtain ⟨old, isOld, rfl⟩ := Option.map_eq_some_iff.mp found
    rw [← same] at isOld
    exact changed old isOld
  · obtain ⟨old, isOld, rfl⟩ := Option.map_eq_some_iff.mp found
    exact all old (List.mem_iff_getElem?.mpr ⟨i, isOld⟩)

end Machine

end Myscm.Library
