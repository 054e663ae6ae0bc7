import Mathlib.Data.List.Basic
import Mathlib.Data.List.Forall2
import Mathlib.Tactic.Common

/-!
Owns deterministic programs over a state that may raise, and whose every
intermediate state is observable. A run records the state after each mutating
step and how the run ended, so a program that dies between two steps leaves
one of the recorded states behind.

Owns: the program type and its sequencing; the rules for invariants that hold
in every state of a run; the rules for runs that end normally; loops over a
list.

Does not own: any concrete state, error or operating-system call.
-/

namespace Myscm.Library

/-- One execution: the state after each mutating step, oldest first, and how
the execution ended. -/
structure Run (σ ε α : Type) where
  states : List σ
  ending : Except ε α

/-- The state a run leaves behind when it was started in `start`. -/
def Run.final {σ ε α : Type} (run : Run σ ε α) (start : σ) : σ :=
  run.states.getLastD start

/-- A program: a run for every start state. -/
def Prog (σ ε α : Type) : Type :=
  σ → Run σ ε α

namespace Prog

variable {σ ε α β : Type}

/-! ## Programs -/

/-- Return a value without a step. -/
def ret (value : α) : Prog σ ε α :=
  fun _ => ⟨[], .ok value⟩

/-- Sequencing: the second program starts where the first one ended, and is
skipped when the first one raised. -/
def andThen (first : Prog σ ε α) (next : α → Prog σ ε β) : Prog σ ε β :=
  fun start =>
    let run := first start
    match run.ending with
    | .error failure => ⟨run.states, .error failure⟩
    | .ok value =>
        let rest := next value (run.final start)
        ⟨run.states ++ rest.states, rest.ending⟩

instance : Monad (Prog σ ε) where
  pure := ret
  bind := andThen

/-- End the program with an error. -/
def raise (failure : ε) : Prog σ ε α :=
  fun _ => ⟨[], .error failure⟩

/-- Read the state. -/
def reads (view : σ → α) : Prog σ ε α :=
  fun start => ⟨[], .ok (view start)⟩

/-- Read something off the state, or raise. -/
def tryReads (view : σ → Except ε α) : Prog σ ε α :=
  fun start => ⟨[], view start⟩

/-- One mutating step, which either fails without an effect or yields the next
state. -/
def step (action : σ → Except ε σ) : Prog σ ε Unit :=
  fun start =>
    match action start with
    | .ok next => ⟨[next], .ok ()⟩
    | .error failure => ⟨[], .error failure⟩

/-- Run `handler` when `body` raises; the steps `body` made stay made. -/
def handle (body : Prog σ ε α) (handler : ε → Prog σ ε α) : Prog σ ε α :=
  fun start =>
    let run := body start
    match run.ending with
    | .ok value => ⟨run.states, .ok value⟩
    | .error failure =>
        let rest := handler failure (run.final start)
        ⟨run.states ++ rest.states, rest.ending⟩

/-- Run `body` for every element of a list, in order. -/
def forEach (body : α → Prog σ ε Unit) : List α → Prog σ ε Unit
  | [] => ret ()
  | item :: items => andThen (body item) fun _ => forEach body items

/-- Run `body` for every element of a list, in order, passing a value on. -/
def foldOver (body : α → β → Prog σ ε α) : α → List β → Prog σ ε α
  | acc, [] => ret acc
  | acc, item :: items => andThen (body acc item) fun next => foldOver body next items

/-! ## Runs of composed programs -/

@[simp] theorem pure_eq (value : α) : (pure value : Prog σ ε α) = ret value := rfl

@[simp] theorem bind_eq (first : Prog σ ε α) (next : α → Prog σ ε β) :
    first >>= next = andThen first next := rfl

@[simp] theorem ret_run (value : α) (start : σ) :
    (ret value : Prog σ ε α) start = ⟨[], .ok value⟩ := rfl

@[simp] theorem raise_run (failure : ε) (start : σ) :
    (raise failure : Prog σ ε α) start = ⟨[], .error failure⟩ := rfl

@[simp] theorem reads_run (view : σ → α) (start : σ) :
    (reads view : Prog σ ε α) start = ⟨[], .ok (view start)⟩ := rfl

@[simp] theorem tryReads_run (view : σ → Except ε α) (start : σ) :
    tryReads view start = ⟨[], view start⟩ := rfl

@[simp] theorem final_nil (start : σ) (ending : Except ε α) :
    (⟨[], ending⟩ : Run σ ε α).final start = start := rfl

@[simp] theorem final_singleton (start next : σ) (ending : Except ε α) :
    (⟨[next], ending⟩ : Run σ ε α).final start = next := rfl

theorem final_append (start : σ) (first rest : List σ) (left : Except ε α)
    (right : Except ε β) :
    (⟨first ++ rest, right⟩ : Run σ ε β).final start =
      (⟨rest, right⟩ : Run σ ε β).final ((⟨first, left⟩ : Run σ ε α).final start) := by
  cases rest with
  | nil => simp [Run.final]
  | cons head tail => simp [Run.final, List.getLastD_eq_getLast?]

theorem step_ok {action : σ → Except ε σ} {start next : σ}
    (succeeds : action start = .ok next) :
    step action start = ⟨[next], .ok ()⟩ := by
  simp [step, succeeds]

theorem step_error {action : σ → Except ε σ} {start : σ} {failure : ε}
    (fails : action start = .error failure) :
    step action start = ⟨[], .error failure⟩ := by
  simp [step, fails]

/-- The run of a sequence, from the runs of its parts. -/
theorem andThen_run {first : Prog σ ε α} {next : α → Prog σ ε β} {start : σ}
    {states rest : List σ} {value : α} {ending : Except ε β}
    (ran : first start = ⟨states, .ok value⟩)
    (ranNext : next value (states.getLastD start) = ⟨rest, ending⟩) :
    andThen first next start = ⟨states ++ rest, ending⟩ := by
  simp only [andThen, ran, Run.final, ranNext]

/-- A first part that returns without a step. -/
theorem andThen_of_run {first : Prog σ ε α} {start : σ} {value : α}
    (ran : first start = ⟨[], .ok value⟩) (next : α → Prog σ ε β) :
    andThen first next start = next value start := by
  simp [andThen, ran, Run.final]

theorem andThen_error {first : Prog σ ε α} {next : α → Prog σ ε β} {start : σ}
    {states : List σ} {failure : ε} (ran : first start = ⟨states, .error failure⟩) :
    andThen first next start = ⟨states, .error failure⟩ := by
  simp [andThen, ran]

@[simp] theorem ret_andThen (value : α) (next : α → Prog σ ε β) :
    andThen (ret value) next = next value := by
  funext start
  simp [andThen, Run.final]

@[simp] theorem raise_andThen (failure : ε) (next : α → Prog σ ε β) :
    andThen (raise failure : Prog σ ε α) next = raise failure := rfl

@[simp] theorem reads_andThen (view : σ → α) (next : α → Prog σ ε β) (start : σ) :
    andThen (reads view) next start = next (view start) start := rfl

theorem tryReads_andThen {view : σ → Except ε α} {start : σ} {value : α}
    (read : view start = .ok value) (next : α → Prog σ ε β) :
    andThen (tryReads view) next start = next value start := by
  simp [andThen, read, Run.final]

theorem andThen_assoc {γ : Type} (first : Prog σ ε α) (next : α → Prog σ ε β)
    (last : β → Prog σ ε γ) :
    andThen (andThen first next) last =
      andThen first fun value => andThen (next value) last := by
  funext start
  simp only [andThen]
  cases first start with
  | mk states ending =>
      cases ending with
      | error failure => rfl
      | ok value =>
          dsimp only
          cases found : next value (Run.final ⟨states, .ok value⟩ start) with
          | mk middle middleEnding =>
              cases middleEnding with
              | error failure => rfl
              | ok result =>
                  dsimp only
                  rw [final_append start states middle (.ok value) (.ok result)]
                  simp [List.append_assoc]

/-! ## Invariants of every state of a run -/

/-- `keep` holds in every state a run passes through, however it ends. -/
def Always (keep : σ → Prop) (program : Prog σ ε α) : Prop :=
  ∀ start, keep start → ∀ state ∈ (program start).states, keep state

theorem final_mem (run : Run σ ε α) (start : σ) :
    run.final start ∈ start :: run.states := by
  cases run with
  | mk states ending =>
      cases states with
      | nil => simp [Run.final]
      | cons head tail =>
          rw [Run.final, List.getLastD_cons]
          exact List.mem_cons_of_mem _ (by
            rw [List.getLastD_eq_getLast?]
            cases found : tail.getLast? with
            | none => simp
            | some last =>
                simpa using List.mem_cons_of_mem _ (List.mem_of_getLast? found))

theorem Always.final {keep : σ → Prop} {program : Prog σ ε α} (always : Always keep program)
    {start : σ} (kept : keep start) : keep ((program start).final start) := by
  rcases List.mem_cons.mp (final_mem (program start) start) with here | later
  · rw [here]
    exact kept
  · exact always start kept _ later

theorem always_ret (keep : σ → Prop) (value : α) : Always keep (ret value : Prog σ ε α) := by
  intro start _ state member
  simp at member

theorem always_raise (keep : σ → Prop) (failure : ε) :
    Always keep (raise failure : Prog σ ε α) := by
  intro start _ state member
  simp at member

theorem always_reads (keep : σ → Prop) (view : σ → α) :
    Always keep (reads view : Prog σ ε α) := by
  intro start _ state member
  simp at member

theorem always_tryReads (keep : σ → Prop) (view : σ → Except ε α) :
    Always keep (tryReads view) := by
  intro start _ state member
  simp at member

theorem always_step {keep : σ → Prop} {action : σ → Except ε σ}
    (preserves : ∀ start next, keep start → action start = .ok next → keep next) :
    Always keep (step action) := by
  intro start kept state member
  unfold step at member
  cases result : action start with
  | error failure => simp [result] at member
  | ok next =>
      simp only [result, List.mem_singleton] at member
      rw [member]
      exact preserves start next kept result

theorem always_andThen {keep : σ → Prop} {first : Prog σ ε α} {next : α → Prog σ ε β}
    (firstKeeps : Always keep first) (nextKeeps : ∀ value, Always keep (next value)) :
    Always keep (andThen first next) := by
  intro start kept state member
  unfold andThen at member
  cases ending : (first start).ending with
  | error failure =>
      simp only [ending] at member
      exact firstKeeps start kept state member
  | ok value =>
      simp only [ending, List.mem_append] at member
      rcases member with early | late
      · exact firstKeeps start kept state early
      · exact nextKeeps value _ (firstKeeps.final kept) state late

theorem always_handle {keep : σ → Prop} {body : Prog σ ε α} {handler : ε → Prog σ ε α}
    (bodyKeeps : Always keep body) (handlerKeeps : ∀ failure, Always keep (handler failure)) :
    Always keep (handle body handler) := by
  intro start kept state member
  unfold handle at member
  cases ending : (body start).ending with
  | ok value =>
      simp only [ending] at member
      exact bodyKeeps start kept state member
  | error failure =>
      simp only [ending, List.mem_append] at member
      rcases member with early | late
      · exact bodyKeeps start kept state early
      · exact handlerKeeps failure _ (bodyKeeps.final kept) state late

theorem always_forEach {keep : σ → Prop} {body : α → Prog σ ε Unit} (items : List α)
    (bodyKeeps : ∀ item ∈ items, Always keep (body item)) :
    Always keep (forEach body items) := by
  induction items with
  | nil => exact always_ret keep ()
  | cons item items inductionHypothesis =>
      apply always_andThen (bodyKeeps item (by simp))
      intro _
      exact inductionHypothesis fun other member => bodyKeeps other (by simp [member])

/-! ## Programs without a step -/

/-- The program only reads. -/
def Quiet (program : Prog σ ε α) : Prop :=
  ∀ start, (program start).states = []

theorem Quiet.final {program : Prog σ ε α} (quiet : Quiet program) (start : σ) :
    (program start).final start = start := by
  simp [Run.final, quiet start]

theorem Quiet.always {keep : σ → Prop} {program : Prog σ ε α} (quiet : Quiet program) :
    Always keep program := by
  intro start _ state member
  rw [quiet start] at member
  cases member

theorem quiet_ret (value : α) : Quiet (ret value : Prog σ ε α) := fun _ => rfl

theorem quiet_raise (failure : ε) : Quiet (raise failure : Prog σ ε α) := fun _ => rfl

theorem quiet_reads (view : σ → α) : Quiet (reads view : Prog σ ε α) := fun _ => rfl

theorem quiet_tryReads (view : σ → Except ε α) : Quiet (tryReads view) := fun _ => rfl

theorem quiet_andThen {first : Prog σ ε α} {next : α → Prog σ ε β} (firstQuiet : Quiet first)
    (nextQuiet : ∀ value, Quiet (next value)) : Quiet (andThen first next) := by
  intro start
  unfold andThen
  cases ending : (first start).ending with
  | error failure => simp [ending, firstQuiet start]
  | ok value => simp [ending, firstQuiet start, nextQuiet value _]

theorem quiet_handle {body : Prog σ ε α} {handler : ε → Prog σ ε α} (bodyQuiet : Quiet body)
    (handlerQuiet : ∀ failure, Quiet (handler failure)) : Quiet (handle body handler) := by
  intro start
  unfold handle
  cases ending : (body start).ending with
  | ok value => simp [ending, bodyQuiet start]
  | error failure => simp [ending, bodyQuiet start, handlerQuiet failure _]

theorem quiet_forEach {body : α → Prog σ ε Unit} (bodyQuiet : ∀ item, Quiet (body item))
    (items : List α) : Quiet (forEach body items) := by
  induction items with
  | nil => exact quiet_ret ()
  | cons item items inductionHypothesis =>
      exact quiet_andThen (bodyQuiet item) fun _ => inductionHypothesis

theorem quiet_foldOver {body : α → β → Prog σ ε α} (bodyQuiet : ∀ acc item, Quiet (body acc item))
    (acc : α) (items : List β) : Quiet (foldOver body acc items) := by
  induction items generalizing acc with
  | nil => exact quiet_ret acc
  | cons item items inductionHypothesis =>
      exact quiet_andThen (bodyQuiet acc item) fun next => inductionHypothesis next

/-- What follows without a step adds none. -/
theorem states_andThen_of_quiet {first : Prog σ ε α} {next : α → Prog σ ε β}
    (nextQuiet : ∀ value, Quiet (next value)) (start : σ) :
    (andThen first next start).states = (first start).states := by
  unfold andThen
  cases ending : (first start).ending with
  | error failure => simp [ending]
  | ok value => simp [ending, nextQuiet value _]

/-- A handler without a step adds none. -/
theorem states_handle_of_quiet {body : Prog σ ε α} {handler : ε → Prog σ ε α}
    (handlerQuiet : ∀ failure, Quiet (handler failure)) (start : σ) :
    (handle body handler start).states = (body start).states := by
  unfold handle
  cases ending : (body start).ending with
  | ok value => simp [ending]
  | error failure => simp [ending, handlerQuiet failure _]

/-- A handler that raises another error makes no step. -/
theorem handle_raise_run (body : Prog σ ε α) (rename : ε → ε) (start : σ) :
    handle body (fun failure => raise (rename failure)) start =
      ⟨(body start).states, (body start).ending.mapError rename⟩ := by
  unfold handle
  cases ran : body start with
  | mk states ending => cases ending <;> simp [Except.mapError]

/-- A sequence whose first part makes no step. -/
theorem states_andThen_of_nil {first : Prog σ ε α} {next : α → Prog σ ε β} {start : σ}
    (noStep : (first start).states = []) :
    (andThen first next start).states =
      match (first start).ending with
      | .error _ => []
      | .ok value => (next value start).states := by
  unfold andThen
  cases ending : (first start).ending with
  | error failure => simp [ending, noStep]
  | ok value => simp [ending, noStep, Run.final]

/-! ## Runs that end normally -/

/-- Started in `start`, the program returns `value` and leaves `finish`. -/
def Ends (program : Prog σ ε α) (start : σ) (value : α) (finish : σ) : Prop :=
  (program start).ending = .ok value ∧ (program start).final start = finish

@[simp] theorem ends_ret_iff (value result : α) (start finish : σ) :
    Ends (ret value : Prog σ ε α) start result finish ↔ value = result ∧ start = finish := by
  simp [Ends]

@[simp] theorem not_ends_raise (failure : ε) (result : α) (start finish : σ) :
    ¬ Ends (raise failure : Prog σ ε α) start result finish := by
  simp [Ends]

@[simp] theorem ends_reads_iff (view : σ → α) (result : α) (start finish : σ) :
    Ends (reads view : Prog σ ε α) start result finish ↔
      view start = result ∧ start = finish := by
  simp [Ends]

@[simp] theorem ends_tryReads_iff (view : σ → Except ε α) (result : α) (start finish : σ) :
    Ends (tryReads view) start result finish ↔ view start = .ok result ∧ start = finish := by
  simp [Ends]

@[simp] theorem ends_step_iff (action : σ → Except ε σ) (start finish : σ) :
    Ends (step action) start () finish ↔ action start = .ok finish := by
  unfold Ends step
  cases action start with
  | error failure => simp
  | ok next => simp

theorem ends_andThen_iff (first : Prog σ ε α) (next : α → Prog σ ε β) (start finish : σ)
    (result : β) :
    Ends (andThen first next) start result finish ↔
      ∃ value middle, Ends first start value middle ∧ Ends (next value) middle result finish := by
  unfold Ends andThen
  cases first start with
  | mk states ending =>
      cases ending with
      | error failure => simp
      | ok value =>
          simp only [Except.ok.injEq, and_assoc, exists_and_left, exists_eq_left']
          rw [final_append start states _ (.ok value)]

theorem ends_handle_iff (body : Prog σ ε α) (handler : ε → Prog σ ε α) (start finish : σ)
    (value : α) :
    Ends (handle body handler) start value finish ↔
      Ends body start value finish ∨
        ∃ failure, (body start).ending = .error failure ∧
          Ends (handler failure) ((body start).final start) value finish := by
  unfold Ends handle
  cases ran : body start with
  | mk states ending =>
      cases ending with
      | ok result => simp
      | error failure =>
          simp only [reduceCtorEq, false_and, false_or, Except.error.injEq, exists_eq_left']
          rw [final_append start states _ (.error failure : Except ε α)]

/-- A loop of checks ends where each check passes. -/
theorem ends_forEach_tryReads_iff (check : α → σ → Except ε Unit) (items : List α)
    (start finish : σ) :
    Ends (forEach (fun item => tryReads (check item)) items) start () finish ↔
      finish = start ∧ ∀ item ∈ items, check item start = .ok () := by
  induction items with
  | nil => simp [forEach, eq_comm]
  | cons item items inductionHypothesis =>
      rw [forEach, ends_andThen_iff, List.forall_mem_cons]
      simp only [ends_tryReads_iff]
      constructor
      · rintro ⟨value, middle, ⟨passed, rfl⟩, later⟩
        obtain ⟨same, others⟩ := inductionHypothesis.mp later
        exact ⟨same, passed, others⟩
      · rintro ⟨same, passed, others⟩
        exact ⟨(), start, ⟨passed, rfl⟩, inductionHypothesis.mpr ⟨same, others⟩⟩

/-- A handler that raises another error changes nothing of a run that ends. -/
theorem ends_handle_raise_iff (body : Prog σ ε α) (rename : ε → ε) (start finish : σ) (value : α) :
    Ends (handle body fun failure => raise (rename failure)) start value finish ↔
      Ends body start value finish := by
  simp [ends_handle_iff]

/-- The states of a sequence whose first part ends. -/
theorem states_andThen {first : Prog σ ε α} {next : α → Prog σ ε β} {start middle : σ} {value : α}
    (ends : Ends first start value middle) :
    (andThen first next start).states = (first start).states ++ (next value middle).states := by
  simp only [andThen, ends.1, ends.2]

theorem final_andThen {first : Prog σ ε α} {next : α → Prog σ ε β} {start middle : σ} {value : α}
    (ends : Ends first start value middle) :
    (andThen first next start).final start = (next value middle).final middle := by
  obtain ⟨ending, final⟩ := ends
  unfold andThen
  cases ran : first start with
  | mk states result =>
      rw [ran] at ending final
      obtain rfl : result = .ok value := ending
      rw [← final]
      exact final_append start states _ (.ok value) _

theorem final_andThen_error {first : Prog σ ε α} {next : α → Prog σ ε β} {start : σ} {failure : ε}
    (ending : (first start).ending = .error failure) :
    (andThen first next start).final start = (first start).final start := by
  cases ran : first start with
  | mk states result =>
      rw [ran] at ending
      obtain rfl : result = .error failure := ending
      rw [andThen_error ran]
      rfl

/-- What follows without a step leaves the state as it is. -/
theorem final_andThen_of_quiet {first : Prog σ ε α} {next : α → Prog σ ε β}
    (nextQuiet : ∀ value, Quiet (next value)) (start : σ) :
    (andThen first next start).final start = (first start).final start := by
  cases ending : (first start).ending with
  | error failure => exact final_andThen_error ending
  | ok value =>
      rw [final_andThen ⟨ending, rfl⟩]
      exact (nextQuiet value).final _

/-- A handler that raises leaves the state as it is. -/
theorem final_handle_raise (body : Prog σ ε α) (rename : ε → ε) (start : σ) :
    (handle body (fun failure => raise (rename failure)) start).final start =
      (body start).final start := by
  rw [handle_raise_run]
  rfl

theorem mem_states_andThen_left {first : Prog σ ε α} {next : α → Prog σ ε β} {start state : σ}
    (member : state ∈ (first start).states) : state ∈ (andThen first next start).states := by
  unfold andThen
  cases ending : (first start).ending with
  | error failure => simpa [ending] using member
  | ok value => simp [ending, member]

theorem mem_states_andThen_right {first : Prog σ ε α} {next : α → Prog σ ε β}
    {start middle state : σ} {value : α} (ends : Ends first start value middle)
    (member : state ∈ (next value middle).states) : state ∈ (andThen first next start).states := by
  rw [states_andThen ends]
  exact List.mem_append_right _ member

theorem mem_states_andThen_cases {first : Prog σ ε α} {next : α → Prog σ ε β} {start state : σ}
    (member : state ∈ (andThen first next start).states) :
    state ∈ (first start).states ∨
      ∃ value middle, Ends first start value middle ∧ state ∈ (next value middle).states := by
  unfold andThen at member
  cases ending : (first start).ending with
  | error failure =>
      simp only [ending] at member
      exact .inl member
  | ok value =>
      simp only [ending, List.mem_append] at member
      exact member.imp_right fun late => ⟨value, _, ⟨ending, rfl⟩, late⟩

theorem mem_states_handle {body : Prog σ ε α} {handler : ε → Prog σ ε α} {start state : σ}
    (member : state ∈ (body start).states) : state ∈ (handle body handler start).states := by
  unfold handle
  cases ending : (body start).ending with
  | error failure => simp [ending, member]
  | ok value => simpa [ending] using member

/-- A step that ends is in its run. -/
theorem mem_states_step {action : σ → Except ε σ} {start finish : σ}
    (ends : Ends (step action) start () finish) : finish ∈ (step action start).states := by
  rw [step_ok ((ends_step_iff _ _ _).mp ends)]
  exact List.mem_singleton_self finish

/-- A program that ends at all ends in one way. -/
theorem Ends.unique {program : Prog σ ε α} {start finish finish' : σ} {value value' : α}
    (left : Ends program start value finish) (right : Ends program start value' finish') :
    value = value' ∧ finish = finish' := by
  obtain ⟨leftEnding, leftFinal⟩ := left
  obtain ⟨rightEnding, rightFinal⟩ := right
  rw [leftEnding] at rightEnding
  exact ⟨Except.ok.inj rightEnding, leftFinal.symm.trans rightFinal⟩

/-- A run ends in its last state, or where it started. -/
theorem Ends.mem {program : Prog σ ε α} {start finish : σ} {value : α}
    (ends : Ends program start value finish) :
    finish = start ∨ finish ∈ (program start).states := by
  rw [← ends.2]
  exact List.mem_cons.mp (final_mem (program start) start)

/-- What holds at the start and in every state of a run holds where it ends. -/
theorem Ends.kept {keep : σ → Prop} {program : Prog σ ε α} {start finish : σ} {value : α}
    (ends : Ends program start value finish) (kept : keep start)
    (states : ∀ state ∈ (program start).states, keep state) : keep finish := by
  rcases ends.mem with rfl | later
  · exact kept
  · exact states _ later

theorem Always.ends {keep : σ → Prop} {program : Prog σ ε α} (always : Always keep program)
    {start finish : σ} {value : α} (kept : keep start)
    (ends : Ends program start value finish) : keep finish := by
  rw [← ends.2]
  exact always.final kept

/-- A loop over `left ++ right` is a loop over `left`, then one over `right`. -/
theorem forEach_append (body : α → Prog σ ε Unit) (left right : List α) :
    forEach body (left ++ right) =
      andThen (forEach body left) fun _ => forEach body right := by
  induction left with
  | nil => simp [forEach]
  | cons item items inductionHypothesis =>
      simp only [List.cons_append, forEach, inductionHypothesis, andThen_assoc]

end Prog

/-! ## Computations that may fail -/

theorem bind_ok {α β ε : Type} {x : Except ε α} {f : α → Except ε β} {result : β}
    (computed : (x >>= f) = .ok result) : ∃ value, x = .ok value ∧ f value = .ok result := by
  cases x with
  | error failure => cases computed
  | ok value => exact ⟨value, rfl, computed⟩

theorem exists_of_map_ok {α β ε : Type} {x : Except ε α} {f : α → β} {result : β}
    (computed : f <$> x = .ok result) : ∃ value, x = .ok value ∧ f value = result := by
  cases x with
  | error failure => cases computed
  | ok value => exact ⟨value, rfl, Except.ok.inj computed⟩

theorem mapM_ok {α β ε : Type} {f : α → Except ε β} {xs : List α} {ys : List β}
    (computed : xs.mapM f = .ok ys) : List.Forall₂ (fun x y => f x = .ok y) xs ys := by
  induction xs generalizing ys with
  | nil =>
      cases computed
      exact .nil
  | cons x xs inductionHypothesis =>
      rw [List.mapM_cons] at computed
      cases here : f x with
      | error failure => rw [here] at computed; cases computed
      | ok y =>
          cases later : xs.mapM f with
          | error failure => rw [here, later] at computed; cases computed
          | ok rest =>
              rw [here, later] at computed
              cases computed
              exact .cons here (inductionHypothesis later)

/-- Each element of a list that was mapped has its result. -/
theorem exists_mem_of_mapM_ok {α β ε : Type} {f : α → Except ε β} {xs : List α} {ys : List β}
    (computed : xs.mapM f = .ok ys) {x : α} (member : x ∈ xs) : ∃ y ∈ ys, f x = .ok y := by
  have rows := mapM_ok computed
  clear computed
  induction rows with
  | nil => cases member
  | cons here _ inductionHypothesis =>
      rcases List.mem_cons.mp member with rfl | later
      · exact ⟨_, List.mem_cons_self, here⟩
      · obtain ⟨y, inRest, computed⟩ := inductionHypothesis later
        exact ⟨y, List.mem_cons_of_mem _ inRest, computed⟩

theorem exists_mapM_ok {α β ε : Type} {f : α → Except ε β} {xs : List α}
    (each : ∀ x ∈ xs, ∃ y, f x = .ok y) : ∃ ys, xs.mapM f = .ok ys := by
  induction xs with
  | nil => exact ⟨[], rfl⟩
  | cons x xs inductionHypothesis =>
      obtain ⟨y, here⟩ := each x List.mem_cons_self
      obtain ⟨ys, later⟩ := inductionHypothesis fun other member =>
        each other (List.mem_cons_of_mem _ member)
      exact ⟨y :: ys, by rw [List.mapM_cons, here, later]; rfl⟩

/-- Each result stems from an element of the list that was mapped. -/
theorem exists_mem_of_mem_mapM {α β ε : Type} {f : α → Except ε β} {xs : List α} {ys : List β}
    (computed : xs.mapM f = .ok ys) {y : β} (member : y ∈ ys) : ∃ x ∈ xs, f x = .ok y := by
  have rows := mapM_ok computed
  clear computed
  induction rows with
  | nil => cases member
  | cons here _ inductionHypothesis =>
      rcases List.mem_cons.mp member with rfl | later
      · exact ⟨_, List.mem_cons_self, here⟩
      · obtain ⟨x, inRest, computed⟩ := inductionHypothesis later
        exact ⟨x, List.mem_cons_of_mem _ inRest, computed⟩

theorem mapError_ok {α ε ω : Type} {x : Except ε α} {f : ε → ω} {result : α}
    (computed : x.mapError f = .ok result) : x = .ok result := by
  cases x with
  | error failure => cases computed
  | ok value => exact congrArg Except.ok (Except.ok.inj computed)

end Myscm.Library
