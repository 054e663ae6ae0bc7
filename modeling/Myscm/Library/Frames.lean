import Myscm.Library.Subtree

/-!
Owns the frame of a run: what is left alone where every call, in the state before
it, leads to an allowed place.

Owns: states of a run that keep a property given what each turn of a loop needs;
file systems that agree but for allowed places; which calls keep to these.

Does not own: which places are allowed.
-/

namespace Myscm.Library

/-! ## Runs that keep a property -/

namespace Prog

section Keeps

variable {σ ε α β : Type} {keep : σ → Prop}

/-- Every state the program passes through from `start` has the property. -/
def Keeps (keep : σ → Prop) (program : Prog σ ε α) (start : σ) : Prop :=
  ∀ state ∈ (program start).states, keep state

theorem Always.keeps {program : Prog σ ε α} (always : Always keep program) {start : σ}
    (kept : keep start) : Keeps keep program start :=
  always start kept

theorem Quiet.keeps {program : Prog σ ε α} (quiet : Quiet program) (start : σ) :
    Keeps keep program start := by
  intro state member
  rw [quiet start] at member
  cases member

/-- A run without steps ends where it starts. -/
theorem Ends.eq_of_no_states {program : Prog σ ε α} {start finish : σ} {value : α}
    (ends : Ends program start value finish) (none : (program start).states.length = 0) :
    start = finish := by
  have states := List.length_eq_zero_iff.mp none
  apply ends.kept rfl
  intro state member
  rw [states] at member
  cases member

theorem keeps_andThen {first : Prog σ ε α} {next : α → Prog σ ε β} {start : σ} (kept : keep start)
    (firstKeeps : Keeps keep first start)
    (nextKeeps : ∀ value middle, Ends first start value middle → keep middle →
      Keeps keep (next value) middle) :
    Keeps keep (andThen first next) start := by
  intro state member
  rcases mem_states_andThen_cases member with early | ⟨value, middle, ends, late⟩
  · exact firstKeeps state early
  · exact nextKeeps value middle ends (ends.kept kept firstKeeps) state late

theorem keeps_handle {body : Prog σ ε α} {handler : ε → Prog σ ε α} {start : σ} (kept : keep start)
    (bodyKeeps : Keeps keep body start) (handlerKeeps : ∀ failure, Always keep (handler failure)) :
    Keeps keep (handle body handler) start := by
  intro state member
  unfold handle at member
  cases ending : (body start).ending with
  | ok value =>
      simp only [ending] at member
      exact bodyKeeps state member
  | error failure =>
      simp only [ending, List.mem_append] at member
      rcases member with early | late
      · exact bodyKeeps state early
      · have middle : keep ((body start).final start) := by
          rcases List.mem_cons.mp (final_mem (body start) start) with here | later
          · rw [here]
            exact kept
          · exact bodyKeeps _ later
        exact handlerKeeps failure _ middle state late

theorem eachReady_of_forall {body : α → Prog σ ε Unit} {ready : α → σ → Prop} {items : List α}
    (all : ∀ item ∈ items, ∀ state, ready item state) {start : σ} :
    EachReady body ready items start := by
  induction items generalizing start with
  | nil => trivial
  | cons item items inductionHypothesis =>
      refine ⟨all item List.mem_cons_self start, fun middle _ => inductionHypothesis ?_⟩
      exact fun other member => all other (List.mem_cons_of_mem item member)

theorem keeps_forEach {body : α → Prog σ ε Unit} {ready : α → σ → Prop}
    (turn : ∀ item start, keep start → ready item start → Keeps keep (body item) start)
    (items : List α) {start : σ} (kept : keep start) (isReady : EachReady body ready items start) :
    Keeps keep (forEach body items) start := by
  induction items generalizing start with
  | nil => exact (quiet_ret ()).keeps start
  | cons item items inductionHypothesis =>
      obtain ⟨here, later⟩ := isReady
      rw [forEach]
      apply keeps_andThen kept (turn item start kept here)
      intro _ middle ends keptMiddle
      exact inductionHypothesis keptMiddle (later middle ends)

theorem keeps_foldOver {body : α → β → Prog σ ε α} {ready : α → β → σ → Prop}
    (turn : ∀ acc item start, keep start → ready acc item start → Keeps keep (body acc item) start)
    (acc : α) (items : List β) {start : σ} (kept : keep start)
    (isReady : FoldReady body ready acc items start) :
    Keeps keep (foldOver body acc items) start := by
  induction items generalizing acc start with
  | nil => exact (quiet_ret acc).keeps start
  | cons item items inductionHypothesis =>
      obtain ⟨here, later⟩ := isReady
      rw [foldOver]
      apply keeps_andThen kept (turn acc item start kept here)
      intro next middle ends keptMiddle
      exact inductionHypothesis next keptMiddle (later next middle ends)

end Keeps

end Prog

namespace Fs

open Prog

theorem walkReady_of_not_listed {ε α : Type}
    {visit : α → Str → List Str → List Str → Prog Fs ε α}
    {visitReady : α → Str → List Str → List Str → Fs → Prop} {fs : Fs} {top : Str}
    (notListed : fs.scandir top = none) (levels : Nat) (acc : α) :
    WalkReady visit visitReady levels acc top fs := by
  cases levels with
  | zero => trivial
  | succ levels =>
      intro dirs files listed
      rw [notListed] at listed
      cases listed

theorem keeps_osWalk {ε α : Type} {keep : Fs → Prop}
    {visit : α → Str → List Str → List Str → Prog Fs ε α}
    {visitReady : α → Str → List Str → List Str → Fs → Prop}
    (visitKeeps : ∀ acc top dirs files fs, keep fs → visitReady acc top dirs files fs →
      Keeps keep (visit acc top dirs files) fs)
    (levels : Nat) (acc : α) (top : Str) {fs : Fs} (kept : keep fs)
    (isReady : WalkReady visit visitReady levels acc top fs) :
    Keeps keep (osWalk visit levels acc top) fs := by
  induction levels generalizing acc top fs with
  | zero => exact (quiet_ret acc).keeps fs
  | succ levels inductionHypothesis =>
      rw [osWalk_succ]
      apply keeps_andThen kept ((quiet_reads _).keeps fs)
      intro entries middle ends _
      obtain ⟨listed, rfl⟩ := (ends_reads_iff _ _ _ _).mp ends
      cases entries with
      | none => exact (quiet_ret acc).keeps fs
      | some entries =>
          obtain ⟨dirs, files⟩ := entries
          obtain ⟨here, later⟩ := isReady dirs files listed
          apply keeps_andThen kept (visitKeeps acc top dirs files fs kept here)
          intro next behind ended keptBehind
          refine keeps_foldOver (fun acc name start keptHere walked => ?_) next dirs keptBehind
            (later next behind ended)
          apply keeps_andThen keptHere ((quiet_reads _).keeps start)
          intro link same linkRead _
          obtain ⟨isLink, rfl⟩ := (ends_reads_iff _ _ _ _).mp linkRead
          cases link with
          | true => exact (quiet_ret acc).keeps start
          | false => exact inductionHypothesis acc _ keptHere (walked isLink)

/-! ## File systems that agree but for allowed places -/

/-- At all other places, the nodes are those of the start. -/
def SameBut (allowed : Path → Prop) (start fs : Fs) : Prop :=
  ∀ path, ¬ allowed path → fs.node path = start.node path

variable {allowed : Path → Prop} {start fs next : Fs}

theorem SameBut.refl (start : Fs) : SameBut allowed start start := fun _ _ => rfl

theorem SameBut.of_touches {place : Path} (same : SameBut allowed start fs)
    (touches : Touches fs next place) (isAllowed : allowed place) : SameBut allowed start next := by
  intro path forbidden
  rw [touches.others path, same path forbidden]
  rintro rfl
  exact forbidden isAllowed

/-- The text leads to an allowed place, if to any. -/
def LeadsTo (allowed : Path → Prop) (follow : Bool) (s : Str) (fs : Fs) : Prop :=
  ∀ place, fs.locate follow s = some place → allowed place

/-- Both ends of a move are allowed places. -/
def MovesWithin (allowed : Path → Prop) (src dst : Str) (fs : Fs) : Prop :=
  LeadsTo allowed false src fs ∧
    ∀ target, fs.moveTarget src dst = some target → LeadsTo allowed false target fs

theorem SameBut.of_rename {src dst : Str} (same : SameBut allowed start fs)
    (source : LeadsTo allowed false src fs) (target : LeadsTo allowed false dst fs)
    (renamed : fs.rename src dst = some next) : SameBut allowed start next := by
  obtain ⟨origin, locatedSrc, renamed⟩ := Option.bind_eq_some_iff.mp renamed
  obtain ⟨finish, locatedDst, renamed⟩ := Option.bind_eq_some_iff.mp renamed
  obtain ⟨node, _, renamed⟩ := Option.bind_eq_some_iff.mp renamed
  split at renamed
  · cases renamed
  · split at renamed
    · obtain rfl := Option.some.inj renamed
      exact same
    · obtain ⟨middle, placed, erased⟩ := Option.bind_eq_some_iff.mp renamed
      intro path forbidden
      have notFrom : path ≠ origin := by
        rintro rfl
        exact forbidden (source path locatedSrc)
      have notTo : path ≠ finish := by
        rintro rfl
        exact forbidden (target path locatedDst)
      rw [node_of_eraseAt erased, if_neg notFrom, node_of_place placed, if_neg notTo,
        same path forbidden]

theorem SameBut.of_move {src dst : Str} (same : SameBut allowed start fs)
    (within : MovesWithin allowed src dst fs) (moved : fs.move src dst = some next) :
    SameBut allowed start next := by
  obtain ⟨target, isTarget, renamed⟩ := Option.bind_eq_some_iff.mp moved
  exact same.of_rename within.1 (within.2 target isTarget) renamed

/-- Where no node is that is to stay as it is, one may be made. -/
theorem SameBut.of_create {s : Str} {node : Node} (noLink : node.target? = none)
    (there : ∀ path, ¬ allowed path → (start.node path).isSome = true)
    (same : SameBut allowed start fs) (created : fs.create s node = some next) :
    SameBut allowed start next := by
  obtain ⟨place, _, missing, touches⟩ := touches_of_create noLink created
  apply same.of_touches touches
  by_contra forbidden
  have present := there place forbidden
  rw [← same place forbidden, missing] at present
  cases present

theorem keeps_sys {ε : Type} {osError : ε} {keep : Fs → Prop} {call : Fs → Option Fs}
    (preserves : ∀ next, call fs = some next → keep next) : Keeps keep (sys osError call) fs := by
  intro state member
  unfold sys step at member
  cases result : call fs with
  | none => simp [result] at member
  | some finish =>
      simp only [result, Option.elim_some, List.mem_singleton] at member
      rw [member]
      exact preserves finish result

theorem LeadsTo.congr {follow : Bool} {s : Str} (leads : LeadsTo allowed follow s fs)
    (sameShape : SameShape fs next) : LeadsTo allowed follow s next := by
  intro place located
  rw [← locate_congr sameShape] at located
  exact leads place located

/-- A call that touches the place of its text, and none else. -/
theorem SameBut.keeps_sys {ε : Type} {osError : ε} {call : Fs → Option Fs} {follow : Bool} {s : Str}
    (same : SameBut allowed start fs) (leads : LeadsTo allowed follow s fs)
    (touching : ∀ next, call fs = some next →
      ∃ place, fs.locate follow s = some place ∧ Touches fs next place) :
    Keeps (SameBut allowed start) (sys osError call) fs := by
  apply Fs.keeps_sys
  intro next called
  obtain ⟨place, located, touches⟩ := touching next called
  exact same.of_touches touches (leads place located)

/-- Directories are made where none is. -/
theorem always_makedirs {ε : Type} {osError : ε}
    (there : ∀ path, ¬ allowed path → (start.node path).isSome = true) (mode : Nat) (existOk : Bool)
    (s : Str) : Prog.Always (SameBut allowed start) (makedirs osError mode existOk s) := by
  have makeLast (name : Str) :
      Prog.Always (SameBut allowed start) (makedirsPieces.makeLast osError mode existOk name) := by
    refine Prog.always_handle (always_sys fun fs next same made => ?_) fun failure => ?_
    · exact same.of_create rfl there made
    · refine Prog.always_andThen (Prog.always_reads _ _) fun isDir => ?_
      cases isDir with
      | true => exact Prog.always_ret _ _
      | false => exact Prog.always_raise _ _
  unfold makedirs
  generalize ((s.splitOn '/').filter (· ≠ [])).reverse = pieces
  induction pieces with
  | nil => exact Prog.always_ret _ _
  | cons tail head inductionHypothesis =>
      refine Prog.always_andThen (Prog.always_reads _ _) fun isThere => ?_
      split
      · exact makeLast _
      · refine Prog.always_andThen inductionHypothesis fun _ => ?_
        split
        · exact Prog.always_ret _ _
        · exact makeLast _

end Fs

end Myscm.Library
