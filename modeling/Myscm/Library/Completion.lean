import Myscm.Library.FileCalls

/-!
Owns when a program ends without raising, as a condition on the state before
each of its steps.

Owns: completion of the basic programs, sequences, handlers and loops; what each
call on the file system needs of the names it is given; completion of
`os.makedirs`, `os.walk` and `shutil.move`.

Does not own: what a program leaves behind.
-/

namespace Myscm.Library

namespace Prog

variable {σ ε α β : Type}

/-- Started in `start`, the program ends without raising. -/
def Completes (program : Prog σ ε α) (start : σ) : Prop :=
  ∃ value finish, Ends program start value finish

theorem completes_iff_isOk (program : Prog σ ε α) (start : σ) :
    Completes program start ↔ (program start).ending.isOk = true := by
  constructor
  · rintro ⟨value, finish, ending, _⟩
    rw [ending]
    rfl
  · intro isOk
    cases ending : (program start).ending with
    | error failure =>
        rw [ending] at isOk
        cases isOk
    | ok value => exact ⟨value, _, ending, rfl⟩

instance (program : Prog σ ε α) (start : σ) : Decidable (Completes program start) :=
  decidable_of_iff _ (completes_iff_isOk program start).symm

/-! ## Programs and sequences -/

@[simp] theorem completes_ret (value : α) (start : σ) :
    Completes (ret value : Prog σ ε α) start :=
  ⟨value, start, by simp⟩

@[simp] theorem not_completes_raise (failure : ε) (start : σ) :
    ¬ Completes (raise failure : Prog σ ε α) start := by
  simp [Completes]

@[simp] theorem completes_tryReads_iff (view : σ → Except ε α) (start : σ) :
    Completes (tryReads view) start ↔ ∃ value, view start = .ok value := by
  simp [Completes]

@[simp] theorem completes_step_iff (action : σ → Except ε σ) (start : σ) :
    Completes (step action) start ↔ ∃ next, action start = .ok next := by
  constructor
  · rintro ⟨_, next, ends⟩
    exact ⟨next, (ends_step_iff _ _ _).mp ends⟩
  · rintro ⟨next, result⟩
    exact ⟨(), next, (ends_step_iff _ _ _).mpr result⟩

theorem completes_andThen_iff (first : Prog σ ε α) (next : α → Prog σ ε β) (start : σ) :
    Completes (andThen first next) start ↔
      Completes first start ∧
        ∀ value middle, Ends first start value middle → Completes (next value) middle := by
  constructor
  · rintro ⟨result, finish, ends⟩
    obtain ⟨value, middle, endsFirst, endsNext⟩ := (ends_andThen_iff _ _ _ _ _).mp ends
    refine ⟨⟨value, middle, endsFirst⟩, ?_⟩
    intro value' middle' endsFirst'
    obtain ⟨rfl, rfl⟩ := endsFirst.unique endsFirst'
    exact ⟨result, finish, endsNext⟩
  · rintro ⟨⟨value, middle, endsFirst⟩, completesNext⟩
    obtain ⟨result, finish, endsNext⟩ := completesNext value middle endsFirst
    exact ⟨result, finish, (ends_andThen_iff _ _ _ _ _).mpr ⟨value, middle, endsFirst, endsNext⟩⟩

theorem completes_andThen_unit_iff (first : Prog σ ε Unit) (next : Unit → Prog σ ε β) (start : σ) :
    Completes (andThen first next) start ↔
      Completes first start ∧ ∀ middle, Ends first start () middle → Completes (next ()) middle := by
  rw [completes_andThen_iff]
  exact and_congr_right fun _ => ⟨fun later => later (), fun later _ => later⟩

/-- A second part that completes in every state or in none. -/
theorem completes_andThen_of_const {first : Prog σ ε Unit} {next : Unit → Prog σ ε β} {start : σ}
    {ready : Prop} (completesNext : ∀ middle, Completes (next ()) middle ↔ ready) :
    Completes (andThen first next) start ↔ Completes first start ∧ ready := by
  rw [completes_andThen_unit_iff]
  simp only [completesNext]
  refine and_congr_right fun completesFirst => ⟨?_, fun holds _ _ => holds⟩
  obtain ⟨_, middle, ends⟩ := completesFirst
  exact fun later => later middle ends

@[simp] theorem completes_tryReads_andThen_iff (view : σ → Except ε α) (next : α → Prog σ ε β)
    (start : σ) :
    Completes (andThen (tryReads view) next) start ↔
      ∃ value, view start = .ok value ∧ Completes (next value) start := by
  rw [completes_andThen_iff, completes_tryReads_iff]
  constructor
  · rintro ⟨⟨value, read⟩, completesNext⟩
    exact ⟨value, read, completesNext value start (by simp [read])⟩
  · rintro ⟨value, read, completesNext⟩
    refine ⟨⟨value, read⟩, ?_⟩
    intro value' middle ends
    obtain ⟨read', rfl⟩ := (ends_tryReads_iff _ _ _ _).mp ends
    rw [read] at read'
    obtain rfl := Except.ok.inj read'
    exact completesNext

@[simp] theorem completes_reads_andThen_iff (view : σ → α) (next : α → Prog σ ε β) (start : σ) :
    Completes (andThen (reads view) next) start ↔ Completes (next (view start)) start := Iff.rfl

theorem completes_handle_iff (body : Prog σ ε α) (handler : ε → Prog σ ε α) (start : σ) :
    Completes (handle body handler) start ↔
      ∀ failure, (body start).ending = .error failure →
        Completes (handler failure) ((body start).final start) := by
  unfold Completes
  simp only [ends_handle_iff]
  cases ending : (body start).ending with
  | ok value => simp [Ends, ending]
  | error failure => simp [Ends, ending]

/-! ## Loops -/

/-- In the state before each turn of the loop, the turn is ready. -/
def EachReady (body : α → Prog σ ε Unit) (ready : α → σ → Prop) : List α → σ → Prop
  | [], _ => True
  | item :: items, start =>
      ready item start ∧
        ∀ middle, Ends (body item) start () middle → EachReady body ready items middle

theorem completes_forEach_iff {body : α → Prog σ ε Unit} {ready : α → σ → Prop}
    (completesBody : ∀ item start, Completes (body item) start ↔ ready item start)
    (items : List α) (start : σ) :
    Completes (forEach body items) start ↔ EachReady body ready items start := by
  induction items generalizing start with
  | nil => simp [forEach, EachReady]
  | cons item items inductionHypothesis =>
      rw [forEach, EachReady, completes_andThen_unit_iff, completesBody]
      simp only [inductionHypothesis]

/-- What every turn keeps just where it is ready, the loop keeps just where each turn is. -/
theorem kept_forEach_iff {keep : σ → Prop} {body : α → Prog σ ε Unit} {ready : α → σ → Prop}
    (keptBody : ∀ item start, keep start →
      ((∀ state ∈ (body item start).states, keep state) ↔ ready item start))
    (items : List α) {start : σ} (kept : keep start) :
    (∀ state ∈ (forEach body items start).states, keep state) ↔
      EachReady body ready items start := by
  induction items generalizing start with
  | nil => simp [forEach, EachReady]
  | cons item items inductionHypothesis =>
      have keptMiddle {middle : σ} (ends : Ends (body item) start () middle)
          (keeps : ∀ state ∈ (body item start).states, keep state) : keep middle :=
        ends.kept kept keeps
      rw [forEach, EachReady, ← keptBody item start kept]
      constructor
      · intro keeps
        have keepsItem : ∀ state ∈ (body item start).states, keep state :=
          fun state member => keeps state (mem_states_andThen_left member)
        refine ⟨keepsItem, fun middle ends => ?_⟩
        rw [← inductionHypothesis (keptMiddle ends keepsItem)]
        exact fun state member => keeps state (mem_states_andThen_right ends member)
      · rintro ⟨keepsItem, later⟩ state member
        rcases mem_states_andThen_cases member with early | ⟨_, middle, ends, late⟩
        · exact keepsItem state early
        · exact (inductionHypothesis (keptMiddle ends keepsItem)).mpr (later middle ends) state late

/-- In the state before each turn of a loop that passes a value on, the turn is ready. -/
def FoldReady (body : α → β → Prog σ ε α) (ready : α → β → σ → Prop) : α → List β → σ → Prop
  | _, [], _ => True
  | acc, item :: items, start =>
      ready acc item start ∧
        ∀ next middle, Ends (body acc item) start next middle →
          FoldReady body ready next items middle

theorem completes_foldOver_iff {body : α → β → Prog σ ε α} {ready : α → β → σ → Prop}
    (completesBody : ∀ acc item start, Completes (body acc item) start ↔ ready acc item start)
    (acc : α) (items : List β) (start : σ) :
    Completes (foldOver body acc items) start ↔ FoldReady body ready acc items start := by
  induction items generalizing acc start with
  | nil => simp [foldOver, FoldReady]
  | cons item items inductionHypothesis =>
      rw [foldOver, FoldReady, completes_andThen_iff, completesBody]
      simp only [inductionHypothesis]

/-- A loop whose every turn completes. -/
theorem completes_forEach {body : α → Prog σ ε Unit}
    (completesBody : ∀ item start, Completes (body item) start) (items : List α) (start : σ) :
    Completes (forEach body items) start := by
  induction items generalizing start with
  | nil => simp [forEach]
  | cons item items inductionHypothesis =>
      rw [forEach, completes_andThen_iff]
      exact ⟨completesBody item start, fun _ middle _ => inductionHypothesis middle⟩

/-- A loop that passes a value on and whose every turn completes. -/
theorem completes_foldOver {body : α → β → Prog σ ε α}
    (completesBody : ∀ acc item start, Completes (body acc item) start) (acc : α) (items : List β)
    (start : σ) : Completes (foldOver body acc items) start := by
  induction items generalizing acc start with
  | nil => simp [foldOver]
  | cons item items inductionHypothesis =>
      rw [foldOver, completes_andThen_iff]
      exact ⟨completesBody acc item start, fun next middle _ => inductionHypothesis next middle⟩

end Prog

/-! ## Calls -/

namespace Fs

/-- Something other than a directory stands here; a last link is not followed. -/
def HoldsFile (s : Str) (fs : Fs) : Prop :=
  ∃ node, fs.lstat s = some node ∧ node.isDirectory = false

/-- Nothing stands here, but something may. -/
def Vacant (s : Str) (fs : Fs) : Prop :=
  ∃ path, fs.locate false s = some path ∧ fs.node path = none

/-- A file may be put here: something may stand here, and no directory does. -/
def TakesFile (s : Str) (fs : Fs) : Prop :=
  ∃ path, fs.locate false s = some path ∧ fs.isDirAt path = false

/-- A regular file stands here or may be made. -/
def TakesContent (s : Str) (fs : Fs) : Prop :=
  ∃ path, fs.locate true s = some path ∧ ∀ node ∈ fs.node path, node.isRegular = true

theorem isDirAt_of_node {fs : Fs} {path : Path} {node : Node} (found : fs.node path = some node) :
    fs.isDirAt path = node.isDirectory := by
  simp [isDirAt, holdsDirectory, found]

theorem isDirAt_of_none {fs : Fs} {path : Path} (missing : fs.node path = none) :
    fs.isDirAt path = false := by
  simp [isDirAt, holdsDirectory, missing]

theorem isDirectory_of_isRegular {node : Node} (regular : node.isRegular = true) :
    node.isDirectory = false := by
  cases kind : node.kind with
  | regular content => simp [Node.isDirectory, kind]
  | directory | symlink | charDevice | blockDevice | fifo | socket =>
      simp [Node.isRegular, Node.content?, kind] at regular

theorem place_isSome_iff {fs : Fs} {path : Path} {node : Node} :
    (fs.place path node).isSome = true ↔ fs.Fits path node := by
  unfold place
  split
  · rename_i fits
    simp [fits]
  · rename_i misfit
    simp [misfit]

/-- A node found by its text may be replaced by one of the same type. -/
theorem place_isSome_of_locate {fs : Fs} {follow : Bool} {s : Str} {path : Path} (node : Node)
    (located : fs.locate follow s = some path)
    (free : fs.isDirAt path = true → node.isDirectory = true) :
    (fs.place path node).isSome = true :=
  place_isSome_iff.mpr (fits_of_placeable (placeable_of_locate located) free)

theorem eraseAt_isSome_of_file {fs : Fs} {path : Path} {node : Node}
    (found : fs.node path = some node) (file : node.isDirectory = false) :
    (fs.eraseAt path).isSome = true := by
  have loose : fs.Loose path := loose_of_not_dir ((isDirAt_of_node found).trans file)
  simp [eraseAt, found, loose]

theorem remove_isSome_iff (s : Str) (fs : Fs) :
    (fs.remove s).isSome = true ↔ HoldsFile s fs := by
  unfold remove HoldsFile lstat
  cases located : fs.locate false s with
  | none => simp
  | some path =>
      cases found : fs.node path with
      | none => simp [found, eraseAt, isDirAt_of_none found]
      | some node =>
          cases file : node.isDirectory with
          | true => simp [found, isDirAt_of_node found, file]
          | false =>
              simp [found, isDirAt_of_node found, file, eraseAt_isSome_of_file found file]

theorem mkdir_isSome_iff (mode : Nat) (s : Str) (fs : Fs) :
    (fs.mkdir mode s).isSome = true ↔ Vacant s fs := by
  unfold mkdir create Vacant
  cases located : fs.locate false s with
  | none => simp
  | some path =>
      cases found : fs.node path with
      | some node => simp [found]
      | none =>
          have placed := place_isSome_of_locate ⟨.directory, mode, 0, 0, 2⟩ located
            fun _ => rfl
          simp [found, placed]

theorem openTruncating_isSome_iff (mode : Nat) (s : Str) (fs : Fs) :
    (fs.openTruncating mode s).isSome = true ↔ TakesContent s fs := by
  unfold openTruncating TakesContent
  cases located : fs.locate true s with
  | none => simp
  | some path =>
      cases found : fs.node path with
      | none =>
          have placed := place_isSome_of_locate ⟨.regular [], mode, 0, 0, 1⟩ located
            fun isDir => by simp [isDirAt_of_none found] at isDir
          simp [found, placed]
      | some node =>
          cases regular : node.isRegular with
          | false => simp [found, regular]
          | true =>
              have placed := place_isSome_of_locate { node with kind := .regular [] }
                located fun isDir => by
                  rw [isDirAt_of_node found, isDirectory_of_isRegular regular] at isDir
                  cases isDir
              simp [found, regular, placed]

theorem setContent_isSome_iff (content : List UInt8) (s : Str) (fs : Fs) :
    (fs.setContent content s).isSome = true ↔ fs.isfile s = true := by
  unfold setContent isfile stat
  cases located : fs.locate true s with
  | none => simp
  | some path =>
      cases found : fs.node path with
      | none => simp [found]
      | some node =>
          cases regular : node.isRegular with
          | false => simp [found, regular]
          | true =>
              have placed := place_isSome_of_locate
                { node with kind := .regular content } located fun isDir => by
                  rw [isDirAt_of_node found, isDirectory_of_isRegular regular] at isDir
                  cases isDir
              simp [found, regular, placed]

theorem isfile_iff_readFile (s : Str) (fs : Fs) :
    fs.isfile s = true ↔ ∃ bytes, fs.readFile s = some bytes := by
  unfold isfile readFile
  cases fs.stat s with
  | none => simp
  | some node => simp [Node.isRegular, Option.isSome_iff_exists]

theorem overwrite_isSome_iff (content : List UInt8) (s : Str) (fs : Fs) :
    (fs.overwrite content s).isSome = true ↔ fs.isfile s = true := by
  unfold overwrite
  cases read : fs.readFile s with
  | none => simp [isfile_iff_readFile, read]
  | some old => simp [setContent_isSome_iff]

theorem setMode_isSome_iff (mode : Nat) (s : Str) (fs : Fs) :
    (fs.setMode mode s).isSome = true ↔ fs.pathExists s = true := by
  unfold setMode pathExists stat
  cases located : fs.locate true s with
  | none => simp
  | some path =>
      cases found : fs.node path with
      | none => simp [found]
      | some node =>
          have placed := place_isSome_of_locate { node with mode := mode % 4096 } located
            fun isDir => (isDirAt_of_node found).symm.trans isDir
          simp [found, placed]

theorem setOwner_isSome_iff (uid gid : Nat) (s : Str) (fs : Fs) :
    (fs.setOwner true uid gid s).isSome = true ↔ fs.pathExists s = true := by
  unfold setOwner pathExists stat
  cases located : fs.locate true s with
  | none => simp
  | some path =>
      cases found : fs.node path with
      | none => simp [found]
      | some node =>
          have placed := place_isSome_of_locate
            { node with mode := modeBehindChown node, uid := uid, gid := gid } located
            fun isDir => (isDirAt_of_node found).symm.trans isDir
          simp [found, placed]

/-! ## Calls that only replace and add files -/

/-- Every node is still there, and directories and links are where they were. -/
structure Grown (fs next : Fs) : Prop extends SameShape fs next where
  present : ∀ path, (fs.node path).isSome = true → (next.node path).isSome = true

theorem Grown.refl (fs : Fs) : Grown fs fs where
  cwd := rfl
  isDirAt _ := rfl
  targetAt _ := rfl
  present _ here := here

theorem Grown.trans {fs middle next : Fs} (first : Grown fs middle) (second : Grown middle next) :
    Grown fs next where
  cwd := first.cwd.trans second.cwd
  isDirAt path := (first.isDirAt path).trans (second.isDirAt path)
  targetAt path := (first.targetAt path).trans (second.targetAt path)
  present path here := second.present path (first.present path here)

theorem grown_of_place {fs next : Fs} {path : Path} {node : Node}
    (placed : fs.place path node = some next) (sameDir : fs.isDirAt path = node.isDirectory)
    (sameTarget : fs.targetAt path = node.target?) : Grown fs next where
  toSameShape := sameShape_of_place placed sameDir sameTarget
  present other here := by
    rw [node_of_place placed]
    split
    · rfl
    · exact here

theorem targetAt_of_node {fs : Fs} {path : Path} {node : Node} (found : fs.node path = some node) :
    fs.targetAt path = node.target? := by
  simp [targetAt, found]

theorem target?_of_isRegular {node : Node} (regular : node.isRegular = true) :
    node.target? = none := by
  cases kind : node.kind with
  | regular content => simp [Node.target?, kind]
  | directory | symlink | charDevice | blockDevice | fifo | socket =>
      simp [Node.isRegular, Node.content?, kind] at regular

theorem grown_of_setOwner {fs next : Fs} {follow : Bool} {uid gid : Nat} {s : Str}
    (set : fs.setOwner follow uid gid s = some next) : Grown fs next := by
  obtain ⟨path, _, set⟩ := Option.bind_eq_some_iff.mp set
  obtain ⟨node, found, placed⟩ := Option.bind_eq_some_iff.mp set
  exact grown_of_place placed ((isDirAt_of_node found).trans rfl)
    ((targetAt_of_node found).trans rfl)

theorem grown_of_setContent {fs next : Fs} {content : List UInt8} {s : Str}
    (set : fs.setContent content s = some next) : Grown fs next := by
  obtain ⟨path, _, set⟩ := Option.bind_eq_some_iff.mp set
  obtain ⟨node, found, set⟩ := Option.bind_eq_some_iff.mp set
  split at set
  · rename_i regular
    apply grown_of_place set
    · exact (isDirAt_of_node found).trans (isDirectory_of_isRegular regular)
    · exact (targetAt_of_node found).trans (target?_of_isRegular regular)
  · cases set

theorem grown_of_overwrite {fs next : Fs} {content : List UInt8} {s : Str}
    (written : fs.overwrite content s = some next) : Grown fs next := by
  obtain ⟨_, _, set⟩ := Option.bind_eq_some_iff.mp written
  exact grown_of_setContent set

theorem isfile_of_overwrite {fs next : Fs} {content : List UInt8} {s : Str}
    (written : fs.overwrite content s = some next) : next.isfile s = true := by
  obtain ⟨_, _, set⟩ := Option.bind_eq_some_iff.mp written
  exact (isfile_iff_readFile _ _).mpr ⟨_, readFile_of_setContent set⟩

theorem grown_of_openTruncating {fs next : Fs} {mode : Nat} {s : Str}
    (opened : fs.openTruncating mode s = some next) : Grown fs next := by
  obtain ⟨path, _, opened⟩ := Option.bind_eq_some_iff.mp opened
  split at opened
  · rename_i missing
    apply grown_of_place opened
    · exact isDirAt_of_none missing
    · simp [targetAt, missing, Node.target?]
  · rename_i node found
    split at opened
    · rename_i regular
      apply grown_of_place opened
      · exact (isDirAt_of_node found).trans (isDirectory_of_isRegular regular)
      · exact (targetAt_of_node found).trans (target?_of_isRegular regular)
    · cases opened

/-- A file that was opened for writing is there. -/
theorem isfile_of_openTruncating {fs next : Fs} {mode : Nat} {s : Str}
    (opened : fs.openTruncating mode s = some next) : next.isfile s = true := by
  have located := locate_congr (grown_of_openTruncating opened).toSameShape true s
  obtain ⟨path, here, opened⟩ := Option.bind_eq_some_iff.mp opened
  rw [isfile, stat, ← located, here, Option.bind_some]
  split at opened
  · rw [node_of_place opened, if_pos rfl]
    rfl
  · split at opened
    · rw [node_of_place opened, if_pos rfl]
      rfl
    · cases opened

theorem Grown.pathExists {fs next : Fs} (grown : Grown fs next) {s : Str}
    (there : fs.pathExists s = true) : next.pathExists s = true := by
  obtain ⟨node, found⟩ := Option.isSome_iff_exists.mp there
  obtain ⟨path, located, here⟩ := Option.bind_eq_some_iff.mp found
  rw [Fs.pathExists, stat, ← locate_congr grown.toSameShape, located, Option.bind_some]
  exact grown.present path (by simp [here])

theorem Grown.holdsFile {fs next : Fs} (grown : Grown fs next) {s : Str}
    (holds : HoldsFile s fs) : HoldsFile s next := by
  obtain ⟨node, found, file⟩ := holds
  obtain ⟨path, located, here⟩ := Option.bind_eq_some_iff.mp found
  obtain ⟨other, hereNext⟩ := Option.isSome_iff_exists.mp (grown.present path (by simp [here]))
  refine ⟨other, ?_, ?_⟩
  · rw [lstat, ← locate_congr grown.toSameShape, located, Option.bind_some, hereNext]
  · rw [← isDirAt_of_node hereNext, ← grown.isDirAt, isDirAt_of_node here, file]

/-! ## Moving -/

/-- A file may be moved to a free place. -/
theorem move_step_isSome {fs : Fs} {source target : Path} {dst : Str} {node : Node}
    (found : fs.node source = some node) (file : node.isDirectory = false)
    (located : fs.locate false dst = some target) (free : fs.isDirAt target = false)
    (differ : source ≠ target) :
    ((fs.place target node).bind fun moved => moved.eraseAt source).isSome = true := by
  have placed : (fs.place target node).isSome = true := place_isSome_of_locate node located fun isDir => by
    rw [free] at isDir
    cases isDir
  obtain ⟨moved, placed⟩ := Option.isSome_iff_exists.mp placed
  rw [placed, Option.bind_some]
  apply eraseAt_isSome_of_file ?_ file
  rw [node_of_place placed, if_neg differ]
  exact found

theorem rename_isSome_iff (src dst : Str) (fs : Fs) :
    (fs.rename src dst).isSome = true ↔ HoldsFile src fs ∧ TakesFile dst fs := by
  unfold rename HoldsFile TakesFile lstat
  cases locatedSrc : fs.locate false src with
  | none => simp
  | some source =>
      cases locatedDst : fs.locate false dst with
      | none => simp
      | some target =>
          cases found : fs.node source with
          | none => simp [found]
          | some node =>
              cases file : node.isDirectory with
              | true => simp [found, file]
              | false =>
                  cases free : fs.isDirAt target with
                  | true => simp [found, file, free]
                  | false =>
                      by_cases same : source = target
                      · subst same
                        simp [found, file, free]
                      · have moved := move_step_isSome found file locatedDst free same
                        simp [found, file, free, same, moved]

/-- What `shutil.move` needs: a file to move, and a place for it to go to. -/
def Movable (src dst : Str) (fs : Fs) : Prop :=
  HoldsFile src fs ∧ ∃ target, fs.moveTarget src dst = some target ∧ TakesFile target fs

theorem move_isSome_iff (src dst : Str) (fs : Fs) :
    (fs.move src dst).isSome = true ↔ Movable src dst fs := by
  unfold move Movable
  cases fs.moveTarget src dst with
  | none => simp
  | some target => simp [rename_isSome_iff]

/-- What is there with links followed is there without. -/
theorem holdsFile_of_isfile {s : Str} {fs : Fs} (regular : fs.isfile s = true) : HoldsFile s fs := by
  unfold isfile at regular
  cases found : fs.stat s with
  | none => simp [found] at regular
  | some node =>
      have regular : node.isRegular = true := by simpa [found] using regular
      obtain ⟨path, located, here⟩ := Option.bind_eq_some_iff.mp found
      obtain ⟨other, locatedOther, present⟩ := locate_nofollow located (by simp [here])
      obtain ⟨otherNode, hereOther⟩ := Option.isSome_iff_exists.mp present
      refine ⟨otherNode, by simp [lstat, locatedOther, hereOther], ?_⟩
      cases directory : otherNode.isDirectory with
      | false => rfl
      | true =>
          have isDir : fs.isDirAt other = true := (isDirAt_of_node hereOther).trans directory
          have again := locate_follow (targetAt_of_isDirAt isDir) locatedOther
          rw [located] at again
          obtain rfl := Option.some.inj again
          rw [here] at hereOther
          obtain rfl := Option.some.inj hereOther
          rw [isDirectory_of_isRegular regular] at directory
          cases directory

/-- A file may be moved over a regular file exactly where there is one. -/
theorem movable_over_isfile {src dst : Str} {fs : Fs} (regular : fs.isfile dst = true) :
    Movable src dst fs ↔ HoldsFile src fs := by
  have notDir : fs.isdir dst = false := by
    unfold isfile at regular
    unfold isdir
    cases found : fs.stat dst with
    | none => rfl
    | some node => simpa using isDirectory_of_isRegular (by simpa [found] using regular)
  obtain ⟨node, found, file⟩ := holdsFile_of_isfile regular
  obtain ⟨path, located, here⟩ := Option.bind_eq_some_iff.mp found
  have takes : TakesFile dst fs := ⟨path, located, (isDirAt_of_node here).trans file⟩
  simp [Movable, moveTarget, notDir, takes]

end Fs

/-! ## Programs on a file system -/

namespace Fs

open Prog

section Programs

variable {ε : Type} (osError : ε)

theorem completes_sys_iff (call : Fs → Option Fs) (fs : Fs) :
    Completes (sys osError call) fs ↔ (call fs).isSome = true := by
  rw [sys, completes_step_iff]
  cases call fs with
  | none => simp
  | some next => simp

theorem ends_sys_iff (call : Fs → Option Fs) (fs next : Fs) :
    Ends (sys osError call) fs () next ↔ call fs = some next := by
  rw [sys, ends_step_iff]
  cases call fs with
  | none => simp
  | some next => simp

/-- `os.makedirs` can make its last directory, or may find it there. -/
def DirectoryReady (existOk : Bool) (name : Str) (fs : Fs) : Prop :=
  Vacant name fs ∨ (existOk = true ∧ fs.isdir name = true)

theorem completes_makeLast_iff (mode : Nat) (existOk : Bool) (name : Str) (fs : Fs) :
    Completes (makedirsPieces.makeLast osError mode existOk name) fs ↔
      DirectoryReady existOk name fs := by
  unfold makedirsPieces.makeLast DirectoryReady
  rw [completes_handle_iff, ← mkdir_isSome_iff mode name fs]
  cases made : fs.mkdir mode name with
  | some next =>
      have ran : sys osError (Fs.mkdir mode name) fs = ⟨[next], .ok ()⟩ := by
        simp [sys, step, made]
      simp [ran]
  | none =>
      have ran : sys osError (Fs.mkdir mode name) fs = ⟨[], .error osError⟩ := by
        simp [sys, step, made]
      simp only [ran, Except.error.injEq, forall_eq', final_nil, bind_eq,
        completes_reads_andThen_iff]
      cases there : existOk && fs.isdir name with
      | true => simpa using there
      | false => simpa using there

/-- `os.makedirs` meets nothing but directories: the missing ones above are made
first, each in the state behind the one before. -/
def MakedirsReady (mode : Nat) (existOk absolute : Bool) : List Str → Fs → Prop
  | [], _ => True
  | tail :: head, fs =>
      let headText := piecesText absolute head.reverse
      let name := piecesText absolute (tail :: head).reverse
      if headText = [] ∨ fs.pathExists headText = true then
        DirectoryReady existOk name fs
      else
        MakedirsReady mode existOk absolute head fs ∧
          ∀ middle, Ends (makedirsPieces osError mode existOk absolute head) fs () middle →
            tail = ['.'] ∨ DirectoryReady existOk name middle

theorem completes_makedirsPieces_iff (mode : Nat) (existOk absolute : Bool) (pieces : List Str)
    (fs : Fs) :
    Completes (makedirsPieces osError mode existOk absolute pieces) fs ↔
      MakedirsReady osError mode existOk absolute pieces fs := by
  induction pieces generalizing fs with
  | nil => simp [makedirsPieces, MakedirsReady]
  | cons tail head inductionHypothesis =>
      simp only [makedirsPieces, MakedirsReady, bind_eq, completes_reads_andThen_iff]
      by_cases there : piecesText absolute head.reverse = [] ∨
          fs.pathExists (piecesText absolute head.reverse) = true
      · have flag : (decide (piecesText absolute head.reverse = []) ||
            fs.pathExists (piecesText absolute head.reverse)) = true := by simpa using there
        rw [if_pos there, if_pos flag, completes_makeLast_iff]
      · have flag : ¬ (decide (piecesText absolute head.reverse = []) ||
            fs.pathExists (piecesText absolute head.reverse)) = true := by simpa using there
        rw [if_neg there, if_neg flag, completes_andThen_unit_iff, inductionHypothesis]
        refine and_congr_right fun _ => forall_congr' fun middle => imp_congr_right fun _ => ?_
        by_cases dot : tail = ['.']
        · simp [dot]
        · simp [dot, completes_makeLast_iff]

section Walk

variable {α : Type} (visit : α → Str → List Str → List Str → Prog Fs ε α)
  (visitReady : α → Str → List Str → List Str → Fs → Prop)

/-- What `os.walk` does with one directory below `top`. -/
def walkEntry (levels : Nat) (top : Str) (acc : α) (name : Str) : Prog Fs ε α := do
  let link ← Prog.reads (Fs.islink · (Str.joinPath top name))
  if link then Prog.ret acc else osWalk visit levels acc (Str.joinPath top name)

theorem osWalk_succ (levels : Nat) (acc : α) (top : Str) :
    osWalk visit (levels + 1) acc top =
      andThen (reads (Fs.scandir top)) fun entries =>
        match entries with
        | none => ret acc
        | some (dirs, files) =>
            andThen (visit acc top dirs files) fun next =>
              foldOver (walkEntry visit levels top) next dirs := rfl

/-- In the state before each directory of a walk is visited, the visit is ready. -/
def WalkReady : Nat → α → Str → Fs → Prop
  | 0, _, _, _ => True
  | levels + 1, acc, top, fs =>
      ∀ dirs files, fs.scandir top = some (dirs, files) →
        visitReady acc top dirs files fs ∧
          ∀ next middle, Ends (visit acc top dirs files) fs next middle →
            FoldReady (walkEntry visit levels top)
              (fun acc name fs =>
                fs.islink (Str.joinPath top name) = false →
                  WalkReady levels acc (Str.joinPath top name) fs)
              next dirs middle

theorem completes_osWalk_iff
    (completesVisit : ∀ acc top dirs files fs,
      Completes (visit acc top dirs files) fs ↔ visitReady acc top dirs files fs)
    (levels : Nat) (acc : α) (top : Str) (fs : Fs) :
    Completes (osWalk visit levels acc top) fs ↔
      WalkReady visit visitReady levels acc top fs := by
  induction levels generalizing acc top fs with
  | zero => simp [osWalk, WalkReady]
  | succ levels inductionHypothesis =>
      have entry (acc : α) (name : Str) (fs : Fs) :
          Completes (walkEntry visit levels top acc name) fs ↔
            (fs.islink (Str.joinPath top name) = false →
              WalkReady visit visitReady levels acc (Str.joinPath top name) fs) := by
        rw [walkEntry, bind_eq, completes_reads_andThen_iff]
        cases fs.islink (Str.joinPath top name) with
        | true => simp
        | false => simp [inductionHypothesis]
      rw [osWalk_succ, completes_reads_andThen_iff, WalkReady]
      cases listed : fs.scandir top with
      | none => simp
      | some entries =>
          obtain ⟨dirs, files⟩ := entries
          simp only [completes_andThen_iff, completesVisit, completes_foldOver_iff entry]
          constructor
          · intro ready dirs' files' same
            obtain ⟨rfl, rfl⟩ := Prod.mk.inj (Option.some.inj same)
            exact ready
          · exact fun ready => ready dirs files rfl

/-- A walk whose visits complete. -/
theorem completes_osWalk
    (completesVisit : ∀ acc top dirs files fs, Completes (visit acc top dirs files) fs)
    (levels : Nat) (acc : α) (top : Str) (fs : Fs) :
    Completes (osWalk visit levels acc top) fs := by
  induction levels generalizing acc top fs with
  | zero => simp [osWalk]
  | succ levels inductionHypothesis =>
      rw [osWalk_succ, completes_reads_andThen_iff]
      cases fs.scandir top with
      | none => simp
      | some entries =>
          dsimp only
          rw [completes_andThen_iff]
          refine ⟨completesVisit acc top _ _ fs, fun next middle _ => ?_⟩
          apply completes_foldOver
          intro acc name start
          rw [walkEntry, bind_eq, completes_reads_andThen_iff]
          split
          · simp
          · exact inductionHypothesis _ _ start

end Walk

/-- A walk from the bottom up whose visits complete. -/
theorem completes_osWalkUp {visit : Str → Prog Fs ε Unit}
    (completesVisit : ∀ top fs, Completes (visit top) fs) (levels : Nat) (top : Str) (fs : Fs) :
    Completes (osWalkUp visit levels top) fs := by
  induction levels generalizing top fs with
  | zero => simp [osWalkUp]
  | succ levels inductionHypothesis =>
      simp only [osWalkUp, bind_eq, completes_reads_andThen_iff]
      cases fs.scandir top with
      | none => simp
      | some entries =>
          dsimp only
          rw [completes_andThen_iff]
          refine ⟨completes_forEach ?_ _ fs, fun _ middle _ => completesVisit top middle⟩
          intro name start
          rw [completes_reads_andThen_iff]
          split
          · simp
          · exact inductionHypothesis _ start

end Programs

end Fs

end Myscm.Library
