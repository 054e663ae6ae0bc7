import Myscm.Library.FileEffects
import Myscm.Library.PathTexts

/-!
Owns what is known of file systems that differ below one directory alone.

Owns: `SameOutside`; texts that lead to a directory without passing through it, and the
texts below it; calls and programs that change nothing outside.

Does not own: when a call fails.
-/

namespace Myscm.Library

namespace Fs

/-- The file systems differ at `root` and below it alone. -/
structure SameOutside (root : Path) (fs next : Fs) : Prop where
  cwd : next.cwd = fs.cwd
  node : ∀ path, ¬ root <+: path → next.node path = fs.node path

theorem SameOutside.refl (root : Path) (fs : Fs) : SameOutside root fs fs := ⟨rfl, fun _ _ => rfl⟩

theorem SameOutside.trans {root : Path} {fs middle next : Fs} (first : SameOutside root fs middle)
    (second : SameOutside root middle next) : SameOutside root fs next where
  cwd := second.cwd.trans first.cwd
  node path outside := (second.node path outside).trans (first.node path outside)

theorem SameOutside.symm {root : Path} {fs next : Fs} (same : SameOutside root fs next) :
    SameOutside root next fs where
  cwd := same.cwd.symm
  node path outside := (same.node path outside).symm

/-! ## Calls that change one node -/

/-- Nothing but the node at `path` changed, and it did not become a link. -/
structure Touches (fs next : Fs) (path : Path) : Prop where
  cwd : next.cwd = fs.cwd
  others : ∀ other, other ≠ path → next.node other = fs.node other
  link : ∀ target, next.targetAt path = some target → fs.targetAt path = some target

/-- Where no link is, none comes to stand. -/
theorem Touches.free {fs next : Fs} {path other : Path} (touches : Touches fs next path)
    (free : fs.targetAt other = none) : next.targetAt other = none := by
  by_cases here : other = path
  · cases link : next.targetAt other with
    | none => rfl
    | some target =>
        have before := touches.link target (here ▸ link)
        rw [← here, free] at before
        cases before
  · rw [targetAt, touches.others other here]
    exact free

theorem cwd_of_place {fs next : Fs} {path : Path} {node : Node}
    (placed : fs.place path node = some next) : next.cwd = fs.cwd := by
  unfold place at placed
  split at placed
  · obtain rfl := Option.some.inj placed
    rfl
  · cases placed

theorem touches_of_place {fs next : Fs} {path : Path} {node : Node}
    (placed : fs.place path node = some next)
    (link : ∀ target, node.target? = some target → fs.targetAt path = some target) :
    Touches fs next path where
  cwd := cwd_of_place placed
  others other differ := by rw [node_of_place placed, if_neg differ]
  link target isLink := by
    rw [targetAt, node_of_place placed, if_pos rfl] at isLink
    exact link target isLink

theorem touches_of_eraseAt {fs next : Fs} {path : Path} (erased : fs.eraseAt path = some next) :
    Touches fs next path where
  cwd := cwd_of_eraseAt erased
  others other differ := by rw [node_of_eraseAt erased, if_neg differ]
  link target isLink := by
    rw [targetAt, node_of_eraseAt erased, if_pos rfl] at isLink
    cases isLink

section Calls

variable {fs next : Fs} {s : Str}

theorem touches_of_create {node : Node} (noLink : node.target? = none)
    (created : fs.create s node = some next) :
    ∃ path, fs.locate false s = some path ∧ fs.node path = none ∧ Touches fs next path := by
  obtain ⟨path, located, created⟩ := Option.bind_eq_some_iff.mp created
  split at created
  · cases created
  · rename_i missing
    refine ⟨path, located, by simpa using missing, touches_of_place created ?_⟩
    intro target isLink
    rw [noLink] at isLink
    cases isLink

theorem touches_of_remove (removed : fs.remove s = some next) :
    ∃ path, fs.locate false s = some path ∧ Touches fs next path := by
  obtain ⟨path, located, removed⟩ := Option.bind_eq_some_iff.mp removed
  split at removed
  · cases removed
  · exact ⟨path, located, touches_of_eraseAt removed⟩

theorem touches_of_openTruncating {mode : Nat} (opened : fs.openTruncating mode s = some next) :
    ∃ path, fs.locate true s = some path ∧ Touches fs next path := by
  obtain ⟨path, located, opened⟩ := Option.bind_eq_some_iff.mp opened
  split at opened
  · exact ⟨path, located, touches_of_place opened fun _ isLink => by cases isLink⟩
  · split at opened
    · exact ⟨path, located, touches_of_place opened fun _ isLink => by cases isLink⟩
    · cases opened

theorem touches_of_setContent {content : List UInt8} (set : fs.setContent content s = some next) :
    ∃ path, fs.locate true s = some path ∧ Touches fs next path := by
  obtain ⟨path, located, set⟩ := Option.bind_eq_some_iff.mp set
  obtain ⟨node, _, set⟩ := Option.bind_eq_some_iff.mp set
  split at set
  · exact ⟨path, located, touches_of_place set fun _ isLink => by cases isLink⟩
  · cases set

theorem touches_of_overwrite {content : List UInt8} (written : fs.overwrite content s = some next) :
    ∃ path, fs.locate true s = some path ∧ Touches fs next path := by
  obtain ⟨_, _, set⟩ := Option.bind_eq_some_iff.mp written
  exact touches_of_setContent set

theorem touches_of_setMode {mode : Nat} (set : fs.setMode mode s = some next) :
    ∃ path, fs.locate true s = some path ∧ Touches fs next path := by
  obtain ⟨path, located, set⟩ := Option.bind_eq_some_iff.mp set
  obtain ⟨node, found, set⟩ := Option.bind_eq_some_iff.mp set
  refine ⟨path, located, touches_of_place set fun target isLink => ?_⟩
  rw [targetAt_of_node found]
  exact isLink

theorem touches_of_chmod {mode : Int} (set : fs.chmod mode s = some next) :
    ∃ path, fs.locate true s = some path ∧ Touches fs next path := by
  unfold chmod at set
  split at set
  · exact touches_of_setMode set
  · cases set

theorem touches_of_setOwner {follow : Bool} {uid gid : Nat}
    (set : fs.setOwner follow uid gid s = some next) :
    ∃ path, fs.locate follow s = some path ∧ Touches fs next path := by
  obtain ⟨path, located, set⟩ := Option.bind_eq_some_iff.mp set
  obtain ⟨node, found, set⟩ := Option.bind_eq_some_iff.mp set
  refine ⟨path, located, touches_of_place set fun target isLink => ?_⟩
  rw [targetAt_of_node found]
  exact isLink

theorem touches_of_chown {follow : Bool} {uid gid : Int}
    (set : fs.chown follow uid gid s = some next) :
    ∃ path, fs.locate follow s = some path ∧ Touches fs next path := by
  obtain ⟨_, _, set⟩ := Option.bind_eq_some_iff.mp set
  obtain ⟨_, _, set⟩ := Option.bind_eq_some_iff.mp set
  obtain ⟨_, _, set⟩ := Option.bind_eq_some_iff.mp set
  exact touches_of_setOwner set

end Calls

/-! ## Links below a directory -/

/-- Outside `root` the file system is that of the start, and below it there are links at the
given places alone. -/
structure Contained (root : Path) (places : List Path) (start fs : Fs) : Prop where
  outside : SameOutside root start fs
  links : ∀ below target, fs.targetAt (root ++ below) = some target → below ∈ places

theorem Contained.of_touches {root path : Path} {places : List Path} {start fs next : Fs}
    (contained : Contained root places start fs) (inside : root <+: path)
    (touches : Touches fs next path) : Contained root places start next where
  outside := contained.outside.trans {
    cwd := touches.cwd
    node := fun other outside => touches.others other fun same => outside (same ▸ inside) }
  links below target isLink := by
    by_cases here : root ++ below = path
    · exact contained.links below target (by
        rw [here] at isLink ⊢
        exact touches.link target isLink)
    · apply contained.links below target
      rw [targetAt, ← touches.others _ here]
      exact isLink

/-- A link may be placed where one is expected. -/
theorem Contained.of_create {root below : Path} {places : List Path} {start fs next : Fs}
    {s : Str} {node : Node} (contained : Contained root places start fs)
    (located : fs.locate false s = some (root ++ below)) (expected : below ∈ places)
    (created : fs.create s node = some next) : Contained root places start next := by
  rw [create, located, Option.bind_some] at created
  split at created
  · cases created
  · constructor
    · refine contained.outside.trans ⟨cwd_of_place created, fun other outside => ?_⟩
      rw [node_of_place created, if_neg]
      rintro rfl
      exact outside (List.prefix_append _ _)
    · intro other target isLink
      by_cases here : root ++ other = root ++ below
      · rw [List.append_cancel_left here]
        exact expected
      · apply contained.links other target
        rw [targetAt, node_of_place created, if_neg here] at isLink
        exact isLink

/-- What every success of a call keeps, the program of the call keeps. -/
theorem always_sys {ε : Type} {osError : ε} {keep : Fs → Prop} {call : Fs → Option Fs}
    (preserves : ∀ fs next, keep fs → call fs = some next → keep next) :
    Prog.Always keep (sys osError call) := by
  apply Prog.always_step
  intro fs next kept called
  cases result : call fs with
  | none =>
      rw [result] at called
      cases called
  | some finish =>
      rw [result] at called
      obtain rfl := Except.ok.inj called
      exact preserves fs finish kept result

/-! ## Pieces that lead to a directory from outside -/

/-- The pieces lead from `start` to `root` itself, not to a link to it, and pass nothing at
or below it on the way: they do so in a file system without it. -/
def PiecesLead (fs : Fs) (start : Path) (pieces : List Str) (root : Path) : Prop :=
  ∃ base, SameOutside root base fs ∧ base.node root = none ∧
    base.walk false maxSymlinks start pieces = some root

theorem PiecesLead.congr {fs next : Fs} {start root : Path} {pieces : List Str}
    (lead : PiecesLead fs start pieces root) (same : SameOutside root fs next) :
    PiecesLead next start pieces root := by
  obtain ⟨base, sameBase, missing, walked⟩ := lead
  exact ⟨base, sameBase.trans same, missing, walked⟩

/-- Below a missing node there is none. -/
theorem node_of_missing {fs : Fs} {root path : Path} (missing : fs.node root = none)
    (inside : root <+: path) : fs.node path = none := by
  obtain ⟨rest, rfl⟩ := inside
  by_contra present
  rw [← ne_eq, Option.ne_none_iff_isSome] at present
  by_cases here : rest = []
  · rw [here, List.append_nil, missing] at present
    cases present
  · have isDir := isDirAt_of_extends present here
    rw [isDirAt_of_none missing] at isDir
    cases isDir

theorem extends_of_base {base fs : Fs} {root : Path} (same : SameOutside root base fs)
    (missing : base.node root = none) (noLink : fs.targetAt root = none) : Extends base fs := by
  have outside {path : Path} (present : (base.node path).isSome = true) : ¬ root <+: path :=
    fun inside => by
      rw [node_of_missing missing inside] at present
      cases present
  constructor
  · intro path isDir
    rw [isDirAt, same.node path (outside (isSome_of_isDirAt isDir))]
    exact isDir
  · intro path target link
    have present : (base.node path).isSome = true := by
      obtain ⟨node, found, _⟩ := Option.bind_eq_some_iff.mp link
      rw [found]
      rfl
    rw [targetAt, same.node path (outside present)]
    exact link
  · intro dir name isDir free
    by_cases inside : root <+: dir ++ [name]
    · rcases List.prefix_concat_iff.mp inside with here | above
      · rw [← here]
        exact noLink
      · exact absurd above (outside (isSome_of_isDirAt isDir))
    · rw [targetAt, same.node _ inside]
      exact free

theorem targetAt_of_none {fs : Fs} {path : Path} (missing : fs.node path = none) :
    fs.targetAt path = none := by
  rw [targetAt, missing]
  rfl

section Leading

variable {fs : Fs} {start root : Path} {pieces : List Str}
  (lead : PiecesLead fs start pieces root)
include lead

/-- The last piece is not passed over. -/
theorem PiecesLead.not_idle {front : List Str} {piece : Str} (split : pieces = front ++ [piece]) :
    ¬ Idle piece := by
  intro idle
  obtain ⟨base, _, missing, walked⟩ := lead
  rw [split] at walked
  have isDir := isDirAt_of_walks_idle idle (walks_of_walk walked)
  rw [isDirAt_of_none missing] at isDir
  cases isDir

/-- What the pieces lead to, where links are followed in the end. -/
theorem PiecesLead.walks :
    ∃ base, SameOutside root base fs ∧ base.node root = none ∧
      Walks base true maxSymlinks start pieces root := by
  obtain ⟨base, same, missing, walked⟩ := lead
  exact ⟨base, same, missing, walks_of_walk (walk_follow (targetAt_of_none missing) walked)⟩

/-- Pieces without text may be left out. -/
theorem PiecesLead.filter {front rest : List Str} (split : pieces = front ++ rest)
    (solid : rest.getLast? ≠ some []) :
    PiecesLead fs start (front ++ rest.filter (· ≠ [])) root := by
  obtain ⟨base, same, missing, walked⟩ := lead
  rw [split] at walked
  exact ⟨base, same, missing, walks_filter solid (walks_of_walk walked)⟩

variable (noLink : fs.targetAt root = none)
include noLink

theorem PiecesLead.walk (follow : Bool) :
    fs.walk follow maxSymlinks start pieces = some root := by
  cases follow with
  | true =>
      obtain ⟨base, same, missing, walks⟩ := lead.walks
      exact walk_of_extends (extends_of_base same missing noLink) walks
  | false =>
      obtain ⟨base, same, missing, walked⟩ := lead
      exact walk_of_extends (extends_of_base same missing noLink) (walks_of_walk walked)

/-- The pieces but the last lead to a directory. -/
theorem PiecesLead.parent {front : List Str} {piece : Str} (split : pieces = front ++ [piece]) :
    ∃ dir, fs.walk true maxSymlinks start front = some dir ∧ fs.isDirAt dir = true := by
  obtain ⟨base, same, missing, walks⟩ := lead.walks
  rw [split] at walks
  obtain ⟨dir, walked, isDir⟩ := walks_snoc walks
  have wider := extends_of_base same missing noLink
  exact ⟨dir, walk_of_extends wider (walks_of_walk walked), wider.isDirAt dir isDir⟩

/-- Behind the pieces, a walk goes on from the directory. -/
theorem PiecesLead.append {follow : Bool} {rest : List Str}
    (further : rest ≠ [] ∨ follow = true) :
    ∃ fewer, fs.walk follow maxSymlinks start (pieces ++ rest) = fs.walk follow fewer root rest := by
  obtain ⟨base, same, missing, walks⟩ := lead.walks
  exact walk_append (extends_of_base same missing noLink) further walks

end Leading

/-! ## Pieces behind them -/

/-- No link stands at `root` and the names below it, as far as they go. -/
def Clear (fs : Fs) (root names : Path) : Prop :=
  ∀ front, front <+: names → fs.targetAt (root ++ front) = none

theorem Clear.noLink {fs : Fs} {root names : Path} (clear : Clear fs root names) :
    fs.targetAt root = none := by
  have here := clear [] List.nil_prefix
  rwa [List.append_nil] at here

theorem Clear.mono {fs : Fs} {root names fewer : Path} (clear : Clear fs root names)
    (isPrefix : fewer <+: names) : Clear fs root fewer :=
  fun front isFront => clear front (isFront.trans isPrefix)

theorem Contained.clear {root names : Path} {places : List Path} {start fs : Fs}
    (contained : Contained root places start fs)
    (free : ∀ front, front <+: names → front ∉ places) : Clear fs root names := by
  intro front isFront
  cases link : fs.targetAt (root ++ front) with
  | none => rfl
  | some target => exact absurd (contained.links front target link) (free front isFront)

section Behind

variable {fs : Fs} {start root finish : Path} {front : List Str}
  (lead : PiecesLead fs start front root)
include lead

/-- Pieces behind them lead where their names say. -/
theorem PiecesLead.walk_names {follow : Bool} {rest : List Str} (further : rest ≠ [] ∨ follow = true)
    (noUp : ['.', '.'] ∉ names rest) (clear : Clear fs root (names rest))
    (walked : fs.walk follow maxSymlinks start (front ++ rest) = some finish) :
    finish = root ++ names rest := by
  obtain ⟨fewer, same⟩ := lead.append clear.noLink further
  rw [same, ← List.append_nil rest] at walked
  have ended := Fs.walk_names (not_up_of_names noUp) (fun front _ => clear front) walked
  rw [walk_nil] at ended
  exact (Option.some.inj ended).symm

/-- A last name is not followed. -/
theorem PiecesLead.walk_last {rest : List Str} {last : Str} (named : ¬ Idle last)
    (noUp : ['.', '.'] ∉ names (rest ++ [last])) (clear : Clear fs root (names rest))
    (walked : fs.walk false maxSymlinks start (front ++ (rest ++ [last])) = some finish) :
    finish = root ++ names (rest ++ [last]) := by
  obtain ⟨fewer, same⟩ := @PiecesLead.append _ _ _ _ lead clear.noLink false _
    (.inl (List.append_ne_nil_of_right_ne_nil rest (List.cons_ne_nil last [])))
  rw [same] at walked
  have noUps := not_up_of_names noUp
  have ended := Fs.walk_names (fun piece member => noUps piece (List.mem_append_left _ member))
    (fun front _ => clear front) walked
  have isDir := isDirAt_of_walk ended
  have notUp := noUps last (List.mem_append_right _ List.mem_cons_self)
  have alone : names [last] = [last] := names_cons_name named []
  rw [names_append, alone, ← List.append_assoc]
  cases link : fs.targetAt (root ++ names rest ++ [last]) with
  | some target =>
      rw [Fs.walk_last isDir named notUp link] at ended
      exact (Option.some.inj ended).symm
  | none =>
      rw [walk_name isDir named notUp link, walk_nil] at ended
      exact (Option.some.inj ended).symm

end Behind

/-! ## Texts -/

/-- Where a text is walked from. -/
def textStart (fs : Fs) (s : Str) : Path :=
  if s.head? = some '/' then [] else fs.cwd

theorem locate_eq {fs : Fs} {follow : Bool} {s : Str} (nonempty : s ≠ []) :
    fs.locate follow s = fs.walk follow maxSymlinks (fs.textStart s) (s.splitOn '/') :=
  if_neg nonempty

/-- The text leads to `root`. -/
def Leads (fs : Fs) (s : Str) (root : Path) : Prop :=
  PiecesLead fs (fs.textStart s) (s.splitOn '/') root

section Texts

variable {fs : Fs} {s : Str} {root : Path} (lead : Leads fs s root)
include lead

theorem Leads.congr {next : Fs} (same : SameOutside root fs next) : Leads next s root := by
  have moved := PiecesLead.congr lead same
  unfold Leads textStart at *
  rwa [same.cwd]

theorem Leads.solid : (s.splitOn '/').getLast? ≠ some [] := by
  intro last
  have split := List.dropLast_append_getLast? _ last
  exact PiecesLead.not_idle lead split.symm (.inl rfl)

theorem Leads.isOpen : Str.Open s := by
  intro c last
  rintro rfl
  have split := List.dropLast_append_getLast? _ last
  apply Leads.solid lead
  rw [← split, List.splitOn_append_cons_self]
  simp

theorem Leads.root_ne_nil : root ≠ [] := by
  rintro rfl
  obtain ⟨base, _, missing, _⟩ := lead
  have present := isSome_of_isDirAt base.root
  rw [missing] at present
  cases present

theorem Leads.ne_nil : s ≠ [] := by
  rintro rfl
  exact Leads.solid lead rfl

end Texts

/-- The text leads to the same node where the directory is missing. -/
def LeadsPast (fs : Fs) (s : Str) (root : Path) : Prop :=
  ∃ base, SameOutside root base fs ∧ base.node root = none ∧ base.stat s = fs.stat s

/-- What a text leads to past the directory stays as it is where nothing else changes. -/
theorem LeadsPast.stat_eq {fs next : Fs} {s : Str} {root : Path} (past : LeadsPast fs s root)
    (present : (fs.stat s).isSome = true) (same : SameOutside root fs next)
    (noLink : next.targetAt root = none) : next.stat s = fs.stat s := by
  obtain ⟨base, sameBase, missing, sameStat⟩ := past
  obtain ⟨node, found⟩ := Option.isSome_iff_exists.mp present
  rw [← sameStat] at found ⊢
  rw [found]
  obtain ⟨path, located, here⟩ := Option.bind_eq_some_iff.mp found
  have nonempty : s ≠ [] := by
    rintro rfl
    cases located
  have whole := sameBase.trans same
  have outside : ¬ root <+: path := fun inside => by
    rw [node_of_missing missing inside] at here
    cases here
  rw [locate_eq nonempty] at located
  have walked := walk_of_extends (extends_of_base whole missing noLink) (walks_of_walk located)
  have start : next.textStart s = base.textStart s := by
    rw [textStart, textStart, whole.cwd]
  rw [stat, locate_eq nonempty, start, walked, Option.bind_some, whole.node path outside, here]

end Fs

end Myscm.Library
