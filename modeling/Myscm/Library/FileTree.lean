import Mathlib.Data.List.Basic
import Mathlib.Data.List.Dedup
import Mathlib.Tactic.Common
import Myscm.Library.Text

/-!
Owns a file system as the tree of its nodes, and how a path text is walked
through it.

Owns: nodes with type, content, mode and owner; the tree with its invariants;
placing and erasing one node; canonical paths; walking a text with `.`, `..`,
symbolic links and the limit on links; what a walk over a plain path finds.

Does not own: the system calls, nodes with several names (a hard link is a
node of its own), times, devices a tree is spread over.
-/

namespace Myscm.Library

/-- A path from the root without links, `.` and `..`. -/
abbrev Path := List Str

/-- What a node is. -/
inductive Kind where
  | regular (content : List UInt8)
  | directory
  | symlink (target : Str)
  | charDevice (device : Nat)
  | blockDevice (device : Nat)
  | fifo
  | socket
  deriving DecidableEq

/-- A node: `mode` holds the twelve permission bits. -/
structure Node where
  kind : Kind
  mode : Nat
  uid : Nat
  gid : Nat
  nlink : Nat
  deriving DecidableEq

namespace Node

def isDirectory (node : Node) : Bool :=
  decide (node.kind = .directory)

/-- `os.readlink` of a symbolic link. -/
def target? (node : Node) : Option Str :=
  match node.kind with
  | .symlink target => some target
  | _ => none

/-- The bytes of a regular file. -/
def content? (node : Node) : Option (List UInt8) :=
  match node.kind with
  | .regular content => some content
  | _ => none

def isSymlink (node : Node) : Bool :=
  node.target?.isSome

def isRegular (node : Node) : Bool :=
  node.content?.isSome

theorem target?_of_isDirectory {node : Node} (directory : node.isDirectory = true) :
    node.target? = none := by
  have kind : node.kind = .directory := by simpa [isDirectory] using directory
  simp [target?, kind]

/-- The type bits of `st_mode`. -/
def typeBits (node : Node) : Nat :=
  match node.kind with
  | .regular _ => 0o100000
  | .directory => 0o40000
  | .symlink _ => 0o120000
  | .charDevice _ => 0o20000
  | .blockDevice _ => 0o60000
  | .fifo => 0o10000
  | .socket => 0o140000

/-- `st_mode`. -/
def stMode (node : Node) : Nat :=
  node.typeBits + node.mode

/-- `st_size` of a regular file or a link; other types have no size of their own here. -/
def stSize (node : Node) : Nat :=
  match node.kind with
  | .regular content => content.length
  | .symlink target => target.length
  | _ => 0

end Node

/-- Names a directory entry can have. -/
def IsName (name : Str) : Prop :=
  name ≠ [] ∧ name ≠ ['.'] ∧ name ≠ ['.', '.'] ∧ '/' ∉ name

instance (name : Str) : Decidable (IsName name) :=
  inferInstanceAs (Decidable (_ ∧ _ ∧ _ ∧ _))

/-- A directory stands here. -/
def holdsDirectory (found : Option Node) : Bool :=
  found.any Node.isDirectory

/-- A file system: the node at every path, with every node below a directory
and under a proper name. `order` is the order in which a directory lists its
entries, `cwd` the working directory of the process. -/
structure Fs where
  node : Path → Option Node
  support : List Path
  cwd : Path
  order : List Str → List Str
  supported : ∀ path, (node path).isSome = true → path ∈ support
  root : holdsDirectory (node []) = true
  grounded : ∀ path name, (node (path ++ [name])).isSome = true →
    holdsDirectory (node path) = true ∧ IsName name
  order_perm : ∀ names, (order names).Perm names

namespace Fs

/-- A directory stands at the path. -/
def isDirAt (fs : Fs) (path : Path) : Bool :=
  holdsDirectory (fs.node path)

theorem isSome_of_isDirAt {fs : Fs} {path : Path} (isDir : fs.isDirAt path = true) :
    (fs.node path).isSome = true := by
  unfold isDirAt holdsDirectory at isDir
  cases found : fs.node path with
  | none => simp [found] at isDir
  | some node => rfl

/-- Every proper ancestor of a node is a directory. -/
theorem isDirAt_of_extends {fs : Fs} {path rest : Path}
    (present : (fs.node (path ++ rest)).isSome = true) (proper : rest ≠ []) :
    fs.isDirAt path = true := by
  induction rest generalizing path with
  | nil => exact absurd rfl proper
  | cons name later inductionHypothesis =>
      have reassoc : path ++ name :: later = (path ++ [name]) ++ later := by simp
      rw [reassoc] at present
      have here : (fs.node (path ++ [name])).isSome = true := by
        by_cases last : later = []
        · rwa [last, List.append_nil] at present
        · exact isSome_of_isDirAt (inductionHypothesis present last)
      exact (fs.grounded path name here).1

theorem isName_of_extends {fs : Fs} {path rest : Path} {name : Str}
    (present : (fs.node (path ++ name :: rest)).isSome = true) : IsName name := by
  have here : (fs.node (path ++ [name])).isSome = true := by
    by_cases last : rest = []
    · rwa [last] at present
    · have reassoc : path ++ name :: rest = (path ++ [name]) ++ rest := by simp
      rw [reassoc] at present
      exact isSome_of_isDirAt (isDirAt_of_extends present last)
  exact (fs.grounded path name here).2

/-! ## Entries of a directory -/

/-- The names of the entries of a directory. -/
def children (fs : Fs) (path : Path) : List Str :=
  ((fs.support.filter fun entry =>
      decide (entry.dropLast = path) && (fs.node entry).isSome).filterMap
    List.getLast?).dedup

theorem mem_children {fs : Fs} {path : Path} {name : Str} :
    name ∈ fs.children path ↔ (fs.node (path ++ [name])).isSome = true := by
  simp only [children, List.mem_dedup, List.mem_filterMap, List.mem_filter, Bool.and_eq_true,
    decide_eq_true_eq]
  constructor
  · rintro ⟨entry, ⟨_, above, present⟩, last⟩
    have split := List.dropLast_append_getLast? name last
    rw [above] at split
    rwa [split]
  · intro present
    exact ⟨path ++ [name], ⟨fs.supported _ present, by simp, present⟩, by simp⟩

/-- `os.listdir`. -/
def listing (fs : Fs) (path : Path) : List Str :=
  fs.order (fs.children path)

theorem mem_listing {fs : Fs} {path : Path} {name : Str} :
    name ∈ fs.listing path ↔ (fs.node (path ++ [name])).isSome = true := by
  rw [listing, (fs.order_perm _).mem_iff, mem_children]

/-! ## Placing and erasing a node -/

/-- The node may be placed: below a directory, under a name, and not in the
place of a directory unless it is one. -/
def Fits (fs : Fs) (path : Path) (node : Node) : Prop :=
  fs.isDirAt path.dropLast = true ∧ (∀ name ∈ path.getLast?, IsName name) ∧
    (fs.isDirAt path = true → node.isDirectory = true)

instance (fs : Fs) (path : Path) (node : Node) : Decidable (fs.Fits path node) :=
  inferInstanceAs (Decidable (_ ∧ _ ∧ _))

/-- Place a node. -/
def put (fs : Fs) (path : Path) (node : Node) (fits : fs.Fits path node) : Fs where
  node other := if other = path then some node else fs.node other
  support := path :: fs.support
  cwd := fs.cwd
  order := fs.order
  supported := by
    intro other present
    by_cases here : other = path
    · simp [here]
    · rw [if_neg here] at present
      exact List.mem_cons_of_mem _ (fs.supported other present)
  root := by
    by_cases here : ([] : Path) = path
    · rw [if_pos here]
      subst here
      exact fits.2.2 fs.root
    · rw [if_neg here]
      exact fs.root
  grounded := by
    intro above name present
    by_cases here : above ++ [name] = path
    · subst here
      have other : above ≠ above ++ [name] := by simp
      have isDir := fits.1
      rw [List.dropLast_concat] at isDir
      rw [if_neg other]
      exact ⟨isDir, fits.2.1 name (by simp)⟩
    · rw [if_neg here] at present
      obtain ⟨isDir, isName⟩ := fs.grounded above name present
      refine ⟨?_, isName⟩
      by_cases same : above = path
      · rw [if_pos same]
        subst same
        exact fits.2.2 isDir
      · rw [if_neg same]
        exact isDir
  order_perm := fs.order_perm

@[simp] theorem node_put (fs : Fs) (path other : Path) (node : Node) (fits : fs.Fits path node) :
    (fs.put path node fits).node other = if other = path then some node else fs.node other := rfl

/-- The node may be erased: it is not the root and has no entries. -/
def Loose (fs : Fs) (path : Path) : Prop :=
  path ≠ [] ∧ fs.children path = []

instance (fs : Fs) (path : Path) : Decidable (fs.Loose path) :=
  inferInstanceAs (Decidable (_ ∧ _))

/-- Erase a node. -/
def erase (fs : Fs) (path : Path) (loose : fs.Loose path) : Fs where
  node other := if other = path then none else fs.node other
  support := fs.support
  cwd := fs.cwd
  order := fs.order
  supported := by
    intro other present
    by_cases here : other = path
    · simp [here] at present
    · rw [if_neg here] at present
      exact fs.supported other present
  root := by
    rw [if_neg (Ne.symm loose.1)]
    exact fs.root
  grounded := by
    intro above name present
    by_cases here : above ++ [name] = path
    · simp [here] at present
    · rw [if_neg here] at present
      have notAbove : above ≠ path := by
        rintro rfl
        have member := mem_children.mpr present
        rw [loose.2] at member
        exact absurd member List.not_mem_nil
      rw [if_neg notAbove]
      exact fs.grounded above name present
  order_perm := fs.order_perm

@[simp] theorem node_erase (fs : Fs) (path other : Path) (loose : fs.Loose path) :
    (fs.erase path loose).node other = if other = path then none else fs.node other := rfl

theorem children_eq_nil_of_not_dir {fs : Fs} {path : Path} (notDir : fs.isDirAt path = false) :
    fs.children path = [] := by
  apply List.eq_nil_iff_forall_not_mem.mpr
  intro name member
  have isDir := (fs.grounded path name (mem_children.mp member)).1
  rw [← isDirAt, notDir] at isDir
  cases isDir

/-- A node that is no directory may be erased. -/
theorem loose_of_not_dir {fs : Fs} {path : Path} (notDir : fs.isDirAt path = false) :
    fs.Loose path := by
  refine ⟨?_, children_eq_nil_of_not_dir notDir⟩
  rintro rfl
  have root := fs.root
  rw [← isDirAt, notDir] at root
  cases root

/-- The file system of a root directory alone. -/
def bare : Fs where
  node path := if path = [] then some ⟨.directory, 0o755, 0, 0, 2⟩ else none
  support := [[]]
  cwd := []
  order := id
  supported := by
    intro path present
    by_cases root : path = []
    · simp [root]
    · simp [root] at present
  root := rfl
  grounded := by
    intro path name present
    simp at present
  order_perm _ := List.Perm.refl _

/-! ## Walking a path text -/

/-- The text of the symbolic link at a path. -/
def targetAt (fs : Fs) (path : Path) : Option Str :=
  (fs.node path).bind Node.target?

theorem targetAt_of_isDirAt {fs : Fs} {path : Path} (isDir : fs.isDirAt path = true) :
    fs.targetAt path = none := by
  unfold isDirAt holdsDirectory at isDir
  unfold targetAt
  cases found : fs.node path with
  | none => rfl
  | some node => exact Node.target?_of_isDirectory (by simpa [found] using isDir)

/-- Walk the pieces of a path text from a directory. `jump` goes on behind a
symbolic link. The last piece may be missing: the walk then ends where it would
be placed. With `follow` off, a link as the last piece is not followed. -/
def walkWith (fs : Fs) (follow : Bool) (jump : Path → List Str → Option Path) :
    Path → List Str → Option Path
  | current, [] => some current
  | current, piece :: rest =>
      if fs.isDirAt current = false then
        none
      else if piece = [] ∨ piece = ['.'] then
        walkWith fs follow jump current rest
      else if piece = ['.', '.'] then
        walkWith fs follow jump current.dropLast rest
      else
        match fs.targetAt (current ++ [piece]) with
        | some target =>
            if rest = [] ∧ follow = false then
              some (current ++ [piece])
            else
              jump (if target.head? = some '/' then [] else current) (target.splitOn '/' ++ rest)
        | none => walkWith fs follow jump (current ++ [piece]) rest

/-- Walk through at most `links` symbolic links. -/
def walk (fs : Fs) (follow : Bool) : Nat → Path → List Str → Option Path
  | 0 => fs.walkWith follow fun _ _ => none
  | links + 1 => fs.walkWith follow (fs.walk follow links)

/-- `MAXSYMLINKS` of the kernel. -/
def maxSymlinks : Nat := 40

/-- The path a text names, or where it would be placed. -/
def locate (fs : Fs) (follow : Bool) (s : Str) : Option Path :=
  if s = [] then
    none
  else
    fs.walk follow maxSymlinks (if s.head? = some '/' then [] else fs.cwd) (s.splitOn '/')

/-- Two file systems have their directories and links at the same paths. -/
structure SameShape (fs other : Fs) : Prop where
  cwd : fs.cwd = other.cwd
  isDirAt : ∀ path, fs.isDirAt path = other.isDirAt path
  targetAt : ∀ path, fs.targetAt path = other.targetAt path

/-- A walk depends on the directories and links alone. -/
theorem walkWith_congr {fs other : Fs} (same : SameShape fs other) {follow : Bool}
    {jump jumpOther : Path → List Str → Option Path}
    (jumps : ∀ current rest, jump current rest = jumpOther current rest)
    (current : Path) (rest : List Str) :
    fs.walkWith follow jump current rest = other.walkWith follow jumpOther current rest := by
  induction rest generalizing current with
  | nil => rfl
  | cons piece later inductionHypothesis =>
      simp only [walkWith, same.isDirAt, same.targetAt, inductionHypothesis, jumps]

theorem walk_congr {fs other : Fs} (same : SameShape fs other) (follow : Bool) (links : Nat)
    (current : Path) (rest : List Str) :
    fs.walk follow links current rest = other.walk follow links current rest := by
  induction links generalizing current rest with
  | zero => exact walkWith_congr same (fun _ _ => rfl) current rest
  | succ links inductionHypothesis => exact walkWith_congr same inductionHypothesis current rest

theorem locate_congr {fs other : Fs} (same : SameShape fs other) (follow : Bool) (s : Str) :
    fs.locate follow s = other.locate follow s := by
  simp only [locate, walk_congr same, same.cwd]

/-- Placing a node in the place of one of its shape, or a node that is neither
directory nor link where none is, keeps the shape. -/
theorem sameShape_put {fs : Fs} {path : Path} {node : Node} (fits : fs.Fits path node)
    (sameDir : fs.isDirAt path = node.isDirectory) (sameTarget : fs.targetAt path = node.target?) :
    SameShape fs (fs.put path node fits) where
  cwd := rfl
  isDirAt other := by
    by_cases here : other = path
    · subst here
      simp [isDirAt, holdsDirectory, ← sameDir]
    · simp [isDirAt, here]
  targetAt other := by
    by_cases here : other = path
    · subst here
      simp [targetAt, ← sameTarget]
    · simp [targetAt, here]

/-- A walk over the names of a node ends at the node. -/
theorem walkWith_of_node {fs : Fs} {follow : Bool} {jump : Path → List Str → Option Path}
    {current rest : Path} (present : (fs.node (current ++ rest)).isSome = true)
    (stays : follow = false ∨ fs.targetAt (current ++ rest) = none) :
    fs.walkWith follow jump current rest = some (current ++ rest) := by
  induction rest generalizing current with
  | nil => simp [walkWith]
  | cons name later inductionHypothesis =>
      have isDir : fs.isDirAt current = true := isDirAt_of_extends present (by simp)
      obtain ⟨nonempty, notDot, notDots, _⟩ := isName_of_extends present
      have reassoc : current ++ name :: later = (current ++ [name]) ++ later := by simp
      rw [reassoc] at present stays ⊢
      have next := inductionHypothesis present stays
      simp only [walkWith, isDir, nonempty, notDot, notDots, Bool.true_eq_false, if_false,
        or_self]
      by_cases last : later = []
      · subst last
        rw [List.append_nil] at stays ⊢
        cases link : fs.targetAt (current ++ [name]) with
        | none => simp [walkWith]
        | some target =>
            rcases stays with noFollow | notLink
            · simp [noFollow]
            · rw [link] at notLink
              cases notLink
      · rw [targetAt_of_isDirAt (isDirAt_of_extends present last)]
        exact next

/-- A walk that ends at a path without a link does so with links followed. -/
theorem walkWith_follow {fs : Fs} {jump jumpFollow : Path → List Str → Option Path}
    {target : Path} (notLink : fs.targetAt target = none)
    (jumps : ∀ current rest, jump current rest = some target →
      jumpFollow current rest = some target)
    {current : Path} {rest : List Str}
    (walks : fs.walkWith false jump current rest = some target) :
    fs.walkWith true jumpFollow current rest = some target := by
  induction rest generalizing current with
  | nil => simpa [walkWith] using walks
  | cons piece later inductionHypothesis =>
      simp only [walkWith] at walks ⊢
      split at walks
      · cases walks
      · rename_i isDir
        rw [if_neg isDir]
        split at walks
        · rename_i here
          rw [if_pos here]
          exact inductionHypothesis walks
        · rename_i notHere
          rw [if_neg notHere]
          split at walks
          · rename_i up
            rw [if_pos up]
            exact inductionHypothesis walks
          · rename_i notUp
            rw [if_neg notUp]
            cases link : fs.targetAt (current ++ [piece]) with
            | none =>
                simp only [link] at walks ⊢
                exact inductionHypothesis walks
            | some text =>
                simp only [link] at walks ⊢
                by_cases last : later = []
                · simp only [last, and_self, if_true, Option.some.injEq] at walks
                  rw [walks, notLink] at link
                  cases link
                · simp only [last, false_and, if_false] at walks ⊢
                  exact jumps _ _ walks

theorem walk_follow {fs : Fs} {target : Path} (notLink : fs.targetAt target = none)
    {links : Nat} {current : Path} {rest : List Str}
    (walks : fs.walk false links current rest = some target) :
    fs.walk true links current rest = some target := by
  induction links generalizing current rest with
  | zero => exact walkWith_follow notLink (fun _ _ none => by cases none) walks
  | succ links inductionHypothesis =>
      exact walkWith_follow notLink (fun _ _ jumped => inductionHypothesis jumped) walks

theorem locate_follow {fs : Fs} {target : Path} {s : Str} (notLink : fs.targetAt target = none)
    (located : fs.locate false s = some target) : fs.locate true s = some target := by
  unfold locate at located ⊢
  split at located
  · cases located
  · rename_i nonempty
    rw [if_neg nonempty]
    exact walk_follow notLink located

/-- A walk that reaches a node with links followed reaches one without. -/
theorem walkWith_nofollow {fs : Fs} {jump jumpNoFollow : Path → List Str → Option Path}
    {target : Path} (present : (fs.node target).isSome = true)
    (jumps : ∀ current rest, jump current rest = some target →
      ∃ other, jumpNoFollow current rest = some other ∧ (fs.node other).isSome = true)
    {current : Path} {rest : List Str}
    (walks : fs.walkWith true jump current rest = some target) :
    ∃ other, fs.walkWith false jumpNoFollow current rest = some other ∧
      (fs.node other).isSome = true := by
  induction rest generalizing current with
  | nil =>
      obtain rfl : current = target := by simpa [walkWith] using walks
      exact ⟨current, by simp [walkWith], present⟩
  | cons piece later inductionHypothesis =>
      simp only [walkWith] at walks ⊢
      split at walks
      · cases walks
      · rename_i isDir
        rw [if_neg isDir]
        split at walks
        · rename_i here
          rw [if_pos here]
          exact inductionHypothesis walks
        · rename_i notHere
          rw [if_neg notHere]
          split at walks
          · rename_i up
            rw [if_pos up]
            exact inductionHypothesis walks
          · rename_i notUp
            rw [if_neg notUp]
            cases link : fs.targetAt (current ++ [piece]) with
            | none =>
                simp only [link] at walks ⊢
                exact inductionHypothesis walks
            | some text =>
                simp only [link, Bool.true_eq_false, and_false, if_false] at walks ⊢
                by_cases last : later = []
                · refine ⟨current ++ [piece], by simp [last], ?_⟩
                  obtain ⟨node, here, _⟩ := Option.bind_eq_some_iff.mp link
                  simp [here]
                · simp only [last, false_and, if_false]
                  exact jumps _ _ walks

theorem locate_nofollow {fs : Fs} {target : Path} {s : Str}
    (located : fs.locate true s = some target) (present : (fs.node target).isSome = true) :
    ∃ other, fs.locate false s = some other ∧ (fs.node other).isSome = true := by
  have walks (links : Nat) (current : Path) (rest : List Str)
      (walked : fs.walk true links current rest = some target) :
      ∃ other, fs.walk false links current rest = some other ∧ (fs.node other).isSome = true := by
    induction links generalizing current rest with
    | zero => exact walkWith_nofollow present (fun _ _ none => by cases none) walked
    | succ links inductionHypothesis =>
        exact walkWith_nofollow present inductionHypothesis walked
  unfold locate at located ⊢
  split at located
  · cases located
  · rename_i nonempty
    rw [if_neg nonempty]
    exact walks _ _ _ located

/-! ## Where a walk ends -/

/-- A node may stand here: below a directory and under a name. -/
def Placeable (fs : Fs) (path : Path) : Prop :=
  fs.isDirAt path.dropLast = true ∧ ∀ name ∈ path.getLast?, IsName name

theorem placeable_of_isSome {fs : Fs} {path : Path} (present : (fs.node path).isSome = true) :
    fs.Placeable path := by
  rcases List.eq_nil_or_concat path with rfl | ⟨front, name, rfl⟩
  · exact ⟨fs.root, by simp⟩
  · rw [List.concat_eq_append] at present ⊢
    obtain ⟨isDir, isName⟩ := fs.grounded front name present
    refine ⟨by simpa [isDirAt] using isDir, ?_⟩
    intro other last
    simp only [List.getLast?_concat, Option.mem_def, Option.some.injEq] at last
    rwa [← last]

theorem placeable_dropLast {fs : Fs} {path : Path} (isDir : fs.isDirAt path = true) :
    fs.Placeable path.dropLast :=
  placeable_of_isSome (isSome_of_isDirAt (placeable_of_isSome (isSome_of_isDirAt isDir)).1)

/-- What fits in a place where a node may stand and no directory does. -/
theorem fits_of_placeable {fs : Fs} {path : Path} {node : Node} (placeable : fs.Placeable path)
    (free : fs.isDirAt path = true → node.isDirectory = true) : fs.Fits path node :=
  ⟨placeable.1, placeable.2, free⟩

/-- The pieces between slashes hold none. -/
theorem not_mem_of_mem_splitOn {s piece : Str} (member : piece ∈ s.splitOn '/') :
    '/' ∉ piece := by
  induction s generalizing piece with
  | nil =>
      simp only [List.splitOn_nil, List.mem_singleton] at member
      simp [member]
  | cons c rest inductionHypothesis =>
      rw [List.splitOn_cons_eq_if_modifyHead] at member
      split at member
      · rcases List.mem_cons.mp member with rfl | later
        · simp
        · exact inductionHypothesis later
      · rename_i other
        cases pieces : rest.splitOn '/' with
        | nil => exact absurd pieces (List.splitOn_ne_nil _ _)
        | cons head tail =>
            rw [pieces] at member inductionHypothesis
            rcases List.mem_cons.mp member with rfl | later
            · have differ : '/' ≠ c := by
                rintro rfl
                simp at other
              simp [differ, inductionHypothesis (List.mem_cons_self)]
            · exact inductionHypothesis (List.mem_cons_of_mem _ later)

theorem walkWith_placeable {fs : Fs} {follow : Bool} {jump : Path → List Str → Option Path}
    {target : Path}
    (jumps : ∀ current rest, rest ≠ [] → (∀ piece ∈ rest, '/' ∉ piece) →
      jump current rest = some target → fs.Placeable target)
    {current : Path} {rest : List Str} (placeable : rest = [] → fs.Placeable current)
    (pieces : ∀ piece ∈ rest, '/' ∉ piece)
    (walks : fs.walkWith follow jump current rest = some target) : fs.Placeable target := by
  induction rest generalizing current with
  | nil =>
      obtain rfl : current = target := by simpa [walkWith] using walks
      exact placeable rfl
  | cons piece later inductionHypothesis =>
      have laterPieces : ∀ other ∈ later, '/' ∉ other := fun other member =>
        pieces other (List.mem_cons_of_mem _ member)
      simp only [walkWith] at walks
      split at walks
      · cases walks
      · rename_i isDir
        have isDir : fs.isDirAt current = true := by simpa using isDir
        have here : fs.Placeable current := placeable_of_isSome (isSome_of_isDirAt isDir)
        split at walks
        · exact inductionHypothesis (fun _ => here) laterPieces walks
        · rename_i notHere
          split at walks
          · exact inductionHypothesis (fun _ => placeable_dropLast isDir) laterPieces walks
          · rename_i notUp
            have next : fs.Placeable (current ++ [piece]) := by
              refine ⟨by simpa using isDir, ?_⟩
              intro name last
              simp only [List.getLast?_concat, Option.mem_def, Option.some.injEq] at last
              rw [← last]
              exact ⟨fun empty => notHere (.inl empty), fun dot => notHere (.inr dot), notUp,
                pieces piece List.mem_cons_self⟩
            split at walks
            · rename_i text _
              split at walks
              · obtain rfl := Option.some.inj walks
                exact next
              · apply jumps _ _ ?_ ?_ walks
                · simp [List.splitOn_ne_nil]
                · intro other member
                  rcases List.mem_append.mp member with inText | inLater
                  · exact not_mem_of_mem_splitOn inText
                  · exact laterPieces other inLater
            · exact inductionHypothesis (fun _ => next) laterPieces walks

/-- A text that names a place names one where a node may stand. -/
theorem placeable_of_locate {fs : Fs} {follow : Bool} {s : Str} {target : Path}
    (located : fs.locate follow s = some target) : fs.Placeable target := by
  have walks (links : Nat) (current : Path) (rest : List Str) (more : rest ≠ [])
      (pieces : ∀ piece ∈ rest, '/' ∉ piece)
      (walked : fs.walk follow links current rest = some target) : fs.Placeable target := by
    induction links generalizing current rest with
    | zero =>
        exact walkWith_placeable (fun _ _ _ _ none => by cases none)
          (fun empty => absurd empty more) pieces walked
    | succ links inductionHypothesis =>
        exact walkWith_placeable inductionHypothesis (fun empty => absurd empty more) pieces walked
  unfold locate at located
  split at located
  · cases located
  · exact walks _ _ _ (List.splitOn_ne_nil _ _) (fun _ member => not_mem_of_mem_splitOn member)
      located

end Fs

/-! ## Path texts -/

/-- The text of a path. -/
def Path.text : Path → Str
  | [] => ['/']
  | path => path.flatMap ('/' :: ·)

/-- Follow `..` in the text alone, as `os.path.normpath` does. -/
def lexical : Path → List Str → Path
  | current, [] => current
  | current, piece :: rest =>
      if piece = [] ∨ piece = ['.'] then lexical current rest
      else if piece = ['.', '.'] then lexical current.dropLast rest
      else lexical (current ++ [piece]) rest

namespace Str

/-- `os.path.isabs`. -/
def isAbs (s : Str) : Bool := startsWith s ['/']

/-- `os.path.join(a, b)`. -/
def joinPath (a b : Str) : Str :=
  if isAbs b then b
  else if a = [] ∨ endsWith a ['/'] then a ++ b
  else a ++ '/' :: b

/-- `os.path.basename`. -/
def basename (s : Str) : Str := (s.splitOn '/').getLastD []

/-- `os.path.dirname`. -/
def dirname (s : Str) : Str :=
  let head := ['/'].intercalate (s.splitOn '/').dropLast
  let slashed := if (s.splitOn '/').length = 1 then [] else head ++ ['/']
  if rstripChars ['/'] slashed = [] then slashed else rstripChars ['/'] slashed

/-- The pieces `os.path.normpath` keeps of a relative path text. -/
def relativePieces : List Str → List Str → List Str
  | kept, [] => kept
  | kept, piece :: rest =>
      if piece = [] ∨ piece = ['.'] then relativePieces kept rest
      else if piece = ['.', '.'] ∧ kept ≠ [] ∧ kept.getLast? ≠ some ['.', '.'] then
        relativePieces kept.dropLast rest
      else relativePieces (kept ++ [piece]) rest

/-- `os.path.normpath`. Two leading slashes stay. -/
def normpath (s : Str) : Str :=
  if isAbs s then
    let doubled := startsWith s ['/', '/'] && !startsWith s ['/', '/', '/']
    (if doubled then ['/'] else []) ++ Path.text (lexical [] (s.splitOn '/'))
  else
    match relativePieces [] (s.splitOn '/') with
    | [] => ['.']
    | kept => ['/'].intercalate kept

/-- `os.path.abspath` in the working directory `cwd`. -/
def abspath (cwd : Path) (s : Str) : Str :=
  normpath (if isAbs s then s else joinPath (Path.text cwd) s)

end Str

private theorem splitOn_flatMap {name : Str} {path : Path}
    (proper : ∀ part ∈ name :: path, '/' ∉ part) :
    (name ++ path.flatMap ('/' :: ·)).splitOn '/' = name :: path := by
  induction path generalizing name with
  | nil =>
      rw [List.flatMap_nil, List.append_nil]
      exact List.splitOn_eq_singleton (proper name (by simp))
  | cons next rest inductionHypothesis =>
      rw [List.flatMap_cons, List.cons_append,
        List.splitOn_append_cons_self_of_not_mem (proper name (by simp)),
        inductionHypothesis fun part member => proper part (by simp [List.mem_cons.mp member])]

/-- The base name of a path text that ends in a name. -/
theorem Str.basename_joinPath {dir name : Str} (noSlash : '/' ∉ name) :
    Str.basename (Str.joinPath dir name) = name := by
  have single : name.splitOn '/' = [name] := List.splitOn_eq_singleton noSlash
  have behind (front : Str) : Str.basename (front ++ '/' :: name) = name := by
    rw [Str.basename, List.splitOn_append_cons_self, single]
    simp
  have notAbs : Str.isAbs name = false := by
    cases name with
    | nil => rfl
    | cons c rest =>
        have differ : '/' ≠ c := by
          rintro rfl
          exact noSlash List.mem_cons_self
        simp [Str.isAbs, Str.startsWith, List.isPrefixOf, differ]
  rw [Str.joinPath, notAbs]
  simp only [Bool.false_eq_true, if_false]
  split
  · rename_i open_
    rcases open_ with empty | slashed
    · simp [empty, Str.basename, single]
    · obtain ⟨front, rfl⟩ := List.isSuffixOf_iff_suffix.mp slashed
      rw [List.append_assoc]
      exact behind front
  · exact behind dir

/-- The text of a path splits into its names again. -/
theorem splitOn_text {name : Str} {path : Path} (proper : ∀ part ∈ name :: path, '/' ∉ part) :
    (Path.text (name :: path)).splitOn '/' = [] :: name :: path := by
  have slash : Path.text (name :: path) = [] ++ '/' :: (name ++ path.flatMap ('/' :: ·)) := by
    simp [Path.text]
  rw [slash, List.splitOn_append_cons_self_of_not_mem (by simp), splitOn_flatMap proper]

namespace Fs

theorem isName_of_mem {fs : Fs} {path : Path} (present : (fs.node path).isSome = true)
    {name : Str} (member : name ∈ path) : IsName name := by
  obtain ⟨front, rest, rfl⟩ := List.append_of_mem member
  exact isName_of_extends present

/-- The text of a node's path names the node. -/
theorem locate_text {fs : Fs} {follow : Bool} {path : Path}
    (present : (fs.node path).isSome = true) (stays : follow = false ∨ fs.targetAt path = none) :
    fs.locate follow path.text = some path := by
  have root : fs.isDirAt [] = true := fs.root
  have start (jump : Path → List Str → Option Path) :
      fs.walkWith follow jump [] ([] :: path) = some path := by
    have rest := @walkWith_of_node _ _ jump [] _ present stays
    simpa [walkWith, root] using rest
  cases path with
  | nil =>
      have rest (jump : Path → List Str → Option Path) :
          fs.walkWith follow jump [] [[], []] = some [] := by
        simp [walkWith, root]
      exact rest _
  | cons name later =>
      have proper : ∀ part ∈ name :: later, '/' ∉ part := by
        intro part member
        exact (isName_of_mem present member).2.2.2
      have head : (Path.text (name :: later)).head? = some '/' := by simp [Path.text]
      have nonempty : Path.text (name :: later) ≠ [] := by simp [Path.text]
      rw [locate, if_neg nonempty, if_pos head, splitOn_text proper]
      exact start _

end Fs

end Myscm.Library
