import Myscm.Library.Completion

/-!
Owns what a call leaves behind: the node at every path.

Owns: the effect of erasing, removing, renaming and moving; of new bytes, a new
mode and a new owner; what a name is found to hold behind each of them.

Does not own: when a call fails.
-/

namespace Myscm.Library

namespace Fs

theorem SameShape.refl (fs : Fs) : SameShape fs fs where
  cwd := rfl
  isDirAt _ := rfl
  targetAt _ := rfl

theorem SameShape.trans {fs middle next : Fs} (first : SameShape fs middle)
    (second : SameShape middle next) : SameShape fs next where
  cwd := first.cwd.trans second.cwd
  isDirAt path := (first.isDirAt path).trans (second.isDirAt path)
  targetAt path := (first.targetAt path).trans (second.targetAt path)

/-- The name is that of a regular file itself, not of a link to one. -/
def NamesFile (fs : Fs) (s : Str) (path : Path) (node : Node) : Prop :=
  fs.locate false s = some path ∧ fs.node path = some node ∧ node.isRegular = true

theorem NamesFile.locate {fs : Fs} {s : Str} {path : Path} {node : Node}
    (names : NamesFile fs s path node) (follow : Bool) : fs.locate follow s = some path := by
  cases follow with
  | false => exact names.1
  | true =>
      apply locate_follow _ names.1
      rw [targetAt_of_node names.2.1, target?_of_isRegular names.2.2]

theorem namesFile_of_lstat {fs : Fs} {s : Str} {node : Node} (found : fs.lstat s = some node)
    (regular : node.isRegular = true) : ∃ path, NamesFile fs s path node := by
  obtain ⟨path, located, here⟩ := Option.bind_eq_some_iff.mp found
  exact ⟨path, located, here, regular⟩

theorem NamesFile.lstat {fs : Fs} {s : Str} {path : Path} {node : Node}
    (names : NamesFile fs s path node) : fs.lstat s = some node := by
  rw [Fs.lstat, names.1, Option.bind_some, names.2.1]

theorem NamesFile.readFile {fs : Fs} {s : Str} {path : Path} {node : Node}
    (names : NamesFile fs s path node) : fs.readFile s = node.content? := by
  rw [Fs.readFile, stat, names.locate true, Option.bind_some, names.2.1, Option.bind_some]

/-- What names a file names the same place where nothing but files changed. -/
theorem NamesFile.congr {fs next : Fs} {s : Str} {path : Path} {node other : Node}
    (names : NamesFile fs s path node) (same : SameShape fs next)
    (found : next.node path = some other) (regular : other.isRegular = true) :
    NamesFile next s path other :=
  ⟨(locate_congr same false s).symm.trans names.1, found, regular⟩

/-! ## Erasing -/

theorem node_of_eraseAt {fs next : Fs} {path : Path} (erased : fs.eraseAt path = some next)
    (other : Path) : next.node other = if other = path then none else fs.node other := by
  unfold eraseAt at erased
  split at erased
  · split at erased
    · obtain rfl := Option.some.inj erased
      rfl
    · cases erased
  · cases erased

theorem cwd_of_eraseAt {fs next : Fs} {path : Path} (erased : fs.eraseAt path = some next) :
    next.cwd = fs.cwd := by
  unfold eraseAt at erased
  split at erased
  · split at erased
    · obtain rfl := Option.some.inj erased
      rfl
    · cases erased
  · cases erased

/-- Erasing a file keeps the shape. -/
theorem sameShape_of_eraseAt {fs next : Fs} {path : Path} {node : Node}
    (erased : fs.eraseAt path = some next) (found : fs.node path = some node)
    (regular : node.isRegular = true) : SameShape fs next where
  cwd := (cwd_of_eraseAt erased).symm
  isDirAt other := by
    by_cases here : other = path
    · subst here
      have gone : next.node other = none := by rw [node_of_eraseAt erased, if_pos rfl]
      rw [isDirAt_of_node found, isDirectory_of_isRegular regular, isDirAt_of_none gone]
    · rw [isDirAt, isDirAt, node_of_eraseAt erased, if_neg here]
  targetAt other := by
    by_cases here : other = path
    · subst here
      rw [targetAt_of_node found, target?_of_isRegular regular, targetAt, node_of_eraseAt erased,
        if_pos rfl]
      rfl
    · rw [targetAt, targetAt, node_of_eraseAt erased, if_neg here]

/-- Removing a file. -/
theorem removed_of_remove {fs next : Fs} {s : Str} {path : Path} {node : Node}
    (names : NamesFile fs s path node) (removed : fs.remove s = some next) :
    SameShape fs next ∧
      ∀ other, next.node other = if other = path then none else fs.node other := by
  unfold remove at removed
  rw [names.1, Option.bind_some] at removed
  split at removed
  · cases removed
  · exact ⟨sameShape_of_eraseAt removed names.2.1 names.2.2, node_of_eraseAt removed⟩

/-! ## Bytes, modes and owners -/

theorem node_of_setContent {fs next : Fs} {content : List UInt8} {s : Str} {path : Path}
    {node : Node} (located : fs.locate true s = some path) (found : fs.node path = some node)
    (set : fs.setContent content s = some next) (other : Path) :
    next.node other =
      if other = path then some { node with kind := .regular content } else fs.node other := by
  unfold setContent at set
  rw [located, Option.bind_some, found, Option.bind_some] at set
  split at set
  · exact node_of_place set other
  · cases set

theorem node_of_setMode {fs next : Fs} {mode : Nat} {s : Str} {path : Path} {node : Node}
    (located : fs.locate true s = some path) (found : fs.node path = some node)
    (set : fs.setMode mode s = some next) :
    SameShape fs next ∧
      ∀ other, next.node other =
        if other = path then some { node with mode := mode % 4096 } else fs.node other := by
  unfold setMode at set
  rw [located, Option.bind_some, found, Option.bind_some] at set
  exact ⟨sameShape_of_place set ((isDirAt_of_node found).trans rfl)
    ((targetAt_of_node found).trans rfl), node_of_place set⟩

/-- `os.chmod` sets the low twelve bits. -/
theorem node_of_chmod {fs next : Fs} {mode : Int} {s : Str} {path : Path} {node : Node}
    (located : fs.locate true s = some path) (found : fs.node path = some node)
    (set : fs.chmod mode s = some next) :
    SameShape fs next ∧
      ∀ other, next.node other =
        if other = path then some { node with mode := (mode % 4096).toNat % 4096 }
        else fs.node other := by
  unfold chmod at set
  split at set
  · exact node_of_setMode located found set
  · cases set

/-- `os.chown` sets the ids, and takes from the mode what a change of owner takes. -/
theorem node_of_chown {fs next : Fs} {follow : Bool} {uid gid : Int} {s : Str} {path : Path}
    {node : Node} (located : fs.locate follow s = some path) (found : fs.node path = some node)
    (set : fs.chown follow uid gid s = some next) :
    ∃ newUid newGid, ownerArgument node.uid uid = some newUid ∧
      ownerArgument node.gid gid = some newGid ∧ SameShape fs next ∧
        ∀ other, next.node other =
          if other = path then
            some { node with mode := modeBehindChown node, uid := newUid, gid := newGid }
          else fs.node other := by
  unfold chown at set
  rw [located, Option.bind_some, found, Option.bind_some] at set
  obtain ⟨newUid, isUid, set⟩ := Option.bind_eq_some_iff.mp set
  obtain ⟨newGid, isGid, set⟩ := Option.bind_eq_some_iff.mp set
  unfold setOwner at set
  rw [located, Option.bind_some, found, Option.bind_some] at set
  exact ⟨newUid, newGid, isUid, isGid, sameShape_of_place set ((isDirAt_of_node found).trans rfl)
    ((targetAt_of_node found).trans rfl), node_of_place set⟩

/-- Two nodes of one mode and owner, both files or none of them. -/
structure SameAttributes (node other : Node) : Prop where
  regular : node.isRegular = other.isRegular
  mode : node.mode = other.mode
  uid : node.uid = other.uid
  gid : node.gid = other.gid

theorem SameAttributes.refl (node : Node) : SameAttributes node node := ⟨rfl, rfl, rfl, rfl⟩

theorem SameAttributes.trans {node middle other : Node} (first : SameAttributes node middle)
    (second : SameAttributes middle other) : SameAttributes node other :=
  ⟨first.regular.trans second.regular, first.mode.trans second.mode, first.uid.trans second.uid,
    first.gid.trans second.gid⟩

/-- Of the nodes, only the bytes of files changed. -/
structure Rewritten (fs next : Fs) : Prop extends Grown fs next where
  attributes : ∀ path node, next.node path = some node →
    ∃ before, fs.node path = some before ∧ SameAttributes node before

theorem Rewritten.refl (fs : Fs) : Rewritten fs fs where
  toGrown := Grown.refl fs
  attributes _ node found := ⟨node, found, SameAttributes.refl node⟩

theorem Rewritten.trans {fs middle next : Fs} (first : Rewritten fs middle)
    (second : Rewritten middle next) : Rewritten fs next where
  toGrown := first.toGrown.trans second.toGrown
  attributes path node found := by
    obtain ⟨between, foundBetween, same⟩ := second.attributes path node found
    obtain ⟨before, foundBefore, sameBefore⟩ := first.attributes path between foundBetween
    exact ⟨before, foundBefore, same.trans sameBefore⟩

theorem rewritten_of_setContent {fs next : Fs} {content : List UInt8} {s : Str}
    (set : fs.setContent content s = some next) : Rewritten fs next where
  toGrown := grown_of_setContent set
  attributes path node found := by
    obtain ⟨target, located, written⟩ := Option.bind_eq_some_iff.mp set
    obtain ⟨before, here, written⟩ := Option.bind_eq_some_iff.mp written
    have regular : before.isRegular = true := by
      split at written
      · assumption
      · cases written
    rw [node_of_setContent located here set] at found
    split at found
    · rename_i same
      obtain rfl := Option.some.inj found
      exact ⟨before, same ▸ here, by rw [regular]; rfl, rfl, rfl, rfl⟩
    · exact ⟨node, found, SameAttributes.refl node⟩

theorem rewritten_of_overwrite {fs next : Fs} {content : List UInt8} {s : Str}
    (written : fs.overwrite content s = some next) : Rewritten fs next := by
  obtain ⟨_, _, set⟩ := Option.bind_eq_some_iff.mp written
  exact rewritten_of_setContent set

/-- A name of a file is one still where only bytes changed. -/
theorem Rewritten.namesFile {fs next : Fs} (rewritten : Rewritten fs next) {s : Str} {path : Path}
    {node : Node} (names : NamesFile fs s path node) :
    ∃ other, NamesFile next s path other ∧ SameAttributes other node := by
  obtain ⟨other, found⟩ := Option.isSome_iff_exists.mp
    (rewritten.present path (by simp [names.2.1]))
  obtain ⟨before, foundBefore, same⟩ := rewritten.attributes path other found
  rw [names.2.1] at foundBefore
  obtain rfl := Option.some.inj foundBefore
  exact ⟨other, names.congr rewritten.toSameShape found (same.regular.trans names.2.2), same⟩

/-! ## Writing to a file by its name -/

/-- The text leads to a file that has the bytes now, and what other texts lead to is as it
was. -/
structure Wrote (s : Str) (bytes : List UInt8) (fs next : Fs) : Prop where
  shape : SameShape fs next
  here : next.readFile s = some bytes
  others : ∀ other, fs.locate true other ≠ fs.locate true s →
    next.readFile other = fs.readFile other

theorem Wrote.trans {fs middle next : Fs} {s : Str} {bytes later : List UInt8}
    (first : Wrote s bytes fs middle) (second : Wrote s later middle next) :
    Wrote s later fs next where
  shape := first.shape.trans second.shape
  here := second.here
  others other apart := by
    have apartMiddle : middle.locate true other ≠ middle.locate true s := by
      rwa [← locate_congr first.shape, ← locate_congr first.shape]
    rw [second.others other apartMiddle, first.others other apart]

/-- Texts that lead to one place read alike. -/
theorem Wrote.same {fs next : Fs} {s : Str} {bytes : List UInt8} (wrote : Wrote s bytes fs next)
    {other : Str} (same : fs.locate true other = fs.locate true s) :
    next.readFile other = some bytes := by
  have located : next.locate true other = next.locate true s := by
    rwa [← locate_congr wrote.shape, ← locate_congr wrote.shape]
  rw [readFile, stat, located]
  exact wrote.here

theorem wrote_of_place {fs next : Fs} {s : Str} {path : Path} {node : Node} {bytes : List UInt8}
    (located : fs.locate true s = some path) (placed : fs.place path node = some next)
    (content : node.kind = .regular bytes) (shape : SameShape fs next) : Wrote s bytes fs next where
  shape := shape
  here := by
    rw [readFile, stat, ← locate_congr shape, located, Option.bind_some, node_of_place placed,
      if_pos rfl, Option.bind_some, Node.content?, content]
  others other apart := by
    rw [readFile, readFile, stat, stat, ← locate_congr shape]
    cases elsewhere : fs.locate true other with
    | none => rfl
    | some there =>
        have differ : there ≠ path := by
          rintro rfl
          exact apart (elsewhere.trans located.symm)
        rw [Option.bind_some, Option.bind_some, node_of_place placed, if_neg differ]

theorem wrote_of_setContent {fs next : Fs} {s : Str} {bytes : List UInt8}
    (set : fs.setContent bytes s = some next) : Wrote s bytes fs next := by
  have shape := sameShape_of_setContent set
  obtain ⟨path, located, set⟩ := Option.bind_eq_some_iff.mp set
  obtain ⟨node, _, set⟩ := Option.bind_eq_some_iff.mp set
  split at set
  · exact wrote_of_place located set rfl shape
  · cases set

theorem wrote_of_openTruncating {fs next : Fs} {mode : Nat} {s : Str}
    (opened : fs.openTruncating mode s = some next) : Wrote s [] fs next := by
  have shape := (grown_of_openTruncating opened).toSameShape
  obtain ⟨path, located, opened⟩ := Option.bind_eq_some_iff.mp opened
  split at opened
  · exact wrote_of_place located opened rfl shape
  · split at opened
    · exact wrote_of_place located opened rfl shape
    · cases opened

/-- A file that was written to takes more. -/
theorem Wrote.exists_setContent {fs next : Fs} {s : Str} {bytes : List UInt8}
    (wrote : Wrote s bytes fs next) (later : List UInt8) :
    ∃ finish, next.setContent later s = some finish ∧ Wrote s later fs finish := by
  have isFile : next.isfile s = true := (isfile_iff_readFile s next).mpr ⟨bytes, wrote.here⟩
  obtain ⟨finish, set⟩ := Option.isSome_iff_exists.mp ((setContent_isSome_iff later s next).mpr isFile)
  exact ⟨finish, set, wrote.trans (wrote_of_setContent set)⟩

/-! ## Moving a file over a file -/

/-- A file is moved over another one: it stands there with its mode and owner. -/
theorem moved_of_move {fs next : Fs} {src dst : Str} {source target : Path} {node old : Node}
    (names : NamesFile fs src source node) (replaced : NamesFile fs dst target old)
    (moved : fs.move src dst = some next) :
    SameShape fs next ∧ next.node target = some node := by
  have notDir : fs.isdir dst = false := by
    rw [isdir, stat, replaced.locate true, Option.bind_some, replaced.2.1]
    simpa using isDirectory_of_isRegular replaced.2.2
  unfold move moveTarget at moved
  rw [if_neg (by simp [notDir]), Option.bind_some] at moved
  unfold rename at moved
  rw [names.1, replaced.1, Option.bind_some, Option.bind_some, names.2.1, Option.bind_some] at moved
  split at moved
  · cases moved
  · split at moved
    · rename_i same
      subst same
      obtain rfl := Option.some.inj moved
      exact ⟨SameShape.refl fs, names.2.1⟩
    · rename_i differ
      obtain ⟨middle, placed, erased⟩ := Option.bind_eq_some_iff.mp moved
      have placedShape : SameShape fs middle := by
        apply sameShape_of_place placed
        · rw [isDirAt_of_node replaced.2.1, isDirectory_of_isRegular replaced.2.2,
            isDirectory_of_isRegular names.2.2]
        · rw [targetAt_of_node replaced.2.1, target?_of_isRegular replaced.2.2,
            target?_of_isRegular names.2.2]
      have sourceHere : middle.node source = some node := by
        rw [node_of_place placed, if_neg differ, names.2.1]
      refine ⟨placedShape.trans (sameShape_of_eraseAt erased sourceHere names.2.2), ?_⟩
      rw [node_of_eraseAt erased, if_neg (Ne.symm differ), node_of_place placed, if_pos rfl]

/-- A file can be moved over a file. -/
theorem move_isSome_of_namesFile {fs : Fs} {src dst : Str} {source target : Path} {node old : Node}
    (names : NamesFile fs src source node) (replaced : NamesFile fs dst target old) :
    ∃ next, fs.move src dst = some next := by
  have isFile : fs.isfile dst = true := by
    rw [isfile, stat, replaced.locate true, Option.bind_some, replaced.2.1]
    exact replaced.2.2
  have movable : Movable src dst fs :=
    (movable_over_isfile isFile).mpr ⟨node, names.lstat, isDirectory_of_isRegular names.2.2⟩
  exact Option.isSome_iff_exists.mp ((move_isSome_iff src dst fs).mpr movable)

end Fs

end Myscm.Library
