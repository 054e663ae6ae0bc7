import Myscm.Library.FileTree
import Myscm.Library.Prog

/-!
Owns the calls of Python's `os`, `os.path` and `shutil` on a file system. A
call is a function of the file system that is none where Python raises
`OSError`; a call that makes several changes is a program with one step for
each.

Owns: tests and reads; placing, replacing and removing one node; `os.makedirs`,
`os.removedirs`, `os.walk`, `shutil.rmtree`, `shutil.move`.

Does not own: permissions (the process is root), several devices, opening pipes
and devices.
-/

namespace Myscm.Library

namespace Fs

/-! ## Tests and reads -/

/-- `os.stat`. -/
def stat (fs : Fs) (s : Str) : Option Node :=
  (fs.locate true s).bind fs.node

/-- `os.lstat`. -/
def lstat (fs : Fs) (s : Str) : Option Node :=
  (fs.locate false s).bind fs.node

/-- `os.path.exists`. -/
def pathExists (fs : Fs) (s : Str) : Bool := (fs.stat s).isSome

/-- `os.path.isfile`. -/
def isfile (fs : Fs) (s : Str) : Bool := (fs.stat s).any Node.isRegular

/-- `os.path.isdir`. -/
def isdir (fs : Fs) (s : Str) : Bool := (fs.stat s).any Node.isDirectory

/-- `os.path.islink`. -/
def islink (fs : Fs) (s : Str) : Bool := (fs.lstat s).any Node.isSymlink

/-- `os.path.samefile`, false where it raises. -/
def samefile (fs : Fs) (a b : Str) : Bool :=
  fs.pathExists a && fs.pathExists b && decide (fs.locate true a = fs.locate true b)

/-- The bytes of a file opened for reading. -/
def readFile (fs : Fs) (s : Str) : Option (List UInt8) :=
  (fs.stat s).bind Node.content?

/-- What stands at a path is the same whether a last link is followed or not,
unless it is one. -/
theorem stat_of_lstat {fs : Fs} {s : Str} {node : Node} (found : fs.lstat s = some node)
    (notLink : node.isSymlink = false) : fs.stat s = some node := by
  obtain ⟨path, located, here⟩ := Option.bind_eq_some_iff.mp found
  have noTarget : fs.targetAt path = none := by
    simpa [targetAt, here, Node.isSymlink] using notLink
  rw [stat, locate_follow noTarget located]
  exact here

/-! ## One node -/

/-- Place a node, or fail where it does not fit. -/
def place (fs : Fs) (path : Path) (node : Node) : Option Fs :=
  if fits : fs.Fits path node then some (fs.put path node fits) else none

/-- The file system with the given nodes, each behind the directory it stands in. -/
def ofNodes (nodes : List (Path × Node)) : Fs :=
  nodes.foldl (fun fs entry => (fs.place entry.1 entry.2).getD fs) bare

/-- Erase a node, or fail where none is or it has entries. -/
def eraseAt (fs : Fs) (path : Path) : Option Fs :=
  if (fs.node path).isSome then
    if loose : fs.Loose path then some (fs.erase path loose) else none
  else
    none

/-- A node that fits is placed, and nothing else changes. -/
theorem node_of_place {fs next : Fs} {path : Path} {node : Node}
    (placed : fs.place path node = some next) (other : Path) :
    next.node other = if other = path then some node else fs.node other := by
  unfold place at placed
  split at placed
  · obtain rfl := Option.some.inj placed
    rfl
  · cases placed

theorem sameShape_of_place {fs next : Fs} {path : Path} {node : Node}
    (placed : fs.place path node = some next) (sameDir : fs.isDirAt path = node.isDirectory)
    (sameTarget : fs.targetAt path = node.target?) : SameShape fs next := by
  unfold place at placed
  split at placed
  · obtain rfl := Option.some.inj placed
    exact sameShape_put _ sameDir sameTarget
  · cases placed

/-- Place a node where none is. -/
def create (fs : Fs) (s : Str) (node : Node) : Option Fs :=
  (fs.locate false s).bind fun path =>
    if (fs.node path).isSome then none else fs.place path node

/-- `os.mkdir`. -/
def mkdir (mode : Nat) (s : Str) (fs : Fs) : Option Fs :=
  fs.create s ⟨.directory, mode, 0, 0, 2⟩

/-- `os.symlink(target, s)`. -/
def symlink (target s : Str) (fs : Fs) : Option Fs :=
  fs.create s ⟨.symlink target, 0o777, 0, 0, 1⟩

/-- `os.remove`, which is `os.unlink`. -/
def remove (s : Str) (fs : Fs) : Option Fs :=
  (fs.locate false s).bind fun path =>
    if fs.isDirAt path then none else fs.eraseAt path

/-- `os.rmdir`. -/
def rmdir (s : Str) (fs : Fs) : Option Fs :=
  (fs.locate false s).bind fun path =>
    if fs.isDirAt path then fs.eraseAt path else none

/-- Opening a file for writing: it is emptied, or made with `mode`. -/
def openTruncating (mode : Nat) (s : Str) (fs : Fs) : Option Fs :=
  (fs.locate true s).bind fun path =>
    match fs.node path with
    | none => fs.place path ⟨.regular [], mode, 0, 0, 1⟩
    | some node => if node.isRegular then fs.place path { node with kind := .regular [] } else none

/-- Give an existing file new bytes. -/
def setContent (content : List UInt8) (s : Str) (fs : Fs) : Option Fs :=
  (fs.locate true s).bind fun path =>
    (fs.node path).bind fun node =>
      if node.isRegular then fs.place path { node with kind := .regular content } else none

/-- New bytes keep the shape of the file system. -/
theorem sameShape_of_setContent {fs next : Fs} {content : List UInt8} {s : Str}
    (set : setContent content s fs = some next) : SameShape fs next := by
  obtain ⟨path, _, set⟩ := Option.bind_eq_some_iff.mp set
  obtain ⟨node, found, set⟩ := Option.bind_eq_some_iff.mp set
  split at set
  · rename_i regular
    cases kind : node.kind with
    | regular old =>
        apply sameShape_of_place set
        · simp [isDirAt, holdsDirectory, found, Node.isDirectory, kind]
        · simp [targetAt, found, Node.target?, kind]
    | directory | symlink | charDevice | blockDevice | fifo | socket =>
        simp [Node.isRegular, Node.content?, kind] at regular
  · cases set

/-- A file reads back as the bytes it was given. -/
theorem readFile_of_setContent {fs next : Fs} {content : List UInt8} {s : Str}
    (set : setContent content s fs = some next) : next.readFile s = some content := by
  have located := locate_congr (sameShape_of_setContent set) true s
  obtain ⟨path, here, set⟩ := Option.bind_eq_some_iff.mp set
  obtain ⟨node, found, set⟩ := Option.bind_eq_some_iff.mp set
  split at set
  · rw [readFile, stat, ← located, here, Option.bind_some, node_of_place set, if_pos rfl]
    rfl
  · cases set

/-- Writing from the start of an open file: what stands behind stays. -/
def overwrite (content : List UInt8) (s : Str) (fs : Fs) : Option Fs :=
  (fs.readFile s).bind fun old => setContent (content ++ old.drop content.length) s fs

/-- `os.chmod` to a mode that is one. -/
def setMode (mode : Nat) (s : Str) (fs : Fs) : Option Fs :=
  (fs.locate true s).bind fun path =>
    (fs.node path).bind fun node => fs.place path { node with mode := mode % 4096 }

/-- `os.chmod`. A number outside the range of a C `int` raises. -/
def chmod (mode : Int) (s : Str) (fs : Fs) : Option Fs :=
  if -2 ^ 31 ≤ mode ∧ mode < 2 ^ 31 then setMode (mode % 4096).toNat s fs else none

/-- An owner as `os.chown` takes it: `-1` keeps the present one, and so does the
same bit pattern. Numbers that are no `uid_t` raise. -/
def ownerArgument (present : Nat) (id : Int) : Option Nat :=
  if id = -1 ∨ id = 2 ^ 32 - 1 then some present
  else if 0 ≤ id ∧ id < 2 ^ 32 - 1 then some id.toNat
  else none

/-- The mode a change of owner leaves: other nodes than directories lose the
set-user-ID bit, and the set-group-ID bit where the group may execute. -/
def modeBehindChown (node : Node) : Nat :=
  if node.isDirectory then
    node.mode
  else
    let noSetuid := node.mode &&& 0o3777
    if node.mode &&& 0o10 = 0 then noSetuid else noSetuid &&& 0o5777

/-- `os.chown` to ids that are ones. -/
def setOwner (follow : Bool) (uid gid : Nat) (s : Str) (fs : Fs) : Option Fs :=
  (fs.locate follow s).bind fun path =>
    (fs.node path).bind fun node =>
      fs.place path { node with mode := modeBehindChown node, uid := uid, gid := gid }

/-- `os.chown`. -/
def chown (follow : Bool) (uid gid : Int) (s : Str) (fs : Fs) : Option Fs :=
  ((fs.locate follow s).bind fs.node).bind fun node =>
    (ownerArgument node.uid uid).bind fun newUid =>
      (ownerArgument node.gid gid).bind fun newGid => setOwner follow newUid newGid s fs

/-- `os.rename` of anything but a directory. The calls here never rename a
directory: they hand one on only where the target is a file, and this raises. -/
def rename (src dst : Str) (fs : Fs) : Option Fs :=
  (fs.locate false src).bind fun source =>
    (fs.locate false dst).bind fun target =>
      (fs.node source).bind fun node =>
        if node.isDirectory ∨ fs.isDirAt target then none
        else if source = target then some fs
        else (fs.place target node).bind fun moved => moved.eraseAt source

/-- Where `shutil.move` moves to: into the target where it is a directory. None
where something of the name is there already, or the source is that directory. -/
def moveTarget (src dst : Str) (fs : Fs) : Option Str :=
  if fs.isdir dst then
    if fs.samefile src dst then
      some dst
    else
      let realDst := Str.joinPath dst (Str.basename (Str.rstripChars ['/'] src))
      if fs.pathExists realDst then none else some realDst
  else
    some dst

/-- `shutil.move`. Within one device a rename that fails is not made up for by
the copying behind it: that fails as well. -/
def move (src dst : Str) (fs : Fs) : Option Fs :=
  (fs.moveTarget src dst).bind fun realDst => fs.rename src realDst

/-! ## Real paths -/

/-- Resolve the links of a path text. Missing names stay. `pending` are the links
being resolved: one met again is a loop, and the rest is left as it stands. The
flag tells whether all was resolved. -/
def realpathWith (fs : Fs)
    (resolve : List Path → Path → List Str → Path × Bool) (pending : List Path) :
    Path → List Str → Path × Bool
  | current, [] => (current, true)
  | current, piece :: rest =>
      if piece = [] ∨ piece = ['.'] then
        realpathWith fs resolve pending current rest
      else if piece = ['.', '.'] then
        realpathWith fs resolve pending current.dropLast rest
      else
        match fs.targetAt (current ++ [piece]) with
        | none => realpathWith fs resolve pending (current ++ [piece]) rest
        | some target =>
            let link := current ++ [piece]
            if pending.contains link then
              (lexical link rest, false)
            else
              let found := resolve (link :: pending) (if Str.isAbs target then [] else current)
                (target.splitOn '/')
              if found.2 then realpathWith fs resolve pending found.1 rest
              else (lexical found.1 rest, false)

/-- `realpathWith` with links nested at most `depth` deep. No nesting is deeper
than the number of links. -/
def realpathDepth (fs : Fs) : Nat → List Path → Path → List Str → Path × Bool
  | 0, _, current, rest => (lexical current rest, false)
  | depth + 1, pending, current, rest =>
      fs.realpathWith (fs.realpathDepth depth) pending current rest

/-- `os.path.realpath` of an absolute path text. -/
def realpath (fs : Fs) (s : Str) : Path :=
  (fs.realpathDepth (fs.support.length + 1) [] [] (s.splitOn '/')).1

/-! ## Trees -/

/-- The length of the longest path. -/
def depth (fs : Fs) : Nat :=
  (fs.support.map List.length).foldr max 0

/-- The paths below `path` down to `levels` levels, entries before their directory. -/
def belowLevels (fs : Fs) : Nat → Path → List Path
  | 0, _ => []
  | levels + 1, path =>
      (fs.listing path).flatMap fun name =>
        fs.belowLevels levels (path ++ [name]) ++ [path ++ [name]]

/-- The paths below `path`, entries before their directory. -/
def below (fs : Fs) (path : Path) : List Path :=
  fs.belowLevels fs.depth path

/-- What `os.walk` finds in a directory: the entries that are directories, links
to them included, and the others. None where the directory cannot be listed. -/
def scandir (top : Str) (fs : Fs) : Option (List Str × List Str) :=
  (fs.locate true top).bind fun path =>
    if fs.isDirAt path then
      some ((fs.listing path).partition fun name => fs.isdir (Str.joinPath top name))
    else
      none

end Fs

/-! ## Programs -/

section Programs

variable {ε : Type} (osError : ε)

/-- One system call. -/
def sys (call : Fs → Option Fs) : Prog Fs ε Unit :=
  Prog.step fun fs => (call fs).elim (.error osError) .ok

/-- The text of the first pieces of a path text. -/
def piecesText (absolute : Bool) (pieces : List Str) : Str :=
  (if absolute then ['/'] else []) ++ ['/'].intercalate pieces

/-- `os.makedirs` on the pieces of a path text, the last one first. -/
def makedirsPieces (mode : Nat) (existOk absolute : Bool) : List Str → Prog Fs ε Unit
  | [] => Prog.ret ()
  | tail :: head => do
      let headText := piecesText absolute head.reverse
      let name := piecesText absolute (tail :: head).reverse
      let there ← Prog.reads fun fs => headText = [] || fs.pathExists headText
      if there then
        makeLast name
      else do
        makedirsPieces mode existOk absolute head
        if tail = ['.'] then Prog.ret () else makeLast name
where
  /-- `mkdir(name)`, forgiven where the directory is there. -/
  makeLast (name : Str) : Prog Fs ε Unit :=
    Prog.handle (sys osError (Fs.mkdir mode name)) fun failure => do
      let there ← Prog.reads fun fs => existOk && fs.isdir name
      if there then Prog.ret () else Prog.raise failure

/-- `os.makedirs`. -/
def makedirs (mode : Nat) (existOk : Bool) (s : Str) : Prog Fs ε Unit :=
  makedirsPieces osError mode existOk (Str.isAbs s)
    ((s.splitOn '/').filter (· ≠ [])).reverse

/-- The climb of `os.removedirs` through the directories above. -/
def removedirsAbove (absolute : Bool) : List Str → Prog Fs ε Unit
  | [] => Prog.ret ()
  | tail :: head =>
      Prog.handle
        (do
          sys osError (Fs.rmdir (piecesText absolute (tail :: head).reverse))
          removedirsAbove absolute head)
        fun _ => Prog.ret ()

/-- `os.removedirs`. -/
def removedirs (s : Str) : Prog Fs ε Unit := do
  sys osError (Fs.rmdir s)
  removedirsAbove osError (Str.isAbs s)
    (((s.splitOn '/').filter (· ≠ [])).reverse.drop 1)

/-- `shutil.rmtree`: it raises on anything but a directory. -/
def rmtree (s : Str) : Prog Fs ε Unit := do
  let target ← Prog.tryReads fun fs =>
    match fs.locate false s with
    | some path => if fs.isDirAt path then .ok path else .error osError
    | none => .error osError
  let below ← Prog.reads fun fs => fs.below target
  Prog.forEach (fun path => sys osError (Fs.eraseAt · path)) (below ++ [target])

/-- `shutil.rmtree` with `ignore_errors`. -/
def rmtreeIgnoringErrors (s : Str) : Prog Fs ε Unit :=
  Prog.handle (rmtree osError s) fun _ => Prog.ret ()

/-- A path text of more names than this cannot be opened. -/
def pathMax : Nat := 4096

section Walk

variable {α : Type} (visit : α → Str → List Str → List Str → Prog Fs ε α)

/-- `os.walk` from the top down, with an accumulator: a directory is listed,
visited, and its directories other than links are walked. A directory that
cannot be listed is passed over. -/
def osWalk : Nat → α → Str → Prog Fs ε α
  | 0, acc, _ => Prog.ret acc
  | levels + 1, acc, top => do
      match ← Prog.reads (Fs.scandir top) with
      | none => Prog.ret acc
      | some (dirs, files) => do
          let acc ← visit acc top dirs files
          Prog.foldOver
            (fun acc name => do
              let link ← Prog.reads (Fs.islink · (Str.joinPath top name))
              if link then Prog.ret acc else osWalk levels acc (Str.joinPath top name))
            acc dirs

/-- A walk whose visits only read. -/
theorem quiet_osWalk {visit : α → Str → List Str → List Str → Prog Fs ε α}
    (visitQuiet : ∀ acc top dirs files, Prog.Quiet (visit acc top dirs files)) (levels : Nat)
    (acc : α) (top : Str) : Prog.Quiet (osWalk visit levels acc top) := by
  induction levels generalizing acc top with
  | zero => exact Prog.quiet_ret acc
  | succ levels inductionHypothesis =>
      refine Prog.quiet_andThen (Prog.quiet_reads _) fun listed => ?_
      split
      · exact Prog.quiet_ret acc
      · refine Prog.quiet_andThen (visitQuiet _ _ _ _) fun next => Prog.quiet_foldOver ?_ _ _
        intro acc name
        refine Prog.quiet_andThen (Prog.quiet_reads _) fun link => ?_
        split
        · exact Prog.quiet_ret acc
        · exact inductionHypothesis _ _

end Walk

/-- `os.walk` from the bottom up: the directories below are walked, then the
directory is visited. -/
def osWalkUp (visit : Str → Prog Fs ε Unit) : Nat → Str → Prog Fs ε Unit
  | 0, _ => Prog.ret ()
  | levels + 1, top => do
      match ← Prog.reads (Fs.scandir top) with
      | none => Prog.ret ()
      | some (dirs, _) => do
          Prog.forEach
            (fun name => do
              let link ← Prog.reads (Fs.islink · (Str.joinPath top name))
              if link then Prog.ret () else osWalkUp visit levels (Str.joinPath top name))
            dirs
          visit top

end Programs

end Myscm.Library
