import Myscm.Client.PatchRoute
import Myscm.Client.PropertyMarkers

/-!
Owns mode and owner of a changed file behind its line of changed.txt.

Owns: a line as three effects on one file; what the content step, the change of mode
and the change of owner each leave; when the file ends with mode and owner of the
server's.

Does not own: the bytes of the file, the reading of the line.
-/

namespace Myscm.Client

open Myscm.Library Myscm.Server
open Fs (NamesFile SameShape SameAttributes)

namespace SysImgExtractor

section Line

variable (env : ClientEnv) (options : ClientOptions)

/-- The change of owner; none where it fails, which is only logged. -/
def ownerChange (newUid oldUid newGid oldGid path : Str) (fs : Fs) : Option Fs :=
  match ownerArg newUid oldUid, ownerArg newGid oldGid with
  | some uid, some gid => fs.chown false uid gid path
  | _, _ => none

/-- `_changed_files_per_line_fun` gets as far as the change of owner in `behind`, which
leaves `owned`, and to its end. -/
def LineRun (dir : Str) (counts : ReportCounts) (calls : Nat) (values : List Str)
    (fs behind : Fs) (owned : Option Fs) : Prop :=
  ∃ middle newPerm oldPerm newUid oldUid newGid oldGid,
    Prog.Ends (changeContent env options dir values) fs () middle ∧
      getNewOldPropertyFromString (values.getD 8 []) (values.getD 0 []) = .ok (newPerm, oldPerm) ∧
      Prog.Ends (changeFilePermissions options newPerm oldPerm (values.getD 0 [])) middle ()
        behind ∧
      getNewOldPropertyFromString (values.getD 9 []) (values.getD 0 []) = .ok (newUid, oldUid) ∧
      getNewOldPropertyFromString (values.getD 10 []) (values.getD 0 []) = .ok (newGid, oldGid) ∧
      ownerChange newUid oldUid newGid oldGid (values.getD 0 []) behind = owned ∧
      calls + 1 ≤ counts.changedEntries

variable {env options}

theorem ends_changeFileUidGid_iff (applied : options.dryRun = false)
    (newUid oldUid newGid oldGid path : Str) (fs finish : Fs) :
    Prog.Ends (changeFileUidGid options newUid oldUid newGid oldGid path) fs () finish ↔
      (ownerChange newUid oldUid newGid oldGid path fs).getD fs = finish := by
  unfold changeFileUidGid ownerChange
  cases uidArg : ownerArg newUid oldUid with
  | none => simp
  | some uid =>
      cases gidArg : ownerArg newGid oldGid with
      | none => simp
      | some gid =>
          dsimp only
          rw [unlessDryRun, applied, if_neg Bool.false_ne_true, Prog.ends_handle_iff,
            Fs.ends_sys_iff]
          cases called : Fs.chown false uid gid path fs with
          | none => simp [sys, Prog.step, called]
          | some next => simp [sys, Prog.step, called]

theorem ends_barUpdate_iff (maxValue value : Nat) (fs finish : Fs) :
    Prog.Ends (barUpdate maxValue value) fs () finish ↔ value + 1 ≤ maxValue ∧ fs = finish := by
  unfold barUpdate
  split
  · rename_i room
    simp [room]
  · rename_i full
    simp [full]

/-- A line that is worked through is one of these runs. -/
theorem ends_changedFilesPerLineFun_iff (applied : options.dryRun = false) (dir : Str)
    (counts : ReportCounts) (calls : Nat) (values : List Str) (fs finish : Fs) :
    Prog.Ends (changedFilesPerLineFun env options dir counts calls values) fs () finish ↔
      ∃ behind owned, LineRun env options dir counts calls values fs behind owned ∧
        owned.getD behind = finish := by
  unfold changedFilesPerLineFun changeAttributes
  constructor
  · intro ends
    simp only [Prog.bind_eq, Prog.ends_andThen_iff, Prog.ends_tryReads_iff] at ends
    obtain ⟨_, middle, content, _, last, attributes, bar⟩ := ends
    obtain ⟨⟨newPerm, oldPerm⟩, _, ⟨perm, rfl⟩, _, behind, mode, owner⟩ := attributes
    obtain ⟨⟨newUid, oldUid⟩, _, ⟨user, rfl⟩, ⟨newGid, oldGid⟩, _, ⟨group, rfl⟩, chown⟩ := owner
    obtain ⟨room, rfl⟩ := (ends_barUpdate_iff _ _ _ _).mp bar
    exact ⟨behind, _, ⟨middle, newPerm, oldPerm, newUid, oldUid, newGid, oldGid, content, perm, mode,
      user, group, rfl, room⟩, (ends_changeFileUidGid_iff applied _ _ _ _ _ _ _).mp chown⟩
  · rintro ⟨behind, owned, ⟨middle, newPerm, oldPerm, newUid, oldUid, newGid, oldGid, content, perm,
      mode, user, group, rfl, room⟩, left⟩
    simp only [Prog.bind_eq, Prog.ends_andThen_iff, Prog.ends_tryReads_iff]
    exact ⟨(), middle, content, (), finish, ⟨(newPerm, oldPerm), middle, ⟨perm, rfl⟩, (), behind, mode,
      (newUid, oldUid), behind, ⟨user, rfl⟩, (newGid, oldGid), behind, ⟨group, rfl⟩,
      (ends_changeFileUidGid_iff applied _ _ _ _ _ _ _).mpr left⟩,
      (ends_barUpdate_iff _ _ _ _).mpr ⟨room, rfl⟩⟩

/-! ## The content -/

/-- What the extracted image holds for a changed file is what the server put there: a
patch, or the file with its mode and owner. -/
structure HoldsServerFile (fs : Fs) (dir path : Str) (server : Node) : Prop where
  patch : ∀ node, fs.lstat (diffPathOf dir path) = some node → node.isRegular = true
  whole : ∀ node, fs.lstat (origPathOf dir path) = some node →
    node.isRegular = true ∧ SameAttributes node server

theorem rewritten_of_applyPatchForFile {path patchPath : Str} {fs next : Fs}
    (ends : Prog.Ends (applyPatchForFile env options path patchPath) fs () next) :
    Fs.Rewritten fs next := by
  unfold applyPatchForFile unlessDryRun at ends
  split at ends
  · obtain ⟨_, rfl⟩ := (Prog.ends_ret_iff _ _ _ _).mp ends
    exact Fs.Rewritten.refl fs
  · simp only [Prog.bind_eq, Prog.ends_andThen_iff, Prog.ends_tryReads_iff] at ends
    obtain ⟨patchText, _, ⟨_, rfl⟩, text, _, ⟨_, rfl⟩, rest⟩ := ends
    cases patched : env.applyPatch patchText text with
    | none => simp [patched] at rest
    | some patchedText =>
        simp only [patched, Prog.ends_andThen_iff] at rest
        obtain ⟨⟨⟩, written, overwritten, cut⟩ := rest
        exact (Fs.rewritten_of_overwrite ((Fs.ends_sys_iff _ _ _ _).mp overwritten)).trans
          (Fs.rewritten_of_setContent ((Fs.ends_sys_iff _ _ _ _).mp cut))

/-- Behind the content step the file, if it is there, has mode and owner of its own or of
the server's file. -/
theorem attributes_of_changeContent {dir : Str} {values : List Str} {fs middle : Fs} {path : Path}
    {old server : Node} (applied : options.dryRun = false)
    (names : NamesFile fs (values.getD 0 []) path old)
    (holds : HoldsServerFile fs dir (values.getD 0 []) server)
    (ends : Prog.Ends (changeContent env options dir values) fs () middle) :
    SameShape fs middle ∧ ∀ node, middle.node path = some node →
      node.isRegular = true ∧ (SameAttributes node old ∨ SameAttributes node server) := by
  have unchanged : SameShape fs fs ∧ ∀ node, fs.node path = some node →
      node.isRegular = true ∧ (SameAttributes node old ∨ SameAttributes node server) := by
    refine ⟨SameShape.refl fs, fun node found => ?_⟩
    rw [names.2.1] at found
    obtain rfl := Option.some.inj found
    exact ⟨names.2.2, .inl (SameAttributes.refl old)⟩
  unfold changeContent at ends
  dsimp only at ends
  split at ends
  · unfold applyChangedFile at ends
    obtain ⟨patched, _, isPatched, ends⟩ := (Prog.ends_andThen_iff _ _ _ _ _).mp ends
    obtain ⟨rfl, rfl⟩ := (Prog.ends_reads_iff _ _ _ _).mp isPatched
    split at ends
    · rename_i patchThere
      -- The patch is applied to the file, then removed.
      obtain ⟨⟨⟩, rewrittenFs, apply, remove⟩ := (Prog.ends_andThen_iff _ _ _ _ _).mp ends
      have rewritten := rewritten_of_applyPatchForFile apply
      obtain ⟨patchNode, patchFound, _⟩ := Fs.holdsFile_of_isfile patchThere
      obtain ⟨patchPath, patchNames⟩ :=
        Fs.namesFile_of_lstat patchFound (holds.patch patchNode patchFound)
      obtain ⟨_, patchNames, _⟩ := rewritten.namesFile patchNames
      obtain ⟨same, nodes⟩ :=
        Fs.removed_of_remove patchNames ((Fs.ends_sys_iff _ _ _ _).mp remove)
      refine ⟨rewritten.toSameShape.trans same, fun node found => ?_⟩
      rw [nodes] at found
      split at found
      · cases found
      · obtain ⟨before, foundBefore, attributes⟩ := rewritten.attributes path node found
        rw [names.2.1] at foundBefore
        obtain rfl := Option.some.inj foundBefore
        exact ⟨attributes.regular.trans names.2.2, .inl attributes⟩
    · obtain ⟨there, _, isThere, ends⟩ := (Prog.ends_andThen_iff _ _ _ _ _).mp ends
      obtain ⟨rfl, rfl⟩ := (Prog.ends_reads_iff _ _ _ _).mp isThere
      split at ends
      · rw [moveChangedFile, unlessDryRun, applied, if_neg Bool.false_ne_true, Fs.ends_sys_iff]
          at ends
        obtain ⟨⟨sent, sentFound, _⟩, _⟩ := (Fs.move_isSome_iff _ _ _).mp (by rw [ends]; rfl)
        obtain ⟨sentRegular, attributes⟩ := holds.whole sent sentFound
        obtain ⟨sentPath, sentNames⟩ := Fs.namesFile_of_lstat sentFound sentRegular
        obtain ⟨same, here⟩ := Fs.moved_of_move sentNames names ends
        refine ⟨same, fun node found => ?_⟩
        rw [here] at found
        obtain rfl := Option.some.inj found
        exact ⟨sentRegular, .inr attributes⟩
      · obtain ⟨_, rfl⟩ := (Prog.ends_ret_iff _ _ _ _).mp ends
        exact unchanged
  · obtain ⟨_, rfl⟩ := (Prog.ends_ret_iff _ _ _ _).mp ends
    exact unchanged

/-! ## Mode and owner -/

/-- The change of mode, where the file is there. -/
theorem mode_of_changeFilePermissions {newPerm oldPerm name : Str} {middle behind : Fs}
    {path : Path} {node : Node} (applied : options.dryRun = false)
    (names : NamesFile middle name path node)
    (ends : Prog.Ends (changeFilePermissions options newPerm oldPerm name) middle () behind) :
    ∃ mode, NamesFile behind name path { node with mode := mode } ∧
      ((oldPerm = ['.'] ∧ mode = node.mode) ∨
        (oldPerm ≠ ['.'] ∧ ∃ perm, Str.parseOctal newPerm = some perm ∧
          mode = (perm % 4096).toNat % 4096)) := by
  unfold changeFilePermissions at ends
  split at ends
  · rename_i changed
    cases parsed : Str.parseOctal newPerm with
    | none => simp [parsed] at ends
    | some perm =>
        rw [parsed] at ends
        dsimp only at ends
        rw [unlessDryRun, applied, if_neg Bool.false_ne_true, Fs.ends_sys_iff] at ends
        obtain ⟨same, nodes⟩ := Fs.node_of_chmod (names.locate true) names.2.1 ends
        exact ⟨(perm % 4096).toNat % 4096, names.congr same (by rw [nodes, if_pos rfl]) names.2.2,
          .inr ⟨changed, perm, rfl, rfl⟩⟩
  · rename_i unchanged
    obtain ⟨_, rfl⟩ := (Prog.ends_ret_iff _ _ _ _).mp ends
    exact ⟨node.mode, names, .inl ⟨not_not.mp unchanged, rfl⟩⟩

/-- Where nothing is there, no mode is changed. -/
theorem missing_of_changeFilePermissions {newPerm oldPerm name : Str} {middle behind : Fs}
    {path : Path} (applied : options.dryRun = false) (located : middle.locate true name = some path)
    (missing : middle.node path = none)
    (ends : Prog.Ends (changeFilePermissions options newPerm oldPerm name) middle () behind) :
    behind = middle := by
  unfold changeFilePermissions at ends
  split at ends
  · cases parsed : Str.parseOctal newPerm with
    | none => simp [parsed] at ends
    | some perm =>
        rw [parsed] at ends
        dsimp only at ends
        rw [unlessDryRun, applied, if_neg Bool.false_ne_true, Fs.ends_sys_iff] at ends
        simp [Fs.chmod, Fs.setMode, located, missing] at ends
  · exact ((Prog.ends_ret_iff _ _ _ _).mp ends).2.symm

/-- The change of owner of a file. -/
theorem owner_of_ownerChange {newUid oldUid newGid oldGid name : Str} {behind finish : Fs}
    {path : Path} {node : Node} (names : NamesFile behind name path node)
    (owned : ownerChange newUid oldUid newGid oldGid name behind = some finish) :
    ∃ uidArg gidArg uid gid, ownerArg newUid oldUid = some uidArg ∧
      ownerArg newGid oldGid = some gidArg ∧ Fs.ownerArgument node.uid uidArg = some uid ∧
        Fs.ownerArgument node.gid gidArg = some gid ∧
          NamesFile finish name path
            { node with mode := Fs.modeBehindChown node, uid := uid, gid := gid } := by
  unfold ownerChange at owned
  cases uidParsed : ownerArg newUid oldUid with
  | none => simp [uidParsed] at owned
  | some uidArg =>
      cases gidParsed : ownerArg newGid oldGid with
      | none => simp [uidParsed, gidParsed] at owned
      | some gidArg =>
          rw [uidParsed, gidParsed] at owned
          obtain ⟨uid, gid, isUid, isGid, same, nodes⟩ :=
            Fs.node_of_chown names.1 names.2.1 owned
          exact ⟨uidArg, gidArg, uid, gid, rfl, rfl, isUid, isGid,
            names.congr same (by rw [nodes, if_pos rfl]) names.2.2⟩

/-- A line that changes the owner leaves the file with mode and owner that the content
step, the mode and the ids of the line give. -/
theorem lineRun_attributes {dir : Str} {counts : ReportCounts} {calls : Nat} {values : List Str}
    {fs behind finish : Fs} {path : Path} {old server : Node} (applied : options.dryRun = false)
    (names : NamesFile fs (values.getD 0 []) path old)
    (holds : HoldsServerFile fs dir (values.getD 0 []) server)
    (run : LineRun env options dir counts calls values fs behind (some finish)) :
    ∃ newPerm oldPerm newUid oldUid newGid oldGid node mode uidArg gidArg uid gid,
      getNewOldPropertyFromString (values.getD 8 []) (values.getD 0 []) = .ok (newPerm, oldPerm) ∧
      getNewOldPropertyFromString (values.getD 9 []) (values.getD 0 []) = .ok (newUid, oldUid) ∧
      getNewOldPropertyFromString (values.getD 10 []) (values.getD 0 []) = .ok (newGid, oldGid) ∧
      node.isRegular = true ∧ (SameAttributes node old ∨ SameAttributes node server) ∧
      ((oldPerm = ['.'] ∧ mode = node.mode) ∨
        (oldPerm ≠ ['.'] ∧ ∃ perm, Str.parseOctal newPerm = some perm ∧
          mode = (perm % 4096).toNat % 4096)) ∧
      ownerArg newUid oldUid = some uidArg ∧ ownerArg newGid oldGid = some gidArg ∧
      Fs.ownerArgument node.uid uidArg = some uid ∧ Fs.ownerArgument node.gid gidArg = some gid ∧
      NamesFile finish (values.getD 0 []) path
        { node with mode := Fs.modeBehindChown { node with mode := mode }, uid := uid, gid := gid } := by
  obtain ⟨middle, newPerm, oldPerm, newUid, oldUid, newGid, oldGid, content, perm, mode, user, group,
    owned, _⟩ := run
  obtain ⟨same, attributes⟩ := attributes_of_changeContent applied names holds content
  have located (follow : Bool) : middle.locate follow (values.getD 0 []) = some path :=
    (Fs.locate_congr same follow _).symm.trans (names.locate follow)
  cases found : middle.node path with
  | none =>
      obtain rfl := missing_of_changeFilePermissions applied (located true) found mode
      have none : ownerChange newUid oldUid newGid oldGid (values.getD 0 []) behind = none := by
        unfold ownerChange
        split
        · rw [Fs.chown, located false, Option.bind_some, found]
          rfl
        · rfl
      rw [none] at owned
      cases owned
  | some node =>
      obtain ⟨regular, which⟩ := attributes node found
      obtain ⟨newMode, behindNames, isMode⟩ :=
        mode_of_changeFilePermissions applied ⟨located false, found, regular⟩ mode
      obtain ⟨uidArg, gidArg, uid, gid, uidParsed, gidParsed, isUid, isGid, finishNames⟩ :=
        owner_of_ownerChange behindNames owned
      exact ⟨newPerm, oldPerm, newUid, oldUid, newGid, oldGid, node, newMode, uidArg, gidArg, uid, gid,
        perm, user, group, regular, which, isMode, uidParsed, gidParsed, isUid, isGid, finishNames⟩

end Line

/-! ## What the line says -/

theorem strip_propertyString {value marker : Str} (plainValue : PlainValue value) :
    Str.strip (AIDEEntry.propertyString value marker) = AIDEEntry.propertyString value marker := by
  obtain ⟨nonempty, solid⟩ := plainValue
  cases value with
  | nil => exact absurd rfl nonempty
  | cons c rest =>
      have shape : AIDEEntry.propertyString (c :: rest) marker =
          c :: ((rest ++ ' ' :: '(' :: marker) ++ [')']) := by
        simp [AIDEEntry.propertyString]
      rw [shape, Str.strip_eq_self
        (Str.trimmed_cons_append (solid c List.mem_cons_self).1 (by decide))]

/-- What is read of a column: its value, and a dot behind it only where it is the old one. -/
theorem getNewOldProperty_of_column {entry : AIDEEntry} {refC : Char} {type : PropertyType}
    {line path newVal oldVal : Str} (column : entry.Column refC type line)
    (plainValue : PlainValue (entry.properties.str type))
    (plainPrev : PlainValue (entry.prevProperties.str type))
    (notDot : entry.prevProperties.str type ≠ ['.'])
    (read : getNewOldPropertyFromString (Str.strip line) path = .ok (newVal, oldVal)) :
    newVal = entry.properties.str type ∧
      (oldVal = ['.'] → entry.properties.str type = entry.prevProperties.str type) := by
  obtain ⟨curC, known, written⟩ := column
  unfold AIDEEntry.propertyLine at written
  split at written
  · cases written
  · rename_i equal
    obtain rfl := Except.ok.inj written
    rw [strip_propertyString plainValue] at read
    by_cases own : curC = refC
    · rw [if_pos own, getNewOldProperty_propertyString path plainValue plainPrev] at read
      obtain ⟨rfl, rfl⟩ := Prod.mk.inj (Except.ok.inj read)
      exact ⟨rfl, fun dot => absurd dot notDot⟩
    · have same : entry.properties.str type = entry.prevProperties.str type := by tauto
      rw [if_neg own] at read
      by_cases blank : curC = ' '
      · subst blank
        exact absurd read (getNewOldProperty_blank plainValue _)
      · have allowed : curC ∈ AIDEEntry.allowedInfoStrChars := by tauto
        rw [getNewOldProperty_propertyString path plainValue (plain_marker allowed blank)] at read
        obtain ⟨rfl, rfl⟩ := Prod.mk.inj (Except.ok.inj read)
        exact ⟨rfl, fun _ => same⟩

/-- The properties are those of a file with the mode and the owner of the node. -/
structure Describes (properties : AIDEProperties) (node : Node) : Prop where
  regular : node.isRegular = true
  modeBits : node.mode < 4096
  perm : Str.ofInt properties.perm = Str.octal node.stMode
  uid : properties.uid = node.uid
  gid : properties.gid = node.gid
  validUid : node.uid < 2 ^ 32 - 1
  validGid : node.gid < 2 ^ 32 - 1

theorem plainValue_ofInt (i : Int) : PlainValue (Str.ofInt i) ∧ Str.ofInt i ≠ ['.'] := by
  have number := Str.parseInt_ofInt i
  refine ⟨⟨fun empty => ?_, fun c member => ?_⟩, fun dot => ?_⟩
  · rw [empty, Str.parseInt_nil] at number
    cases number
  · rcases Str.mem_ofInt member with rfl | digit
    · decide
    · refine ⟨Str.isSpace_of_isDigit digit, ?_, ?_⟩
      · rintro rfl
        exact absurd digit (by decide)
      · rintro rfl
        exact absurd digit (by decide)
  · have none : Str.parseInt ['.'] = none := by decide
    rw [dot, none] at number
    cases number

theorem stMode_of_isRegular {node : Node} (regular : node.isRegular = true) :
    node.stMode = 32768 + node.mode := by
  cases kind : node.kind with
  | regular content => simp [Node.stMode, Node.typeBits, kind]
  | directory | symlink | charDevice | blockDevice | fifo | socket =>
      simp [Node.isRegular, Node.content?, kind] at regular

/-- The mode a line gives: that of the server. -/
theorem mode_of_line {entry : AIDEEntry} {line path newPerm oldPerm : Str}
    {old server node : Node} {mode : Nat} (column : entry.Column 'p' .perm line)
    (describesOld : Describes entry.prevProperties old)
    (describesServer : Describes entry.properties server)
    (read : getNewOldPropertyFromString (Str.strip line) path = .ok (newPerm, oldPerm))
    (which : node.mode = old.mode ∨ node.mode = server.mode)
    (isMode : (oldPerm = ['.'] ∧ mode = node.mode) ∨
      (oldPerm ≠ ['.'] ∧ ∃ perm, Str.parseOctal newPerm = some perm ∧
        mode = (perm % 4096).toNat % 4096)) :
    mode = server.mode := by
  have newBits := stMode_of_isRegular describesServer.regular
  have oldBits := stMode_of_isRegular describesOld.regular
  have small := describesServer.modeBits
  have value : entry.properties.str .perm = Str.octal server.stMode := describesServer.perm
  have prev : entry.prevProperties.str .perm = Str.octal old.stMode := describesOld.perm
  obtain ⟨isNew, unchanged⟩ := getNewOldProperty_of_column column (plainValue_ofInt _).1
    (plainValue_ofInt _).1 (plainValue_ofInt _).2 read
  rcases isMode with ⟨dot, rfl⟩ | ⟨_, perm, parsed, rfl⟩
  · have same := congrArg Str.parseOctal (value.symm.trans ((unchanged dot).trans prev))
    rw [Str.parseOctal_octal, Str.parseOctal_octal] at same
    have sameMode : server.stMode = old.stMode := by exact_mod_cast Option.some.inj same
    omega
  · rw [isNew, value, Str.parseOctal_octal] at parsed
    obtain rfl := Option.some.inj parsed
    omega

/-- An id a line gives: that of the server. -/
theorem id_of_line {entry : AIDEEntry} {refC : Char} {type : PropertyType}
    {line path newId oldId : Str} {oldVal serverVal present result : Nat} {arg : Int}
    (column : entry.Column refC type line)
    (value : entry.properties.str type = Str.ofInt serverVal)
    (prev : entry.prevProperties.str type = Str.ofInt oldVal) (valid : serverVal < 2 ^ 32 - 1)
    (read : getNewOldPropertyFromString (Str.strip line) path = .ok (newId, oldId))
    (which : present = oldVal ∨ present = serverVal) (isArg : ownerArg newId oldId = some arg)
    (isResult : Fs.ownerArgument present arg = some result) : result = serverVal := by
  obtain ⟨isNew, unchanged⟩ := getNewOldProperty_of_column column
    (value ▸ (plainValue_ofInt _).1) (prev ▸ (plainValue_ofInt _).1) (prev ▸ (plainValue_ofInt _).2)
    read
  unfold ownerArg at isArg
  split at isArg
  · rw [isNew, value, Str.parseInt_ofInt] at isArg
    obtain rfl := Option.some.inj isArg
    unfold Fs.ownerArgument at isResult
    rw [if_neg (by omega), if_pos (by omega)] at isResult
    have := Option.some.inj isResult
    omega
  · rename_i dot
    obtain rfl := Option.some.inj isArg
    have same := Str.ofInt_injective (value.symm.trans ((unchanged (not_not.mp dot)).trans prev))
    unfold Fs.ownerArgument at isResult
    rw [if_pos (.inl rfl)] at isResult
    have := Option.some.inj isResult
    omega

/-! ## When mode and owner arrive -/

/-- The file has mode and owner of the server's file. -/
def AttributesArrive (finish : Fs) (path : Str) (server : Node) : Prop :=
  ∃ node, finish.lstat path = some node ∧ SameAttributes node server

/-- A change of owner takes nothing from the mode: no set-user-ID bit, and no set-group-ID
bit on a file the group may execute. -/
def KeptByChown (mode : Nat) : Prop :=
  mode &&& 0o4000 = 0 ∧ (mode &&& 0o2000 = 0 ∨ mode &&& 0o10 = 0)

instance (mode : Nat) : Decidable (KeptByChown mode) :=
  inferInstanceAs (Decidable (_ ∧ _))

theorem modeBehindChown_eq_iff {node : Node} (regular : node.isRegular = true)
    (bits : node.mode < 4096) : Fs.modeBehindChown node = node.mode ↔ KeptByChown node.mode := by
  -- All modes, by their upper and lower six bits.
  have all : ∀ high low : Fin 64,
      (if (64 * high.val + low.val) &&& 0o10 = 0 then (64 * high.val + low.val) &&& 0o3777
        else ((64 * high.val + low.val) &&& 0o3777) &&& 0o5777) = 64 * high.val + low.val ↔
          KeptByChown (64 * high.val + low.val) := by
    decide
  have split : 64 * (node.mode / 64) + node.mode % 64 = node.mode := Nat.div_add_mod _ _
  have here := all ⟨node.mode / 64, by omega⟩ ⟨node.mode % 64, by omega⟩
  dsimp only at here
  rw [split] at here
  unfold Fs.modeBehindChown
  rw [Fs.isDirectory_of_isRegular regular, if_neg Bool.false_ne_true]
  exact here

def modeInfoStr : Str := "f.=.p............".toList

private theorem modeInfoStr_ok : modeInfoStr.length = aideInfoStrPattern.length ∧
    modeInfoStr.head? = some FileType.regularFile.value := by decide

/-- The entry of `/f`, a file of mode 755 before; `perm` are the digits of its mode now. -/
def modeEntry (perm : Int) : AIDEEntry where
  properties := ⟨"/f".toList, none, 7, perm, 11, 8, 0, 0, 0, 5, 6, 1, none, none⟩
  prevProperties := ⟨"/f".toList, none, 7, 100755, 11, 8, 0, 0, 0, 5, 6, 1, none, none⟩
  infoStr := modeInfoStr
  ftype := .regularFile
  infoStr_length := modeInfoStr_ok.1
  ftype_value := modeInfoStr_ok.2

/-- What the client reads of the line. -/
def modeValues (perm : Int) : List Str :=
  ["/f", "None", "f.=.p............", "7", "f", "=", "0 (=)", "8 (.)"].map String.toList ++
    [AIDEEntry.propertyString (Str.ofInt perm) "100755".toList] ++
    ["0 (.)", "0 (.)", "5 (.)", "6 (.)", "11 (.)", "1 (.)", "None (.)", "None (.)", "?"].map
      String.toList

def modeNode (mode : Nat) : Node := ⟨.regular [], mode, 0, 0, 1⟩

/-- A client with the file as it was. -/
def modeClient : Fs :=
  Fs.ofNodes [(["f".toList], modeNode 0o755)]

/-- The state in front of the change of owner. -/
def modeBehind (perm : Int) : Fs :=
  (changeFilePermissions directoryOptions (Str.ofInt perm) "100755".toList "/f".toList
    modeClient).final modeClient

/-- The state behind it. -/
def modeFinish (perm : Int) : Fs :=
  (ownerChange "0".toList ".".toList "0".toList ".".toList "/f".toList (modeBehind perm)).getD
    (modeBehind perm)

theorem modeLineRun {perm : Int}
    (ends : (changeFilePermissions directoryOptions (Str.ofInt perm) "100755".toList "/f".toList
      modeClient).ending = .ok ())
    (read : getNewOldPropertyFromString (AIDEEntry.propertyString (Str.ofInt perm) "100755".toList)
      "/f".toList = .ok (Str.ofInt perm, "100755".toList))
    (owned : (ownerChange "0".toList ".".toList "0".toList ".".toList "/f".toList
      (modeBehind perm)).isSome = true) :
    LineRun directoryEnv directoryOptions "/e".toList ⟨0, 1, 0⟩ 0 (modeValues perm) modeClient
      (modeBehind perm) (some (modeFinish perm)) := by
  obtain ⟨finish, isFinish⟩ := Option.isSome_iff_exists.mp owned
  have finished : modeFinish perm = finish := by rw [modeFinish, isFinish]; rfl
  refine ⟨modeClient, Str.ofInt perm, "100755".toList, "0".toList, ".".toList, "0".toList,
    ".".toList, ⟨rfl, rfl⟩, read, ⟨ends, rfl⟩, ?_, ?_, ?_, by decide⟩
  · change getNewOldPropertyFromString "0 (.)".toList "/f".toList = _
    decide
  · change getNewOldPropertyFromString "0 (.)".toList "/f".toList = _
    decide
  · rw [finished]
    exact isFinish

end SysImgExtractor

end Myscm.Client
