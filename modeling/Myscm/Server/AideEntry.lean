import Myscm.Library.Prog
import Myscm.Server.ImageFormat

/-!
Owns `AIDEEntry`: what the server knows about a changed file, and the properties
it writes into a line of changed.txt.

Owns: the properties of a file with their `str()`; info strings; the markers
behind a property value; `get_aide_changed_properties`; the columns of its
properties.

Does not own: decoding a row of an AIDE database, package managers.
-/

namespace Myscm.Server

open Myscm.Library

/-- The exceptions of the image generator, with the messages of its own ones. -/
inductive GeneratorError where
  | aideEntry (message : Str)
  | sysImgGenerator (message : Str)
  | packageManager
  | unicodeDecode
  | os
  deriving DecidableEq

/-- `PropertyType`. -/
inductive PropertyType where
  | name
  | lname
  | attr
  | perm
  | inode
  | bcount
  | uid
  | gid
  | size
  | mtime
  | ctime
  | lcount
  | md5
  | sha1
  deriving DecidableEq

/-- `PropertyType.value`. -/
def PropertyType.value : PropertyType → Str
  | .name => "name".toList
  | .lname => "lname".toList
  | .attr => "attr".toList
  | .perm => "perm".toList
  | .inode => "inode".toList
  | .bcount => "bcount".toList
  | .uid => "uid".toList
  | .gid => "gid".toList
  | .size => "size".toList
  | .mtime => "mtime".toList
  | .ctime => "ctime".toList
  | .lcount => "lcount".toList
  | .md5 => "md5".toList
  | .sha1 => "sha1".toList

/-- The required properties of `AIDEProperties`, converted. -/
structure AIDEProperties where
  name : Str
  lname : Option Str
  attr : Int
  perm : Int
  inode : Int
  bcount : Int
  uid : Int
  gid : Int
  size : Int
  mtime : Int
  ctime : Int
  lcount : Int
  md5 : Option Str
  sha1 : Option Str

/-- `str()` of a text or `None`. -/
def strOfOption (value : Option Str) : Str :=
  value.getD "None".toList

/-- `str(properties[type])`. -/
def AIDEProperties.str (properties : AIDEProperties) : PropertyType → Str
  | .name => properties.name
  | .lname => strOfOption properties.lname
  | .attr => Str.ofInt properties.attr
  | .perm => Str.ofInt properties.perm
  | .inode => Str.ofInt properties.inode
  | .bcount => Str.ofInt properties.bcount
  | .uid => Str.ofInt properties.uid
  | .gid => Str.ofInt properties.gid
  | .size => Str.ofInt properties.size
  | .mtime => Str.ofInt properties.mtime
  | .ctime => Str.ofInt properties.ctime
  | .lcount => Str.ofInt properties.lcount
  | .md5 => strOfOption properties.md5
  | .sha1 => strOfOption properties.sha1

/-- `AIDE_INFO_STR_PATTERN`. -/
def aideInfoStrPattern : Str := "YlZbpugamcinCAXSE".toList

/-- An `AIDEEntry` of a changed file, with its properties before the change. -/
structure AIDEEntry where
  properties : AIDEProperties
  prevProperties : AIDEProperties
  infoStr : Str
  ftype : FileType
  infoStr_length : infoStr.length = aideInfoStrPattern.length
  ftype_value : infoStr.head? = some ftype.value

namespace AIDEEntry

/-- `AIDE_INFO_STR_TO_PROP_TYPES_MAPPING`. -/
def propTypes : Char → Option (List PropertyType)
  | 'l' => some [.name]
  | 'b' => some [.bcount]
  | 'p' => some [.perm]
  | 'u' => some [.uid]
  | 'g' => some [.gid]
  | 'm' => some [.mtime]
  | 'c' => some [.ctime]
  | 'i' => some [.inode]
  | 'n' => some [.lcount]
  | 'C' => some [.md5, .sha1]
  | _ => none

def noChangeChar : Char := '.'
def attrAddedChar : Char := '+'
def attrRemovedChar : Char := '-'
def attrIgnoredChar : Char := ':'
def attrNotCheckedChar : Char := ' '

/-- `AIDE_ALLOWED_INFO_STR_CHARS`. -/
def allowedInfoStrChars : List Char :=
  [noChangeChar, attrIgnoredChar, attrNotCheckedChar, attrAddedChar, attrRemovedChar]

/-- `AIDE_INFO_SUBSTR_LEN`. -/
def infoSubstrLen : Nat := aideInfoStrPattern.length - 4

def getFullPath (entry : AIDEEntry) : Str :=
  entry.properties.name

/-- `was_file_content_changed`. -/
def wasFileContentChanged (entry : AIDEEntry) : Bool :=
  decide (entry.infoStr[12]? = some 'C')

/-- A property value with what stands in brackets behind it. -/
def propertyString (value marker : Str) : Str :=
  value ++ ' ' :: '(' :: (marker ++ [')'])

/-- One turn of the loop of `_append_property_based_on_current_info_char`. -/
def propertyLine (curC refC : Char) (propVal prevPropVal : Str) : Except GeneratorError Str :=
  if curC ≠ refC ∧ propVal ≠ prevPropVal then
    .error (.aideEntry
      ("Current and previous value for property '".toList ++ refC ::
        "' are not equal despite AIDE reported they are not different".toList))
  else
    .ok (propertyString propVal (if curC = refC then prevPropVal else [curC]))

/-- `_append_property_based_on_current_info_char`: whether the entry changed, and the
properties appended. -/
def appendPropertyBasedOnCurrentInfoChar (entry : AIDEEntry) (curC refC : Char) :
    Except GeneratorError (Bool × List Str) :=
  match propTypes refC with
  | none => .ok (false, [])
  | some types =>
      if curC ≠ refC ∧ curC ∉ allowedInfoStrChars then
        .error (.aideEntry
          ("Unrecognized AIDE info string character '".toList ++ curC :: ['\'']))
      else do
        let lines ← types.mapM fun type =>
          propertyLine curC refC (entry.properties.str type) (entry.prevProperties.str type)
        return (decide (curC = refC), lines)

/-- The characters the loop of `get_aide_changed_properties` runs over, with those of
the pattern. -/
def infoChars (entry : AIDEEntry) : List (Char × Char) :=
  ((entry.infoStr.zip aideInfoStrPattern).take infoSubstrLen).drop 3

/-- The size with `=` or the previous size behind it. -/
def sizeString (entry : AIDEEntry) : Str :=
  propertyString (Str.ofInt entry.properties.size)
    (if entry.properties.size = entry.prevProperties.size then ['=']
    else Str.ofInt entry.prevProperties.size)

/-- `get_aide_changed_properties`. The name of an entry without a change is made a
comment. -/
def getAideChangedProperties (packageName : Str → Except GeneratorError Str) (entry : AIDEEntry) :
    Except GeneratorError (List Str) := do
  let columns ← entry.infoChars.mapM fun chars =>
    entry.appendPropertyBasedOnCurrentInfoChar chars.1 chars.2
  let pkgName ← packageName entry.properties.name
  let commentEntry := columns.all fun column => !column.1
  let name :=
    if commentEntry then '#' :: ' ' :: entry.properties.name else entry.properties.name
  return [name, entry.properties.str .lname, entry.infoStr, entry.properties.str .attr,
      [entry.ftype.value], (entry.infoStr[2]?).toList, entry.sizeString] ++
    columns.flatMap Prod.snd ++ [pkgName]

/-! ## Properties and columns -/

/-- The entry has a changed column. -/
def reported (entry : AIDEEntry) : Bool :=
  entry.infoChars.any fun chars =>
    decide (chars.1 = chars.2) && (propTypes chars.2).isSome

theorem infoChars_snd (entry : AIDEEntry) : entry.infoChars.map Prod.snd = "bpugamcinC".toList := by
  have pattern : (entry.infoStr.zip aideInfoStrPattern).map Prod.snd = aideInfoStrPattern :=
    List.map_snd_zip (le_of_eq entry.infoStr_length.symm)
  rw [infoChars, List.map_drop, List.map_take, pattern]
  rfl

theorem appendProperty_ok {entry : AIDEEntry} {curC refC : Char} {column : Bool × List Str}
    (computed : entry.appendPropertyBasedOnCurrentInfoChar curC refC = .ok column) :
    column.1 = (decide (curC = refC) && (propTypes refC).isSome) ∧
      column.2.length = ((propTypes refC).getD []).length := by
  unfold appendPropertyBasedOnCurrentInfoChar at computed
  cases types : propTypes refC with
  | none =>
      rw [types] at computed
      cases computed
      simp
  | some types' =>
      rw [types] at computed
      dsimp only at computed
      split at computed
      · cases computed
      · cases lines : types'.mapM fun type =>
            propertyLine curC refC (entry.properties.str type)
              (entry.prevProperties.str type) with
        | error failure =>
            rw [lines] at computed
            cases computed
        | ok values =>
            rw [lines] at computed
            cases computed
            exact ⟨by simp, (mapM_ok lines).length_eq.symm⟩

/-- The columns of an entry: whether one changed, and how many properties they hold. -/
theorem columns_of_rows {entry : AIDEEntry} {infoChars : List (Char × Char)}
    {columns : List (Bool × List Str)}
    (rows : List.Forall₂ (fun chars column =>
      entry.appendPropertyBasedOnCurrentInfoChar chars.1 chars.2 = .ok column) infoChars columns) :
    (columns.all fun column => !column.1) =
        !(infoChars.any fun chars =>
          decide (chars.1 = chars.2) && (propTypes chars.2).isSome) ∧
      (columns.flatMap Prod.snd).length =
        ((infoChars.map Prod.snd).map fun refC => ((propTypes refC).getD []).length).sum := by
  induction rows with
  | nil => exact ⟨rfl, rfl⟩
  | cons here _ inductionHypothesis =>
      obtain ⟨changed, count⟩ := appendProperty_ok here
      constructor
      · rw [List.all_cons, inductionHypothesis.1, List.any_cons, changed, Bool.not_or]
      · rw [List.flatMap_cons, List.length_append, inductionHypothesis.2, count, List.map_cons,
          List.map_cons, List.sum_cons]

/-- The properties of an entry are eighteen, the name first. -/
theorem getAideChangedProperties_ok {packageName : Str → Except GeneratorError Str}
    {entry : AIDEEntry} {properties : List Str}
    (computed : entry.getAideChangedProperties packageName = .ok properties) :
    ∃ front sum pkg, front.length = 15 ∧
      properties =
        (if entry.reported then entry.properties.name else '#' :: ' ' :: entry.properties.name) ::
          front ++ [sum, pkg] := by
  unfold getAideChangedProperties at computed
  cases columnsOk : entry.infoChars.mapM fun chars =>
      entry.appendPropertyBasedOnCurrentInfoChar chars.1 chars.2 with
  | error failure => rw [columnsOk] at computed; cases computed
  | ok columns =>
      cases pkgOk : packageName entry.properties.name with
      | error failure => rw [columnsOk, pkgOk] at computed; cases computed
      | ok pkg =>
          rw [columnsOk, pkgOk] at computed
          obtain ⟨unchanged, counted⟩ := columns_of_rows (mapM_ok columnsOk)
          have ten : (columns.flatMap Prod.snd).length = 10 := by
            rw [counted, infoChars_snd]
            decide
          obtain ⟨mapped, sum, split⟩ : ∃ mapped sum, columns.flatMap Prod.snd = mapped ++ [sum] := by
            have nonempty : columns.flatMap Prod.snd ≠ [] := fun empty => by simp [empty] at ten
            exact ⟨_, _, (List.dropLast_concat_getLast nonempty).symm⟩
          have nine : mapped.length = 9 := by simpa [split] using ten
          refine ⟨[entry.properties.str .lname, entry.infoStr, entry.properties.str .attr,
            [entry.ftype.value], (entry.infoStr[2]?).toList, entry.sizeString] ++ mapped, sum, pkg,
            by simp [nine], ?_⟩
          cases computed
          rw [unchanged, split, ← reported]
          cases entry.reported <;> simp

/-- The column of a character that stands for one property. -/
theorem appendProperty_single {entry : AIDEEntry} {curC refC : Char} {column : Bool × List Str}
    {type : PropertyType} (single : propTypes refC = some [type])
    (computed : entry.appendPropertyBasedOnCurrentInfoChar curC refC = .ok column) :
    (curC = refC ∨ curC ∈ allowedInfoStrChars) ∧
      ∃ line, column.2 = [line] ∧
        propertyLine curC refC (entry.properties.str type) (entry.prevProperties.str type) =
          .ok line := by
  unfold appendPropertyBasedOnCurrentInfoChar at computed
  rw [single] at computed
  dsimp only at computed
  split at computed
  · cases computed
  · rename_i known
    rw [List.mapM_cons, List.mapM_nil] at computed
    cases line : propertyLine curC refC (entry.properties.str type)
        (entry.prevProperties.str type) with
    | error failure =>
        rw [line] at computed
        cases computed
    | ok value =>
        rw [line] at computed
        cases computed
        exact ⟨by tauto, value, rfl, rfl⟩

/-- A property column of the line: its character is known, and this is what is written. -/
def Column (entry : AIDEEntry) (refC : Char) (type : PropertyType) (line : Str) : Prop :=
  ∃ curC, (curC = refC ∨ curC ∈ allowedInfoStrChars) ∧
    propertyLine curC refC (entry.properties.str type) (entry.prevProperties.str type) = .ok line

/-- The first eleven properties, and what those of mode and owner are. -/
theorem getAideChangedProperties_columns {packageName : Str → Except GeneratorError Str}
    {entry : AIDEEntry} {properties : List Str}
    (computed : entry.getAideChangedProperties packageName = .ok properties) :
    ∃ name bcount perm uid gid later,
      properties = [name, entry.properties.str .lname, entry.infoStr, entry.properties.str .attr,
          [entry.ftype.value], (entry.infoStr[2]?).toList, entry.sizeString, bcount, perm, uid,
          gid] ++ later ∧
        entry.Column 'p' .perm perm ∧ entry.Column 'u' .uid uid ∧ entry.Column 'g' .gid gid := by
  unfold AIDEEntry.getAideChangedProperties at computed
  cases columnsOk : entry.infoChars.mapM fun chars =>
      entry.appendPropertyBasedOnCurrentInfoChar chars.1 chars.2 with
  | error failure => rw [columnsOk] at computed; cases computed
  | ok columns =>
      cases pkgOk : packageName entry.properties.name with
      | error failure => rw [columnsOk, pkgOk] at computed; cases computed
      | ok pkg =>
          rw [columnsOk, pkgOk] at computed
          have rows := mapM_ok columnsOk
          have pattern : entry.infoChars.map Prod.snd =
              ['b', 'p', 'u', 'g'] ++ "amcinC".toList := (infoChars_snd entry).trans (by decide)
          obtain ⟨blocks, rest, split, isBlocks, later⟩ := List.map_eq_cons_iff.mp pattern
          obtain ⟨mode, rest, rfl, isMode, later⟩ := List.map_eq_cons_iff.mp later
          obtain ⟨user, rest, rfl, isUser, later⟩ := List.map_eq_cons_iff.mp later
          obtain ⟨group, rest, rfl, isGroup, _⟩ := List.map_eq_cons_iff.mp later
          rw [split] at rows
          obtain ⟨blocksColumn, columns, blocksOk, behindBlocks, rfl⟩ := List.forall₂_cons_left_iff.mp rows
          obtain ⟨modeColumn, columns, modeOk, behindMode, rfl⟩ := List.forall₂_cons_left_iff.mp behindBlocks
          obtain ⟨userColumn, columns, userOk, behindUser, rfl⟩ := List.forall₂_cons_left_iff.mp behindMode
          obtain ⟨groupColumn, columns, groupOk, _, rfl⟩ := List.forall₂_cons_left_iff.mp behindUser
          rw [isBlocks] at blocksOk
          rw [isMode] at modeOk
          rw [isUser] at userOk
          rw [isGroup] at groupOk
          obtain ⟨_, bcount, isBcount, _⟩ := appendProperty_single rfl blocksOk
          obtain ⟨knownMode, perm, isPerm, modeLine⟩ := appendProperty_single rfl modeOk
          obtain ⟨knownUser, uid, isUid, userLine⟩ := appendProperty_single rfl userOk
          obtain ⟨knownGroup, gid, isGid, groupLine⟩ := appendProperty_single rfl groupOk
          obtain ⟨name, whole⟩ : ∃ name, properties =
              [name, entry.properties.str .lname, entry.infoStr, entry.properties.str .attr,
                [entry.ftype.value], (entry.infoStr[2]?).toList, entry.sizeString] ++
              (blocksColumn :: modeColumn :: userColumn :: groupColumn :: columns).flatMap Prod.snd ++
              [pkg] := by
            cases computed
            exact ⟨_, rfl⟩
          refine ⟨name, bcount, perm, uid, gid, columns.flatMap Prod.snd ++ [pkg], ?_,
            ⟨_, knownMode, modeLine⟩, ⟨_, knownUser, userLine⟩, ⟨_, knownGroup, groupLine⟩⟩
          rw [whole, List.flatMap_cons, List.flatMap_cons, List.flatMap_cons, List.flatMap_cons,
            isBcount, isPerm, isUid, isGid]
          simp

end AIDEEntry

end Myscm.Server
