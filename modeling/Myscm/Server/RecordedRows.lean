import Myscm.Library.Encoders
import Myscm.Server.AideDbParser

/-!
Owns the rows that AIDE writes for file records, and what `AIDEProperties` makes of them.

Owns: the encoding of each column with its placeholder; that the converters undo it; which
records are read as they were recorded.

Does not own: columns that are not required; percent signs in names.
-/

namespace Myscm.Server

open Myscm.Library

/-! ## Records and their rows -/

/-- What AIDE records of a file. A time that is absent is zero. -/
structure FileRecord where
  name : Str
  lname : Option Str
  attr : Int
  perm : Nat
  inode : Int
  bcount : Int
  uid : Int
  gid : Int
  size : Int
  mtime : Int
  ctime : Int
  lcount : Int
  md5 : Option (List UInt8)
  sha1 : Option (List UInt8)
  deriving DecidableEq

/-- A time in base 64 of its decimal text. -/
def writeTime (time : Int) : Str :=
  if time = 0 then ['0'] else Base64.encode (asciiBytes (Str.ofInt time))

/-- A hash in base 64. -/
def writeHash (hash : Option (List UInt8)) : Str :=
  match hash with
  | none => ['0']
  | some bytes => Base64.encode bytes

namespace FileRecord

/-- The row of a record, its name decoded. -/
def row (record : FileRecord) : RowValues
  | .name => record.name
  | .lname => record.lname.getD ['0']
  | .attr => Str.ofInt record.attr
  | .perm => Str.octal record.perm
  | .inode => Str.ofInt record.inode
  | .bcount => Str.ofInt record.bcount
  | .uid => Str.ofInt record.uid
  | .gid => Str.ofInt record.gid
  | .size => Str.ofInt record.size
  | .mtime => writeTime record.mtime
  | .ctime => writeTime record.ctime
  | .lcount => Str.ofInt record.lcount
  | .md5 => writeHash record.md5
  | .sha1 => writeHash record.sha1

/-- The recorded values: the mode is the number of its octal digits, and a hash is its
hexadecimal digits. -/
def properties (record : FileRecord) : AIDEProperties :=
  ⟨record.name, record.lname, record.attr, Str.octalDigits record.perm, record.inode,
    record.bcount, record.uid, record.gid, record.size, record.mtime, record.ctime, record.lcount,
    record.md5.map bytesHex, record.sha1.map bytesHex⟩

theorem properties_injective : Function.Injective properties := by
  intro left right same
  obtain ⟨name, lname, attr, perm, inode, bcount, uid, gid, size, mtime, ctime, lcount, md5,
    sha1⟩ := left
  obtain ⟨name', lname', attr', perm', inode', bcount', uid', gid', size', mtime', ctime', lcount',
    md5', sha1'⟩ := right
  simp only [properties, AIDEProperties.mk.injEq, Int.natCast_inj] at same
  obtain ⟨rfl, rfl, rfl, isPerm, rfl, rfl, rfl, rfl, rfl, rfl, rfl, rfl, isMd5, isSha1⟩ := same
  rw [Str.octalDigits_injective isPerm, Option.map_injective bytesHex_injective isMd5,
    Option.map_injective bytesHex_injective isSha1]

end FileRecord

/-! ## Converters -/

theorem ofInt_plain (i : Int) : ∀ c ∈ Str.ofInt i, 0x20 ≤ c.toNat ∧ c.toNat < 128 := by
  intro c member
  rcases Str.mem_ofInt member with rfl | digit
  · decide
  · simp only [Char.isDigit, Bool.and_eq_true, decide_eq_true_eq] at digit
    have low : 48 ≤ c.toNat := UInt32.le_iff_toNat_le.mp digit.1
    have high : c.toNat ≤ 57 := UInt32.le_iff_toNat_le.mp digit.2
    omega

/-- A time is read back, but the placeholder is not a number. -/
theorem convertToIntFromBase64_writeTime (time : Int) :
    AIDEProperties.convertToIntFromBase64 (writeTime time) =
      if time = 0 then .error .valueError else .ok time := by
  unfold writeTime
  by_cases zero : time = 0
  · rw [if_pos zero, if_pos zero]
    rfl
  · rw [if_neg zero, if_neg zero, AIDEProperties.convertToIntFromBase64, Base64.decode_encode,
      Option.bind_some, parseIntBytes_asciiBytes (ofInt_plain time), Str.parseInt_ofInt]
    rfl

theorem convertToHexFromBase64_writeHash (hash : Option (List UInt8)) :
    AIDEProperties.convertToHexFromBase64 (writeHash hash) = .ok (hash.map bytesHex) := by
  unfold AIDEProperties.convertToHexFromBase64
  cases hash with
  | none => rfl
  | some bytes =>
      rw [writeHash, if_pos (Base64.encode_ne_single bytes '0'), Base64.decode_encode]
      rfl

theorem convertToNoneIfZero_eq_iff {lname : Option Str} :
    AIDEProperties.convertToNoneIfZero (lname.getD ['0']) = lname ↔ lname ≠ some ['0'] := by
  unfold AIDEProperties.convertToNoneIfZero
  cases lname with
  | none => decide
  | some link =>
      rw [Option.getD_some]
      by_cases zero : link = ['0']
      · simp [zero]
      · simp [zero]

/-- What becomes of the row of a record. -/
theorem ofRow_row (record : FileRecord) :
    AIDEProperties.ofRow record.row =
      if record.mtime = 0 ∨ record.ctime = 0 then .error .valueError
      else .ok { record.properties with
        lname := AIDEProperties.convertToNoneIfZero (record.lname.getD ['0']) } := by
  have int : ∀ i, orValueError (Str.parseInt (Str.ofInt i)) = .ok i := by
    intro i
    rw [Str.parseInt_ofInt]
    rfl
  have perm : orValueError (Str.parseInt (Str.octal record.perm)) =
      .ok (Str.octalDigits record.perm : Int) := by
    rw [Str.parseInt_octal]
    rfl
  unfold AIDEProperties.ofRow FileRecord.row
  simp only [int, perm, convertToIntFromBase64_writeTime, convertToHexFromBase64_writeHash, bind,
    Except.bind]
  by_cases noMtime : record.mtime = 0
  · simp [noMtime]
  · by_cases noCtime : record.ctime = 0
    · simp [noMtime, noCtime]
    · simp [noMtime, noCtime, FileRecord.properties]
      rfl

/-! ## Records that are read as they were recorded -/

/-- The row of a record gives the recorded values. -/
def Decodes (record : FileRecord) : Prop :=
  AIDEProperties.ofRow record.row = .ok record.properties

/-- The row gives the recorded values, and the mode as the number it is. -/
def DecodesMode (record : FileRecord) : Prop :=
  AIDEProperties.ofRow record.row = .ok { record.properties with perm := record.perm }

/-- Records that differ have other objects. -/
def Separates (record other : FileRecord) : Prop :=
  record ≠ other → ∀ properties others, AIDEProperties.ofRow record.row = .ok properties →
    AIDEProperties.ofRow other.row = .ok others → properties ≠ others

/-- No column but those of absent values is written as the placeholder. -/
structure FreeOfZero (record : FileRecord) : Prop where
  mtime : record.mtime ≠ 0
  ctime : record.ctime ≠ 0
  lname : record.lname ≠ some ['0']

theorem decodes_single_iff {record : FileRecord} : Decodes record ↔ FreeOfZero record := by
  unfold Decodes
  rw [ofRow_row]
  constructor
  · intro decoded
    split at decoded
    · cases decoded
    · rename_i timed
      rw [not_or] at timed
      have sameLink := congrArg AIDEProperties.lname (Except.ok.inj decoded)
      exact ⟨timed.1, timed.2, convertToNoneIfZero_eq_iff.mp sameLink⟩
  · rintro ⟨mtime, ctime, lname⟩
    rw [if_neg (not_or.mpr ⟨mtime, ctime⟩), convertToNoneIfZero_eq_iff.mpr lname]
    rfl

/-- The mode is read as the number it is where it has one octal digit. -/
theorem decodesMode_single_iff {record : FileRecord} :
    DecodesMode record ↔ FreeOfZero record ∧ record.perm < 8 := by
  constructor
  · intro decoded
    unfold DecodesMode at decoded
    rw [ofRow_row] at decoded
    split at decoded
    · cases decoded
    · rename_i timed
      rw [not_or] at timed
      have sameLink := congrArg AIDEProperties.lname (Except.ok.inj decoded)
      have samePerm := congrArg AIDEProperties.perm (Except.ok.inj decoded)
      exact ⟨⟨timed.1, timed.2, convertToNoneIfZero_eq_iff.mp sameLink⟩,
        Str.octalDigits_eq_self_iff.mp (Int.natCast_inj.mp samePerm)⟩
  · rintro ⟨free, small⟩
    have decoded : AIDEProperties.ofRow record.row = .ok record.properties :=
      decodes_single_iff.mpr free
    rw [DecodesMode, decoded, ← Str.octalDigits_of_lt small]
    unfold FileRecord.properties
    rw [Str.octalDigits_of_lt small]

theorem separates_of_decodes {record other : FileRecord} (decodes : Decodes record)
    (othersDecode : Decodes other) : Separates record other := by
  intro differ properties others isProperties isOthers same
  rw [decodes, Except.ok.injEq] at isProperties
  rw [othersDecode, Except.ok.injEq] at isOthers
  exact differ (FileRecord.properties_injective (isProperties.trans (same.trans isOthers.symm)))

/-- The rows of two records give what was recorded, and tell them apart, if and only if neither
has a time or a link name that is written as the placeholder, or is one. Read as the number it
is, the mode must have one octal digit, too. -/
theorem decodes_iff (record other : FileRecord) :
    ((Decodes record ∧ Decodes other ∧ Separates record other) ↔
      FreeOfZero record ∧ FreeOfZero other) ∧
    ((DecodesMode record ∧ DecodesMode other ∧ Separates record other) ↔
      (FreeOfZero record ∧ record.perm < 8) ∧ FreeOfZero other ∧ other.perm < 8) := by
  constructor
  · constructor
    · rintro ⟨decodes, othersDecode, _⟩
      exact ⟨decodes_single_iff.mp decodes, decodes_single_iff.mp othersDecode⟩
    · rintro ⟨free, othersFree⟩
      have decodes := decodes_single_iff.mpr free
      have othersDecode := decodes_single_iff.mpr othersFree
      exact ⟨decodes, othersDecode, separates_of_decodes decodes othersDecode⟩
  · constructor
    · rintro ⟨decodes, othersDecode, _⟩
      exact ⟨decodesMode_single_iff.mp decodes, decodesMode_single_iff.mp othersDecode⟩
    · rintro ⟨small, othersSmall⟩
      exact ⟨decodesMode_single_iff.mpr small, decodesMode_single_iff.mpr othersSmall,
        separates_of_decodes (decodes_single_iff.mpr small.1) (decodes_single_iff.mpr othersSmall.1)⟩

/-- A file whose modification time is not recorded. -/
def untimedRecord : FileRecord :=
  ⟨"/a".toList, none, 0, 0o100644, 2, 0, 0, 0, 0, 0, 1, 1, none, none⟩

/-- The placeholder of a time aborts the conversion. -/
theorem not_decodes_untimed :
    ¬ ∀ record other : FileRecord, Decodes record ∧ Decodes other ∧ Separates record other := by
  intro always
  have decoded : AIDEProperties.ofRow untimedRecord.row = .ok untimedRecord.properties :=
    (always untimedRecord untimedRecord).1
  rw [ofRow_row, if_pos (.inl rfl)] at decoded
  cases decoded

end Myscm.Server
