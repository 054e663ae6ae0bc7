import Myscm.Library.ByteOrder

/-!
Owns the headers of the old protocol's packets.

Owns: the access functions of the protocol version, the flags and the type; the bytes of a
written header; what is read of them.

Does not own: the bodies of packets.
-/

namespace Myscm.Old

open Myscm.Library

/-- `HEADER_LEN`. -/
def headerLen : Nat := 4

/-- `PROTO_VER`. -/
def protoVer : UInt8 := 1

/-- `packet_type`, as the number in a header. -/
abbrev PacketType : Type := UInt16

def upgradeRequest : PacketType := 0
def upgradeResponse : PacketType := 1

/-! ## Access functions -/

section Access

variable (order : ByteOrder) (buf : List UInt8)

/-- `read_proto_ver`. -/
def readProtoVer : UInt8 := buf.getD 0 0 >>> 4

/-- `write_proto_ver`. -/
def writeProtoVer : List UInt8 :=
  let mask : UInt8 := 0xf0
  buf.set 0 ((buf.getD 0 0 &&& ~~~mask) ||| ((protoVer <<< 4) &&& mask))

/-- `read_header_flags`. -/
def readHeaderFlags : UInt16 :=
  let hi := buf.getD 0 0 &&& 0x0f
  let lo := buf.getD 1 0
  (hi.toUInt16 <<< 12) ||| lo.toUInt16

/-- `write_header_flags`. -/
def writeHeaderFlags (flags : UInt16) : List UInt8 :=
  let hi := ((flags &&& 0x0f00) >>> 8).toUInt8
  let lo := (flags &&& 0xff).toUInt8
  let mask : UInt8 := 0x0f
  (buf.set 0 ((buf.getD 0 0 &&& ~~~mask) ||| (hi &&& mask))).set 1 lo

/-- `read_header_type`. -/
def readHeaderType : PacketType := order.ntohs (Buffer.load16 order buf 2)

/-- `write_header_type`. -/
def writeHeaderType (type : PacketType) : List UInt8 :=
  Buffer.write buf 2 (order.store 2 (order.htons type).toNat)

/-- `write_header`. -/
def writeHeader (flags : UInt16) (type : PacketType) : List UInt8 :=
  writeHeaderType order
    (writeHeaderFlags (writeProtoVer (Buffer.write buf 0 (List.replicate headerLen 0))) flags) type

end Access

/-! ## Written headers -/

/-- The first byte of a header: the version, and the upper flags. -/
def firstByte (flags : UInt16) : UInt8 :=
  (0x10 : UInt8) ||| (((flags &&& 0x0f00) >>> 8).toUInt8 &&& 0x0f)

/-- The bytes of a header. -/
def headerBytes (flags : UInt16) (type : PacketType) : List UInt8 :=
  firstByte flags :: (flags &&& 0xff).toUInt8 :: ByteOrder.big.store 2 type.toNat

@[simp]
theorem length_headerBytes (flags : UInt16) (type : PacketType) :
    (headerBytes flags type).length = headerLen := by
  simp [headerBytes, headerLen]

/-- A header is written over the first bytes of a buffer, and is the same in either order. -/
theorem writeHeader_eq (order : ByteOrder) {buf : List UInt8} (flags : UInt16)
    (type : PacketType) :
    writeHeader order buf flags type = headerBytes flags type ++ buf.drop headerLen := by
  have version : ((0 : UInt8) &&& ~~~(0xf0 : UInt8)) ||| ((protoVer <<< 4) &&& (0xf0 : UInt8)) =
      0x10 := by decide
  have keep : (0x10 : UInt8) &&& ~~~(0x0f : UInt8) = 0x10 := by decide
  have cleared : Buffer.write buf 0 (List.replicate headerLen 0) =
      0 :: 0 :: 0 :: 0 :: buf.drop headerLen := by
    simp [Buffer.write, headerLen, List.replicate]
  rw [writeHeader, cleared, writeProtoVer, writeHeaderFlags, writeHeaderType, Buffer.write,
    ByteOrder.store_htons, ByteOrder.length_store]
  simp only [List.getD_cons_zero, List.set_cons_zero, version, keep]
  rfl

section Reads

variable (order : ByteOrder) (flags : UInt16) (type : PacketType) (rest : List UInt8)

/-- The type of a header is read as it was written. -/
theorem readHeaderType_headerBytes :
    readHeaderType order (headerBytes flags type ++ rest) = type := by
  have bytes : Buffer.slice (headerBytes flags type ++ rest) 2 2 =
      ByteOrder.big.store 2 type.toNat := by
    simp [Buffer.slice, headerBytes]
  rw [readHeaderType, Buffer.load16, bytes, ByteOrder.ntohs_load (ByteOrder.length_store _ _ _),
    ByteOrder.load_store_of_lt _ (show _ < 256 ^ 2 from type.toNat_lt)]
  exact UInt16.ofNat_toNat

/-- The flags that are read: the upper four stand four places too high. -/
theorem readHeaderFlags_headerBytes :
    (readHeaderFlags (headerBytes flags type ++ rest)).toNat =
      flags.toNat / 256 % 16 * 4096 + flags.toNat % 256 := by
  have upper : (((flags &&& 0x0f00) >>> 8).toUInt8).toNat % 16 = flags.toNat / 256 % 16 := by
    have shifted : (flags.toNat &&& 0x0f00) >>> 8 = flags.toNat / 256 % 16 := by
      rw [Nat.shiftRight_and_distrib, Nat.shiftRight_eq_div_pow]
      exact Nat.and_two_pow_sub_one_eq_mod _ 4
    have value : (((flags &&& 0x0f00) >>> 8).toUInt8).toNat =
        ((flags.toNat &&& 0x0f00) >>> 8) % 256 := rfl
    rw [value, shifted]
    omega
  have hi : (firstByte flags &&& 0x0f).toNat = flags.toNat / 256 % 16 := by
    rw [← upper, firstByte, UInt8.toNat_and, UInt8.toNat_or, UInt8.toNat_and,
      Nat.and_or_distrib_right, Nat.and_assoc]
    show 0 ||| _ = _
    rw [Nat.zero_or]
    exact Nat.and_two_pow_sub_one_eq_mod _ 4
  have lo : ((flags &&& 0xff).toUInt8).toNat = flags.toNat % 256 := by
    have value : ((flags &&& 0xff).toUInt8).toNat = (flags.toNat &&& 0xff) % 256 := rfl
    have masked : flags.toNat &&& 0xff = flags.toNat % 256 :=
      Nat.and_two_pow_sub_one_eq_mod _ 8
    rw [value, masked]
    omega
  have whole : (readHeaderFlags (headerBytes flags type ++ rest)).toNat =
      (((firstByte flags &&& 0x0f).toNat <<< 12) % 65536) |||
        ((flags &&& 0xff).toUInt8).toNat := rfl
  rw [whole, hi, lo, Nat.mod_eq_of_lt (by rw [Nat.shiftLeft_eq]; omega),
    ← Nat.shiftLeft_add_eq_or_of_lt (by omega), Nat.shiftLeft_eq]

/-- The flags are read as they were written if and only if no upper one is set. -/
theorem readHeaderFlags_eq_iff :
    readHeaderFlags (headerBytes flags type ++ rest) = flags ↔ flags.toNat < 256 := by
  have below := flags.toNat_lt
  rw [← UInt16.toNat_inj, readHeaderFlags_headerBytes]
  omega

end Reads

end Myscm.Old
