import Myscm.Old.Io
import Myscm.Old.Packets
import Mathlib.Data.List.GetD

/-!
Owns the `UPGRADE_REQUEST` packet of the old protocol: how a client writes it and a server reads
it.

Owns: the offsets of the fields; `write_upgrade_request`; the server's access functions;
`recv_upgrade_request`; which requests survive the wire.

Does not own: the paths of configuration sets.
-/

namespace Myscm.Old

open Myscm.Library

/-! ## The packet -/

def configSetOffset : Nat := headerLen
def comprTypeOffset : Nat := configSetOffset + 2
def pkgMgrOffset : Nat := comprTypeOffset + 1
def lastUpgradeTimeOffset : Nat := pkgMgrOffset + 1

/-- `UPGRADE_REQUEST_LEN`. -/
def upgradeRequestLen : Nat := headerLen + 2 + 1 + 1 + 4

/-- `upgrade_request_t`, with the compression and the package manager as the numbers of their
enumerations. -/
structure UpgradeRequest where
  configSet : UInt16
  comprType : UInt8
  pkgMgr : UInt8
  lastUpgradeTime : UInt32
  deriving DecidableEq

section Packet

variable (order : ByteOrder) (buf : List UInt8)

/-- The fields that `write_upgrade_request` stores behind the header. -/
def writeRequestFields (request : UpgradeRequest) : List UInt8 :=
  let configSetNet := order.htons request.configSet
  let lastUpgradeTimeNet := order.htonl request.lastUpgradeTime
  let buf := Buffer.write buf configSetOffset (order.store 2 configSetNet.toNat)
  let buf := Buffer.write buf comprTypeOffset [request.comprType]
  let buf := Buffer.write buf pkgMgrOffset [request.pkgMgr]
  Buffer.write buf lastUpgradeTimeOffset (order.store 4 lastUpgradeTimeNet.toNat)

/-- `write_upgrade_request`. -/
def writeUpgradeRequest (request : UpgradeRequest) : List UInt8 :=
  writeRequestFields order (writeHeader order buf 0 upgradeRequest) request

/-- `read_config_set`, which widens the 16 bits before it reorders them. -/
def readConfigSet : UInt16 :=
  (order.ntohl (Buffer.load16 order buf configSetOffset).toUInt32).toUInt16

/-- `read_compr_type`. -/
def readComprType : UInt8 := buf.getD comprTypeOffset 0

/-- `read_pkg_mgr`. -/
def readPkgMgr : UInt8 := buf.getD pkgMgrOffset 0

/-- `read_last_upgrade_time`. -/
def readLastUpgradeTime : UInt32 :=
  order.ntohl (Buffer.load32 order buf lastUpgradeTimeOffset)

/-- `init_upgrade_request_struct`. -/
def initUpgradeRequestStruct : UpgradeRequest :=
  ⟨readConfigSet order buf, readComprType buf, readPkgMgr buf, readLastUpgradeTime order buf⟩

end Packet

/-- `recv_upgrade_request`, over the tries of `SSL_read`. None is a return of -1. -/
def recvUpgradeRequest (order : ByteOrder) (attempts : Nat → Attempt (Piece upgradeRequestLen)) :
    Option UpgradeRequest :=
  match sslRead attempts with
  | none => none
  | some bytes =>
      let buf := Buffer.write (List.replicate upgradeRequestLen 0) 0 bytes
      if readHeaderType order buf ≠ upgradeRequest then
        none
      else
        some (initUpgradeRequestStruct order buf)

/-! ## Written requests -/

/-- The fields of a request in network order. -/
def fieldBytes (request : UpgradeRequest) : List UInt8 :=
  ByteOrder.big.store 2 request.configSet.toNat ++ request.comprType :: request.pkgMgr ::
    ByteOrder.big.store 4 request.lastUpgradeTime.toNat

/-- The bytes of a packet with a header and the fields of a request. -/
def encode (order : ByteOrder) (flags : UInt16) (type : PacketType) (request : UpgradeRequest) :
    List UInt8 :=
  writeRequestFields order
    (writeHeader order (List.replicate upgradeRequestLen 0) flags type) request

/-- What the client sends is the packet with its own flags and type. -/
theorem writeUpgradeRequest_eq (order : ByteOrder) (request : UpgradeRequest) :
    writeUpgradeRequest order (List.replicate upgradeRequestLen 0) request =
      encode order 0 upgradeRequest request := rfl

theorem encode_eq (order : ByteOrder) (flags : UInt16) (type : PacketType)
    (request : UpgradeRequest) :
    encode order flags type request = headerBytes flags type ++ fieldBytes request := by
  have two : ∀ n, ByteOrder.big.store 2 n = [UInt8.ofNat (n / 256), UInt8.ofNat n] := fun _ => rfl
  have four : ∀ n, ∃ a b c d, ByteOrder.big.store 4 n = [a, b, c, d] := fun _ =>
    ⟨_, _, _, _, rfl⟩
  obtain ⟨a, b, c, d, isTime⟩ := four request.lastUpgradeTime.toNat
  rw [encode, writeHeader_eq, writeRequestFields, ByteOrder.store_htons, ByteOrder.store_htonl,
    fieldBytes, headerBytes, two, two, isTime]
  rfl

/-! ## What the server reads -/

section Reads

variable (order : ByteOrder) (flags : UInt16) (type : PacketType) (request : UpgradeRequest)

/-- The 16 bits of a configuration set, reordered as 32, are lost where bytes are reordered. -/
theorem readConfigSet_encode :
    readConfigSet order (encode order flags type request) =
      match order with
      | .big => request.configSet
      | .little => 0 := by
  have bytes : Buffer.slice (headerBytes flags type ++ fieldBytes request) configSetOffset 2 =
      ByteOrder.big.store 2 request.configSet.toNat := rfl
  have below := request.configSet.toNat_lt
  rw [readConfigSet, encode_eq, Buffer.load16, bytes]
  cases order with
  | big =>
      have same : ByteOrder.big.toHost 4 request.configSet.toNat = request.configSet.toNat := by
        exact ByteOrder.load_store_of_lt _ (show _ < 256 ^ 4 from Nat.lt_trans below (by decide))
      rw [ByteOrder.load_store_of_lt _ (show _ < 256 ^ 2 from below), UInt16.ofNat_toNat, ByteOrder.ntohl,
        UInt16.toNat_toUInt32, same]
      apply UInt16.toNat_inj.mp
      simp
  | little =>
      have shifted : ∀ n < 65536, ByteOrder.little.toHost 4 n % 65536 = 0 := by
        intro n small
        have upper : n / 256 / 256 = 0 := by omega
        have zero : (UInt8.ofNat 0).toNat = 0 := rfl
        simp only [zero, Nat.zero_div, ByteOrder.toHost, ByteOrder.store, ByteOrder.load, leBytes, List.reverse_cons,
          List.reverse_nil, List.nil_append, List.cons_append, leValue, upper]
        omega
      apply UInt16.toNat_inj.mp
      rw [UInt32.toNat_toUInt16, ByteOrder.ntohl, UInt16.toNat_toUInt32, UInt32.toNat_ofNat']
      have zero := shifted _ (UInt16.ofNat (ByteOrder.little.load
        (ByteOrder.big.store 2 request.configSet.toNat))).toNat_lt
      rw [Nat.mod_mod_of_dvd _ (by decide)]
      exact zero

theorem readConfigSet_eq_iff :
    readConfigSet order (encode order flags type request) = request.configSet ↔
      order = .big ∨ request.configSet = 0 := by
  rw [readConfigSet_encode]
  cases order with
  | big => simp
  | little => simp [eq_comm]

theorem readComprType_encode :
    readComprType (encode order flags type request) = request.comprType := by
  rw [encode_eq]
  rfl

theorem readPkgMgr_encode : readPkgMgr (encode order flags type request) = request.pkgMgr := by
  rw [encode_eq]
  rfl

theorem readLastUpgradeTime_encode :
    readLastUpgradeTime order (encode order flags type request) = request.lastUpgradeTime := by
  have bytes : Buffer.slice (headerBytes flags type ++ fieldBytes request) lastUpgradeTimeOffset 4 =
      ByteOrder.big.store 4 request.lastUpgradeTime.toNat := rfl
  rw [readLastUpgradeTime, encode_eq, Buffer.load32, bytes,
    ByteOrder.ntohl_load (ByteOrder.length_store _ _ _),
    ByteOrder.load_store_of_lt _ (show _ < 256 ^ 4 from request.lastUpgradeTime.toNat_lt)]
  exact UInt32.ofNat_toNat

end Reads

/-! ## Requests that survive the wire -/

/-- The server reads the header and the fields that were written. -/
structure Survives (order : ByteOrder) (flags : UInt16) (type : PacketType)
    (request : UpgradeRequest) : Prop where
  headerType : readHeaderType order (encode order flags type request) = type
  headerFlags : readHeaderFlags (encode order flags type request) = flags
  fields : initUpgradeRequestStruct order (encode order flags type request) = request

/-- A request is reported only if all of its bytes were received. -/
def ReceivesWhole (order : ByteOrder) (attempts : Nat → Attempt (Piece upgradeRequestLen)) : Prop :=
  ∀ request, recvUpgradeRequest order attempts = some request →
    ∃ bytes, sslRead attempts = some bytes ∧ bytes.length = upgradeRequestLen

/-- The bytes that are received are a whole packet, or their type is not that of a request. Bytes
that are missing count as zero. -/
def WholeOrTyped (attempts : Nat → Attempt (Piece upgradeRequestLen)) : Prop :=
  ∀ bytes, sslRead attempts = some bytes →
    bytes.length = upgradeRequestLen ∨ bytes.getD 2 0 ≠ 0 ∨ bytes.getD 3 0 ≠ 0

theorem survives_iff_fields (order : ByteOrder) (flags : UInt16) (type : PacketType)
    (request : UpgradeRequest) :
    Survives order flags type request ↔
      flags.toNat < 256 ∧ (order = .big ∨ request.configSet = 0) := by
  have flagsIff : readHeaderFlags (encode order flags type request) = flags ↔ flags.toNat < 256 := by
    rw [encode_eq]
    exact readHeaderFlags_eq_iff flags type _
  constructor
  · intro survives
    exact ⟨flagsIff.mp survives.headerFlags, (readConfigSet_eq_iff order flags type request).mp
      (congrArg UpgradeRequest.configSet survives.fields)⟩
  · rintro ⟨small, plain⟩
    refine ⟨?_, flagsIff.mpr small, ?_⟩
    · rw [encode_eq]
      exact readHeaderType_headerBytes order flags type _
    · rw [initUpgradeRequestStruct, (readConfigSet_eq_iff order flags type request).mpr plain,
        readComprType_encode, readPkgMgr_encode, readLastUpgradeTime_encode]

theorem slice_two {buf : List UInt8} {offset : Nat} (inside : offset + 1 < buf.length) :
    Buffer.slice buf offset 2 = [buf.getD offset 0, buf.getD (offset + 1) 0] := by
  have first : offset < buf.length := Nat.lt_of_succ_lt inside
  rw [Buffer.slice, List.drop_eq_getElem_cons first, List.drop_eq_getElem_cons inside,
    List.getD_eq_getElem _ _ first, List.getD_eq_getElem _ _ inside]
  rfl

/-- A byte of the buffer that `SSL_read` writes to: one that was received, or zero. -/
theorem getD_received (bytes : List UInt8) (place : Nat) :
    (Buffer.write (List.replicate upgradeRequestLen 0) 0 bytes).getD place 0 =
      bytes.getD place 0 := by
  rw [Buffer.write, List.take_zero, List.nil_append]
  rcases Nat.lt_or_ge place bytes.length with received | missing
  · rw [List.getD_append _ _ _ _ received]
  · rw [List.getD_append_right _ _ _ _ missing, List.drop_replicate, List.getD_eq_default _ _ missing]
    exact List.getElem?_getD_replicate_default_eq _ _ _

/-- The type of the bytes that were received, the others zero. -/
theorem readHeaderType_received (order : ByteOrder) {bytes : List UInt8}
    (bounded : bytes.length ≤ upgradeRequestLen) :
    readHeaderType order (Buffer.write (List.replicate upgradeRequestLen 0) 0 bytes) =
      UInt16.ofNat (256 * (bytes.getD 2 0).toNat + (bytes.getD 3 0).toNat) := by
  have whole : (Buffer.write (List.replicate upgradeRequestLen (0 : UInt8)) 0 bytes).length =
      upgradeRequestLen := by
    simp [Buffer.write]
    omega
  rw [readHeaderType, Buffer.load16, slice_two (by rw [whole]; decide),
    ByteOrder.ntohs_load rfl, getD_received, getD_received]
  simp only [ByteOrder.load, List.reverse_cons, List.reverse_nil, List.nil_append, List.cons_append,
    leValue, Nat.mul_zero, Nat.add_zero]
  rw [Nat.add_comm]

theorem receivesWhole_iff_typed (order : ByteOrder)
    (attempts : Nat → Attempt (Piece upgradeRequestLen)) :
    ReceivesWhole order attempts ↔ WholeOrTyped attempts := by
  unfold ReceivesWhole WholeOrTyped recvUpgradeRequest
  cases read : sslRead attempts with
  | none => simp
  | some bytes =>
      have bounded := (sslRead_some read).2
      have isRequest : readHeaderType order
          (Buffer.write (List.replicate upgradeRequestLen 0) 0 bytes) = upgradeRequest ↔
            bytes.getD 2 0 = 0 ∧ bytes.getD 3 0 = 0 := by
        rw [readHeaderType_received order bounded, ← UInt16.toNat_inj, UInt16.toNat_ofNat',
          ← UInt8.toNat_inj, ← UInt8.toNat_inj]
        have below := (bytes.getD 2 0).toNat_lt
        have belowLow := (bytes.getD 3 0).toNat_lt
        have zero : upgradeRequest.toNat = 0 := rfl
        have zeroByte : (0 : UInt8).toNat = 0 := rfl
        rw [zero, zeroByte]
        omega
      dsimp only
      by_cases typed : readHeaderType order
          (Buffer.write (List.replicate upgradeRequestLen 0) 0 bytes) = upgradeRequest
      · rw [if_neg (not_not.mpr typed)]
        obtain ⟨high, low⟩ := isRequest.mp typed
        constructor
        · intro receives other same
          obtain rfl := Option.some.inj same
          obtain ⟨_, same, whole⟩ := receives _ rfl
          obtain rfl := Option.some.inj same
          exact .inl whole
        · intro wholeOrTyped _ _
          refine ⟨bytes, rfl, ?_⟩
          rcases wholeOrTyped bytes rfl with whole | notHigh | notLow
          · exact whole
          · exact absurd high notHigh
          · exact absurd low notLow
      · rw [if_pos typed]
        constructor
        · intro _ other same
          obtain rfl := Option.some.inj same
          by_contra short
          rw [not_or, not_or, not_not, not_not] at short
          exact typed (isRequest.mpr short.2)
        · intro _ request none
          cases none

/-- A request survives the wire if and only if no upper flag is set, and its configuration set is
zero or the machine keeps numbers in network order. Success means a whole packet if and only if
no shorter one has the type of a request. -/
theorem upgradeRequest_iff (order : ByteOrder) (flags : UInt16) (type : PacketType)
    (request : UpgradeRequest) (attempts : Nat → Attempt (Piece upgradeRequestLen)) :
    (Survives order flags type request ↔
      flags.toNat < 256 ∧ (order = .big ∨ request.configSet = 0)) ∧
    (ReceivesWhole order attempts ↔ WholeOrTyped attempts) :=
  ⟨survives_iff_fields order flags type request, receivesWhole_iff_typed order attempts⟩

/-- A request of configuration set 1 on a machine of little byte order. -/
theorem not_survives_little :
    ¬ ∀ (order : ByteOrder) (flags : UInt16) (type : PacketType) (request : UpgradeRequest)
        (attempts : Nat → Attempt (Piece upgradeRequestLen)),
      flags.toNat < 4096 →
        Survives order flags type request ∧ ReceivesWhole order attempts := by
  intro always
  have survives := (always .little 0 upgradeRequest ⟨1, 0, 0, 0⟩ (fun _ => .failed) (by decide)).1
  rcases ((survives_iff_fields _ _ _ _).mp survives).2 with big | zero
  · cases big
  · exact absurd zero (by decide)

end Myscm.Old
