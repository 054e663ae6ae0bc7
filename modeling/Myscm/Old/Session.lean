import Myscm.Old.UpgradeRequest
import Myscm.Old.UpgradeResponse

/-!
Owns a session of the old protocol: one client, one server, and the bytes that travel between
them.

Owns: what each party sends, on every way its functions may end; the checks of a request; what
the client's file can hold when the bytes arrive in order and in pieces of any size.

Does not own: the handshakes of SSL; the building of the archive; log messages.
-/

namespace Myscm.Old

open Myscm.Library Countdown

/-! ## The client -/

/-- Numbers of `compression_type`. -/
def noCompression : UInt8 := 0
def tarGzCompression : UInt8 := 1
def lastCompressionTypeSentinel : UInt8 := 6

/-- Numbers of `package_mgr`. -/
def dpkgPkgMgr : UInt8 := 0
def lastPkgMgrTypeSentinel : UInt8 := 2

/-- The request of `run_protocol`: `CLIENT_CONFIG_SET`, `CLIENT_COMPRESSION_TYPE`,
`CLIENT_PACKAGE_MANAGER` and `CLIENT_LAST_UPGRADE_TIME`. -/
def clientRequest : UpgradeRequest :=
  ⟨0, tarGzCompression, dpkgPkgMgr, 0⟩

/-- `send_upgrade_request`: the bytes that are sent, and whether it returns 0. -/
def sendUpgradeRequest (order : ByteOrder) (request : UpgradeRequest)
    (attempts : Nat → Attempt Nat) : List UInt8 × Bool :=
  let buf := writeUpgradeRequest order (List.replicate upgradeRequestLen 0) request
  match sslSend attempts buf with
  | none => ([], false)
  | some sent => (sent, sent.length = upgradeRequestLen)

/-- What a client meets: the tries for its request, and the response. -/
structure ClientEnv where
  request : Nat → Attempt Nat
  response : RecvEnv

section Client

variable (order : ByteOrder) (env : ClientEnv)

/-- What `run_protocol` sends. -/
def clientSends : List UInt8 :=
  (sendUpgradeRequest order clientRequest env.request).1

/-- `run_protocol`: the file it receives, and how it ends. -/
def runProtocol : List UInt8 × Call Unit :=
  if (sendUpgradeRequest order clientRequest env.request).2 then
    ((recvUpgradeResponse order env.response).1.file, (recvUpgradeResponse order env.response).2)
  else
    ([], .failed)

end Client

/-! ## The server -/

/-- `error_code`, as the number in a packet. -/
abbrev ErrorCode : Type := UInt16

def unknownPkgMgr : ErrorCode := 2
def unknownComprType : ErrorCode := 3
def unknownConfigSet : ErrorCode := 4

/-- `PROTO_FAILURE`. -/
def protoFailure : PacketType := 3

/-- `PROTO_FAILURE_LEN`. -/
def protoFailureLen : Nat := headerLen + 2

/-- `write_proto_failure_packet`. -/
def writeProtoFailurePacket (order : ByteOrder) (err : ErrorCode) : List UInt8 :=
  Buffer.write (writeHeader order (List.replicate protoFailureLen 0) 0 protoFailure) headerLen
    (order.store 2 (order.htons err).toNat)

/-- What a server meets: the client's message and its bytes; the configuration sets there are,
and the clock; what stands in `err_code` where no check sets it; the tries for a failure packet;
whether the archive is prepared; its size, and its sending. -/
structure ServerEnv where
  polls : Bool
  request : Nat → Attempt (Piece upgradeRequestLen)
  configSets : UInt16 → Bool
  clock : Option Int
  errCode : ErrorCode
  failure : Nat → Attempt Nat
  prepares : Bool
  archiveSize : Option UInt64
  opens : Bool
  response : SendEnv
  closes : Bool

section Server

variable (order : ByteOrder) (env : ServerEnv)

/-- `check_if_last_upgrade_time_valid`. -/
def checkIfLastUpgradeTimeValid (lastUpgradeTime : UInt32) : Bool :=
  match env.clock with
  | none => false
  | some seconds => ¬ seconds < lastUpgradeTime.toNat

/-- `check_if_upgrade_request_valid`, with the error code that it leaves. -/
def checkIfUpgradeRequestValid (req : UpgradeRequest) : Except ErrorCode Unit :=
  if ¬ env.configSets req.configSet then
    .error unknownConfigSet
  else if ¬ req.comprType < lastCompressionTypeSentinel then
    .error unknownComprType
  else if ¬ req.pkgMgr < lastPkgMgrTypeSentinel then
    .error unknownPkgMgr
  else if ¬ checkIfLastUpgradeTimeValid env req.lastUpgradeTime then
    .error env.errCode
  else
    .ok ()

/-- `send_response_to_client`: the bytes that are sent, and how it ends. -/
def sendResponseToClient : List UInt8 × Call Unit :=
  match env.archiveSize with
  | none => ([], .failed)
  | some size =>
      if env.opens then
        let (state, outcome) := sendUpgradeResponse order size env.response
        let sent := (sslSend env.response.header (responsePacket order size)).getD [] ++ state.sent
        match outcome with
        | .returned () => (sent, if env.closes then .returned () else .failed)
        | stopped => (sent, stopped)
      else
        ([], .failed)

/-- `start_protocol`: the bytes that are sent, and how it ends. -/
def startProtocol : List UInt8 × Call Unit :=
  if env.polls then
    match recvUpgradeRequest order env.request with
    | none => ([], .failed)
    | some req =>
        match checkIfUpgradeRequestValid env req with
        | .error errCode =>
            ((sslSend env.failure (writeProtoFailurePacket order errCode)).getD [], .failed)
        | .ok () =>
            if env.prepares then
              sendResponseToClient order env
            else
              ([], .failed)
  else
    ([], .failed)

end Server

/-! ## What is sent -/

section Sent

variable {order : ByteOrder} {archive : List UInt8}

/-- A sending loop sends a file from its place in it on, or stops. -/
theorem sendLoop_isPart {state : SendState} {rounds : List SendRound}
    (same : ∀ round ∈ rounds, round.file = archive) :
    (sendLoop state rounds).1.sent <+: state.sent ++ archive.drop state.fileOffset := by
  induction rounds generalizing state with
  | nil => exact List.prefix_append _ _
  | cons round rest inductionHypothesis =>
      rw [sendLoop, same round List.mem_cons_self]
      split
      · exact List.prefix_append _ _
      · cases read : bulkPread archive chunkLen state.fileOffset round.preads with
        | running => exact List.prefix_append _ _
        | failed => exact List.prefix_append _ _
        | returned buf =>
            have isBuf := bulkPread_returned read
            cases buf with
            | nil => exact List.prefix_append _ _
            | cons b more =>
                dsimp only
                cases isSent : sslSend round.attempts (b :: more) with
                | none => exact List.prefix_append _ _
                | some sent =>
                    have bufPrefix : (b :: more) <+: archive.drop state.fileOffset :=
                      isBuf ▸ List.take_prefix _ _
                    have sentPrefix := (sslSend_some isSent).trans bufPrefix
                    dsimp only
                    split
                    · exact (List.prefix_append_right_inj _).mpr sentPrefix
                    · rename_i full
                      have later := @inductionHypothesis
                        ⟨state.len - UInt64.ofNat sent.length, state.fileOffset + (b :: more).length,
                          state.sent ++ sent, state.log ++ [⟨state.len, sent.length⟩]⟩
                        fun other member => same other (List.mem_cons_of_mem _ member)
                      have whole : sent = b :: more :=
                        (sslSend_some isSent).eq_of_length (not_not.mp full)
                      have split : (b :: more) ++ archive.drop (state.fileOffset + (b :: more).length) =
                          archive.drop state.fileOffset := by
                        rw [← List.drop_drop]
                        exact (List.prefix_append_drop bufPrefix).symm
                      dsimp only at later
                      rw [List.append_assoc, whole, split] at later
                      rw [whole]
                      exact later

/-- The archive does not change, and its size is announced. -/
def KeepsArchive (env : ServerEnv) (archive : List UInt8) : Prop :=
  (∀ size, env.archiveSize = some size → size.toNat = archive.length) ∧
    ∀ round ∈ env.response.rounds, round.file = archive

theorem length_writeProtoFailurePacket (errCode : ErrorCode) :
    (writeProtoFailurePacket order errCode).length = protoFailureLen := by
  rw [writeProtoFailurePacket, writeHeader_eq, ByteOrder.store_htons]
  simp [Buffer.write, headerLen, protoFailureLen]

theorem length_responsePacket (len : UInt64) :
    (responsePacket order len).length = upgradeResponseLen := by
  rw [responsePacket_eq]
  simp [headerLen, upgradeResponseLen, upgradeResponseLengthLen]

/-- All that is sent of a response belongs to it. -/
theorem sendResponseToClient_prefix {env : ServerEnv} (keeps : KeepsArchive env archive) :
    (sendResponseToClient order env).1 = [] ∨
      ∃ size, size.toNat = archive.length ∧
        (sendResponseToClient order env).1 <+: responsePacket order size ++ archive := by
  unfold sendResponseToClient
  cases announced : env.archiveSize with
  | none => exact .inl rfl
  | some size =>
      dsimp only
      split
      · right
        refine ⟨size, keeps.1 size announced, ?_⟩
        have sends : (sslSend env.response.header (responsePacket order size)).getD [] ++
            (sendUpgradeResponse order size env.response).1.sent <+:
              responsePacket order size ++ archive := by
          unfold sendUpgradeResponse
          cases isSent : sslSend env.response.header (responsePacket order size) with
          | none => exact List.nil_prefix
          | some header =>
              have headerPrefix := sslSend_some isSent
              dsimp only [Option.getD_some]
              split
              · rw [List.append_nil]
                exact headerPrefix.trans (List.prefix_append _ _)
              · have isPacket : header = responsePacket order size := by
                  apply headerPrefix.eq_of_length
                  have atMost := headerPrefix.length_le
                  rw [length_responsePacket] at atMost ⊢
                  omega
                rw [isPacket]
                apply (List.prefix_append_right_inj _).mpr
                exact @sendLoop_isPart _ ⟨size, 0, [], []⟩ _ keeps.2
        split <;> exact sends
      · exact .inl rfl

/-- A server that sends more than a failure packet answers a request that it accepts, and all it
sends belongs to the response. -/
theorem startProtocol_cases {env : ServerEnv} (keeps : KeepsArchive env archive) :
    (startProtocol order env).1.length ≤ protoFailureLen ∨
      ∃ req size, recvUpgradeRequest order env.request = some req ∧
        checkIfUpgradeRequestValid env req = .ok () ∧ size.toNat = archive.length ∧
        (startProtocol order env).1 <+: responsePacket order size ++ archive := by
  have failed : ([] : List UInt8).length ≤ protoFailureLen := Nat.zero_le _
  unfold startProtocol
  split
  · cases recvUpgradeRequest order env.request with
    | none => exact .inl failed
    | some req =>
        dsimp only
        cases checked : checkIfUpgradeRequestValid env req with
        | error errCode =>
            left
            dsimp only
            cases isSent : sslSend env.failure (writeProtoFailurePacket order errCode) with
            | none => exact failed
            | some sent =>
                rw [← length_writeProtoFailurePacket errCode]
                exact (sslSend_some isSent).length_le
        | ok _ =>
            dsimp only
            split
            · rcases sendResponseToClient_prefix keeps with nothing | ⟨size, isSize, sends⟩
              · left
                rw [nothing]
                exact failed
              · exact .inr ⟨req, size, rfl, checked, isSize, sends⟩
            · exact .inl failed
  · exact .inl failed

end Sent

/-! ## What is received -/

section Received

/-- The bytes of a file in whichever state the writing stops. -/
theorem bulkWrite_prefix {buf : List UInt8} {writes : List (Option Nat)} :
    (bulkWrite buf writes).1 <+: buf := by
  induction writes generalizing buf with
  | nil => exact List.nil_prefix
  | cons write rest inductionHypothesis =>
      cases write with
      | none => exact List.nil_prefix
      | some size =>
          rw [bulkWrite]
          dsimp only
          split
          · exact List.take_prefix _ _
          · have later := (List.prefix_append_right_inj (buf.take size)).mpr
              (@inductionHypothesis (buf.drop size))
            rwa [List.take_append_drop] at later

/-- The file of a receiving loop holds what was delivered, from its beginning on. -/
theorem recvLoop_prefix (state : RecvState) (rounds : List RecvRound) :
    (recvLoop state rounds).1.file <+: state.file ++ (delivered rounds).flatten := by
  induction rounds generalizing state with
  | nil => exact List.prefix_append _ _
  | cons round rest inductionHypothesis =>
      rw [recvLoop, delivered]
      split
      · exact List.prefix_append _ _
      · cases sslRead round.attempts with
        | none => exact List.prefix_append _ _
        | some piece =>
            dsimp only
            cases outcome : (bulkWrite piece round.writes).2 with
            | returned done =>
                have whole : (bulkWrite piece round.writes).1 = piece :=
                  bulkWrite_returned (Prod.ext rfl outcome)
                have later := inductionHypothesis ⟨state.fileLen - UInt64.ofNat piece.length,
                  state.file ++ piece, state.log ++ [⟨state.fileLen, piece.length⟩]⟩
                dsimp only at later ⊢
                rw [whole, List.flatten_cons, ← List.append_assoc]
                exact later
            | running =>
                dsimp only
                rw [List.flatten_cons, List.flatten_nil, List.append_nil]
                exact (List.prefix_append_right_inj _).mpr bulkWrite_prefix
            | failed =>
                dsimp only
                rw [List.flatten_cons, List.flatten_nil, List.append_nil]
                exact (List.prefix_append_right_inj _).mpr bulkWrite_prefix

/-- What a client makes of a response of which it receives a part: its file is a part of the
archive, and the whole of it where the client returns 0. -/
theorem recvUpgradeResponse_response {order serverOrder : ByteOrder} {env : RecvEnv} {size : UInt64}
    {archive : List UInt8} (isSize : size.toNat = archive.length)
    (received : ∀ header, sslRead env.header = some header →
      header ++ (delivered env.rounds).flatten <+: responsePacket serverOrder size ++ archive) :
    (recvUpgradeResponse order env).1.file <+: archive ∧
      ((recvUpgradeResponse order env).2 = .returned () →
        (recvUpgradeResponse order env).1.file = archive) := by
  have refused : ([] : List UInt8) <+: archive ∧
      ((.failed : Call Unit) = .returned () → ([] : List UInt8) = archive) :=
    ⟨List.nil_prefix, fun returned => by cases returned⟩
  unfold recvUpgradeResponse
  cases read : sslRead env.header with
  | none => exact refused
  | some header =>
      have bounded := (sslRead_some read).2
      have whole := received header read
      dsimp only
      split
      · exact refused
      · split
        · exact refused
        · split
          · -- The header is the packet, and what follows it is a part of the archive.
            have isPacket : header = responsePacket serverOrder size := by
              have front := (List.prefix_append header _).trans whole
              have same := List.prefix_of_prefix_length_le front (List.prefix_append _ _)
                (by rw [length_responsePacket]; exact bounded)
              apply same.eq_of_length
              rw [length_responsePacket]
              omega
            have isPart : (delivered env.rounds).flatten <+: archive := by
              rw [isPacket] at whole
              exact (List.prefix_append_right_inj _).mp whole
            have announced : readUpgradeResponseLength order header = size := by
              rw [isPacket, responsePacket_eq serverOrder, ← responsePacket_eq order]
              exact (readUpgradeResponseLength_responsePacket order size).2
            have partly := recvLoop_prefix ⟨size, [], []⟩ env.rounds
            rw [announced]
            cases run : recvLoop ⟨size, [], []⟩ env.rounds with
            | mk state outcome =>
                rw [run] at partly
                have isPrefix : state.file <+: archive := partly.trans isPart
                cases outcome with
                | running => exact ⟨isPrefix, fun returned => by cases returned⟩
                | failed => exact ⟨isPrefix, fun returned => by cases returned⟩
                | returned done =>
                    refine ⟨isPrefix, fun _ => isPrefix.eq_of_length ?_⟩
                    have atMost := isPart.length_le
                    have aligned : Aligned size.toNat ((delivered env.rounds).map List.length) := by
                      apply aligned_of_sum_le
                      rw [← List.length_flatten]
                      omega
                    obtain ⟨isFile, atLeast⟩ := @file_recvLoop ⟨size, [], []⟩ _ _ aligned run
                    rw [isFile, List.nil_append, List.length_take]
                    dsimp only at atLeast ⊢
                    omega
          · exact refused

/-- Too few bytes for a response. -/
theorem recvUpgradeResponse_short {order : ByteOrder} {env : RecvEnv} {sent : List UInt8}
    (short : sent.length ≤ protoFailureLen)
    (received : ∀ header, sslRead env.header = some header →
      header ++ (delivered env.rounds).flatten <+: sent) :
    recvUpgradeResponse order env = (⟨0, [], []⟩, .failed) := by
  unfold recvUpgradeResponse
  cases read : sslRead env.header with
  | none => rfl
  | some header =>
      have atMost := (received header read).length_le
      rw [List.length_append] at atMost
      have few : header.length < upgradeResponseLen := by
        unfold protoFailureLen headerLen at short
        unfold upgradeResponseLen upgradeResponseLengthLen headerLen
        omega
      dsimp only
      rw [if_pos few]

/-- The request of a client as far as it was received: without its seventh byte, its compression
is missing. -/
def receivedRequest (received : Nat) : UpgradeRequest :=
  { clientRequest with comprType := if 6 < received then tarGzCompression else noCompression }

theorem clientPacket_eq (order : ByteOrder) :
    writeUpgradeRequest order (List.replicate upgradeRequestLen 0) clientRequest =
      [16, 0, 0, 0, 0, 0, 1, 0, 0, 0, 0, 0] := by
  rw [writeUpgradeRequest_eq, encode_eq]
  decide

/-- What a server reads of the client's request, on machines of any byte orders. -/
theorem recvUpgradeRequest_client {order clientOrder : ByteOrder} {env : ClientEnv}
    {attempts : Nat → Attempt (Piece upgradeRequestLen)} {bytes : List UInt8}
    (read : sslRead attempts = some bytes) (received : bytes <+: clientSends clientOrder env) :
    recvUpgradeRequest order attempts = some (receivedRequest bytes.length) := by
  have isPart : bytes <+: [16, 0, 0, 0, 0, 0, 1, 0, 0, 0, 0, 0] := by
    apply received.trans
    rw [clientSends, sendUpgradeRequest, clientPacket_eq]
    cases isSent : sslSend env.request [16, 0, 0, 0, 0, 0, 1, 0, 0, 0, 0, 0] with
    | none => exact List.nil_prefix
    | some sent => exact sslSend_some isSent
  have atMost : bytes.length < 13 := Nat.lt_succ_of_le isPart.length_le
  have reads : ∀ order : ByteOrder, ∀ length < 13,
      readHeaderType order (Buffer.write (List.replicate upgradeRequestLen 0) 0
          (([16, 0, 0, 0, 0, 0, 1, 0, 0, 0, 0, 0] : List UInt8).take length)) = upgradeRequest ∧
        initUpgradeRequestStruct order (Buffer.write (List.replicate upgradeRequestLen 0) 0
          (([16, 0, 0, 0, 0, 0, 1, 0, 0, 0, 0, 0] : List UInt8).take length)) =
            receivedRequest length := by
    intro order
    cases order <;> decide
  obtain ⟨typed, fields⟩ := reads order bytes.length atMost
  rw [← List.prefix_iff_eq_take.mp isPart] at typed fields
  rw [recvUpgradeRequest, read]
  dsimp only
  rw [if_neg (not_not.mpr typed), fields]

end Received

/-! ## Sessions -/

/-- A client and a server, each with what it meets. -/
structure Session where
  clientOrder : ByteOrder
  serverOrder : ByteOrder
  client : ClientEnv
  server : ServerEnv

namespace Session

/-- Each side receives the bytes that the other has sent, in order, and perhaps not all. -/
structure Reliable (session : Session) : Prop where
  toServer : ∀ bytes, sslRead session.server.request = some bytes →
    bytes <+: clientSends session.clientOrder session.client
  toClient : ∀ header, sslRead session.client.response.header = some header →
    header ++ (delivered session.client.response.rounds).flatten <+:
      (startProtocol session.serverOrder session.server).1

/-- The client's file. -/
def file (session : Session) : List UInt8 :=
  (runProtocol session.clientOrder session.client).1

/-- How the client ends. -/
def ending (session : Session) : Call Unit :=
  (runProtocol session.clientOrder session.client).2

/-- The server has accepted the client's request, as far as it was received. -/
def Accepted (session : Session) : Prop :=
  ∃ bytes, sslRead session.server.request = some bytes ∧
    checkIfUpgradeRequestValid session.server (receivedRequest bytes.length) = .ok ()

/-- At the end of a session, however it goes, the client's file is a part of the archive. Where
the client returns 0 it is the whole archive, and the server has accepted the client's request. -/
theorem delivers {session : Session} {archive : List UInt8} (reliable : session.Reliable)
    (keeps : KeepsArchive session.server archive) :
    session.file <+: archive ∧
      (session.ending = .returned () → session.file = archive ∧ session.Accepted) := by
  unfold file ending runProtocol
  split
  · rcases @startProtocol_cases session.serverOrder _ _ keeps with
      short | ⟨req, size, received, checked, isSize, sends⟩
    · rw [recvUpgradeResponse_short short reliable.toClient]
      exact ⟨List.nil_prefix, fun returned => by cases returned⟩
    · obtain ⟨isPart, isWhole⟩ := @recvUpgradeResponse_response session.clientOrder _ _ _ _
        isSize fun header read => (reliable.toClient header read).trans sends
      refine ⟨isPart, fun returned => ⟨isWhole returned, ?_⟩⟩
      unfold Accepted
      cases read : sslRead session.server.request with
      | none =>
          rw [recvUpgradeRequest, read] at received
          cases received
      | some bytes =>
          rw [recvUpgradeRequest_client read (reliable.toServer bytes read)] at received
          rw [← Option.some.inj received] at checked
          exact ⟨bytes, rfl, checked⟩
  · exact ⟨List.nil_prefix, fun returned => by cases returned⟩

/-- A session in which an archive of one byte is sent. -/
def oneByte : Session where
  clientOrder := .little
  serverOrder := .big
  client :=
    { request := fun _ => .done 11
      response :=
        { header := fun _ => .done ⟨responsePacket .big 1, by decide, by decide⟩
          opens := true
          rounds := [⟨fun _ => .done ⟨[7], by decide, by decide⟩, [some 1]⟩]
          closes := true } }
  server :=
    { polls := true
      request := fun _ => .done ⟨[16, 0, 0, 0, 0, 0, 1, 0, 0, 0, 0, 0], by decide, by decide⟩
      configSets := fun configSet => configSet = 0
      clock := some 0
      errCode := 0
      failure := fun _ => .failed
      prepares := true
      archiveSize := some 1
      opens := true
      response := ⟨fun _ => .done 15, [⟨[7], [some 0, some 0], fun _ => .done 0⟩]⟩
      closes := true }

theorem reliable_oneByte : oneByte.Reliable where
  toServer := by
    intro bytes read
    rw [← Option.some.inj read]
    decide
  toClient := by
    intro header read
    rw [← Option.some.inj read]
    decide

theorem delivers_oneByte :
    oneByte.file <+: [7] ∧
      (oneByte.ending = .returned () → oneByte.file = [7] ∧ oneByte.Accepted) := by
  apply delivers reliable_oneByte
  constructor
  · intro size announced
    rw [← Option.some.inj announced]
    rfl
  · simp [oneByte]

example : oneByte.ending = .returned () := by
  rfl

end Session

end Myscm.Old
