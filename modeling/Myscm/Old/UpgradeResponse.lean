import Myscm.Library.Countdown
import Myscm.Old.Io
import Myscm.Old.Packets

/-!
Owns the transfer of a file by the `UPGRADE_RESPONSE` packet of the old protocol.

Owns: the length field; `recv_upgrade_response` and `send_upgrade_response` with the subtractions
from their counters; for which runs these count right.

Does not own: what stands in the four bytes behind the length field.
-/

namespace Myscm.Old

open Myscm.Library Countdown

/-! ## The packet -/

/-- `UPGRADE_RESPONSE_LENGTH_OFFSET`. -/
def upgradeResponseLengthOffset : Nat := headerLen

/-- `UPGRADE_RESPONSE_LENGTH_LEN`, which counts the header already. -/
def upgradeResponseLengthLen : Nat := headerLen + 8

/-- `UPGRADE_RESPONSE_LEN`. -/
def upgradeResponseLen : Nat := headerLen + upgradeResponseLengthLen

/-- `WRITE_CHUNK_LEN` and `READ_CHUNK_LEN`. -/
def chunkLen : Nat := 2 ^ 20

section Packet

variable (order : ByteOrder) (buf : List UInt8)

/-- `read_upgrade_response_length`. -/
def readUpgradeResponseLength : UInt64 :=
  order.ntohll (Buffer.load64 order buf upgradeResponseLengthOffset)

/-- `write_upgrade_response_length`. -/
def writeUpgradeResponseLength (len : UInt64) : List UInt8 :=
  Buffer.write buf upgradeResponseLengthOffset (order.store 8 (order.htonll len).toNat)

/-- The packet that announces a file. -/
def responsePacket (len : UInt64) : List UInt8 :=
  writeUpgradeResponseLength order
    (writeHeader order (List.replicate upgradeResponseLen 0) 0 upgradeResponse) len

end Packet

theorem responsePacket_eq (order : ByteOrder) (len : UInt64) :
    responsePacket order len =
      headerBytes 0 upgradeResponse ++ (ByteOrder.big.store 8 len.toNat ++ List.replicate 4 0) := by
  have front : (headerBytes 0 upgradeResponse ++
      (List.replicate upgradeResponseLen (0 : UInt8)).drop headerLen) =
        headerBytes 0 upgradeResponse ++ List.replicate 12 0 := rfl
  rw [responsePacket, writeHeader_eq, front, writeUpgradeResponseLength, Buffer.write,
    ByteOrder.store_htonll, ByteOrder.length_store]
  rfl

/-- The client reads the length that the server wrote. -/
theorem readUpgradeResponseLength_responsePacket (order : ByteOrder) (len : UInt64) :
    readHeaderType order (responsePacket order len) = upgradeResponse ∧
      readUpgradeResponseLength order (responsePacket order len) = len := by
  have bytes : Buffer.slice (headerBytes 0 upgradeResponse ++
      (ByteOrder.big.store 8 len.toNat ++ List.replicate 4 0)) upgradeResponseLengthOffset 8 =
        ByteOrder.big.store 8 len.toNat := rfl
  rw [responsePacket_eq]
  refine ⟨readHeaderType_headerBytes order 0 upgradeResponse _, ?_⟩
  rw [readUpgradeResponseLength, Buffer.load64, bytes,
    ByteOrder.ntohll_load (ByteOrder.length_store _ _ _),
    ByteOrder.load_store_of_lt _ (show _ < 256 ^ 8 from len.toNat_lt)]
  exact UInt64.ofNat_toNat

/-! ## Receiving -/

/-- What a turn of the loop meets: the tries of `SSL_read`, and the calls of `write`. -/
structure RecvRound where
  attempts : Nat → Attempt (Piece chunkLen)
  writes : List (Option Nat)

/-- What a client meets: the tries for the header, whether the file is created, the turns of the
loop, and whether the file is closed. -/
structure RecvEnv where
  header : Nat → Attempt (Piece upgradeResponseLen)
  opens : Bool
  rounds : List RecvRound
  closes : Bool

/-- The counter, the file so far, and the subtractions that were made. -/
structure RecvState where
  fileLen : UInt64
  file : List UInt8
  log : List Subtraction

/-- The loop of `recv_upgrade_response`. -/
def recvLoop (state : RecvState) : List RecvRound → RecvState × Call Unit
  | [] => (state, if state.fileLen = 0 then .returned () else .running)
  | round :: rest =>
      if state.fileLen = 0 then
        (state, .returned ())
      else
        match sslRead round.attempts with
        | none => (state, .failed)
        | some piece =>
            let (written, outcome) := bulkWrite piece round.writes
            let next : RecvState :=
              ⟨state.fileLen - UInt64.ofNat piece.length, state.file ++ written,
                state.log ++ [⟨state.fileLen, piece.length⟩]⟩
            match outcome with
            | .returned () => recvLoop next rest
            | stopped => (next, stopped)

/-- `recv_upgrade_response`. To return is to return 0, and to fail to return -1. -/
def recvUpgradeResponse (order : ByteOrder) (env : RecvEnv) : RecvState × Call Unit :=
  match sslRead env.header with
  | none => (⟨0, [], []⟩, .failed)
  | some buf =>
      if buf.length < upgradeResponseLen then
        (⟨0, [], []⟩, .failed)
      else if readHeaderType order buf ≠ upgradeResponse then
        (⟨0, [], []⟩, .failed)
      else if env.opens then
        match recvLoop ⟨readUpgradeResponseLength order buf, [], []⟩ env.rounds with
        | (state, .returned ()) => (state, if env.closes then .returned () else .failed)
        | stopped => stopped
      else
        (⟨0, [], []⟩, .failed)

/-- The pieces that are delivered behind the header, until a call fails. -/
def delivered : List RecvRound → List (List UInt8)
  | [] => []
  | round :: rest =>
      match sslRead round.attempts with
      | none => []
      | some piece =>
          match (bulkWrite piece round.writes).2 with
          | .returned () => piece :: delivered rest
          | _ => [piece]

/-! ## Sending -/

/-- What a turn of the loop meets: the file when it is read, the calls of `pread`, and the tries
of `SSL_write`. -/
structure SendRound where
  file : List UInt8
  preads : List (Option Nat)
  attempts : Nat → Attempt Nat

/-- What a server meets: the tries for the header, and the turns of the loop. -/
structure SendEnv where
  header : Nat → Attempt Nat
  rounds : List SendRound

/-- The counter, the place in the file, what was sent behind the header, and the subtractions
that were made. -/
structure SendState where
  len : UInt64
  fileOffset : Nat
  sent : List UInt8
  log : List Subtraction

/-- The loop of `send_upgrade_response`. -/
def sendLoop (state : SendState) : List SendRound → SendState × Call Unit
  | [] => (state, if state.len = 0 then .returned () else .running)
  | round :: rest =>
      if state.len = 0 then
        (state, .returned ())
      else
        match bulkPread round.file chunkLen state.fileOffset round.preads with
        | .running => (state, .running)
        | .failed => (state, .failed)
        | .returned [] => (state, .failed)
        | .returned buf =>
            match sslSend round.attempts buf with
            | none => ({ state with fileOffset := state.fileOffset + buf.length }, .failed)
            | some sent =>
                let next : SendState :=
                  ⟨state.len - UInt64.ofNat sent.length, state.fileOffset + buf.length,
                    state.sent ++ sent, state.log ++ [⟨state.len, sent.length⟩]⟩
                if sent.length ≠ buf.length then
                  (next, .failed)
                else
                  sendLoop next rest

/-- `send_upgrade_response`. -/
def sendUpgradeResponse (order : ByteOrder) (len : UInt64) (env : SendEnv) :
    SendState × Call Unit :=
  match sslSend env.header (responsePacket order len) with
  | none => (⟨len, 0, [], []⟩, .failed)
  | some sent =>
      if sent.length < upgradeResponseLen then
        (⟨len, 0, [], []⟩, .failed)
      else
        sendLoop ⟨len, 0, [], []⟩ env.rounds

/-- The pieces that are sent from a place in the file on, until a call fails. -/
def sentPieces (fileOffset : Nat) : List SendRound → List (List UInt8)
  | [] => []
  | round :: rest =>
      match bulkPread round.file chunkLen fileOffset round.preads with
      | .returned [] => []
      | .returned buf =>
          match sslSend round.attempts buf with
          | none => []
          | some sent =>
              if sent.length ≠ buf.length then [sent]
              else sent :: sentPieces (fileOffset + buf.length) rest
      | _ => []

/-! ## Subtractions -/

@[simp]
theorem subtractions_zero (chunks : List Nat) : subtractions 0 chunks = [] := by
  cases chunks <;> simp [subtractions]

theorem subtractions_cons {counter : UInt64} (positive : counter ≠ 0) (chunk : Nat)
    (rest : List Nat) :
    subtractions counter (chunk :: rest) =
      ⟨counter, chunk⟩ :: subtractions (counter - UInt64.ofNat chunk) rest := by
  rw [subtractions, if_neg positive]

theorem toNat_pos {counter : UInt64} (positive : counter ≠ 0) : 0 < counter.toNat := by
  rcases Nat.eq_zero_or_pos counter.toNat with isZero | positive'
  · exact absurd (UInt64.toNat_inj.mp isZero) positive
  · exact positive'

/-- The subtractions of a receiving loop are those by the lengths of the pieces. -/
theorem log_recvLoop (state : RecvState) (rounds : List RecvRound) :
    (recvLoop state rounds).1.log =
      state.log ++ subtractions state.fileLen ((delivered rounds).map List.length) := by
  induction rounds generalizing state with
  | nil => simp [recvLoop, delivered, subtractions]
  | cons round rest inductionHypothesis =>
      rw [recvLoop, delivered]
      by_cases zero : state.fileLen = 0
      · rw [if_pos zero, zero, subtractions_zero, List.append_nil]
      · rw [if_neg zero]
        cases sslRead round.attempts with
        | none => simp [subtractions]
        | some piece =>
            dsimp only
            cases outcome : (bulkWrite piece round.writes).2 with
            | returned done =>
                dsimp only
                rw [inductionHypothesis, List.map_cons, subtractions_cons zero]
                simp
            | running =>
                dsimp only
                rw [List.map_cons, subtractions_cons zero]
                simp [subtractions]
            | failed =>
                dsimp only
                rw [List.map_cons, subtractions_cons zero]
                simp [subtractions]

theorem log_sendLoop (state : SendState) (rounds : List SendRound) :
    (sendLoop state rounds).1.log =
      state.log ++ subtractions state.len ((sentPieces state.fileOffset rounds).map List.length) := by
  induction rounds generalizing state with
  | nil => simp [sendLoop, sentPieces, subtractions]
  | cons round rest inductionHypothesis =>
      rw [sendLoop, sentPieces]
      by_cases zero : state.len = 0
      · rw [if_pos zero, zero, subtractions_zero, List.append_nil]
      · rw [if_neg zero]
        cases bulkPread round.file chunkLen state.fileOffset round.preads with
        | running => simp [subtractions]
        | failed => simp [subtractions]
        | returned buf =>
            cases buf with
            | nil => simp [subtractions]
            | cons b more =>
                dsimp only
                cases sslSend round.attempts (b :: more) with
                | none => simp [subtractions]
                | some sent =>
                    dsimp only
                    by_cases short : sent.length ≠ (b :: more).length
                    · rw [if_pos short, if_pos short, List.map_cons, subtractions_cons zero]
                      simp [subtractions]
                    · rw [if_neg short, if_neg short, inductionHypothesis, List.map_cons,
                        subtractions_cons zero]
                      simp

/-! ## Files -/

/-- A receiving loop that returns has written the bytes behind the header, as many as the counter
said, where no piece ends beyond them. -/
theorem file_recvLoop {state finish : RecvState} {rounds : List RecvRound}
    (aligned : Aligned state.fileLen.toNat ((delivered rounds).map List.length))
    (returned : recvLoop state rounds = (finish, .returned ())) :
    finish.file = state.file ++ (delivered rounds).flatten.take state.fileLen.toNat ∧
      state.fileLen.toNat ≤ (delivered rounds).flatten.length := by
  induction rounds generalizing state with
  | nil =>
      rw [recvLoop] at returned
      split at returned
      · rename_i zero
        obtain ⟨rfl, _⟩ := Prod.mk.inj returned
        simp [delivered, zero]
      · cases (Prod.mk.inj returned).2
  | cons round rest inductionHypothesis =>
      rw [recvLoop] at returned
      by_cases zero : state.fileLen = 0
      · rw [if_pos zero] at returned
        obtain ⟨rfl, _⟩ := Prod.mk.inj returned
        simp [zero]
      · rw [if_neg zero] at returned
        rw [delivered] at aligned ⊢
        cases read : sslRead round.attempts with
        | none =>
            rw [read] at returned
            cases (Prod.mk.inj returned).2
        | some piece =>
            rw [read] at returned aligned
            dsimp only at returned aligned ⊢
            cases outcome : (bulkWrite piece round.writes).2 with
            | running =>
                rw [outcome] at returned
                cases (Prod.mk.inj returned).2
            | failed =>
                rw [outcome] at returned
                cases (Prod.mk.inj returned).2
            | returned done =>
                rw [outcome] at returned aligned
                dsimp only at returned aligned ⊢
                have whole : (bulkWrite piece round.writes).1 = piece :=
                  bulkWrite_returned (Prod.ext rfl outcome)
                rw [List.map_cons, aligned_cons_iff (toNat_pos zero)] at aligned
                obtain ⟨within, later⟩ := aligned
                have counter := toNat_sub_chunk within
                rw [← counter] at later
                obtain ⟨isFile, atLeast⟩ := inductionHypothesis later returned
                rw [counter] at isFile atLeast
                rw [isFile, whole, List.flatten_cons, List.take_append,
                  List.take_of_length_le within, List.append_assoc, List.length_append]
                exact ⟨rfl, by omega⟩

/-- A sending loop that returns has sent as many bytes as the counter said, where no piece ends
beyond them. -/
theorem sent_sendLoop {state finish : SendState} {rounds : List SendRound}
    (aligned : Aligned state.len.toNat
      ((sentPieces state.fileOffset rounds).map List.length))
    (returned : sendLoop state rounds = (finish, .returned ())) :
    finish.sent = state.sent ++
        (sentPieces state.fileOffset rounds).flatten.take state.len.toNat ∧
      state.len.toNat ≤ (sentPieces state.fileOffset rounds).flatten.length := by
  induction rounds generalizing state with
  | nil =>
      rw [sendLoop] at returned
      split at returned
      · rename_i zero
        obtain ⟨rfl, _⟩ := Prod.mk.inj returned
        simp [sentPieces, zero]
      · cases (Prod.mk.inj returned).2
  | cons round rest inductionHypothesis =>
      rw [sendLoop] at returned
      by_cases zero : state.len = 0
      · rw [if_pos zero] at returned
        obtain ⟨rfl, _⟩ := Prod.mk.inj returned
        simp [zero]
      · rw [if_neg zero] at returned
        rw [sentPieces] at aligned ⊢
        cases read : bulkPread round.file chunkLen state.fileOffset round.preads with
        | running =>
            rw [read] at returned
            cases (Prod.mk.inj returned).2
        | failed =>
            rw [read] at returned
            cases (Prod.mk.inj returned).2
        | returned buf =>
            rw [read] at returned aligned
            cases buf with
            | nil => cases (Prod.mk.inj returned).2
            | cons b more =>
                dsimp only at returned aligned ⊢
                cases isSent : sslSend round.attempts (b :: more) with
                | none =>
                    rw [isSent] at returned
                    cases (Prod.mk.inj returned).2
                | some sent =>
                    rw [isSent] at returned aligned
                    dsimp only at returned aligned ⊢
                    by_cases short : sent.length ≠ (b :: more).length
                    · rw [if_pos short] at returned
                      cases (Prod.mk.inj returned).2
                    · rw [if_neg short] at returned aligned ⊢
                      rw [List.map_cons, aligned_cons_iff (toNat_pos zero)] at aligned
                      obtain ⟨within, later⟩ := aligned
                      have counter := toNat_sub_chunk within
                      rw [← counter] at later
                      obtain ⟨isSentAll, atLeast⟩ := inductionHypothesis later returned
                      rw [counter] at isSentAll atLeast
                      rw [isSentAll, List.flatten_cons, List.take_append,
                        List.take_of_length_le within, List.append_assoc, List.length_append]
                      exact ⟨rfl, by dsimp only at atLeast ⊢; omega⟩

/-! ## Transfers that count right -/

/-- Success means that the file has exactly the bytes that follow the header, as many as it
announces, and the counter never wraps. -/
def RecvCounts (order : ByteOrder) (env : RecvEnv) : Prop :=
  ((recvUpgradeResponse order env).2 = .returned () →
    ∃ header, sslRead env.header = some header ∧
      (recvUpgradeResponse order env).1.file =
        (delivered env.rounds).flatten.take (readUpgradeResponseLength order header).toNat ∧
      (recvUpgradeResponse order env).1.file.length =
        (readUpgradeResponseLength order header).toNat) ∧
  NeverWraps (recvUpgradeResponse order env).1.log

/-- The header announces a file that no piece ends beyond. -/
def RecvAligned (order : ByteOrder) (env : RecvEnv) : Prop :=
  ∀ header, sslRead env.header = some header → header.length = upgradeResponseLen →
    readHeaderType order header = upgradeResponse → env.opens = true →
      Aligned (readUpgradeResponseLength order header).toNat
        ((delivered env.rounds).map List.length)

/-- Success means that exactly as many bytes were sent as the header announces, and the counter
never wraps. -/
def SendCounts (order : ByteOrder) (len : UInt64) (env : SendEnv) : Prop :=
  ((sendUpgradeResponse order len env).2 = .returned () →
    (sendUpgradeResponse order len env).1.sent.length = len.toNat) ∧
  NeverWraps (sendUpgradeResponse order len env).1.log

/-- No piece of the file ends beyond the announced length. -/
def SendAligned (order : ByteOrder) (len : UInt64) (env : SendEnv) : Prop :=
  ∀ header, sslSend env.header (responsePacket order len) = some header →
    header.length = upgradeResponseLen →
      Aligned len.toNat ((sentPieces 0 env.rounds).map List.length)

/-- A client that does not get to its loop has no counter. -/
theorem recvUpgradeResponse_cases (order : ByteOrder) (env : RecvEnv) :
    (recvUpgradeResponse order env = (⟨0, [], []⟩, .failed) ∧ RecvAligned order env) ∨
      ∃ header, sslRead env.header = some header ∧
        (RecvAligned order env ↔ Aligned (readUpgradeResponseLength order header).toNat
          ((delivered env.rounds).map List.length)) ∧
        recvUpgradeResponse order env =
          match recvLoop ⟨readUpgradeResponseLength order header, [], []⟩ env.rounds with
          | (state, .returned ()) => (state, if env.closes then .returned () else .failed)
          | stopped => stopped := by
  unfold recvUpgradeResponse RecvAligned
  cases read : sslRead env.header with
  | none => exact .inl ⟨rfl, fun _ none => by cases none⟩
  | some header =>
      have bounded := (sslRead_some read).2
      dsimp only
      by_cases short : header.length < upgradeResponseLen
      · rw [if_pos short]
        refine .inl ⟨rfl, fun other same whole => ?_⟩
        obtain rfl := Option.some.inj same
        omega
      · rw [if_neg short]
        by_cases typed : readHeaderType order header = upgradeResponse
        · rw [if_neg (not_not.mpr typed)]
          by_cases opens : env.opens = true
          · rw [if_pos opens]
            refine .inr ⟨header, rfl, ⟨fun aligned => ?_, fun aligned other same _ _ _ => ?_⟩, rfl⟩
            · exact aligned header rfl (by omega) typed opens
            · exact Option.some.inj same ▸ aligned
          · rw [if_neg opens]
            exact .inl ⟨rfl, fun _ _ _ _ isOpen => absurd isOpen opens⟩
        · rw [if_pos typed]
          refine .inl ⟨rfl, fun other same _ isTyped => ?_⟩
          exact absurd (Option.some.inj same ▸ isTyped) typed

theorem recvCounts_iff (order : ByteOrder) (env : RecvEnv) :
    RecvCounts order env ↔ RecvAligned order env := by
  unfold RecvCounts
  rcases recvUpgradeResponse_cases order env with
    ⟨refused, aligned⟩ | ⟨header, read, alignedIff, outcome⟩
  · rw [refused]
    exact ⟨fun _ => aligned, fun _ => ⟨fun returned => (by cases returned), fun _ none => (by cases none)⟩⟩
  · have log := log_recvLoop ⟨readUpgradeResponseLength order header, [], []⟩ env.rounds
    have file := @file_recvLoop ⟨readUpgradeResponseLength order header, [], []⟩
    rw [alignedIff, ← neverWraps_subtractions_iff]
    dsimp only [List.nil_append] at log file
    rw [outcome]
    cases run : recvLoop ⟨readUpgradeResponseLength order header, [], []⟩ env.rounds with
    | mk state called =>
        rw [run] at log
        dsimp only at log
        rw [← log]
        cases called with
        | running => exact ⟨fun counts => counts.2, fun never => ⟨fun returned => (by cases returned), never⟩⟩
        | failed => exact ⟨fun counts => counts.2, fun never => ⟨fun returned => (by cases returned), never⟩⟩
        | returned done =>
            refine ⟨fun counts => counts.2, fun never => ⟨fun _ => ?_, never⟩⟩
            rw [log, neverWraps_subtractions_iff] at never
            obtain ⟨isFile, atLeast⟩ := file never run
            refine ⟨header, read, isFile, ?_⟩
            rw [isFile, List.length_take]
            exact Nat.min_eq_left atLeast

theorem sendCounts_iff (order : ByteOrder) (len : UInt64) (env : SendEnv) :
    SendCounts order len env ↔ SendAligned order len env := by
  unfold SendCounts SendAligned sendUpgradeResponse
  have packet : (responsePacket order len).length = upgradeResponseLen := by
    rw [responsePacket_eq]
    simp [headerLen, upgradeResponseLen, upgradeResponseLengthLen]
  cases isSent : sslSend env.header (responsePacket order len) with
  | none =>
      exact ⟨fun _ _ none => (by cases none),
        fun _ => ⟨fun returned => (by cases returned), fun _ none => (by cases none)⟩⟩
  | some header =>
      have bounded := (sslSend_some isSent).length_le
      dsimp only
      by_cases short : header.length < upgradeResponseLen
      · rw [if_pos short]
        refine ⟨fun _ other same whole => ?_,
          fun _ => ⟨fun returned => (by cases returned), fun _ none => (by cases none)⟩⟩
        obtain rfl := Option.some.inj same
        omega
      · rw [if_neg short]
        have log := log_sendLoop ⟨len, 0, [], []⟩ env.rounds
        have sent := @sent_sendLoop ⟨len, 0, [], []⟩
        dsimp only [List.nil_append] at log sent
        rw [log, neverWraps_subtractions_iff]
        constructor
        · intro counts _ _ _
          exact counts.2
        · intro aligned
          have isAligned := aligned header rfl (by omega)
          refine ⟨fun returned => ?_, isAligned⟩
          obtain ⟨isSentAll, atLeast⟩ := sent isAligned (Prod.ext rfl returned)
          rw [isSentAll, List.length_take]
          exact Nat.min_eq_left atLeast

/-! ## Peers and files that are no larger than announced -/

/-- A server that sends no more than it announces. -/
theorem recvCounts_of_length_le {order : ByteOrder} {env : RecvEnv}
    (within : ∀ header, sslRead env.header = some header →
      (delivered env.rounds).flatten.length ≤ (readUpgradeResponseLength order header).toNat) :
    RecvCounts order env := by
  refine (recvCounts_iff order env).mpr fun header read _ _ _ => aligned_of_sum_le ?_
  rw [← List.length_flatten]
  exact within header read

/-- The pieces of one file: each of a whole chunk but the last, and no more than there is. -/
theorem sentPieces_of_file {file : List UInt8} {rounds : List SendRound}
    (same : ∀ round ∈ rounds, round.file = file) (fileOffset : Nat) :
    (sentPieces fileOffset rounds).flatten.length ≤ file.length - fileOffset ∧
      ∀ total, chunkLen ∣ total → Aligned total ((sentPieces fileOffset rounds).map List.length) := by
  induction rounds generalizing fileOffset with
  | nil => exact ⟨Nat.zero_le _, fun _ _ => aligned_nil _⟩
  | cons round rest inductionHypothesis =>
      have later := inductionHypothesis fun other member => same other (List.mem_cons_of_mem _ member)
      have isFile := same round List.mem_cons_self
      rw [sentPieces, isFile]
      cases read : bulkPread file chunkLen fileOffset round.preads with
      | running => exact ⟨Nat.zero_le _, fun _ _ => aligned_nil _⟩
      | failed => exact ⟨Nat.zero_le _, fun _ _ => aligned_nil _⟩
      | returned buf =>
          have isBuf := bulkPread_returned read
          have length : buf.length = min chunkLen (file.length - fileOffset) := by
            rw [isBuf, List.length_take, List.length_drop]
          cases buf with
          | nil => exact ⟨Nat.zero_le _, fun _ _ => aligned_nil _⟩
          | cons b more =>
              dsimp only
              cases isSent : sslSend round.attempts (b :: more) with
              | none => exact ⟨Nat.zero_le _, fun _ _ => aligned_nil _⟩
              | some sent =>
                  have atMost := (sslSend_some isSent).length_le
                  have bound : sent.length ≤ chunkLen ∧ sent.length ≤ file.length - fileOffset := by
                    omega
                  dsimp only
                  by_cases short : sent.length ≠ (b :: more).length
                  · rw [if_pos short]
                    refine ⟨by simpa using bound.2, fun total isMultiple => ?_⟩
                    rcases Nat.eq_zero_or_pos total with rfl | positive
                    · exact aligned_zero _
                    · have least := Nat.le_of_dvd positive isMultiple
                      rw [List.map_cons, aligned_cons_iff positive]
                      exact ⟨by omega, aligned_nil _⟩
                  · rw [if_neg short]
                    rw [not_not] at short
                    have behind := later (fileOffset + (b :: more).length)
                    refine ⟨?_, fun total isMultiple => ?_⟩
                    · rw [List.flatten_cons, List.length_append]
                      omega
                    · rcases Nat.eq_zero_or_pos total with rfl | positive
                      · exact aligned_zero _
                      · have least := Nat.le_of_dvd positive isMultiple
                        rw [List.map_cons, aligned_cons_iff positive]
                        refine ⟨by omega, ?_⟩
                        -- A piece that is no whole chunk ends the file, and nothing follows it.
                        by_cases full : sent.length = chunkLen
                        · rw [full]
                          exact behind.2 _ (Nat.dvd_sub isMultiple (Nat.dvd_refl _))
                        · refine aligned_of_sum_le ?_
                          rw [← List.length_flatten]
                          have none := behind.1
                          omega

/-- A file that is no larger than announced when it is read, or whose announced length is made up
of whole chunks. -/
theorem sendCounts_of_file {order : ByteOrder} {len : UInt64} {env : SendEnv} {file : List UInt8}
    (same : ∀ round ∈ env.rounds, round.file = file)
    (fits : file.length ≤ len.toNat ∨ chunkLen ∣ len.toNat) : SendCounts order len env := by
  obtain ⟨atMost, aligned⟩ := sentPieces_of_file same 0
  refine (sendCounts_iff order len env).mpr fun _ _ _ => ?_
  rcases fits with small | whole
  · refine aligned_of_sum_le ?_
    rw [← List.length_flatten]
    omega
  · exact aligned _ whole

/-- A transfer counts right if and only if no piece ends beyond the announced length, on the
client's side as on the server's. -/
theorem transfers_count_iff (order : ByteOrder) (recvEnv : RecvEnv) (len : UInt64)
    (sendEnv : SendEnv) :
    (RecvCounts order recvEnv ↔ RecvAligned order recvEnv) ∧
      (SendCounts order len sendEnv ↔ SendAligned order len sendEnv) :=
  ⟨recvCounts_iff order recvEnv, sendCounts_iff order len sendEnv⟩

/-- A server that announces one byte and sends two. -/
def excessEnv : RecvEnv where
  header _ := .done ⟨responsePacket .little 1, by decide, by decide⟩
  opens := true
  rounds := [⟨fun _ => .done ⟨[0, 0], by decide, by decide⟩, [some 2]⟩]
  closes := true

/-- The counter of a client wraps where the last piece has a byte too many. -/
theorem not_transfers_count :
    ¬ ∀ (order : ByteOrder) (recvEnv : RecvEnv) (len : UInt64) (sendEnv : SendEnv),
      RecvCounts order recvEnv ∧ SendCounts order len sendEnv := by
  intro always
  have counts := (always .little excessEnv 0 ⟨fun _ => .failed, []⟩).1
  have read : sslRead excessEnv.header = some (responsePacket .little 1) := rfl
  obtain ⟨typed, announced⟩ := readUpgradeResponseLength_responsePacket .little 1
  have aligned := (recvCounts_iff _ _).mp counts _ read (by decide) typed rfl
  rw [announced] at aligned
  have within := aligned [] 2 ⟨[], rfl⟩ (by decide)
  exact absurd within (by decide)

end Myscm.Old
