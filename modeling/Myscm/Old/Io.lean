import Mathlib.Data.List.Basic
import Mathlib.Tactic.Common

/-!
Owns the calls by which the old protocol reads and writes, over what the operating system and
OpenSSL make of each of them.

Owns: `ssl_read` and `ssl_send` with their retries; `bulk_pread` and `bulk_write` with partial
reads and writes.

Does not own: log messages; signals, after which a call is made again.
-/

namespace Myscm.Old

/-! ## OpenSSL -/

/-- What one try of an I/O function of OpenSSL comes to: a value, an error behind which it is
tried again, or one that is final. -/
inductive Attempt (α : Type) where
  | done (value : α)
  | again
  | failed

/-- What `SSL_read` may deliver when it is asked for some bytes. -/
structure Piece (len : Nat) where
  bytes : List UInt8
  nonempty : bytes ≠ []
  bounded : bytes.length ≤ len

/-- `MAX_SSL_READ_RETRIES` and `MAX_SSL_WRITE_RETRIES`. -/
def maxSslRetries : Nat := 5

/-- The tries that are made until one is final. -/
def retry {α : Type} (attempts : Nat → Attempt α) : List Nat → Option α
  | [] => none
  | retries :: rest =>
      match attempts retries with
      | .done value => some value
      | .again => retry attempts rest
      | .failed => none

/-- `ssl_read`, or none where it returns -1. -/
def sslRead {len : Nat} (attempts : Nat → Attempt (Piece len)) : Option (List UInt8) :=
  (retry attempts (List.range maxSslRetries)).map Piece.bytes

/-- `ssl_send`: the bytes that are sent, or none where it returns -1. A try that is done has
sent at most one more byte than it says, and at least one. -/
def sslSend (attempts : Nat → Attempt Nat) (buf : List UInt8) : Option (List UInt8) :=
  (retry attempts (List.range maxSslRetries)).map fun size => buf.take (size + 1)

theorem sslRead_some {len : Nat} {attempts : Nat → Attempt (Piece len)} {bytes : List UInt8}
    (read : sslRead attempts = some bytes) : bytes ≠ [] ∧ bytes.length ≤ len := by
  obtain ⟨piece, _, rfl⟩ := Option.map_eq_some_iff.mp read
  exact ⟨piece.nonempty, piece.bounded⟩

theorem sslSend_some {attempts : Nat → Attempt Nat} {buf sent : List UInt8}
    (isSent : sslSend attempts buf = some sent) : sent <+: buf := by
  obtain ⟨size, _, rfl⟩ := Option.map_eq_some_iff.mp isSent
  exact List.take_prefix _ _

/-! ## Files -/

/-- How a call goes that makes others until it is through. -/
inductive Call (α : Type) where
  | running
  | failed
  | returned (value : α)

/-- `bulk_pread`: the bytes of a file from an offset on, as many as asked for or up to its end.
Each `pread` fails, or reads at most one byte more than it says. -/
def bulkPread (file : List UInt8) (nbyte offset : Nat) : List (Option Nat) → Call (List UInt8)
  | [] => .running
  | none :: _ => .failed
  | some size :: rest =>
      let c := (file.drop offset).take (min (size + 1) nbyte)
      if c = [] then
        .returned []
      else if nbyte - c.length = 0 then
        .returned c
      else
        match bulkPread file (nbyte - c.length) (offset + c.length) rest with
        | .returned more => .returned (c ++ more)
        | outcome => outcome

/-- `bulk_write`: the bytes that were written, and how the call goes. Each `write` fails, or
writes at most as many bytes as it says. -/
def bulkWrite (buf : List UInt8) : List (Option Nat) → List UInt8 × Call Unit
  | [] => ([], .running)
  | none :: _ => ([], .failed)
  | some size :: rest =>
      let c := buf.take size
      if (buf.drop size).length = 0 then
        (c, .returned ())
      else
        let (more, outcome) := bulkWrite (buf.drop size) rest
        (c ++ more, outcome)

/-- A read that returns has what the file holds at the offset. -/
theorem bulkPread_returned {file bytes : List UInt8} {preads : List (Option Nat)}
    {nbyte offset : Nat} (returned : bulkPread file nbyte offset preads = .returned bytes) :
    bytes = (file.drop offset).take nbyte := by
  induction preads generalizing nbyte offset bytes with
  | nil => cases returned
  | cons pread rest inductionHypothesis =>
      cases pread with
      | none => cases returned
      | some size =>
          rw [bulkPread] at returned
          obtain ⟨c, isRead⟩ : ∃ c, c = (file.drop offset).take (min (size + 1) nbyte) := ⟨_, rfl⟩
          rw [← isRead] at returned
          have front : c = (file.drop offset).take c.length :=
            List.prefix_iff_eq_take.mp (isRead ▸ List.take_prefix _ _)
          have atMost : c.length ≤ nbyte := by
            rw [isRead]
            exact Nat.le_trans (List.length_take_le _ _) (Nat.min_le_right _ _)
          split at returned
          · rename_i atEnd
            obtain rfl := Call.returned.inj returned
            rw [atEnd] at isRead
            rcases List.take_eq_nil_iff.mp isRead.symm with none | empty
            · have noBytes : nbyte = 0 := by omega
              rw [noBytes, List.take_zero]
            · rw [empty, List.take_nil]
          · split at returned
            · rename_i whole
              obtain rfl := Call.returned.inj returned
              have full : c.length = nbyte := by omega
              rw [← full]
              exact front
            · cases later : bulkPread file (nbyte - c.length) (offset + c.length) rest with
              | running =>
                  rw [later] at returned
                  cases returned
              | failed =>
                  rw [later] at returned
                  cases returned
              | returned more =>
                  rw [later] at returned
                  obtain rfl := Call.returned.inj returned
                  have split := @List.take_add _ (file.drop offset) c.length (nbyte - c.length)
                  rw [Nat.add_sub_cancel' atMost, ← front, List.drop_drop] at split
                  rw [split, inductionHypothesis later]

/-- A write that returns has written the whole buffer. -/
theorem bulkWrite_returned {buf written : List UInt8} {writes : List (Option Nat)}
    (returned : bulkWrite buf writes = (written, .returned ())) : written = buf := by
  induction writes generalizing buf written with
  | nil => cases returned
  | cons write rest inductionHypothesis =>
      cases write with
      | none => cases returned
      | some size =>
          rw [bulkWrite] at returned
          dsimp only at returned
          split at returned
          · rename_i whole
            rw [List.length_eq_zero_iff, List.drop_eq_nil_iff] at whole
            rw [← (Prod.mk.inj returned).1, List.take_of_length_le whole]
          · obtain ⟨isWritten, isReturned⟩ := Prod.mk.inj returned
            have behind : (bulkWrite (buf.drop size) rest).1 = buf.drop size :=
              inductionHypothesis (Prod.ext rfl isReturned)
            rw [← isWritten]
            exact (congrArg (buf.take size ++ ·) behind).trans (List.take_append_drop size buf)

end Myscm.Old
