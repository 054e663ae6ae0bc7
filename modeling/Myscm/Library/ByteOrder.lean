import Mathlib.Algebra.Group.Int.Defs
import Mathlib.Algebra.Group.Nat.Defs
import Mathlib.Data.List.Basic
import Mathlib.Tactic.Common

/-!
Owns numbers in memory on machines of either byte order.

Owns: the bytes of a number and the number of bytes; loads and stores; `htons`, `ntohs` and
their wider siblings; buffers that are written in place.

Does not own: alignment.
-/

namespace Myscm.Library

/-! ## Bytes of numbers -/

/-- The bytes of a number, the least significant first. -/
def leBytes : Nat → Nat → List UInt8
  | 0, _ => []
  | width + 1, n => UInt8.ofNat n :: leBytes width (n / 256)

/-- The number of bytes, the least significant first. -/
def leValue : List UInt8 → Nat
  | [] => 0
  | b :: rest => b.toNat + 256 * leValue rest

@[simp]
theorem length_leBytes (width n : Nat) : (leBytes width n).length = width := by
  induction width generalizing n with
  | zero => rfl
  | succ width inductionHypothesis => rw [leBytes, List.length_cons, inductionHypothesis]

theorem leValue_leBytes (width n : Nat) : leValue (leBytes width n) = n % 256 ^ width := by
  induction width generalizing n with
  | zero => simp [leBytes, leValue, Nat.mod_one]
  | succ width inductionHypothesis =>
      have split : n % 256 ^ (width + 1) = n % 256 + 256 * (n / 256 % 256 ^ width) := by
        rw [Nat.pow_succ', Nat.mod_mul]
      rw [leBytes, leValue, inductionHypothesis, UInt8.toNat_ofNat', split]

theorem leBytes_leValue (bytes : List UInt8) :
    leBytes bytes.length (leValue bytes) = bytes := by
  induction bytes with
  | nil => rfl
  | cons b rest inductionHypothesis =>
      have below := b.toNat_lt
      have quotient : (b.toNat + 256 * leValue rest) / 256 = leValue rest := by omega
      have first : UInt8.ofNat (b.toNat + 256 * leValue rest) = b := by
        apply UInt8.toNat_inj.mp
        rw [UInt8.toNat_ofNat']
        omega
      rw [List.length_cons, leBytes, leValue, quotient, inductionHypothesis, first]

theorem leValue_lt (bytes : List UInt8) : leValue bytes < 256 ^ bytes.length := by
  induction bytes with
  | nil => exact Nat.one_pos
  | cons b rest inductionHypothesis =>
      have below := b.toNat_lt
      rw [leValue, List.length_cons, Nat.pow_succ']
      omega

/-! ## Byte orders -/

/-- The order in which a machine keeps the bytes of a number. -/
inductive ByteOrder where
  | little
  | big
  deriving DecidableEq

namespace ByteOrder

/-- The bytes in memory of a number of the given width. -/
def store (order : ByteOrder) (width n : Nat) : List UInt8 :=
  match order with
  | little => leBytes width n
  | big => (leBytes width n).reverse

/-- The number that stands in memory. -/
def load (order : ByteOrder) (bytes : List UInt8) : Nat :=
  match order with
  | little => leValue bytes
  | big => leValue bytes.reverse

@[simp]
theorem length_store (order : ByteOrder) (width n : Nat) : (order.store width n).length = width := by
  cases order <;> simp [store]

theorem load_store (order : ByteOrder) (width n : Nat) :
    order.load (order.store width n) = n % 256 ^ width := by
  cases order <;> simp [store, load, leValue_leBytes]

theorem load_store_of_lt (order : ByteOrder) {width n : Nat} (small : n < 256 ^ width) :
    order.load (order.store width n) = n := by
  rw [load_store, Nat.mod_eq_of_lt small]

theorem store_load (order : ByteOrder) (bytes : List UInt8) :
    order.store bytes.length (order.load bytes) = bytes := by
  cases order with
  | little => exact leBytes_leValue bytes
  | big =>
      have reversed := leBytes_leValue bytes.reverse
      rw [List.length_reverse] at reversed
      rw [store, load, reversed, List.reverse_reverse]

theorem load_lt (order : ByteOrder) (bytes : List UInt8) :
    order.load bytes < 256 ^ bytes.length := by
  cases order with
  | little => exact leValue_lt bytes
  | big => simpa [load] using leValue_lt bytes.reverse

/-- `hton` of the given width: its bytes in memory are those of the number in network order. -/
def toNetwork (order : ByteOrder) (width n : Nat) : Nat := order.load (big.store width n)

/-- `ntoh` of the given width: its bytes in network order are those of the number in memory. -/
def toHost (order : ByteOrder) (width n : Nat) : Nat := big.load (order.store width n)

theorem store_toNetwork (order : ByteOrder) (width n : Nat) :
    order.store width (order.toNetwork width n) = big.store width n := by
  have back := order.store_load (big.store width n)
  rw [length_store] at back
  exact back

theorem toHost_load (order : ByteOrder) {width : Nat} {bytes : List UInt8}
    (isWidth : bytes.length = width) : order.toHost width (order.load bytes) = big.load bytes := by
  rw [toHost, ← isWidth, store_load]

/-! ## Machine numbers -/

section Machine

variable (order : ByteOrder)

def htons (x : UInt16) : UInt16 := UInt16.ofNat (order.toNetwork 2 x.toNat)

def htonl (x : UInt32) : UInt32 := UInt32.ofNat (order.toNetwork 4 x.toNat)

/-- `htonll`, which is `htobe64`. -/
def htonll (x : UInt64) : UInt64 := UInt64.ofNat (order.toNetwork 8 x.toNat)

def ntohs (x : UInt16) : UInt16 := UInt16.ofNat (order.toHost 2 x.toNat)

def ntohl (x : UInt32) : UInt32 := UInt32.ofNat (order.toHost 4 x.toNat)

/-- `ntohll`, which is `be64toh`. -/
def ntohll (x : UInt64) : UInt64 := UInt64.ofNat (order.toHost 8 x.toNat)

variable {order} {bytes : List UInt8}

theorem toNetwork_lt (width n : Nat) : order.toNetwork width n < 256 ^ width := by
  have below := order.load_lt (big.store width n)
  rw [length_store] at below
  exact below

theorem store_htons (x : UInt16) :
    order.store 2 (order.htons x).toNat = big.store 2 x.toNat := by
  rw [htons, UInt16.toNat_ofNat_of_lt' (toNetwork_lt 2 x.toNat), store_toNetwork]

theorem store_htonl (x : UInt32) :
    order.store 4 (order.htonl x).toNat = big.store 4 x.toNat := by
  rw [htonl, UInt32.toNat_ofNat_of_lt' (toNetwork_lt 4 x.toNat), store_toNetwork]

theorem store_htonll (x : UInt64) :
    order.store 8 (order.htonll x).toNat = big.store 8 x.toNat := by
  rw [htonll, UInt64.toNat_ofNat_of_lt' (toNetwork_lt 8 x.toNat), store_toNetwork]

theorem load_lt_of_length {width : Nat} (isWidth : bytes.length = width) :
    order.load bytes < 256 ^ width :=
  isWidth ▸ order.load_lt bytes

theorem ntohs_load (two : bytes.length = 2) :
    order.ntohs (UInt16.ofNat (order.load bytes)) = UInt16.ofNat (big.load bytes) := by
  rw [ntohs, UInt16.toNat_ofNat_of_lt' (load_lt_of_length two), toHost_load order two]

theorem ntohl_load (four : bytes.length = 4) :
    order.ntohl (UInt32.ofNat (order.load bytes)) = UInt32.ofNat (big.load bytes) := by
  rw [ntohl, UInt32.toNat_ofNat_of_lt' (load_lt_of_length four), toHost_load order four]

theorem ntohll_load (eight : bytes.length = 8) :
    order.ntohll (UInt64.ofNat (order.load bytes)) = UInt64.ofNat (big.load bytes) := by
  rw [ntohll, UInt64.toNat_ofNat_of_lt' (load_lt_of_length eight), toHost_load order eight]

end Machine

end ByteOrder

/-! ## Buffers -/

namespace Buffer

/-- The bytes of a buffer from an offset on. -/
def slice (buf : List UInt8) (offset width : Nat) : List UInt8 := (buf.drop offset).take width

/-- The buffer with bytes written over it from an offset on. -/
def write (buf : List UInt8) (offset : Nat) (bytes : List UInt8) : List UInt8 :=
  buf.take offset ++ bytes ++ buf.drop (offset + bytes.length)

/-- The number at an offset, as the machine loads it. -/
def load16 (order : ByteOrder) (buf : List UInt8) (offset : Nat) : UInt16 :=
  UInt16.ofNat (order.load (slice buf offset 2))

def load32 (order : ByteOrder) (buf : List UInt8) (offset : Nat) : UInt32 :=
  UInt32.ofNat (order.load (slice buf offset 4))

def load64 (order : ByteOrder) (buf : List UInt8) (offset : Nat) : UInt64 :=
  UInt64.ofNat (order.load (slice buf offset 8))

end Buffer

end Myscm.Library
