import Mathlib.Data.List.TakeWhile
import Mathlib.Tactic.Common

/-!
Owns blocks of memory as a C program has them: a store outside a block, and a read of a cell
that was never written, have no outcome.

Owns: allocation, checked stores, growth, the string at the start of a block; what a block holds
from its start on, and how stores extend that.

Does not own: addresses, freeing.
-/

namespace Myscm.Library

/-- A block of memory. A cell that was not written yet has no value. -/
structure Block where
  cells : List (Option UInt8)
  deriving DecidableEq

/-- The characters of a buffer before its first NUL. -/
def cString (bytes : List UInt8) : List UInt8 := bytes.takeWhile (· ≠ 0)

theorem zero_not_mem_cString (bytes : List UInt8) : 0 ∉ cString bytes := by
  intro member
  have solid := List.mem_takeWhile_imp member
  simp at solid

theorem cString_append_of_mem {bytes : List UInt8} (ends : 0 ∈ bytes) (more : List UInt8) :
    cString (bytes ++ more) = cString bytes := by
  obtain ⟨front, back, rfl, free⟩ := List.eq_append_cons_of_mem ends
  have solid : ∀ b ∈ front, decide (b ≠ 0) = true := by
    intro b member
    have nonzero : b ≠ 0 := fun zero => free (zero ▸ member)
    exact decide_eq_true nonzero
  rw [cString, cString, List.append_assoc, List.takeWhile_append_of_pos solid,
    List.takeWhile_append_of_pos solid]
  rfl

theorem cString_eq_self {bytes : List UInt8} (free : 0 ∉ bytes) : cString bytes = bytes := by
  apply List.takeWhile_eq_self_iff.mpr
  intro b member
  have nonzero : b ≠ 0 := fun zero => free (zero ▸ member)
  exact decide_eq_true nonzero

namespace Block

def size (block : Block) : Nat := block.cells.length

def malloc (size : Nat) : Block := ⟨List.replicate size none⟩

/-- `realloc`: the cells that fit into the new size are kept. -/
def realloc (block : Block) (size : Nat) : Block :=
  ⟨block.cells.take size ++ List.replicate (size - block.size) none⟩

/-- A store, or none where the index lies outside the block. -/
def store (block : Block) (i : Nat) (byte : UInt8) : Option Block :=
  if i < block.size then some ⟨block.cells.set i (some byte)⟩ else none

/-- Stores at successive indices. -/
def storeAll (block : Block) (i : Nat) : List UInt8 → Option Block
  | [] => some block
  | byte :: rest => (block.store i byte).bind fun next => next.storeAll (i + 1) rest

/-- The string that some cells start with, or none where they hold no NUL or an unwritten cell
comes before it. -/
def stringOf : List (Option UInt8) → Option (List UInt8)
  | [] => none
  | none :: _ => none
  | some byte :: rest => if byte = 0 then some [] else (stringOf rest).map (byte :: ·)

/-- The string at the start of a block. -/
def string (block : Block) : Option (List UInt8) := stringOf block.cells

/-- The block starts with the bytes. -/
def Holds (block : Block) (bytes : List UInt8) : Prop := bytes.map some <+: block.cells

variable {block : Block} {bytes more : List UInt8}

theorem size_malloc (size : Nat) : (malloc size).size = size := List.length_replicate

theorem size_realloc (block : Block) (size : Nat) : (block.realloc size).size = size := by
  show (block.cells.take size ++ List.replicate (size - block.cells.length) none).length = size
  rw [List.length_append, List.length_take, List.length_replicate]
  omega

theorem holds_nil (block : Block) : block.Holds [] := List.nil_prefix

theorem Holds.left (holds : block.Holds (bytes ++ more)) : block.Holds bytes := by
  rw [Holds, List.map_append] at holds
  exact (List.prefix_append _ _).trans holds

theorem Holds.realloc (holds : block.Holds bytes) {size : Nat} (fits : bytes.length ≤ size) :
    (block.realloc size).Holds bytes := by
  apply List.IsPrefix.trans _ (List.prefix_append _ _)
  rw [List.prefix_take_iff, List.length_map]
  exact ⟨holds, fits⟩

/-- A store behind what a block holds is within the block if there is room, and extends it. -/
theorem Holds.store (holds : block.Holds bytes) (room : bytes.length < block.size) (byte : UInt8) :
    ∃ next, block.store bytes.length byte = some next ∧ next.size = block.size ∧
      next.Holds (bytes ++ [byte]) := by
  refine ⟨_, if_pos room, List.length_set, ?_⟩
  obtain ⟨⟨cells⟩, rfl⟩ : ∃ other : Block, other = block := ⟨block, rfl⟩
  obtain ⟨rest, rfl⟩ := holds
  cases rest with
  | nil =>
      change bytes.length < (bytes.map some ++ []).length at room
      rw [List.append_nil, List.length_map] at room
      omega
  | cons cell rest =>
      show (bytes ++ [byte]).map some <+: (bytes.map some ++ cell :: rest).set bytes.length _
      rw [List.set_append_right _ _ (by rw [List.length_map]), List.length_map, Nat.sub_self,
        List.set_cons_zero, List.map_append, List.map_singleton]
      exact ⟨rest, by rw [List.append_assoc, List.singleton_append]⟩

theorem Holds.storeAll (holds : block.Holds bytes) (more : List UInt8)
    (room : bytes.length + more.length ≤ block.size) :
    ∃ next, block.storeAll bytes.length more = some next ∧ next.size = block.size ∧
      next.Holds (bytes ++ more) := by
  induction more generalizing block bytes with
  | nil => exact ⟨block, rfl, rfl, by rwa [List.append_nil]⟩
  | cons byte more inductionHypothesis =>
      rw [List.length_cons] at room
      obtain ⟨mid, stored, sameSize, midHolds⟩ := holds.store (by omega) byte
      obtain ⟨next, storedAll, nextSize, nextHolds⟩ := inductionHypothesis midHolds (by
        rw [List.length_append, List.length_singleton, sameSize]
        omega)
      rw [List.length_append, List.length_singleton] at storedAll
      rw [List.append_assoc, List.singleton_append] at nextHolds
      refine ⟨next, ?_, nextSize.trans sameSize, nextHolds⟩
      rw [Block.storeAll, stored, Option.bind_some, storedAll]

/-- The string of a block that holds a text with a NUL behind it is the text. -/
theorem Holds.string (holds : block.Holds (bytes ++ [0])) (free : 0 ∉ bytes) :
    block.string = some bytes := by
  obtain ⟨rest, whole⟩ := holds
  rw [Block.string, ← whole]
  clear whole
  induction bytes with
  | nil => rfl
  | cons byte bytes inductionHypothesis =>
      have nonzero : byte ≠ 0 := fun zero => free (zero ▸ List.mem_cons_self)
      have later := inductionHypothesis fun member => free (List.mem_cons_of_mem _ member)
      rw [List.cons_append, List.map_cons, List.cons_append, stringOf, if_neg nonzero, later,
        Option.map_some]

end Block

end Myscm.Library
