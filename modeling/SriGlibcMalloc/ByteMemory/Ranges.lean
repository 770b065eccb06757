import Mathlib.Data.Nat.Basic

/-!
# Bytes at addresses

A memory has a byte at every address that is mapped. Ranges are copied, unmapped, and
moved as a whole, where a range that grows is filled up with one byte.
-/

namespace SriGlibcMalloc.ByteMemory

set_option autoImplicit false

variable {Byte : Type*}

abbrev Memory (Byte : Type*) := Nat → Option Byte

def In (start count address : Nat) : Prop := start ≤ address ∧ address < start + count

instance (start count address : Nat) : Decidable (In start count address) :=
  inferInstanceAs (Decidable (start ≤ address ∧ address < start + count))

variable (memory : Memory Byte) (source target start count : Nat)

def copyRange : Memory Byte := fun address =>
  if In target count address then memory (source + (address - target)) else memory address

def unmapRange : Memory Byte := fun address =>
  if In start count address then none else memory address

def moveRange (oldLength newLength : Nat) (fill : Byte) : Memory Byte := fun address =>
  if In target newLength address then
    if address - target < oldLength then memory (source + (address - target)) else some fill
  else unmapRange memory source oldLength address

variable {memory source target start count}
variable {offset oldLength newLength address : Nat} {fill : Byte}

theorem in_of_offset (small : offset < count) : In start count (start + offset) :=
  ⟨Nat.le_add_right _ _, Nat.add_lt_add_left small start⟩

theorem not_in_of_offset (large : count ≤ offset) : ¬In start count (start + offset) :=
  fun inside => absurd (Nat.lt_of_add_lt_add_left inside.2) (Nat.not_lt.mpr large)

@[simp]
theorem copy_range_inside (small : offset < count) :
    copyRange memory source target count (target + offset) = memory (source + offset) := by
  unfold copyRange
  rw [if_pos (in_of_offset small), Nat.add_sub_cancel_left]

@[simp]
theorem copy_range_outside (outside : ¬In target count address) :
    copyRange memory source target count address = memory address := if_neg outside

@[simp]
theorem unmap_range_inside (inside : In start count address) :
    unmapRange memory start count address = none := if_pos inside

@[simp]
theorem unmap_range_outside (outside : ¬In start count address) :
    unmapRange memory start count address = memory address := if_neg outside

@[simp]
theorem move_range_inside (small : offset < newLength) (old : offset < oldLength) :
    moveRange memory source target oldLength newLength fill (target + offset) =
      memory (source + offset) := by
  unfold moveRange
  rw [if_pos (in_of_offset small), Nat.add_sub_cancel_left, if_pos old]

@[simp]
theorem move_range_outside (outside : ¬In target newLength address) :
    moveRange memory source target oldLength newLength fill address =
      unmapRange memory source oldLength address := if_neg outside

end SriGlibcMalloc.ByteMemory
