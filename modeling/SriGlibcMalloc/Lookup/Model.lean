import Mathlib.Logic.Function.Basic
import Mathlib.Data.Nat.Bitwise

/-!
# Attributing an address to an arena

This is a transcription of `lookup.c`. The two lock-free tables are finite maps
here: `0` is `TOMBSTONE`, which `lookup_arena_index` treats like an absent key.
Addresses and sizes are 64-bit words. A call of `abort()` has no result; so
`lookup_delete_heap` is described for the case that `lfht_remove` answers true,
which it does whenever the heap is bound. The two calls for mapped chunks are
with the registry of those chunks.
-/

namespace SriGlibcMalloc.ArenaLookup

set_option autoImplicit false

structure SbrkRegion where
  mmapped : Bool
  lo : Nat
  hi : Nat
  max : Nat
  deriving DecidableEq, Repr

/-- The file-scope variables of `lookup.c`; `sbrkRegions` is the mapped array. -/
structure Lookup where
  sbrkRegionCount : Nat
  sbrkRegionCurrentMax : Nat
  sbrkRegions : Nat → SbrkRegion
  heapTbl : Nat → Nat
  mmapTbl : Nat → Nat
  heapMax : Nat

def sbrkInitialMaxSegments : Nat := 1024

def maxSbrkTableSize : Nat := 2 ^ 31

def tombstone : Nat := 0

/-- `lookup_init`: the array comes zeroed from `sri_mmap`. -/
def lookupInit (hmax : Nat) : Lookup where
  sbrkRegionCount := 0
  sbrkRegionCurrentMax := sbrkInitialMaxSegments
  sbrkRegions := fun _ => ⟨false, 0, 0, 0⟩
  heapTbl := fun _ => tombstone
  mmapTbl := fun _ => tombstone
  heapMax := hmax

def SbrkRegion.holds (region : SbrkRegion) (ptr : Nat) : Bool :=
  region.lo ≤ ptr && ptr < region.hi

/-- The loop of `lookup_arena_index`, which includes `sbrk_region_count`. -/
def Lookup.inSbrkRegion (lookup : Lookup) (ptr : Nat) : Bool :=
  (List.range (lookup.sbrkRegionCount + 1)).any fun i => (lookup.sbrkRegions i).holds ptr

/-- `ptr & ~(heap_max - 1)`. -/
def heapForPtr (heapMax : Nat) (ptr : Nat) : Nat :=
  ptr &&& (2 ^ 64 - 1 - (heapMax - 1))

def lookupArenaIndex (lookup : Lookup) (ptr : Nat) : Option Nat :=
  if lookup.inSbrkRegion ptr then some 1
  else if lookup.mmapTbl ptr ≠ tombstone then some 0
  else
    let heap := heapForPtr lookup.heapMax ptr
    if lookup.heapTbl heap ≠ tombstone then some (lookup.heapTbl heap) else none

def lookupAddSbrkRegion (lookup : Lookup) (lo hi : Nat) : Bool × Lookup :=
  let nregionCount := lookup.sbrkRegionCount + 1
  let full := nregionCount = lookup.sbrkRegionCurrentMax
  if full ∧ maxSbrkTableSize ≤ lookup.sbrkRegionCurrentMax then (false, lookup)
  else
    let grown := if full then 2 * lookup.sbrkRegionCurrentMax else lookup.sbrkRegionCurrentMax
    (true, { lookup with
      sbrkRegionCount := nregionCount
      sbrkRegionCurrentMax := grown
      sbrkRegions := Function.update lookup.sbrkRegions nregionCount ⟨true, lo, hi, hi⟩ })

def Lookup.setRegion (lookup : Lookup) (region : SbrkRegion) : Lookup :=
  { lookup with sbrkRegions := Function.update lookup.sbrkRegions 0 region }

def lookupSetSbrkLo (lookup : Lookup) (ptr : Nat) : Lookup :=
  lookup.setRegion { lookup.sbrkRegions 0 with lo := ptr }

def lookupIncrSbrkHi (lookup : Lookup) (sz : Nat) : Lookup :=
  let region := lookup.sbrkRegions 0
  let base := if region.hi = 0 then region.lo else region.hi
  let hi := (base + sz) % 2 ^ 64
  lookup.setRegion { region with hi := hi, max := if region.max < hi then hi else region.max }

def lookupDecrSbrkHi (lookup : Lookup) (sz : Nat) : Lookup :=
  let region := lookup.sbrkRegions 0
  lookup.setRegion { region with hi := (region.hi + (2 ^ 64 - sz % 2 ^ 64)) % 2 ^ 64 }

def lookupAddHeap (lookup : Lookup) (ptr : Nat) (index : Nat) : Lookup :=
  { lookup with heapTbl := Function.update lookup.heapTbl ptr index }

def lookupDeleteHeap (lookup : Lookup) (ptr : Nat) : Lookup :=
  { lookup with heapTbl := Function.update lookup.heapTbl ptr tombstone }

theorem in_sbrk_region_iff {lookup : Lookup} {ptr : Nat} :
    lookup.inSbrkRegion ptr = true ↔
      ∃ i, i ≤ lookup.sbrkRegionCount ∧
        (lookup.sbrkRegions i).lo ≤ ptr ∧ ptr < (lookup.sbrkRegions i).hi := by
  simp only [Lookup.inSbrkRegion, SbrkRegion.holds, List.any_eq_true, List.mem_range,
    Nat.lt_succ_iff, Bool.and_eq_true, decide_eq_true_eq]

theorem heap_for_ptr {bits : Nat} {heap ptr : Nat} (small : bits ≤ 64)
    (aligned : heap % 2 ^ bits = 0) (above : heap ≤ ptr) (below : ptr < heap + 2 ^ bits)
    (word : ptr < 2 ^ 64) : heapForPtr (2 ^ bits) ptr = heap := by
  obtain ⟨quotient, rfl⟩ := Nat.dvd_of_mod_eq_zero aligned
  obtain ⟨offset, rfl⟩ := Nat.exists_eq_add_of_le above
  have low : offset < 2 ^ bits := Nat.lt_of_add_lt_add_left below
  have masked : 2 ^ 64 - 1 - (2 ^ bits - 1) = 2 ^ 64 - ((2 ^ bits - 1) + 1) := by omega
  have powers : 2 ^ bits ≤ 2 ^ 64 := Nat.pow_le_pow_right (by decide) small
  have positive := Nat.two_pow_pos bits
  apply Nat.eq_of_testBit_eq
  intro i
  rw [heapForPtr, masked, Nat.testBit_and, Nat.testBit_two_pow_sub_succ (by omega),
    Nat.testBit_two_pow_sub_one, Nat.testBit_two_pow_mul_add _ low, Nat.testBit_two_pow_mul]
  by_cases inside : i < bits
  · simp [inside, Nat.not_le.mpr inside]
  · by_cases top : i < 64
    · simp [inside, top, Nat.not_lt.mp inside]
    · have vanishes : (2 ^ bits * quotient + offset).testBit i = false := by
        apply Nat.testBit_lt_two_pow
        exact Nat.lt_of_lt_of_le word (Nat.pow_le_pow_right (by decide) (Nat.not_lt.mp top))
      rw [Nat.testBit_two_pow_mul_add _ low, if_neg inside] at vanishes
      simp [inside, top, vanishes]

end SriGlibcMalloc.ArenaLookup
