import SriGlibcMalloc.Metadata.Bindex

/-!
# The shape of the table

`Shape` is the structural invariant of the dynamic hash table: the split
pointer, the directory and the segments agree, and every slot that no bin uses
is null, also in the segments that are back in the pool. It does not mention
the chains, so it survives whatever the buckets point to.
-/

namespace SriGlibcMalloc.MetadataTable

set_option autoImplicit false

structure Shape (table : Metadata) : Prop where
  minimum : table.N = 256
  doubling : table.maxp = table.N * 2 ^ table.L
  depth : table.L ≤ 23
  split : table.p < table.maxp
  bins : table.bincount = table.maxp + table.p
  atMost : table.bincount ≤ cfg.bincountMax
  length : ∃ doublings, table.directoryLength = cfg.initialDirectoryLength * 2 ^ doublings
  lengthBound : table.directoryLength ≤ 2 ^ 25
  current : table.directoryCurrent = (table.bincount + 255) / 256
  currentLe : table.directoryCurrent ≤ table.directoryLength
  present : ∀ index < table.directoryCurrent, ∃ seg, table.directory index = some seg
  absent : ∀ index, table.directoryCurrent ≤ index → table.directory index = none
  distinct : ∀ left right seg, table.directory left = some seg →
    table.directory right = some seg → left = right
  emptyAbove : ∀ index offset seg, table.directory index = some seg → offset < 256 →
    table.bincount ≤ 256 * index + offset → table.segment seg offset = none
  emptyPool : ∀ seg, (∀ index, table.directory index ≠ some seg) →
    ∀ offset < 256, table.segment seg offset = none

def binAt (table : Metadata) (index : Nat) : BinPtr :=
  ((table.directory (index / 256)).getD 0, index % 256)

def topOf (table : Metadata) (index : Nat) : Option BucketPtr := table.slot (binAt table index)

def bindexOf (hash : Chunk → UInt32) (table : Metadata) (chunk : Chunk) : Nat :=
  bindexAt (hash chunk).toNat table.maxp table.p

namespace Metadata

variable (table : Metadata) (bin other : BinPtr) (bucket node : BucketPtr)
variable (value : Option BucketPtr)

@[simp] theorem slot_set_slot : (table.setSlot bin value).slot bin = value := by
  simp [slot, setSlot]

theorem slot_set_slot_of_ne (different : other ≠ bin) :
    (table.setSlot bin value).slot other = table.slot other := by
  simp only [slot, setSlot]
  by_cases same : other.1 = bin.1
  · have offsets : other.2 ≠ bin.2 := fun equal => different (Prod.ext same equal)
    rw [same, Function.update_self, Function.update_of_ne offsets]
  · rw [Function.update_of_ne same]

@[simp] theorem slot_set_next : (table.setNextBucket bucket value).slot bin = table.slot bin := rfl

@[simp] theorem next_set_slot :
    (table.setSlot bin value).nextBucket = table.nextBucket := rfl

theorem next_set_next :
    (table.setNextBucket bucket value).nextBucket =
      Function.update table.nextBucket bucket value := by
  funext node
  by_cases same : node = bucket
  · subst same
    simp [nextBucket, setNextBucket]
  · simp [nextBucket, setNextBucket, Function.update_of_ne same]

@[simp] theorem slot_set_count (count : Nat) : (table.setCount count).slot bin = table.slot bin :=
  rfl

@[simp] theorem next_set_count (count : Nat) :
    (table.setCount count).nextBucket = table.nextBucket := rfl

@[simp] theorem count_set_count (count : Nat) : (table.setCount count).count = count := rfl

@[simp] theorem chunk_set_next :
    ((table.setNextBucket bucket value).bucket node).chunk = (table.bucket node).chunk := by
  by_cases same : node = bucket
  · subst same
    simp [setNextBucket]
  · simp [setNextBucket, Function.update_of_ne same]

end Metadata

/-- The shape does not depend on the buckets, the census or the cache. -/
theorem Shape.refill {before after : Metadata} (shape : Shape before)
    (rest : after = { before with
      bucket := after.bucket, count := after.count, cache := after.cache }) : Shape after := by
  rw [rest]
  exact
    { minimum := shape.minimum
      doubling := shape.doubling
      depth := shape.depth
      split := shape.split
      bins := shape.bins
      atMost := shape.atMost
      length := shape.length
      lengthBound := shape.lengthBound
      current := shape.current
      currentLe := shape.currentLe
      present := shape.present
      absent := shape.absent
      distinct := shape.distinct
      emptyAbove := shape.emptyAbove
      emptyPool := shape.emptyPool }

section Addressing

variable {table : Metadata} (build : Build)

theorem Shape.maxp_pow (shape : Shape table) : table.maxp = 2 ^ (8 + table.L) := by
  rw [shape.doubling, shape.minimum, pow_add]
  norm_num

theorem Shape.maxp_positive (shape : Shape table) : 0 < table.maxp :=
  Nat.lt_of_le_of_lt (Nat.zero_le _) shape.split

theorem Shape.maxp_at_least (shape : Shape table) : 256 ≤ table.maxp := by
  have positive : 0 < 2 ^ table.L := Nat.two_pow_pos _
  rw [shape.doubling, shape.minimum]
  omega

theorem metadata_bindex_pow {exponent : Nat} (power : table.maxp = 2 ^ exponent)
    (chunk : Chunk) :
    metadataBindex build table chunk = .ok (bindexOf build.hash table chunk) := by
  have double : table.maxp <<< 1 = 2 ^ (exponent + 1) := by
    rw [Nat.shiftLeft_eq, power]
    ring
  simp only [metadataBindex, power, mod_power_of_two_pow, ok_bind, pure_ok]
  rw [power] at double
  simp only [double, mod_power_of_two_pow, bindexOf, bindexAt, power]
  rw [show 2 * 2 ^ exponent = 2 ^ (exponent + 1) by ring]
  split_ifs <;> rfl

theorem Shape.metadata_bindex (shape : Shape table) (chunk : Chunk) :
    metadataBindex build table chunk = .ok (bindexOf build.hash table chunk) :=
  metadata_bindex_pow build shape.maxp_pow chunk

theorem Shape.bindex_of_lt (shape : Shape table) (hash : Chunk → UInt32) (chunk : Chunk) :
    bindexOf hash table chunk < table.bincount := by
  rw [shape.bins]
  exact bindex_at_lt _ _ _ shape.maxp_positive

theorem Shape.segindex_lt (shape : Shape table) {index : Nat} (bound : index < table.bincount) :
    index / 256 < table.directoryCurrent := by
  have current := shape.current
  omega

theorem Shape.bindex2bin (shape : Shape table) {index : Nat} (bound : index < table.bincount) :
    bindex2bin build table index = .ok (binAt table index) := by
  have segment := shape.segindex_lt bound
  obtain ⟨seg, stored⟩ := shape.present _ segment
  have inDirectory : index / cfg.segmentLength < table.directoryCurrent := segment
  have atSegment : table.directory (index / cfg.segmentLength) = some seg := stored
  simp only [MetadataTable.bindex2bin, assert, bound, inDirectory, decide_true, Bool.or_true,
    if_true, ok_bind, atSegment, mod_segment_length, pure_ok, binAt, stored, Option.getD_some]

theorem Shape.fetch_bucket (shape : Shape table) (chunk : Chunk) :
    metadataFetchBucket build table chunk =
      .ok (binAt table (bindexOf build.hash table chunk)) := by
  rw [metadataFetchBucket, shape.metadata_bindex, ok_bind,
    shape.bindex2bin build (shape.bindex_of_lt _ _)]

theorem Shape.bin_at_injective (shape : Shape table) {left right : Nat}
    (leftBound : left < table.bincount) (rightBound : right < table.bincount)
    (same : binAt table left = binAt table right) : left = right := by
  obtain ⟨leftSeg, leftStored⟩ := shape.present _ (shape.segindex_lt leftBound)
  obtain ⟨rightSeg, rightStored⟩ := shape.present _ (shape.segindex_lt rightBound)
  simp only [binAt, leftStored, rightStored, Option.getD_some, Prod.mk.injEq] at same
  obtain ⟨segments, offsets⟩ := same
  rw [← segments] at rightStored
  have quotients := shape.distinct _ _ _ leftStored rightStored
  omega

end Addressing

end SriGlibcMalloc.MetadataTable
