import SriGlibcMalloc.BitMask.Masks

/-!
# The pools of metadata records

This is a transcription of `memcxt.c`. Buckets and segments are served by the
same code from pools of their own, which differ in the number of bit masks and
in the size of a slot. A pool is an area that `sri_mmap` returned; its slots come
first in the area. The field that points from a slot to its pool is read from
memory. The assertions are not compiled in.
-/

namespace SriGlibcMalloc.PoolAllocator

set_option autoImplicit false

def bitsInMask : Nat := 64

/-- What the two kinds of pools differ in. -/
structure Kind where
  scale : Nat
  slotBytes : Nat
  someMask : 0 < scale
  someBytes : 0 < slotBytes
  small : scale * 64 < 2 ^ 64

def Kind.length (kind : Kind) : Nat := kind.scale * bitsInMask

/-- The slots, the masks, the count of free slots and the next pool. -/
def Kind.poolBytes (kind : Kind) : Nat := kind.length * kind.slotBytes + kind.scale * 8 + 16

def Kind.slot (kind : Kind) (base index : Nat) : Nat := base + kind.slotBytes * index

/-- `BP_SCALE` masks; a `bucket_t` has eleven words. -/
def bucketKind : Kind := ⟨1024, 88, by decide, by decide, by decide⟩

/-- `SP_SCALE` masks; a `segment_t` has 257 words. -/
def segmentKind : Kind := ⟨8, 2056, by decide, by decide, by decide⟩

structure Pool where
  base : Nat
  bitmasks : Nat → BitVec 64
  freeCount : BitVec 64

/-- The pools of one kind in the order of their links, and the pool pointers of
the slots, by the address of the slot. -/
structure Pools where
  pools : List Pool
  poolPtr : Nat → Nat

structure Memcxt where
  segments : Pools
  buckets : Pools

def ctz64 (x : BitVec 64) : Nat := BitMask.lowest x

def getFreeBit (mask : BitVec 64) : Nat := ctz64 (~~~mask)

def setBit (mask : BitVec 64) (index : Nat) : BitVec 64 := mask ||| 1#64 <<< index

def clearBit (mask : BitVec 64) (index : Nat) : BitVec 64 := mask &&& ~~~(1#64 <<< index)

/-- `new_buckets`, `new_segments`: an area becomes a pool without used slots. -/
def newPool (kind : Kind) (poolPtr : Nat → Nat) (base : Nat) : Pool × (Nat → Nat) :=
  (⟨base, fun _ => 0#64, BitVec.ofNat 64 kind.length⟩,
    (List.range kind.length).foldl
      (fun memory index => Function.update memory (kind.slot base index) base) poolPtr)

/-- The search in one pool, which is skipped when nothing is free. -/
def Pool.take (kind : Kind) (pool : Pool) : Option (Nat × Pool) :=
  if 0 < pool.freeCount then
    ((List.range kind.scale).find? fun scale => pool.bitmasks scale < BitVec.allOnes 64).map
      fun scale =>
        let index := getFreeBit (pool.bitmasks scale)
        (kind.slot pool.base (scale * bitsInMask + index),
          { pool with
            bitmasks :=
              Function.update pool.bitmasks scale (setBit (pool.bitmasks scale) index)
            freeCount := pool.freeCount - 1 })
  else none

def takeFrom (kind : Kind) : List Pool → Option (Nat × List Pool)
  | [] => none
  | pool :: rest =>
      match pool.take kind with
      | some (slot, pool) => some (slot, pool :: rest)
      | none => (takeFrom kind rest).map fun (slot, rest) => (slot, pool :: rest)

/-- `alloc_bucket`, `alloc_segment`; the area is the answer of `sri_mmap`, which
is asked when all pools are full. -/
def alloc (kind : Kind) (pools : Pools) (area : Option Nat) : Option Nat × Pools :=
  match takeFrom kind pools.pools with
  | some (slot, found) => (some slot, { pools with pools := found })
  | none =>
      match area with
      | none => (none, pools)
      | some base =>
          let (pool, poolPtr) := newPool kind pools.poolPtr base
          let first := { pool with
            freeCount := pool.freeCount - 1
            bitmasks := Function.update pool.bitmasks 0 1#64 }
          (some (kind.slot base 0), ⟨first :: pools.pools, poolPtr⟩)

def Pool.giveBack (pool : Pool) (index : Nat) : Pool :=
  let maskIndex := index / bitsInMask
  { pool with
    bitmasks := Function.update pool.bitmasks maskIndex
      (clearBit (pool.bitmasks maskIndex) (index % bitsInMask))
    freeCount := pool.freeCount + 1 }

/-- `free_bucket`, `free_segment`: the slot names its pool. There is no result
when it names none. -/
def free (kind : Kind) (pools : Pools) (slot : Nat) : Option Pools :=
  let owner := pools.poolPtr slot
  if pools.pools.any fun pool => pool.base = owner then
    let index := (slot - owner) / kind.slotBytes
    some { pools with
      pools := pools.pools.map fun pool =>
        if pool.base = owner then pool.giveBack index else pool }
  else none

def allocBucket (memcxt : Memcxt) (area : Option Nat) : Option Nat × Memcxt :=
  let (slot, buckets) := alloc bucketKind memcxt.buckets area
  (slot, { memcxt with buckets := buckets })

def freeBucket (memcxt : Memcxt) (slot : Nat) : Option Memcxt :=
  (free bucketKind memcxt.buckets slot).map fun buckets => { memcxt with buckets := buckets }

def allocSegment (memcxt : Memcxt) (area : Option Nat) : Option Nat × Memcxt :=
  let (slot, segments) := alloc segmentKind memcxt.segments area
  (slot, { memcxt with segments := segments })

def freeSegment (memcxt : Memcxt) (slot : Nat) : Option Memcxt :=
  (free segmentKind memcxt.segments slot).map fun segments => { memcxt with segments := segments }

/-- The first pool of one kind, if `sri_mmap` grants it. -/
def firstPools (kind : Kind) (memory : Nat → Nat) : Option Nat → Pools
  | none => ⟨[], memory⟩
  | some base =>
      let (pool, poolPtr) := newPool kind memory base
      ⟨[pool], poolPtr⟩

def initMemcxt (memory : Nat → Nat) (segments buckets : Option Nat) : Bool × Memcxt :=
  (segments.isSome && buckets.isSome,
    ⟨firstPools segmentKind memory segments, firstPools bucketKind memory buckets⟩)

end SriGlibcMalloc.PoolAllocator
