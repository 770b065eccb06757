import SriGlibcMalloc.ByteMemory.LengthChain
import SriGlibcMalloc.MappedChunks.Model

/-!
# The check bytes of `MALLOC_CHECK_`

The writer of `hooks.c` counts from the start of the block, its two readers from the start
of the chunk, and all of them allow for a header of two words and for a last word that the
next chunk shares. A chunk of this allocator has no header, or one of two words with
`SRI_DEBUG_HEADERS`, and shares nothing.
-/

namespace SriGlibcMalloc.MallocCheck

open ByteMemory
open MappedChunks (Record)
open MainArena (wrapSub pageSize sizeSz)
open EntryPoints (minSize mallocAlignMask)

set_option autoImplicit false

/-- Whether `SRI_DEBUG_HEADERS` is set. -/
structure Config where
  debugHeaders : Bool

def Config.headerSize (config : Config) : Nat := if config.debugHeaders then 16 else 0

def chunk2mem (config : Config) (p : Nat) : Nat := p + config.headerSize

def mem2chunk (config : Config) (mem : Nat) : Nat := mem - config.headerSize

def request2size (config : Config) (req : Nat) : Nat :=
  EntryPoints.request2size (req + config.headerSize)

/-- One is not returned. -/
def magicbyte (p : Nat) : Marker :=
  let magic := UInt8.ofNat ((p >>> 3) ^^^ (p >>> 11))
  if one : magic = 1 then ⟨2, by decide⟩ else ⟨magic, one⟩

abbrev Bytes := Nat → UInt8

/-- `max_sz` of `mem2mem_check`. -/
def maxSz (record : Record) : Nat :=
  record.size - 2 * sizeSz + if record.mmapped then 0 else sizeSz

/-- What `mem2mem_check` writes, as offsets in the block. -/
def checkBytes (record : Record) (p reqSz : Nat) : List (Nat × UInt8) :=
  chain (magicbyte p) reqSz (maxSz record - 1)

def mem2memCheck (config : Config) (record : Record) (p reqSz : Nat) (memory : Bytes) : Bytes :=
  store (chunk2mem config p) (checkBytes record p reqSz) memory

/-- The offset in the chunk that both readers start at. -/
def lastByte (record : Record) : Nat :=
  record.size - 1 + if record.mmapped then 0 else sizeSz

/-- The loop of both readers, over offsets in the chunk. -/
def findMagic (record : Record) (p : Nat) (memory : Bytes) : List Nat × Option Nat :=
  follow (fun offset => memory (p + offset)) (magicbyte p).val (2 * sizeSz) (lastByte record)

/-- Corruption is reported and gives zero. -/
def mallocCheckGetSize (record : Record) (p : Nat) (memory : Bytes) : Nat :=
  match (findMagic record p memory).2 with
  | none => 0
  | some size => wrapSub size (2 * sizeSz)

/-- What `mem2chunk_check` looks at besides the record and the bytes of the chunk: the
arena, the bit of the next chunk, `PREV_INUSE`, and the size of the chunk before. -/
structure Surroundings where
  contiguous : Bool
  sbrkBase : Nat
  systemMem : Nat
  inuse : Bool
  prevInuse : Bool
  prevChunksize : Nat

def conventional (around : Surroundings) (record : Record) (p : Nat) : Bool :=
  !(around.contiguous &&
      (p < around.sbrkBase || around.sbrkBase + around.systemMem ≤ p + record.size)) &&
    !(record.size < minSize || record.size &&& mallocAlignMask ≠ 0 || !around.inuse) &&
    (around.prevInuse ||
      !(record.prevSize &&& mallocAlignMask ≠ 0) &&
        !(around.contiguous && p - record.prevSize < around.sbrkBase) &&
        p - record.prevSize + around.prevChunksize = p)

def mappedOffsets : List Nat :=
  [0, 0x10, 0x20, 0x40, 0x80, 0x100, 0x200, 0x400, 0x800, 0x1000]

def mapped (around : Surroundings) (record : Record) (p mem : Nat) : Bool :=
  (mem % pageSize ∈ mappedOffsets || 0x2000 ≤ mem % pageSize) && !around.prevInuse &&
    (p - record.prevSize) % pageSize = 0 && (record.prevSize + record.size) % pageSize = 0

/-- What `mem2chunk_check` tests before it looks at the check bytes. -/
def credible (around : Surroundings) (record : Record) (p mem : Nat) : Bool :=
  mem &&& mallocAlignMask = 0 &&
    if record.mmapped then mapped around record p mem else conventional around record p

/-- `^= 0xFF` at one address. -/
def invert (address : Nat) (memory : Bytes) : Bytes :=
  Function.update memory address (memory address ^^^ 0xFF)

/-- The bytes with the magic byte inverted, and where that is. -/
def mem2chunkCheck (around : Surroundings) (record : Record) (p mem : Nat) (memory : Bytes) :
    Option (Bytes × Nat) :=
  if credible around record p mem then
    (findMagic record p memory).2.map fun size => (invert (p + size) memory, p + size)
  else none

def SameChunk (record : Record) (p : Nat) (memory later : Bytes) : Prop :=
  ∀ offset < record.size, later (p + offset) = memory (p + offset)

/-- The check bytes of a block of `req_sz` bytes lie in the chunk and behind the block; as
long as nobody writes into the chunk both readers read nothing but the chunk and stop at
the byte behind the block. -/
structure RoundTrips (config : Config) (record : Record) (p reqSz : Nat) : Prop where
  written : ∀ write ∈ checkBytes record p reqSz,
    reqSz ≤ write.1 ∧ chunk2mem config p + write.1 < p + record.size
  reads : ∀ memory later, SameChunk record p (mem2memCheck config record p reqSz memory) later →
    ∀ offset ∈ (findMagic record p later).1, offset < record.size
  stops : ∀ memory later, SameChunk record p (mem2memCheck config record p reqSz memory) later →
    (findMagic record p later).2 = some (config.headerSize + reqSz)
  size : ∀ memory later, SameChunk record p (mem2memCheck config record p reqSz memory) later →
    mallocCheckGetSize record p later = reqSz
  accepted : ∀ memory later around,
    SameChunk record p (mem2memCheck config record p reqSz memory) later →
    credible around record p (chunk2mem config p) = true →
    mem2chunkCheck around record p (chunk2mem config p) later =
      some (invert (chunk2mem config p + reqSz) later, chunk2mem config p + reqSz)

variable {config : Config} {record : Record} {p reqSz : Nat}

theorem request2size_covers (config : Config) (req : Nat) :
    req + config.headerSize ≤ request2size config req ∧ minSize ≤ request2size config req := by
  unfold request2size EntryPoints.request2size
  split_ifs with tiny
  · simp only [minSize, mallocAlignMask] at *
    omega
  · simp only [minSize, mallocAlignMask] at *
    omega

/-- A mapped chunk with a header is what the writer and the readers were written for. -/
theorem mapped_round_trips (large : request2size config (reqSz + 1) ≤ record.size)
    (word : record.size < 2 ^ 64) (header : config.debugHeaders = true)
    (isMapped : record.mmapped = true) : RoundTrips config record p reqSz := by
  obtain ⟨covers, _⟩ := request2size_covers config (reqSz + 1)
  have headerSize : config.headerSize = 16 := by rw [Config.headerSize, if_pos header]
  have size : maxSz record = record.size - 16 := by
    rw [maxSz, if_pos isMapped]
    rfl
  have reaches : reqSz ≤ maxSz record - 1 := by omega
  have start : lastByte record = maxSz record - 1 + 2 * sizeSz := by
    rw [lastByte, if_pos isMapped, size]
    simp only [sizeSz]
    omega
  have place : chunk2mem config p = p + 16 := by rw [chunk2mem, headerSize]
  have within := chain_within (magicbyte p) reaches
  have distinct := chain_distinct (magicbyte p) reqSz (maxSz record - 1)
  have found : ∀ memory later,
      SameChunk record p (mem2memCheck config record p reqSz memory) later →
      findMagic record p later =
        ((checkBytes record p reqSz).map fun write => write.1 + 16, some (reqSz + 16)) := by
    intro memory later same
    rw [findMagic, start]
    apply follow_chain reaches
    intro write member
    have bounds := within write member
    rw [show 2 * sizeSz = 16 from rfl, same (write.1 + 16) (by omega), mem2memCheck, place,
      show p + (write.1 + 16) = p + 16 + write.1 by omega]
    exact store_written member distinct
  refine ⟨?_, ?_, ?_, ?_, ?_⟩
  · intro write member
    have bounds := within write member
    omega
  · intro memory later same offset visited
    rw [found memory later same] at visited
    obtain ⟨write, member, equal⟩ := List.mem_map.mp visited
    have bounds := within write member
    omega
  · intro memory later same
    rw [found memory later same, headerSize, Nat.add_comm]
  · intro memory later same
    rw [mallocCheckGetSize, found memory later same]
    simp only [wrapSub, MainArena.wrap, sizeSz]
    omega
  · intro memory later around same passes
    rw [mem2chunkCheck, if_pos passes, found memory later same, Option.map_some, place,
      show p + (reqSz + 16) = p + 16 + reqSz by omega]

/-- The first byte that a reader looks at in a heap chunk belongs to the next chunk. -/
theorem heap_reads_outside (p : Nat) (isHeap : record.mmapped = false) (memory : Bytes) :
    ∃ offset ∈ (findMagic record p memory).1, record.size ≤ offset := by
  refine ⟨lastByte record, follow_reads_first _ _ _ _, ?_⟩
  rw [lastByte, isHeap]
  simp only [sizeSz, Bool.false_eq_true, if_false]
  omega

/-- Without a header the size comes out two words too small. -/
theorem headerless_size_wrong (noHeader : config.headerSize = 0) (memory : Bytes)
    (stops : (findMagic record p memory).2 = some (config.headerSize + reqSz)) :
    mallocCheckGetSize record p memory ≠ reqSz := by
  rw [mallocCheckGetSize, stops, noHeader]
  simp only [wrapSub, MainArena.wrap, sizeSz]
  omega

/-- The check bytes come back exactly in a mapped chunk with a header. -/
theorem trailer_round_trips_iff (config : Config) (record : Record) (p reqSz : Nat)
    (large : request2size config (reqSz + 1) ≤ record.size) (word : record.size < 2 ^ 64) :
    RoundTrips config record p reqSz ↔
      config.debugHeaders = true ∧ record.mmapped = true := by
  constructor
  · intro trips
    have anything : Bytes := fun _ => 0
    have same : SameChunk record p (mem2memCheck config record p reqSz anything)
        (mem2memCheck config record p reqSz anything) := fun _ _ => rfl
    have header : config.debugHeaders = true := by
      by_contra without
      have noHeader : config.headerSize = 0 := by rw [Config.headerSize, if_neg without]
      exact headerless_size_wrong noHeader _ (trips.stops _ _ same) (trips.size _ _ same)
    refine ⟨header, ?_⟩
    by_contra isHeap
    obtain ⟨offset, visited, outside⟩ := heap_reads_outside p (eq_false_of_ne_true isHeap)
      (mem2memCheck config record p reqSz anything)
    exact absurd (trips.reads _ _ same offset visited) (Nat.not_lt.mpr outside)
  · rintro ⟨header, isMapped⟩
    exact mapped_round_trips large word header isMapped

/-- A mapping of two pages that `malloc (5000)` gets with a header. -/
theorem mapped_block_round_trips : RoundTrips ⟨true⟩ ⟨0, 0x2000, true⟩ 0x7f0000000000 5000 :=
  (trailer_round_trips_iff ⟨true⟩ ⟨0, 0x2000, true⟩ 0x7f0000000000 5000 (by decide)
    (by decide)).mpr ⟨rfl, rfl⟩

/-- The smallest chunk of the heap, as `malloc (24)` gets it in the shipped build. -/
theorem smallest_chunk_does_not_round_trip :
    ¬∀ (config : Config) (record : Record) (p reqSz : Nat),
      request2size config (reqSz + 1) ≤ record.size → record.size < 2 ^ 64 →
        RoundTrips config record p reqSz := by
  intro claimed
  have trips := claimed ⟨false⟩ ⟨0, 32, false⟩ 0x602000 24 (by decide) (by decide)
  have isHeap : (⟨0, 32, false⟩ : Record).mmapped = false := rfl
  obtain ⟨offset, visited, outside⟩ := heap_reads_outside 0x602000 isHeap
    (mem2memCheck ⟨false⟩ ⟨0, 32, false⟩ 0x602000 24 fun _ => 0)
  exact absurd (trips.reads _ _ (fun _ _ => rfl) offset visited) (Nat.not_lt.mpr outside)

end SriGlibcMalloc.MallocCheck
