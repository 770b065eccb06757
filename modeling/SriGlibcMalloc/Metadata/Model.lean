import Mathlib.Data.Nat.Bitwise
import Mathlib.Logic.Function.Basic
import SriGlibcMalloc.PointerList.Segment

/-!
# The per-arena metadata table

This is a transcription of `metadata.c`: Larson's dynamic hashing over a
directory of segments of bins, each bin a chain of buckets through
`next_bucket`. Pointers are names into the maps `bucket` and `segment`; the
null pointer is `none` (`0` for a chunk, which is a client address). What
`memcxt_allocate` answers for a segment or a directory is an input of the
operation that may ask for one. Sizes stay far below `2^64` except `count`,
which is reduced like the `size_t` it is.
-/

namespace SriGlibcMalloc.MetadataTable

set_option autoImplicit false

abbrev Chunk := Nat
abbrev BucketPtr := Nat
abbrev SegmentPtr := Nat
abbrev DirectoryPtr := Nat

/-- A bin is a slot of a segment: the `bucket_t**` of the source. -/
abbrev BinPtr := SegmentPtr × Nat

/-- The compile-time choices. The Makefile ships `-DNDEBUG`, with the cache
off; `hash` stands for either of the two hash functions. -/
structure Build where
  ndebug : Bool
  sriMetadataCache : Bool
  hash : Chunk → UInt32

structure MetadataCfg where
  segmentLength : Nat
  initialDirectoryLength : Nat
  directoryLengthMax : Nat
  bincountMax : Nat
  minLoad : Nat
  maxLoad : Nat

/-- `metadata_cfg_init`; `bincount_max` is `UINT32_MAX`. -/
def cfg : MetadataCfg where
  segmentLength := 256
  initialDirectoryLength := 1024
  directoryLengthMax := (2 ^ 32 - 1) / 256
  bincountMax := 2 ^ 32 - 1
  minLoad := 2
  maxLoad := 3

def metadataSegmentsAtStartup : Nat := 1

/-- How a call can fail to return: an assertion of a debug build, a write
through a null or unmapped pointer, or a loop that does not end. -/
inductive Fault
  | assertPowerOfTwo
  | assertBindex
  | assertSegindex
  | assertDirectoryFull
  | assertDirectoryLengthMax
  | assertBincountMax
  | assertNewBinEmpty
  | assertCurlen
  | assertCheckIndex
  | assertSizes
  | assertSuccess
  | nullSegment
  | nullDirectory
  | endlessChain
  deriving DecidableEq, Repr

abbrev Exec (Value : Type) := Except Fault Value

@[simp] theorem ok_bind {Value Other : Type} (value : Value) (rest : Value → Exec Other) :
    ((Except.ok value : Exec Value) >>= rest) = rest value := rfl

@[simp] theorem error_bind {Value Other : Type} (fault : Fault) (rest : Value → Exec Other) :
    ((Except.error fault : Exec Value) >>= rest) = Except.error fault := rfl

@[simp] theorem pure_ok {Value : Type} (value : Value) :
    (pure value : Exec Value) = Except.ok value := rfl

def assert (build : Build) (condition : Bool) (fault : Fault) : Exec Unit :=
  if build.ndebug || condition then .ok () else .error fault

/-- `add_size` and `mul_size` of `utils.c`, on 64-bit words. -/
def addSize (left right : Nat) : Option Nat :=
  let result := (left + right) % 2 ^ 64
  if result < left || result < right then none else some result

def mulSize (left right : Nat) : Option Nat :=
  if left = 0 || right = 0 then some 0
  else
    let result := (left * right) % 2 ^ 64
    if result / right ≠ left then none else some result

def wrapSub (left right : Nat) : Nat := (left + (2 ^ 64 - right % 2 ^ 64)) % 2 ^ 64

/-- `is_power_of_two` takes a `uint32_t`. -/
def isPowerOfTwo (n : Nat) : Bool :=
  let word := n % 2 ^ 32
  word &&& ((word + (2 ^ 32 - 1)) % 2 ^ 32) = 0

def modPowerOfTwo (build : Build) (x y : Nat) : Exec Nat := do
  assert build (isPowerOfTwo y) .assertPowerOfTwo
  return x &&& (y - 1)

structure Bucket where
  chunk : Chunk
  nextBucket : Option BucketPtr

/-- The two-entry cache compiled in by `SRI_METADATA_CACHE`. -/
structure Cache where
  nextUpdateIsZero : Bool
  cacheKeys0 : Chunk
  cacheKeys1 : Chunk
  cacheValues0 : Option BucketPtr
  cacheValues1 : Option BucketPtr

/-- `metadata_t` with the memory its pointers reach. `fuel` bounds the number of
iterations that a loop along a chain is given: one that needs more is taken not
to end. -/
structure Metadata where
  bucket : BucketPtr → Bucket
  segment : SegmentPtr → Nat → Option BucketPtr
  directoryAddress : DirectoryPtr
  directory : Nat → Option SegmentPtr
  directoryLength : Nat
  directoryCurrent : Nat
  N : Nat
  L : Nat
  p : Nat
  count : Nat
  maxp : Nat
  bincount : Nat
  cache : Cache
  fuel : Nat

/-- The answers of `memcxt_allocate` during one operation: each operation asks
for at most one segment and at most one directory. -/
structure Answers where
  segment : Option SegmentPtr
  directory : Option DirectoryPtr

namespace Metadata

def nextBucket (table : Metadata) (bucket : BucketPtr) : Option BucketPtr :=
  (table.bucket bucket).nextBucket

def slot (table : Metadata) (bin : BinPtr) : Option BucketPtr :=
  table.segment bin.1 bin.2

def setSlot (table : Metadata) (bin : BinPtr) (value : Option BucketPtr) : Metadata :=
  { table with
    segment := Function.update table.segment bin.1
      (Function.update (table.segment bin.1) bin.2 value) }

def setNextBucket (table : Metadata) (bucket : BucketPtr)
    (value : Option BucketPtr) : Metadata :=
  { table with
    bucket := Function.update table.bucket bucket
      { table.bucket bucket with nextBucket := value } }

def setCount (table : Metadata) (count : Nat) : Metadata := { table with count := count }

end Metadata

/-- `init_metadata` over memory that the kernel handed out zeroed, once both
allocations have succeeded. -/
def initMetadata (fuel : Nat) (bucket : BucketPtr → Bucket) (directoryAddress : DirectoryPtr)
    (firstSegment : SegmentPtr) : Metadata where
  bucket := bucket
  segment _ _ := none
  directoryAddress := directoryAddress
  directory index := if index = 0 then some firstSegment else none
  directoryLength := cfg.initialDirectoryLength
  directoryCurrent := metadataSegmentsAtStartup
  N := cfg.segmentLength * metadataSegmentsAtStartup
  L := 0
  p := 0
  count := 0
  maxp := cfg.segmentLength * metadataSegmentsAtStartup
  bincount := cfg.segmentLength * metadataSegmentsAtStartup
  cache :=
    { nextUpdateIsZero := true
      cacheKeys0 := 0
      cacheKeys1 := 0
      cacheValues0 := none
      cacheValues1 := none }
  fuel := fuel

def metadataLoad (table : Metadata) : Nat := table.count / table.bincount

def cacheInsert (cache : Cache) (key : Chunk) (value : Option BucketPtr) : Cache :=
  if cache.nextUpdateIsZero then
    { cache with cacheKeys0 := key, cacheValues0 := value, nextUpdateIsZero := false }
  else
    { cache with cacheKeys1 := key, cacheValues1 := value, nextUpdateIsZero := true }

def cacheDelete (cache : Cache) (key : Chunk) : Cache :=
  if cache.cacheKeys0 = key then
    { cache with cacheKeys0 := 0, cacheValues0 := none, nextUpdateIsZero := true }
  else if cache.cacheKeys1 = key then
    { cache with cacheKeys1 := 0, cacheValues1 := none, nextUpdateIsZero := false }
  else cache

/-- The hit counters only feed `dump_metadata` and are left out. -/
def cacheLookup (cache : Cache) (key : Chunk) : Option BucketPtr × Cache :=
  if cache.cacheKeys0 = key then
    (cache.cacheValues0, { cache with nextUpdateIsZero := false })
  else if cache.cacheKeys1 = key then
    (cache.cacheValues1, { cache with nextUpdateIsZero := true })
  else (none, cache)

/-- What stands under `#if SRI_METADATA_CACHE`. -/
def ifCached (build : Build) (table : Metadata) (update : Cache → Cache) : Metadata :=
  { table with cache := if build.sriMetadataCache then update table.cache else table.cache }

def metadataBindex (build : Build) (table : Metadata) (chunk : Chunk) : Exec Nat := do
  let jhash := (build.hash chunk).toNat
  let l ← modPowerOfTwo build jhash table.maxp
  if l < table.p then
    let nextMaxp := table.maxp <<< 1
    -- if we can expand to next_maxp we use that
    if nextMaxp < cfg.bincountMax then modPowerOfTwo build jhash nextMaxp else return l
  else return l

def bindex2bin (build : Build) (table : Metadata) (bindex : Nat) : Exec BinPtr := do
  assert build (bindex < table.bincount) .assertBindex
  let segindex := bindex / cfg.segmentLength
  assert build (segindex < table.directoryCurrent) .assertSegindex
  match table.directory segindex with
  | none => .error .nullSegment
  | some segptr =>
      let index ← modPowerOfTwo build bindex cfg.segmentLength
      return (segptr, index)

def metadataFetchBucket (build : Build) (table : Metadata) (chunk : Chunk) : Exec BinPtr := do
  let bindex ← metadataBindex build table chunk
  bindex2bin build table bindex

def unlinkBucket (table : Metadata) (binp : BinPtr) (previous : Option BucketPtr)
    (bucketp : BucketPtr) : Metadata :=
  match previous with
  | none => table.setSlot binp (table.nextBucket bucketp)
  | some before => table.setNextBucket before (table.nextBucket bucketp)

def linkBucket (table : Metadata) (binp : BinPtr) (last : Option BucketPtr)
    (bucketp : BucketPtr) : Metadata :=
  match last with
  | none => table.setSlot binp (some bucketp)
  | some last => table.setNextBucket last (some bucketp)

/-- `memcxt_release` of a directory unmaps it: the entries of the directory in
use would no longer be readable. -/
def releaseDirectory (table : Metadata) (address : DirectoryPtr) : Metadata :=
  if address = table.directoryAddress then { table with directory := fun _ => none } else table

/-- The loop copying the first `length` entries into a directory that the
kernel handed out zeroed. -/
def copyDirectory (table : Metadata) (address : DirectoryPtr) (length : Nat) : Metadata :=
  { table with
    directoryAddress := address
    directory := fun index => if index < length then table.directory index else none }

def metadataExpandDirectory (build : Build) (table : Metadata) (answers : Answers) :
    Exec (Bool × Metadata) := do
  let oldDirlen := table.directoryLength
  assert build (oldDirlen = table.directoryCurrent) .assertDirectoryFull
  let newDirlen := oldDirlen <<< 1
  assert build (newDirlen < cfg.directoryLengthMax) .assertDirectoryLengthMax
  let olddir := table.directoryAddress
  match mulSize newDirlen 8 with
  | none => return (false, table)
  | some _ =>
      match answers.directory with
      | none => return (false, table)
      | some newdir =>
          let copied := if newdir ≠ olddir then copyDirectory table newdir oldDirlen else table
          let grown := { copied with directoryLength := newDirlen }
          match mulSize oldDirlen 8 with
          | none => return (false, grown)
          | some _ => return (true, releaseDirectory grown olddir)

/-- The loop of `metadata_expand_table` that splits the old bin, keeping the
order of the buckets in both bins. -/
def splitBuckets (build : Build) (newBindex : Nat) (oldbucketp newbin : BinPtr) :
    Nat → Option BucketPtr → Option BucketPtr → Option BucketPtr → Metadata → Exec Metadata
  | 0, _, _, _, _ => .error .endlessChain
  | _ + 1, none, _, _, table => return table
  | fuel + 1, some current, previous, lastofnew, table => do
      let bindex ← metadataBindex build table (table.bucket current).chunk
      if bindex = newBindex then
        -- it belongs in the new bucket
        let linked := linkBucket table newbin lastofnew current
        let unlinked := unlinkBucket linked oldbucketp previous current
        splitBuckets build newBindex oldbucketp newbin fuel (unlinked.nextBucket current)
          previous (some current) (unlinked.setNextBucket current none)
      else
        splitBuckets build newBindex oldbucketp newbin fuel (table.nextBucket current)
          (some current) lastofnew table

def advanceSplit (table : Metadata) : Metadata :=
  if table.p + 1 = table.maxp then
    { table with
      maxp := table.maxp <<< 1, p := 0, L := table.L + 1, bincount := table.bincount + 1 }
  else { table with p := table.p + 1, bincount := table.bincount + 1 }

/-- Expand address space; if necessary create a new segment. -/
def expandSegment (table : Metadata) (newSegindex newsegindex : Nat) (answers : Answers) :
    Bool × Metadata :=
  if newsegindex = 0 ∧ table.directory newSegindex = none then
    match answers.segment with
    | none => (false, table)
    | some newseg =>
        (true, { table with
          directory := Function.update table.directory newSegindex (some newseg)
          directoryCurrent := table.directoryCurrent + 1 })
  else (true, table)

def expandDirectoryIfFull (build : Build) (table : Metadata) (answers : Answers) :
    Exec (Bool × Metadata) :=
  if table.directoryLength = table.directoryCurrent then
    metadataExpandDirectory build table answers
  else return (true, table)

def expandBin (build : Build) (table : Metadata) (newBindex : Nat) (answers : Answers) :
    Exec (Bool × Metadata) := do
  let oldbucketp ← bindex2bin build table table.p
  let newSegindex := newBindex / cfg.segmentLength
  let newsegindex ← modPowerOfTwo build newBindex cfg.segmentLength
  let (success, grown) := expandSegment table newSegindex newsegindex answers
  if success then
    match grown.directory newSegindex with
    | none => .error .nullSegment
    | some newseg =>
        let advanced := advanceSplit grown
        assert build (advanced.slot (newseg, newsegindex) = none) .assertNewBinEmpty
        let split ← splitBuckets build newBindex oldbucketp (newseg, newsegindex) advanced.fuel
          (advanced.slot oldbucketp) none none advanced
        return (true, split)
  else return (false, grown)

def metadataExpandTable (build : Build) (table : Metadata) (answers : Answers) :
    Exec (Bool × Metadata) :=
  match addSize table.maxp table.p with
  | none => return (false, table)
  | some newBindex => do
      assert build (newBindex < cfg.bincountMax) .assertBincountMax
      let (success, ready) ← expandDirectoryIfFull build table answers
      if success then
        if newBindex < cfg.bincountMax then expandBin build ready newBindex answers
        else return (true, ready)
      else return (false, ready)

def metadataExpandCheck (build : Build) (table : Metadata) (answers : Answers) :
    Exec (Bool × Metadata) :=
  if table.bincount < cfg.bincountMax ∧ metadataLoad table > cfg.maxLoad then
    metadataExpandTable build table answers
  else return (true, table)

/-- Nothing tests `newdir`: copying into a null directory writes its first
entry. -/
def metadataContractDirectory (build : Build) (table : Metadata) (answers : Answers) :
    Exec Metadata := do
  let oldlen := table.directoryLength
  let curlen := table.directoryCurrent
  let newlen := oldlen >>> 1
  match mulSize newlen 8, mulSize oldlen 8 with
  | some _, some _ =>
      assert build (curlen < newlen) .assertCurlen
      if curlen < newlen then
        let olddir := table.directoryAddress
        match answers.directory with
        | none => .error .nullDirectory
        | some newdir =>
            let copied := if olddir ≠ newdir then copyDirectory table newdir newlen else table
            return releaseDirectory { copied with directoryLength := newlen } olddir
      else return table
  | _, _ => do
      assert build false .assertSizes
      return table

def lastBucket (table : Metadata) : Nat → BucketPtr → Exec BucketPtr
  | 0, _ => .error .endlessChain
  | fuel + 1, tmp =>
      match table.nextBucket tmp with
      | none => return tmp
      | some next => lastBucket table fuel next

/-- Move all the buckets in the src bin to the end of the tgt bin. -/
def moveBuckets (table : Metadata) (srcbin tgtbin : BinPtr) : Exec Metadata :=
  match table.slot srcbin with
  | none => return table
  | some src =>
      match table.slot tgtbin with
      | none => return (table.setSlot tgtbin (some src)).setSlot srcbin none
      | some tgt => do
          let tmp ← lastBucket table table.fuel tgt
          return (table.setNextBucket tmp (some src)).setSlot srcbin none

def retreatSplit (table : Metadata) : Metadata :=
  if table.p = 0 then
    { table with
      maxp := table.maxp >>> 1
      p := (table.maxp >>> 1) - 1
      L := table.L - 1
      bincount := table.bincount - 1 }
  else { table with p := table.p - 1, bincount := table.bincount - 1 }

/-- Eliminate the segment that starts with the src bin. -/
def contractSegment (table : Metadata) (segindex indexInSegment : Nat) : Metadata :=
  if indexInSegment = 0 then
    { table with
      directory := Function.update table.directory segindex none
      directoryCurrent := table.directoryCurrent - 1 }
  else table

def contractIndices (table : Metadata) : Option (Nat × Nat) :=
  if table.p = 0 then some (table.maxp - 1, (table.maxp >>> 1) - 1)
  else (addSize table.maxp (table.p - 1)).map fun srcindex => (srcindex, table.p - 1)

def contractBin (build : Build) (table : Metadata) : Exec Metadata :=
  match contractIndices table with
  | none => do
      assert build false .assertSizes
      return table
  | some (srcindex, tgtindex) => do
      assert build (srcindex < table.bincount) .assertCheckIndex
      assert build (tgtindex < table.bincount) .assertCheckIndex
      let srcbin ← bindex2bin build table srcindex
      let tgtbin ← bindex2bin build table tgtindex
      let moved ← moveBuckets table srcbin tgtbin
      let indexInSegment ← modPowerOfTwo build srcindex cfg.segmentLength
      return retreatSplit (contractSegment moved (srcindex / cfg.segmentLength) indexInSegment)

def metadataContractTable (build : Build) (table : Metadata) (answers : Answers) :
    Exec Metadata := do
  let ready ←
    if table.directoryLength > cfg.initialDirectoryLength ∧
        table.directoryCurrent < table.directoryLength >>> 1 then
      metadataContractDirectory build table answers
    else pure table
  contractBin build ready

def metadataContractCheck (build : Build) (table : Metadata) (answers : Answers) :
    Exec Metadata :=
  if table.L > 0 ∧ metadataLoad table < cfg.minLoad then
    metadataContractTable build table answers
  else return table

/-- For the time being a new bucket is inserted at the front. -/
def linkFront (table : Metadata) (binp : BinPtr) (newbucket : BucketPtr) : Metadata :=
  let linked := (table.setNextBucket newbucket (table.slot binp)).setSlot binp (some newbucket)
  linked.setCount ((linked.count + 1) % 2 ^ 64)

def metadataAdd (build : Build) (table : Metadata) (newbucket : BucketPtr)
    (answers : Answers) : Exec (Bool × Metadata) := do
  let chunk := (table.bucket newbucket).chunk
  let cached := ifCached build table fun cache => cacheInsert cache chunk (some newbucket)
  let binp ← metadataFetchBucket build cached chunk
  metadataExpandCheck build (linkFront cached binp newbucket) answers

/-- The search loop of `metadata_lookup`: the bucket found and the trailing
pointer `bucketp_prev`. -/
def lookupLoop (table : Metadata) (chunk : Chunk) :
    Nat → Option BucketPtr → Option BucketPtr → Exec (Option BucketPtr × Option BucketPtr)
  | 0, _, _ => .error .endlessChain
  | _ + 1, bucketpPrev, none => return (none, bucketpPrev)
  | fuel + 1, bucketpPrev, some bucketp =>
      if chunk = (table.bucket bucketp).chunk then return (some bucketp, bucketpPrev)
      else lookupLoop table chunk fuel (some bucketp) (table.nextBucket bucketp)

/-- Move the winning bucket to the top of its chain. -/
def promote (table : Metadata) (binp : BinPtr) (bucketpPrev : Option BucketPtr)
    (bucketp : BucketPtr) : Metadata :=
  match bucketpPrev with
  | none => table
  | some before =>
      if bucketpPrev ≠ table.slot binp then
        let skipped := table.setNextBucket before (table.nextBucket bucketp)
        (skipped.setNextBucket bucketp (skipped.slot binp)).setSlot binp (some bucketp)
      else table

def lookupTable (build : Build) (table : Metadata) (chunk : Chunk) :
    Exec (Option BucketPtr × Metadata) := do
  let binp ← metadataFetchBucket build table chunk
  let (value, bucketpPrev) ←
    lookupLoop table chunk table.fuel (table.slot binp) (table.slot binp)
  match value with
  | none => return (none, table)
  | some bucketp => return (some bucketp, promote table binp bucketpPrev bucketp)

def metadataLookup (build : Build) (table : Metadata) (chunk : Chunk) :
    Exec (Option BucketPtr × Metadata) :=
  if build.sriMetadataCache then
    let (cacheResult, cache) := cacheLookup table.cache chunk
    let table := { table with cache := cache }
    match cacheResult with
    | some bucket => return (some bucket, table)
    | none => do
        let (value, found) ← lookupTable build table chunk
        return (value, { found with cache := cacheInsert found.cache chunk value })
  else lookupTable build table chunk

/-- The loop of `metadata_delete`. Releasing the bucket to its pool does not
change what the table reads. -/
def deleteLoop (chunk : Chunk) (binp : BinPtr) :
    Nat → Option BucketPtr → Option BucketPtr → Metadata → Exec (Bool × Metadata)
  | 0, _, _, _ => .error .endlessChain
  | _ + 1, _, none, table => return (false, table)
  | fuel + 1, previous, some current, table =>
      if chunk = (table.bucket current).chunk then
        let unlinked := unlinkBucket table binp previous current
        return (true, unlinked.setCount (wrapSub unlinked.count 1))
      else deleteLoop chunk binp fuel (some current) (table.nextBucket current) table

def metadataDelete (build : Build) (table : Metadata) (chunk : Chunk) (answers : Answers) :
    Exec (Bool × Metadata) := do
  let cached := ifCached build table fun cache => cacheDelete cache chunk
  let binp ← metadataFetchBucket build cached chunk
  let (found, removed) ← deleteLoop chunk binp cached.fuel none (cached.slot binp) cached
  if found then
    let contracted ← metadataContractCheck build removed answers
    return (true, contracted)
  else return (false, removed)

def deleteAllLoop (chunk : Chunk) (binp : BinPtr) :
    Nat → Nat → Option BucketPtr → Option BucketPtr → Metadata → Exec (Nat × Metadata)
  | 0, _, _, _, _ => .error .endlessChain
  | _ + 1, count, _, none, table => return (count, table)
  | fuel + 1, count, previous, some current, table =>
      if chunk = (table.bucket current).chunk then
        let unlinked := unlinkBucket table binp previous current
        deleteAllLoop chunk binp fuel (count + 1) previous (unlinked.nextBucket current) unlinked
      else
        deleteAllLoop chunk binp fuel count (some current) (table.nextBucket current) table

def metadataDeleteAll (build : Build) (table : Metadata) (chunk : Chunk) (answers : Answers) :
    Exec (Nat × Metadata) := do
  let binp ← metadataFetchBucket build table chunk
  let (count, removed) ← deleteAllLoop chunk binp table.fuel 0 none (table.slot binp) table
  let counted := removed.setCount (wrapSub removed.count count)
  if count > 0 then
    let contracted ← metadataContractCheck build counted answers
    return (count, contracted)
  else return (count, counted)

/-- A client writes the key into a bucket before it adds it. -/
def setChunk (table : Metadata) (bucket : BucketPtr) (chunk : Chunk) : Metadata :=
  { table with
    bucket := Function.update table.bucket bucket { table.bucket bucket with chunk := chunk } }

/-- `register_chunk` once `new_chunkinfoptr` has found a bucket. -/
def registerChunk (build : Build) (table : Metadata) (newbucket : BucketPtr) (chunk : Chunk)
    (answers : Answers) : Exec (Option BucketPtr × Metadata) := do
  let (success, after) ← metadataAdd build (setChunk table newbucket chunk) newbucket answers
  assert build success .assertSuccess
  return (if success then some newbucket else none, after)

inductive Op
  | add (bucket : BucketPtr) (chunk : Chunk)
  | lookup (chunk : Chunk)
  | delete (chunk : Chunk)
  | deleteAll (chunk : Chunk)

inductive Reply
  | added (success : Bool)
  | found (bucket : Option BucketPtr)
  | deleted (success : Bool)
  | purged (count : Nat)
  deriving DecidableEq, Repr

def step (build : Build) (table : Metadata) (op : Op) (answers : Answers) :
    Exec (Reply × Metadata) :=
  match op with
  | .add bucket chunk => do
      let (success, after) ← metadataAdd build (setChunk table bucket chunk) bucket answers
      return (.added success, after)
  | .lookup chunk => do
      let (bucket, after) ← metadataLookup build table chunk
      return (.found bucket, after)
  | .delete chunk => do
      let (success, after) ← metadataDelete build table chunk answers
      return (.deleted success, after)
  | .deleteAll chunk => do
      let (count, after) ← metadataDeleteAll build table chunk answers
      return (.purged count, after)

/-- `memcxt_allocate` hands out memory that the table does not use. -/
structure Answers.Fresh (answers : Answers) (table : Metadata) : Prop where
  segment : ∀ seg, answers.segment = some seg → ∀ index, table.directory index ≠ some seg
  directory : answers.directory ≠ some table.directoryAddress

abbrev Permit := Metadata → Op → Answers → Prop

def anything : Permit := fun _ _ _ => True

def Answers.Granted (answers : Answers) : Prop :=
  answers.segment ≠ none ∧ answers.directory ≠ none

def granted : Permit := fun _ _ answers => answers.Granted

inductive Run (build : Build) (permitted : Permit) (table : Metadata) :
    List Op → List Reply → Metadata → Prop
  | start : Run build permitted table [] [] table
  | next {ops : List Op} {replies : List Reply} {before after : Metadata} {op : Op}
      {answers : Answers} {reply : Reply} (earlier : Run build permitted table ops replies before)
      (fresh : answers.Fresh before) (permits : permitted before op answers)
      (result : step build before op answers = .ok (reply, after)) :
      Run build permitted table (ops ++ [op]) (replies ++ [reply]) after

end SriGlibcMalloc.MetadataTable
