import SriGlibcMalloc.Metadata.Segments
import SriGlibcMalloc.PoolAllocator.Lowest

/-!
# The table over its pools

The functions of `metadata.c` that take memory from a memcxt and give it back:
`init_metadata`, the calls of `memcxt_allocate` and `memcxt_release` that the
operations make, and `delete_metadata`. A bucket or a segment that is released
keeps its contents, and the next user of the slot finds them there.
-/

namespace SriGlibcMalloc.TableMemory

open MetadataTable Transition
open PoolAllocator (Memcxt allocSegment freeBucket freeSegment segmentKind bucketKind)

set_option autoImplicit false

structure Contents where
  bucket : BucketPtr → Bucket
  segment : SegmentPtr → Nat → Option BucketPtr

/-- `init_metadata` over given contents: the directory comes from `sri_mmap` and
is zeroed, the first segment from the pools and is not. `area` is the answer of
`sri_mmap` when every segment pool is full. -/
def initOver (fuel : Nat) (contents : Contents) (memcxt : Memcxt)
    (directory : Option DirectoryPtr) (area : Option Nat) : Option Metadata × Memcxt :=
  match directory with
  | none => (none, memcxt)
  | some address =>
      let (segment, after) := allocSegment memcxt area
      (segment.map fun firstSegment =>
        { initMetadata fuel contents.bucket address firstSegment with
          segment := contents.segment },
        after)

theorem init_over_some (fuel : Nat) (contents : Contents) (memcxt : Memcxt)
    (address : DirectoryPtr) (area : Option Nat) :
    initOver fuel contents memcxt (some address) area =
      ((allocSegment memcxt area).1.map fun firstSegment =>
          { initMetadata fuel contents.bucket address firstSegment with
            segment := contents.segment },
        (allocSegment memcxt area).2) := rfl

/-- The loop of `delete_metadata` along one bin. There is no result when the chain
does not end or a bucket names no pool. -/
def releaseChain (table : Metadata) : Nat → Option BucketPtr → Memcxt → Option Memcxt
  | 0, _, _ => none
  | _ + 1, none, memcxt => some memcxt
  | fuel + 1, some currentBucket, memcxt =>
      (freeBucket memcxt currentBucket).bind fun released =>
        releaseChain table fuel (table.nextBucket currentBucket) released

/-- The buckets of a segment, then the segment. -/
def releaseSegment (table : Metadata) (memcxt : Memcxt) (segment : SegmentPtr) : Option Memcxt :=
  ((List.range cfg.segmentLength).foldlM (fun memcxt index =>
      releaseChain table table.fuel (table.slot (segment, index)) memcxt) memcxt).bind
    fun released => freeSegment released segment

def deleteMetadata (table : Metadata) (memcxt : Memcxt) : Option (Metadata × Memcxt) :=
  ((List.range table.directoryCurrent).foldlM (fun memcxt segindex =>
      (table.directory segindex).bind (releaseSegment table memcxt)) memcxt).map
    fun released =>
      (match mulSize table.directoryLength 8 with
        | none => table
        | some _ => releaseDirectory table table.directoryAddress,
        released)

def remains (table : Metadata) : Contents := ⟨table.bucket, table.segment⟩

/-- A table and the pools that its memory comes from. `linked` are the buckets that
were added to the table and that it has not released. -/
structure World where
  table : Metadata
  client : PoolAllocator.Client
  linked : Finset BucketPtr

inductive Action
  | pools (action : PoolAllocator.Action)
  | table (op : Op) (directory : Option DirectoryPtr) (area : Option Nat)

/-- The buckets that a deletion hands to `memcxt_release`. -/
def releases (build : Build) (table : Metadata) : Op → List BucketPtr
  | .delete chunk => (stackOf build.hash table chunk).take 1
  | .deleteAll chunk => stackOf build.hash table chunk
  | _ => []

/-- What the pools answer when an operation asks for a segment. -/
def answersOf (client : PoolAllocator.Client) (directory : Option DirectoryPtr)
    (area : Option Nat) : Answers :=
  ⟨(allocSegment client.memcxt area).1, directory⟩

/-- The segment that an expansion takes, and the one that a contraction gives back. -/
def settleSegments (before after : Metadata) (area : Option Nat)
    (client : PoolAllocator.Client) : Option PoolAllocator.Client :=
  if before.directoryCurrent < after.directoryCurrent then
    some { client with
      memcxt := (allocSegment client.memcxt area).2
      liveSegments :=
        PoolAllocator.hold client.liveSegments (allocSegment client.memcxt area).1 }
  else if after.directoryCurrent < before.directoryCurrent then do
    let last ← before.directory (before.directoryCurrent - 1)
    let memcxt ← freeSegment client.memcxt last
    return { client with memcxt := memcxt, liveSegments := client.liveSegments.erase last }
  else some client

def settleBuckets (released : List BucketPtr) (client : PoolAllocator.Client) :
    Option PoolAllocator.Client :=
  (released.foldlM freeBucket client.memcxt).map fun memcxt =>
    { client with memcxt := memcxt, liveBuckets := client.liveBuckets \ released.toFinset }

def linkedAfter (linked : Finset BucketPtr) (released : List BucketPtr) :
    Op → Finset BucketPtr
  | .add bucket _ => insert bucket linked
  | _ => linked \ released.toFinset

def step (build : Build) (world : World) : Action → Option World
  | .pools action =>
      (PoolAllocator.step world.client action).map fun client => { world with client := client }
  | .table op directory area =>
      match MetadataTable.step build world.table op (answersOf world.client directory area) with
      | .error _ => none
      | .ok (_, after) => do
          let released := releases build world.table op
          let lighter ← settleBuckets released world.client
          let client ← settleSegments world.table after area lighter
          return ⟨after, client, linkedAfter world.linked released op⟩

/-- What the clients of the memcxt may do. The table's owner adds buckets that it
allocated and that are not in the table. Others may use the pools as well, but
leave the slots of the table alone and give no segment back: what they leave in a
segment is not known. -/
def Permits (world : World) : Action → Prop
  | .pools (.freeSegment _) => False
  | .pools (.freeBucket slot) => slot ∉ world.linked
  | .pools _ => True
  | .table op directory area =>
      PoolAllocator.Fresh world.client.memcxt segmentKind area ∧
        directory ≠ some world.table.directoryAddress ∧
        ∀ bucket chunk, op = .add bucket chunk → bucket ∈ world.client.liveBuckets ∧
          bucket ∉ world.linked ∧ 0 < bucket ∧ bucket < 2 ^ 64

/-- The table after `init_metadata` over pools whose segments nobody has written to. -/
def create (fuel : Nat) (bucket : BucketPtr → Bucket) (client : PoolAllocator.Client)
    (directory : Option DirectoryPtr) (area : Option Nat) : Option World :=
  (initOver fuel ⟨bucket, fun _ _ => none⟩ client.memcxt directory area).1.map fun table =>
    { table := table
      client := { client with
        memcxt := (allocSegment client.memcxt area).2
        liveSegments :=
          PoolAllocator.hold client.liveSegments (allocSegment client.memcxt area).1 }
      linked := ∅ }

end SriGlibcMalloc.TableMemory
