import SriGlibcMalloc.TableMemory.Ownership

/-!
# What a deleted table leaves behind

`delete_metadata` gives every bucket and every segment back, but leaves the
slots of the segments as they are. The next table over the same pools starts in
the first vacant segment, and is empty exactly when that one is.
-/

namespace SriGlibcMalloc.TableMemory

open MetadataTable KeyedStack PointerList Transition
open PoolAllocator (Memcxt Consistent Gone Vacant firstVacant allocSegment freeBucket freeSegment
  segmentKind bucketKind free_buckets_gone free_segment_gone alloc_first first_vacant_exists)

set_option autoImplicit false

/-- The segments that live in the pools but not in the directory of the table. -/
def otherSegments (world : World) : Finset Nat :=
  world.client.liveSegments.filter fun seg =>
    ∀ index < world.table.directoryCurrent, world.table.directory index ≠ some seg

/-- Nothing is in the table: no lookup finds anything, and no bin has a chain. -/
structure Empty (build : Build) (table : Metadata) : Prop where
  lookups : ∀ chunk, ∃ after, metadataLookup build table chunk = .ok (none, after)
  bins : ∀ index < table.bincount, topOf table index = none

/-- After a deletion that left `deleted` and `memcxt` all slots of the table are free,
and a new table over `memcxt` is empty. -/
structure NoTrace (build : Build) (world : World) (deleted : Metadata) (memcxt : Memcxt) :
    Prop where
  buckets : ∀ bucket ∈ world.linked, Vacant bucketKind memcxt.buckets bucket
  segments : ∀ index seg, world.table.directory index = some seg →
    Vacant segmentKind memcxt.segments seg
  renewed : ∀ directory area table, PoolAllocator.Fresh memcxt segmentKind area →
    (initOver deleted.fuel (remains deleted) memcxt directory area).1 = some table →
    Empty build table

/-- `delete_metadata` returns and leaves no trace of the table. -/
def LeavesNoTrace (build : Build) (world : World) : Prop :=
  ∃ deleted memcxt, deleteMetadata world.table world.client.memcxt = some (deleted, memcxt) ∧
    NoTrace build world deleted memcxt

/-- The segment that the pools hand out first, once those of the table are free, has
nothing in its 256 bins. -/
def StartsEmpty (world : World) : Prop :=
  ∀ seg, firstVacant segmentKind world.client.memcxt.segments.bases (otherSegments world) =
    some seg → ∀ offset < 256, world.table.segment seg offset = none

variable {build : Build} {world : World} {entries : Entries Chunk BucketPtr}
variable {bins : Nat → List BucketPtr} {memcxt : Memcxt} {bucketCount segmentCount : Nat}

theorem release_chain_eq {table : Metadata} {top : Option BucketPtr} {nodes : List BucketPtr}
    {fuel : Nat} (chain : Chain table.nextBucket top nodes) (ample : nodes.length < fuel)
    (memcxt : Memcxt) :
    releaseChain table fuel top memcxt = nodes.foldlM freeBucket memcxt := by
  induction nodes generalizing top fuel memcxt with
  | nil =>
      obtain ⟨fuel, same⟩ := Nat.exists_eq_succ_of_ne_zero (Nat.ne_of_gt ample)
      rw [same, show top = none from chain]
      rfl
  | cons node nodes ih =>
      obtain ⟨fuel, same⟩ := Nat.exists_eq_succ_of_ne_zero (Nat.ne_of_gt (Nat.zero_lt_of_lt ample))
      obtain ⟨start, onward⟩ := chain
      rw [List.length_cons] at ample
      rw [same, start, releaseChain, List.foldlM_cons]
      apply congrArg
      funext released
      exact ih onward (by omega) released

structure Freed (world : World) (bins : Nat → List BucketPtr) (bucketCount segmentCount : Nat)
    (memcxt : Memcxt) : Prop where
  gone : Gone world.client
    { memcxt := memcxt
      liveSegments := world.client.liveSegments.filter fun seg =>
        ∀ index < segmentCount, world.table.directory index ≠ some seg
      liveBuckets := world.client.liveBuckets.filter fun bucket =>
        ∀ index < bucketCount, bucket ∉ bins index }

theorem Owns.freed (owns : Owns build world entries) (bins : Nat → List BucketPtr) :
    Freed world bins 0 0 world.client.memcxt := by
  constructor
  simp only [Nat.not_lt_zero, IsEmpty.forall_iff, implies_true, Finset.filter_true]
  exact Gone.refl owns.consistent

theorem mem_bins_iff (chained : Chained build.hash world.table bins)
    (stacked : ∀ chunk, stack entries chunk =
      carrying world.table chunk (bins (bindexOf build.hash world.table chunk)))
    (owns : Owns build world entries) {bucket : BucketPtr} :
    bucket ∈ world.linked ↔ ∃ index, bucket ∈ bins index := by
  rw [owns.linked, List.mem_toFinset, List.mem_map]
  constructor
  · rintro ⟨⟨chunk, held⟩, member, same⟩
    change held = bucket at same
    subst same
    have carried := mem_stack.mpr member
    rw [stacked] at carried
    exact ⟨_, (List.mem_filter.mp carried).1⟩
  · rintro ⟨index, member⟩
    have carried : bucket ∈ stack entries (world.table.bucket bucket).chunk := by
      rw [stacked, chained.addressed index bucket member]
      simp [carrying, member]
    exact ⟨_, mem_stack.mp carried, rfl⟩

theorem Freed.release_bin (freed : Freed world bins bucketCount segmentCount memcxt)
    (chained : Chained build.hash world.table bins)
    (live : ∀ bucket ∈ bins bucketCount, bucket ∈ world.client.liveBuckets) :
    ∃ released, (bins bucketCount).foldlM freeBucket memcxt = some released ∧
      Freed world bins (bucketCount + 1) segmentCount released := by
  obtain ⟨released, ran, _, onward⟩ := free_buckets_gone freed.gone.consistent
    (chained.nodup bucketCount) (by
      intro bucket member
      rw [Finset.mem_filter]
      refine ⟨live bucket member, ?_⟩
      intro index bound again
      exact absurd (chained.apart again member) (Nat.ne_of_lt bound))
  refine ⟨released, ran, ⟨?_⟩⟩
  have rest : world.client.liveBuckets.filter (fun bucket =>
        ∀ index < bucketCount + 1, bucket ∉ bins index) =
      world.client.liveBuckets.filter (fun bucket => ∀ index < bucketCount, bucket ∉ bins index) \
        (bins bucketCount).toFinset := by
    ext bucket
    simp only [Finset.mem_filter, Finset.mem_sdiff, List.mem_toFinset, Nat.forall_lt_succ_right]
    tauto
  rw [rest]
  exact freed.gone.trans onward

theorem Freed.release_segment (freed : Freed world bins bucketCount segmentCount memcxt)
    (shape : Shape world.table) {seg : SegmentPtr}
    (stored : world.table.directory segmentCount = some seg)
    (live : seg ∈ world.client.liveSegments) :
    ∃ released, freeSegment memcxt seg = some released ∧
      Freed world bins bucketCount (segmentCount + 1) released := by
  have member : seg ∈ world.client.liveSegments.filter fun seg =>
      ∀ index < segmentCount, world.table.directory index ≠ some seg := by
    rw [Finset.mem_filter]
    refine ⟨live, ?_⟩
    intro index bound again
    exact absurd (shape.distinct _ _ _ again stored) (Nat.ne_of_lt bound)
  obtain ⟨released, ran, onward⟩ := free_segment_gone freed.gone.consistent member
  refine ⟨released, ran, ⟨?_⟩⟩
  have rest : world.client.liveSegments.filter (fun other =>
        ∀ index < segmentCount + 1, world.table.directory index ≠ some other) =
      (world.client.liveSegments.filter fun other =>
        ∀ index < segmentCount, world.table.directory index ≠ some other).erase seg := by
    ext other
    simp only [Finset.mem_filter, Finset.mem_erase, Nat.forall_lt_succ_right, stored, ne_eq,
      Option.some.injEq]
    constructor
    · rintro ⟨member, earlier, different⟩
      exact ⟨fun same => different same.symm, member, earlier⟩
    · rintro ⟨different, member, earlier⟩
      exact ⟨member, earlier, fun same => different same.symm⟩
  rw [rest]
  exact freed.gone.trans onward

theorem Freed.release_bins (freed : Freed world bins (256 * segmentCount) segmentCount memcxt)
    (owns : Owns build world entries) (chained : Chained build.hash world.table bins)
    (stacked : ∀ chunk, stack entries chunk =
      carrying world.table chunk (bins (bindexOf build.hash world.table chunk)))
    (ample : entries.length < world.table.fuel) {seg : SegmentPtr}
    (stored : world.table.directory segmentCount = some seg) :
    ∃ released, (List.range cfg.segmentLength).foldlM (fun memcxt index =>
        releaseChain world.table world.table.fuel (world.table.slot (seg, index)) memcxt)
          memcxt = some released ∧
      Freed world bins (256 * segmentCount + 256) segmentCount released := by
  have shape := owns.holds.shape
  apply loop_invariant (fun offset released =>
    Freed world bins (256 * segmentCount + offset) segmentCount released) 256 memcxt freed
  intro offset reached bound sofar
  have chain : Chain world.table.nextBucket (world.table.slot (seg, offset))
      (bins (256 * segmentCount + offset)) := by
    by_cases inUse : 256 * segmentCount + offset < world.table.bincount
    · have place : binAt world.table (256 * segmentCount + offset) = (seg, offset) := by
        rw [binAt, show (256 * segmentCount + offset) / 256 = segmentCount by omega, stored,
          show (256 * segmentCount + offset) % 256 = offset by omega]
        rfl
      have chain := chained.chain _ inUse
      rw [topOf, place] at chain
      exact chain
    · rw [chained.outside _ (by omega)]
      exact shape.emptyAbove segmentCount offset seg stored bound (by omega)
  have short : (bins (256 * segmentCount + offset)).length < world.table.fuel :=
    Nat.lt_of_le_of_lt (chained.bin_length stacked) ample
  rw [release_chain_eq chain short]
  apply sofar.release_bin chained
  intro bucket member
  exact owns.buckets ((mem_bins_iff chained stacked owns).mpr ⟨_, member⟩)

theorem Owns.delete (owns : Owns build world entries)
    (ample : entries.length < world.table.fuel) :
    ∃ table memcxt bins, deleteMetadata world.table world.client.memcxt = some (table, memcxt) ∧
      remains table = remains world.table ∧ table.fuel = world.table.fuel ∧
      (∀ bucket ∈ world.linked, ∃ index < 256 * world.table.directoryCurrent,
        bucket ∈ bins index) ∧
      Freed world bins (256 * world.table.directoryCurrent) world.table.directoryCurrent
        memcxt := by
  obtain ⟨bins, chained, stacked⟩ := owns.holds.chains
  have shape := owns.holds.shape
  have each : ∀ segindex reached, segindex < world.table.directoryCurrent →
      Freed world bins (256 * segindex) segindex reached →
      ∃ released, (world.table.directory segindex).bind (releaseSegment world.table reached) =
        some released ∧ Freed world bins (256 * (segindex + 1)) (segindex + 1) released := by
    intro segindex reached bound sofar
    obtain ⟨seg, stored⟩ := shape.present segindex bound
    obtain ⟨lighter, chains, without⟩ := sofar.release_bins owns chained stacked ample stored
    obtain ⟨released, segment, onward⟩ :=
      without.release_segment shape stored (owns.segments segindex seg stored)
    refine ⟨released, ?_, onward⟩
    rw [stored, Option.bind_some, releaseSegment, chains]
    exact segment
  obtain ⟨memcxt, ran, freed⟩ := loop_invariant
    (fun segindex memcxt => Freed world bins (256 * segindex) segindex memcxt)
    world.table.directoryCurrent world.client.memcxt (owns.freed bins) each
  refine ⟨_, memcxt, bins, by rw [deleteMetadata, ran]; rfl, ?_, ?_, ?_, freed⟩
  · cases mulSize world.table.directoryLength 8 with
    | none => rfl
    | some _ =>
        simp only [releaseDirectory, if_true]
        rfl
  · cases mulSize world.table.directoryLength 8 with
    | none => rfl
    | some _ => simp only [releaseDirectory, if_true]
  · intro bucket member
    obtain ⟨index, inBin⟩ := (mem_bins_iff chained stacked owns).mp member
    refine ⟨index, ?_, inBin⟩
    have current := shape.current
    by_contra beyond
    rw [chained.outside index (by omega)] at inBin
    cases inBin

theorem lookup_table_of_empty_bin {table : Metadata} {chunk : Chunk} {bin : BinPtr}
    (fetched : metadataFetchBucket build table chunk = .ok bin) (empty : table.slot bin = none)
    (ample : 0 < table.fuel) : lookupTable build table chunk = .ok (none, table) := by
  obtain ⟨fuel, same⟩ := Nat.exists_eq_succ_of_ne_zero (Nat.ne_of_gt ample)
  simp only [lookupTable, fetched, ok_bind, empty, same, lookupLoop, pure_ok]

/-- A new table is empty exactly when its first segment is. -/
theorem empty_iff (build : Build) {fuel : Nat} (ample : 0 < fuel) (contents : Contents)
    (address : DirectoryPtr) (seg : SegmentPtr) :
    Empty build { initMetadata fuel contents.bucket address seg with
        segment := contents.segment } ↔
      ∀ offset < 256, contents.segment seg offset = none := by
  obtain ⟨table, tableDef⟩ : ∃ table, table =
      ({ initMetadata fuel contents.bucket address seg with
        segment := contents.segment } : Metadata) := ⟨_, rfl⟩
  have bincount : table.bincount = 256 := by
    rw [tableDef]
    rfl
  have top : ∀ index < 256, topOf table index = contents.segment seg index := by
    intro index bound
    have first : index / 256 = 0 := by omega
    have offset : index % 256 = index := by omega
    rw [topOf, binAt, tableDef, first, offset]
    rfl
  rw [← tableDef]
  constructor
  · intro empty offset bound
    rw [← top offset bound]
    exact empty.bins offset (by omega)
  · intro clean
    have bare : ∀ index < table.bincount, topOf table index = none := by
      intro index bound
      rw [bincount] at bound
      rw [top index bound]
      exact clean index bound
    refine ⟨?_, bare⟩
    intro chunk
    have shape := init_shape fuel contents.bucket address seg
    have bound := shape.bindex_of_lt build.hash chunk
    have fetched : ∀ cache, metadataFetchBucket build { table with cache := cache } chunk =
        .ok (binAt table (bindexOf build.hash table chunk)) := by
      intro cache
      rw [tableDef]
      exact shape.fetch_bucket build chunk
    have empty := bare (bindexOf build.hash table chunk) (by rw [tableDef]; exact bound)
    have enough : 0 < table.fuel := by
      rw [tableDef]
      exact ample
    have searched : ∀ cache, lookupTable build { table with cache := cache } chunk =
        .ok (none, { table with cache := cache }) :=
      fun cache => lookup_table_of_empty_bin (fetched cache) empty enough
    have vacant : (cacheLookup table.cache chunk).1 = none := by
      rw [tableDef]
      by_cases null : (0 : Chunk) = chunk
      · simp [cacheLookup, initMetadata, null]
      · simp [cacheLookup, initMetadata, null]
    unfold metadataLookup
    split_ifs
    · simp only [vacant, searched, ok_bind, pure_ok]
      exact ⟨_, rfl⟩
    · exact ⟨table, searched table.cache⟩

theorem Owns.leaves_no_trace_iff (owns : Owns build world entries)
    (ample : entries.length < world.table.fuel) :
    LeavesNoTrace build world ↔ StartsEmpty world := by
  obtain ⟨deleted, memcxt, bins, ran, contents, fuel, covered, freed⟩ := owns.delete ample
  have shape := owns.holds.shape
  have consistent := freed.gone.consistent
  have enough : 0 < deleted.fuel := by
    rw [fuel]
    exact Nat.zero_lt_of_lt ample
  have sameBases : memcxt.segments.bases = world.client.memcxt.segments.bases :=
    freed.gone.segments
  -- the first segment of the table is among the vacant ones
  obtain ⟨firstSeg, stored⟩ := shape.present 0 (by
    have current := shape.current
    have least := shape.maxp_at_least
    have bins := shape.bins
    omega)
  have notOther : firstSeg ∉ otherSegments world := by
    intro member
    have current := shape.current
    have least := shape.maxp_at_least
    have bins := shape.bins
    exact (Finset.mem_filter.mp member).2 0 (by omega) stored
  obtain ⟨pool, found, index, inside, address⟩ :=
    owns.consistent.segments.exact.placed firstSeg (owns.segments 0 firstSeg stored)
  obtain ⟨seg, first⟩ : ∃ seg, firstVacant segmentKind memcxt.segments.bases
      (otherSegments world) = some seg := by
    apply first_vacant_exists inside
    · rw [sameBases]
      exact List.mem_map_of_mem found
    · rw [← address]
      exact notOther
  have served : ∀ area, (allocSegment memcxt area).1 = some seg :=
    fun area => alloc_first consistent.segments first
  have renews : ∀ newDirectory area, (initOver deleted.fuel (remains deleted) memcxt
      (some newDirectory) area).1 = some { initMetadata deleted.fuel
        (remains deleted).bucket newDirectory seg with segment := (remains deleted).segment } := by
    intro newDirectory area
    rw [init_over_some, served]
    rfl
  have kept : (remains deleted).segment = world.table.segment := by
    rw [contents]
    rfl
  constructor
  · rintro ⟨other, others, again, trace⟩ vacant asked
    rw [ran] at again
    cases again
    rw [← sameBases, first] at asked
    cases asked
    have empty := trace.renewed (some 0) none _ (fun _ impossible => by cases impossible)
      (renews 0 none)
    rw [empty_iff build enough, kept] at empty
    exact empty
  · intro startsEmpty
    refine ⟨deleted, memcxt, ran, ?_, ?_, ?_⟩
    · intro bucket member
      obtain ⟨index, bound, inBin⟩ := covered bucket member
      apply owns.consistent.buckets.vacant consistent.buckets freed.gone.buckets
        (owns.buckets member)
      rw [Finset.mem_filter]
      exact fun still => still.2 index bound inBin
    · intro index other place
      apply owns.consistent.segments.vacant consistent.segments freed.gone.segments
        (owns.segments index other place)
      rw [Finset.mem_filter]
      have bound : index < world.table.directoryCurrent := by
        by_contra beyond
        rw [shape.absent index (by omega)] at place
        cases place
      exact fun still => still.2 index bound place
    · intro directory area table _ renewed
      cases directory with
      | none => cases renewed
      | some newDirectory =>
          rw [renews newDirectory area] at renewed
          cases renewed
          rw [empty_iff build enough, kept]
          apply startsEmpty
          rw [← sameBases]
          exact first

/-- In every run of a table over its pools a deletion leaves no trace exactly when the
segment that is handed out next is empty before it. -/
theorem deletion_leaves_no_trace_iff (build : Build) (memory : Nat → Nat)
    (segments buckets : Option Nat) (earlier : List PoolAllocator.Action)
    (client : PoolAllocator.Client) (fuel : Nat) (bucket : BucketPtr → Bucket)
    (directory : Option DirectoryPtr) (area : Option Nat) (start world : World)
    (actions : List Action)
    (apart : ∀ segment ∈ segments, ∀ bucket ∈ buckets,
      PoolAllocator.Separate segment segmentKind.poolBytes bucket bucketKind.poolBytes)
    (before : run PoolAllocator.step (PoolAllocator.start memory segments buckets) earlier =
      some client)
    (fresh : PoolAllocator.Fresh client.memcxt segmentKind area)
    (created : create fuel bucket client directory area = some start)
    (permitted : Permitted (step build) Permits start actions)
    (ran : run (step build) start actions = some world) (ample : actions.length + 1 < fuel) :
    LeavesNoTrace build world ↔ StartsEmpty world := by
  have consistent := run_preserves PoolAllocator.step_consistent earlier _ client
    (PoolAllocator.start_consistent memory segments buckets apart) before
  obtain ⟨initially, sameFuel⟩ := create_owns build consistent fresh created
  obtain ⟨entries, owns, room⟩ := run_owns initially (by
    rw [sameFuel, List.length_nil, Nat.zero_add]
    exact ample) permitted ran
  exact owns.leaves_no_trace_iff room

/-- The pools after `init_memcxt`, with one area for each kind. -/
def twoPools : PoolAllocator.Client :=
  PoolAllocator.start (fun _ => 0) (some 0x7f0000000000) (some 0x7f0001000000)

instance permitsDecidable (world : World) : ∀ action, Decidable (Permits world action)
  | .pools (.allocBucket _) => inferInstanceAs (Decidable True)
  | .pools (.freeBucket _) => inferInstanceAs (Decidable (_ ∉ _))
  | .pools (.allocSegment _) => inferInstanceAs (Decidable True)
  | .pools (.freeSegment _) => inferInstanceAs (Decidable False)
  | .table (.add bucket chunk) directory area =>
      decidable_of_iff (PoolAllocator.Fresh world.client.memcxt segmentKind area ∧
          directory ≠ some world.table.directoryAddress ∧ bucket ∈ world.client.liveBuckets ∧
          bucket ∉ world.linked ∧ 0 < bucket ∧ bucket < 2 ^ 64)
        ⟨fun holds => ⟨holds.1, holds.2.1, fun _ _ same => by cases same; exact holds.2.2⟩,
          fun permits => ⟨permits.1, permits.2.1, permits.2.2 bucket chunk rfl⟩⟩
  | .table (.lookup _) directory area =>
      decidable_of_iff (PoolAllocator.Fresh world.client.memcxt segmentKind area ∧
          directory ≠ some world.table.directoryAddress)
        ⟨fun holds => ⟨holds.1, holds.2, nofun⟩, fun permits => ⟨permits.1, permits.2.1⟩⟩
  | .table (.delete _) directory area =>
      decidable_of_iff (PoolAllocator.Fresh world.client.memcxt segmentKind area ∧
          directory ≠ some world.table.directoryAddress)
        ⟨fun holds => ⟨holds.1, holds.2, nofun⟩, fun permits => ⟨permits.1, permits.2.1⟩⟩
  | .table (.deleteAll _) directory area =>
      decidable_of_iff (PoolAllocator.Fresh world.client.memcxt segmentKind area ∧
          directory ≠ some world.table.directoryAddress)
        ⟨fun holds => ⟨holds.1, holds.2, nofun⟩, fun permits => ⟨permits.1, permits.2.1⟩⟩

def shipped : Build := ⟨true, false, fun _ => 7⟩

def firstTable : Option World := create 8 (fun _ => ⟨0, none⟩) twoPools (some 5) none

def oneAdd : List Action :=
  [.pools (.allocBucket none), .table (.add 0x7f0001000000 16) none none]

theorem fresh_nothing (memcxt : Memcxt) : PoolAllocator.Fresh memcxt segmentKind none := by
  intro base impossible
  cases impossible

theorem two_pools_consistent : Consistent twoPools := by
  apply PoolAllocator.start_consistent
  intro segment first bucket second
  cases first
  cases second
  decide

theorem one_add_permitted {start : World} (created : firstTable = some start) :
    Permitted (step shipped) Permits start oneAdd := by
  have allocated : (firstTable.bind fun start =>
      step shipped start (.pools (.allocBucket none))).all (fun next =>
        decide (0x7f0001000000 ∈ next.client.liveBuckets ∧ 0x7f0001000000 ∉ next.linked)) =
      true := by decide +kernel
  refine ⟨trivial, ?_⟩
  intro next stepped
  rw [created, Option.bind_some, stepped, Option.all_some, decide_eq_true_eq] at allocated
  refine ⟨⟨fresh_nothing _, nofun, ?_⟩, fun _ _ => trivial⟩
  intro bucket chunk adds
  cases adds
  exact ⟨allocated.1, allocated.2, by decide, by decide⟩

/-- A table of one chunk is deleted, and the next one starts with its bucket. -/
theorem next_table_not_empty :
    ∃ start world, firstTable = some start ∧ Permitted (step shipped) Permits start oneAdd ∧
      run (step shipped) start oneAdd = some world ∧ ¬LeavesNoTrace shipped world := by
  have kept : (firstTable.bind fun start => run (step shipped) start oneAdd).any (fun world =>
      decide (world.table.segment 0x7f0000000000 7 ≠ none ∧
        firstVacant segmentKind world.client.memcxt.segments.bases (otherSegments world) =
          some 0x7f0000000000)) = true := by decide +kernel
  obtain ⟨world, arrives, facts⟩ := (Option.any_eq_true _ _).mp kept
  obtain ⟨start, created, ran⟩ := Option.bind_eq_some_iff.mp arrives
  obtain ⟨dirty, vacant⟩ := of_decide_eq_true facts
  have permitted := one_add_permitted created
  obtain ⟨initially, fuel⟩ := create_owns shipped two_pools_consistent
    (fresh_nothing _) created
  obtain ⟨entries, owns, room⟩ := run_owns initially (by rw [fuel]; decide) permitted ran
  refine ⟨start, world, created, permitted, ran, ?_⟩
  rw [owns.leaves_no_trace_iff room]
  intro startsEmpty
  exact dirty (startsEmpty 0x7f0000000000 vacant 7 (by decide))

def emptiedActions : List Action :=
  [.pools (.allocBucket none), .table (.add 0x7f0001000000 16) none none,
    .pools (.allocBucket none), .table (.add 0x7f0001000058 16) none none,
    .table (.delete 16) none none, .table (.deleteAll 16) none none]

theorem bin_vacant {hash : Chunk → UInt32} {table : Metadata} {index : Nat}
    (holds : Holds hash table entries) (nothing : table.count = 0)
    (bound : index < table.bincount) : topOf table index = none := by
  obtain ⟨bins, chained, stacked⟩ := holds.chains
  have short : (bins index).length ≤ entries.length := chained.bin_length stacked
  have none_left : bins index = [] := by
    rw [← holds.count, nothing] at short
    exact List.length_eq_zero_iff.mp (Nat.le_zero.mp short)
  have chain := chained.chain index bound
  rw [none_left] at chain
  exact chain

theorem emptied_table_leaves_no_trace : ∃ start middle world, firstTable = some start ∧
    run (step shipped) start (emptiedActions.take 4) = some middle ∧
      stackOf shipped.hash middle.table 16 = [0x7f0001000058, 0x7f0001000000] ∧
      run (step shipped) start emptiedActions = some world ∧ LeavesNoTrace shipped world := by
  have runs : firstTable.any (fun start =>
      decide (Permitted (step shipped) Permits start emptiedActions) &&
      (run (step shipped) start (emptiedActions.take 4)).any (fun middle =>
        decide (stackOf shipped.hash middle.table 16 = [0x7f0001000058, 0x7f0001000000])) &&
      (run (step shipped) start emptiedActions).any (fun world =>
        decide (world.table.count = 0 ∧ world.table.directory 0 = some 0x7f0000000000 ∧
          firstVacant segmentKind world.client.memcxt.segments.bases (otherSegments world) =
            some 0x7f0000000000))) = true := by decide +kernel
  obtain ⟨start, created, facts⟩ := (Option.any_eq_true _ _).mp runs
  simp only [Bool.and_eq_true, Option.any_eq_true, decide_eq_true_eq] at facts
  obtain ⟨⟨permitted, middle, added, stacked⟩, world, ran, nothing, directory, vacant⟩ := facts
  obtain ⟨initially, fuel⟩ := create_owns shipped two_pools_consistent (fresh_nothing _) created
  obtain ⟨entries, owns, _⟩ := run_owns initially (by rw [fuel]; decide) permitted ran
  refine ⟨start, middle, world, created, added, stacked, ran, ?_⟩
  rw [deletion_leaves_no_trace_iff shipped (fun _ => 0) (some 0x7f0000000000)
    (some 0x7f0001000000) [] twoPools 8 (fun _ => ⟨0, none⟩) (some 5) none start world
    emptiedActions (by intro segment first bucket second; cases first; cases second; decide) rfl
    (fresh_nothing _) created permitted ran (by decide)]
  intro seg first offset bound
  rw [vacant] at first
  cases first
  have shape := owns.holds.shape
  have least := shape.maxp_at_least
  have bins := shape.bins
  have top : topOf world.table offset = none := bin_vacant owns.holds nothing (by omega)
  have place : binAt world.table offset = (0x7f0000000000, offset) := by
    rw [binAt, Nat.div_eq_of_lt bound, directory, Nat.mod_eq_of_lt bound]
    rfl
  rw [topOf, place] at top
  exact top

end SriGlibcMalloc.TableMemory
