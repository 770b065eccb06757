import SriGlibcMalloc.Metadata.Operations

/-!
# The structural invariant over every run

No assumption is made on the buckets that a client adds: the chains may be
anything, also cyclic. What can go wrong is then a loop that does not end, next
to the faults that no state excludes.
-/

namespace SriGlibcMalloc.MetadataTable

open Outcome

set_option autoImplicit false

/-- The faults of an operation on a table of the right shape: in particular no
assertion on a bin index and no write through a null segment is among them. -/
def Tolerated (build : Build) (answers : Answers) (fault : Fault) : Prop :=
  fault = .endlessChain ∨ Unavoidable build answers fault

variable {table : Metadata} {answers : Answers} (build : Build)

theorem expand_check_shape (shape : Shape table) (fresh : answers.Fresh table) :
    Ensures (fun result => Shape result.2) (Tolerated build answers)
      (metadataExpandCheck build table answers) := by
  unfold metadataExpandCheck
  split_ifs with crowded
  · rcases expand_table_cases build shape fresh crowded.1 with
      ⟨long, run⟩ | ⟨_, ⟨_, ready, _, readyShape, run⟩ |
        ⟨_, large, largeShape, adjacent, _, _, run⟩⟩
    · rw [run]
      exact Or.inr (Unavoidable.directoryLengthMax long.1)
    · rw [run]
      exact readyShape
    · have bins := shape.bins
      have positive := shape.maxp_positive
      have larger := adjacent.bincount
      have spec : Ensures (Relinks (· < large.bincount) large) (· = Fault.endlessChain)
          (splitBuckets build table.bincount (binAt large table.p) (binAt large table.bincount)
            large.fuel (topOf large table.p) none none large) :=
        split_buckets_relinks build _ _ _ _ largeShape.maxp_pow (by omega) rfl
          (show table.bincount < large.bincount by omega) rfl
      rw [run]
      refine Ensures.bind (spec.weaken (fun _ relinks => relinks) (fun _ => Or.inl)) ?_
      intro split relinks
      exact relinks.shape (fun _ bound => bound) largeShape
  · exact shape

theorem contract_check_shape (shape : Shape table) (fresh : answers.Fresh table) :
    Ensures Shape (Tolerated build answers) (metadataContractCheck build table answers) := by
  unfold metadataContractCheck
  split_ifs with sparse
  · rcases contract_table_cases build shape fresh (shape.wide sparse.1) with
      ⟨_, refused, run⟩ | ⟨_, ready, redirected, readyShape, _, run⟩
    · rw [run]
      exact Or.inr (Unavoidable.nullDirectory refused)
    · have wide : 256 < ready.bincount := by
        rw [redirected.rest]
        exact shape.wide sparse.1
      have sameBins : table.bincount = ready.bincount := by rw [redirected.rest]
      have sameMaxp : table.maxp = ready.maxp := by rw [redirected.rest]
      have sameP : table.p = ready.p := by rw [redirected.rest]
      obtain ⟨_, lower, numbers, _⟩ := readyShape.merge_numbers wide
      have least := readyShape.maxp_at_least
      have bins := readyShape.bins
      have spec : Ensures (fun moved => Relinks (· < ready.bincount) ready moved ∧
          moved.slot (binAt ready (ready.bincount - 1)) = none) (· = Fault.endlessChain)
          (moveBuckets ready (binAt ready (ready.bincount - 1))
            (binAt ready (mergeBefore ready.maxp ready.p).2)) :=
        move_buckets_relinks (show ready.bincount - 1 < ready.bincount by omega) rfl
          (show (mergeBefore ready.maxp ready.p).2 < ready.bincount by omega) rfl
      rw [run, sameBins, sameMaxp, sameP]
      refine Ensures.bind (spec.weaken (fun _ moved => moved) (fun _ => Or.inl)) ?_
      rintro moved ⟨relinks, emptied⟩
      rw [ensures_ok, ← relinks.bincount]
      refine (relinks.shape (fun _ bound => bound) readyShape).retreat ?_ ?_
      · rw [relinks.bincount]
        exact wide
      · rw [relinks.slot_top, relinks.bincount]
        exact emptied
  · exact shape

theorem add_shape {bucket : BucketPtr} (shape : Shape table) (fresh : answers.Fresh table) :
    Ensures (fun result => Shape result.2) (Tolerated build answers)
      (metadataAdd build table bucket answers) := by
  obtain ⟨chunk, chunkDef⟩ : ∃ chunk, chunk = (table.bucket bucket).chunk := ⟨_, rfl⟩
  obtain ⟨cached, cachedDef⟩ : ∃ cached, cached =
      ifCached build table fun cache => cacheInsert cache chunk (some bucket) := ⟨_, rfl⟩
  have cachedShape : Shape cached := by
    rw [cachedDef]
    exact shape.refill rfl
  have cachedFresh : answers.Fresh cached := by
    rw [cachedDef]
    exact ⟨fresh.segment, fresh.directory⟩
  have bound := cachedShape.bindex_of_lt build.hash chunk
  have relinks : Relinks (· < cached.bincount) cached
      (linkFront cached (binAt cached (bindexOf build.hash cached chunk)) bucket) :=
    link_front_relinks bound rfl
  simp only [metadataAdd, ← chunkDef, ← cachedDef, cachedShape.fetch_bucket, ok_bind]
  exact expand_check_shape build (relinks.shape (fun _ bound => bound) cachedShape)
    (relinks.fresh cachedFresh)

theorem lookup_table_shape {chunk : Chunk} (shape : Shape table) :
    Ensures (fun result => Shape result.2) (Tolerated build answers)
      (lookupTable build table chunk) := by
  have bound := shape.bindex_of_lt build.hash chunk
  simp only [lookupTable, shape.fetch_bucket, ok_bind]
  refine Ensures.bind (lookup_loop_fault.weaken (fun _ _ => trivial) (fun _ => Or.inl)) ?_
  rintro ⟨value, bucketpPrev⟩ _
  cases value with
  | none => exact shape
  | some bucketp =>
      have relinks : Relinks (· < table.bincount) table
          (promote table (binAt table (bindexOf build.hash table chunk)) bucketpPrev bucketp) :=
        promote_relinks bound rfl
      exact relinks.shape (fun _ bound => bound) shape

theorem lookup_shape {chunk : Chunk} (shape : Shape table) :
    Ensures (fun result => Shape result.2) (Tolerated build answers)
      (metadataLookup build table chunk) := by
  simp only [metadataLookup]
  split_ifs
  · have cachedShape : Shape { table with cache := (cacheLookup table.cache chunk).2 } :=
      shape.refill rfl
    cases (cacheLookup table.cache chunk).1 with
    | some bucket => exact cachedShape
    | none =>
        refine (lookup_table_shape build cachedShape).bind ?_
        intro result found
        exact found.refill rfl
  · exact lookup_table_shape build shape

theorem delete_shape {chunk : Chunk} (shape : Shape table) (fresh : answers.Fresh table) :
    Ensures (fun result => Shape result.2) (Tolerated build answers)
      (metadataDelete build table chunk answers) := by
  obtain ⟨cached, cachedDef⟩ : ∃ cached, cached =
      ifCached build table fun cache => cacheDelete cache chunk := ⟨_, rfl⟩
  have cachedShape : Shape cached := by
    rw [cachedDef]
    exact shape.refill rfl
  have cachedFresh : answers.Fresh cached := by
    rw [cachedDef]
    exact ⟨fresh.segment, fresh.directory⟩
  have bound := cachedShape.bindex_of_lt build.hash chunk
  have spec : Ensures (fun result => Relinks (· < cached.bincount) cached result.2)
      (· = Fault.endlessChain)
      (deleteLoop chunk (binAt cached (bindexOf build.hash cached chunk)) cached.fuel none
        (cached.slot (binAt cached (bindexOf build.hash cached chunk))) cached) :=
    delete_loop_relinks bound rfl
  simp only [metadataDelete, ← cachedDef, cachedShape.fetch_bucket, ok_bind]
  refine Ensures.bind (spec.weaken (fun _ relinks => relinks) (fun _ => Or.inl)) ?_
  rintro ⟨found, removed⟩ relinks
  have removedShape := relinks.shape (fun _ bound => bound) cachedShape
  cases found with
  | false => exact removedShape
  | true =>
      refine (contract_check_shape build removedShape (relinks.fresh cachedFresh)).bind ?_
      exact fun _ contracted => contracted

theorem delete_all_shape {chunk : Chunk} (shape : Shape table) (fresh : answers.Fresh table) :
    Ensures (fun result => Shape result.2) (Tolerated build answers)
      (metadataDeleteAll build table chunk answers) := by
  have bound := shape.bindex_of_lt build.hash chunk
  have spec : Ensures (fun result => Relinks (· < table.bincount) table result.2)
      (· = Fault.endlessChain)
      (deleteAllLoop chunk (binAt table (bindexOf build.hash table chunk)) table.fuel 0 none
        (table.slot (binAt table (bindexOf build.hash table chunk))) table) :=
    delete_all_loop_relinks bound rfl
  simp only [metadataDeleteAll, shape.fetch_bucket, ok_bind]
  refine Ensures.bind (spec.weaken (fun _ relinks => relinks) (fun _ => Or.inl)) ?_
  rintro ⟨count, removed⟩ relinks
  have counted : Relinks (· < table.bincount) table
      (removed.setCount (wrapSub removed.count count)) := relinks.trans (Relinks.recount _)
  have countedShape := counted.shape (fun _ bound => bound) shape
  by_cases some : count > 0
  · simp only [if_pos some]
    refine (contract_check_shape build countedShape (counted.fresh fresh)).bind ?_
    exact fun _ contracted => contracted
  · simp only [if_neg some]
    exact countedShape

theorem step_shape {op : Op} (shape : Shape table) (fresh : answers.Fresh table) :
    Ensures (fun result => Shape result.2) (Tolerated build answers)
      (step build table op answers) := by
  cases op with
  | add bucket chunk =>
      have keyed : Shape (setChunk table bucket chunk) := shape.refill rfl
      refine (add_shape build keyed ⟨fresh.segment, fresh.directory⟩).bind ?_
      exact fun _ after => after
  | lookup chunk =>
      refine (lookup_shape build shape).bind ?_
      exact fun _ after => after
  | delete chunk =>
      refine (delete_shape build shape fresh).bind ?_
      exact fun _ after => after
  | deleteAll chunk =>
      refine (delete_all_shape build shape fresh).bind ?_
      exact fun _ after => after

theorem init_shape (fuel : Nat) (buckets : BucketPtr → Bucket) (address : DirectoryPtr)
    (seg : SegmentPtr) : Shape (initMetadata fuel buckets address seg) where
  minimum := rfl
  doubling := rfl
  depth := Nat.zero_le 23
  split := show 0 < 256 by decide
  bins := rfl
  atMost := show 256 ≤ 4294967295 by decide
  length := ⟨0, rfl⟩
  lengthBound := show 1024 ≤ 33554432 by decide
  current := show 1 = (256 + 255) / 256 by decide
  currentLe := show 1 ≤ 1024 by decide
  present := by
    intro index bound
    have first : index = 0 := Nat.lt_one_iff.mp bound
    exact ⟨seg, by simp [initMetadata, first]⟩
  absent := by
    intro index bound
    have later : index ≠ 0 := Nat.ne_of_gt bound
    simp [initMetadata, later]
  distinct := by
    intro left right found leftStored rightStored
    have leftFirst : left = 0 := by
      by_contra later
      simp [initMetadata, later] at leftStored
    have rightFirst : right = 0 := by
      by_contra later
      simp [initMetadata, later] at rightStored
    rw [leftFirst, rightFirst]
  emptyAbove _ _ _ _ _ _ := rfl
  emptyPool _ _ _ _ := rfl

theorem run_shape {permitted : Permit} {start after : Metadata} {ops : List Op}
    {replies : List Reply} (shape : Shape start)
    (run : Run build permitted start ops replies after) : Shape after := by
  induction run with
  | start => exact shape
  | next _ fresh _ result ih => exact (step_shape build ih fresh).value result

theorem Run.perform {build : Build} {permitted : Permit} {start before after : Metadata}
    {ops : List Op} {replies : List Reply} {reply : Reply}
    (earlier : Run build permitted start ops replies before) (op : Op) (answers : Answers)
    (fresh : answers.Fresh before) (permits : permitted before op answers)
    (result : step build before op answers = .ok (reply, after)) :
    Run build permitted start (ops ++ [op]) (replies ++ [reply]) after :=
  earlier.next fresh permits result

/-- In every reachable state the table has its shape, and no operation trips
over a bin index, a null segment or a new bin that is not empty. -/
theorem reachable_shape (fuel : Nat) (buckets : BucketPtr → Bucket) (address : DirectoryPtr)
    (seg : SegmentPtr) (ops : List Op) (replies : List Reply) (after : Metadata)
    (run : Run build anything (initMetadata fuel buckets address seg) ops replies after) :
    Shape after ∧ after.N ≤ after.bincount ∧
      ∀ checked op answers fault, answers.Fresh after →
        step checked after op answers = .error fault → Tolerated checked answers fault := by
  have shape := run_shape build (init_shape fuel buckets address seg) run
  refine ⟨shape, ?_, ?_⟩
  · have least := shape.maxp_at_least
    rw [shape.minimum, shape.bins]
    omega
  · intro checked op answers fault fresh result
    exact (step_shape checked shape fresh).failure result

end SriGlibcMalloc.MetadataTable
