import SriGlibcMalloc.Metadata.KeyedRun

/-!
# The load

What one resize does to the numbers of the table, and from it the bound on
`count / bincount` over every run whose allocations succeed: an expansion adds
one bin, and one bin is enough because an add brings one bucket.
-/

namespace SriGlibcMalloc.MetadataTable

open Outcome

set_option autoImplicit false

/-- `large` has the numbers of `small` after one expansion. -/
structure Enlarged (small large : Metadata) : Prop where
  split : splitAfter small.maxp small.p = (large.maxp, large.p)
  bincount : large.bincount = small.bincount + 1
  count : large.count = small.count

variable {table before after : Metadata} {answers : Answers} (build : Build)

theorem link_count {bin : BinPtr} {last : Option BucketPtr} {bucket : BucketPtr} :
    (linkBucket table bin last bucket).count = table.count := by
  cases last <;> rfl

theorem link_maxp {bin : BinPtr} {last : Option BucketPtr} {bucket : BucketPtr} :
    (linkBucket table bin last bucket).maxp = table.maxp := by
  cases last <;> rfl

theorem unlink_maxp {bin : BinPtr} {previous : Option BucketPtr} {bucket : BucketPtr} :
    (unlinkBucket table bin previous bucket).maxp = table.maxp := by
  cases previous <;> rfl

theorem split_buckets_count {newBindex exponent : Nat} {oldbin newbin : BinPtr} (fuel : Nat)
    (current previous last : Option BucketPtr) (power : table.maxp = 2 ^ exponent) :
    Ensures (fun after => after.count = table.count) (fun _ => True)
      (splitBuckets build newBindex oldbin newbin fuel current previous last table) := by
  induction fuel generalizing current previous last table with
  | zero => trivial
  | succ fuel ih =>
      cases current with
      | none => rfl
      | some bucket =>
          simp only [splitBuckets, metadata_bindex_pow build power, ok_bind]
          split_ifs with moves
          · have count : ((unlinkBucket (linkBucket table newbin last bucket) oldbin previous
                bucket).setNextBucket bucket none).count = table.count :=
              unlink_count.trans link_count
            have maxp : ((unlinkBucket (linkBucket table newbin last bucket) oldbin previous
                bucket).setNextBucket bucket none).maxp = table.maxp :=
              unlink_maxp.trans link_maxp
            rw [← count]
            exact ih _ _ _ (maxp.trans power)
          · exact ih _ _ _ power

theorem move_buckets_count {srcbin tgtbin : BinPtr} :
    Ensures (fun after => after.count = table.count) (fun _ => True)
      (moveBuckets table srcbin tgtbin) := by
  unfold moveBuckets
  cases table.slot srcbin with
  | none => rfl
  | some src =>
      cases table.slot tgtbin with
      | none => rfl
      | some tgt =>
          apply Ensures.bind ((last_bucket_fault table.fuel tgt).weaken (fun _ _ => trivial)
            (fun _ _ => trivial))
          intro last _
          rfl

theorem expand_table_enlarged (shape : Shape table) (fresh : answers.Fresh table)
    (room : table.bincount < cfg.bincountMax) :
    Ensures (fun result => (¬Refused table answers → Enlarged table result.2 ∧
          result.2.directoryLength = roomyLength table) ∧
        (Refused table answers → Redirected table result.2)) (fun _ => True)
      (metadataExpandTable build table answers) := by
  rcases expand_table_cases build shape fresh room with
    ⟨_, run⟩ | ⟨_, ⟨refused, ready, redirected, _, run⟩ |
      ⟨granted, large, largeShape, adjacent, _, length, run⟩⟩
  · rw [run]
    trivial
  · rw [run]
    exact ⟨fun granted => absurd refused granted, fun _ => redirected⟩
  · have spec : Ensures (fun moved => Relinks (fun _ => True) large moved ∧
        moved.count = large.count) (fun _ => True)
        (splitBuckets build table.bincount (binAt large table.p) (binAt large table.bincount)
          large.fuel (topOf large table.p) none none large) :=
      (split_buckets_relinks build _ _ _ _ largeShape.maxp_pow trivial rfl trivial rfl).both
        (split_buckets_count build _ _ _ _ largeShape.maxp_pow)
    rw [run]
    apply spec.bind
    rintro moved ⟨relinks, count⟩
    refine ⟨fun _ => ⟨⟨?_, ?_, ?_⟩, ?_⟩, fun refused => absurd refused granted⟩
    · rw [relinks.maxp, relinks.p]
      exact adjacent.split
    · rw [relinks.bincount]
      exact adjacent.bincount
    · exact count.trans adjacent.count
    · exact (congrArg Metadata.directoryLength relinks.rest).trans length

theorem expand_check_enlarged (shape : Shape table) (fresh : answers.Fresh table)
    (granted : ¬Refused table answers) :
    Ensures (fun result => (Crowded table → Enlarged table result.2 ∧
          result.2.directoryLength = roomyLength table) ∧
        (¬Crowded table → result.2 = table)) (fun _ => True)
      (metadataExpandCheck build table answers) := by
  unfold metadataExpandCheck
  split_ifs with crowded
  · apply (expand_table_enlarged build shape fresh crowded.1).weaken
    · intro result spec
      exact ⟨fun _ => spec.1 granted, fun sparse => absurd crowded sparse⟩
    · exact fun _ _ => trivial
  · exact ⟨fun now => absurd now crowded, fun _ => rfl⟩

theorem contract_table_enlarged (shape : Shape table) (fresh : answers.Fresh table)
    (wide : 256 < table.bincount) :
    Ensures (fun after => Enlarged after table ∧ (¬ShrinksDirectory table →
        after.directoryLength = table.directoryLength)) (fun _ => True)
      (metadataContractTable build table answers) := by
  rcases contract_table_cases build shape fresh wide with
    ⟨_, _, run⟩ | ⟨_, ready, redirected, readyShape, untouched, run⟩
  · rw [run]
    trivial
  · have readyWide : 256 < ready.bincount := by
      rw [redirected.rest]
      exact wide
    have sameBins : table.bincount = ready.bincount := by rw [redirected.rest]
    have sameMaxp : table.maxp = ready.maxp := by rw [redirected.rest]
    have sameP : table.p = ready.p := by rw [redirected.rest]
    have sameCount : table.count = ready.count := by rw [redirected.rest]
    obtain ⟨_, lower, numbers, _⟩ := readyShape.merge_numbers readyWide
    have least := readyShape.maxp_at_least
    have bins := readyShape.bins
    have spec : Ensures (fun moved => Relinks (· < ready.bincount) ready moved ∧
        moved.slot (binAt ready (ready.bincount - 1)) = none) (· = Fault.endlessChain)
        (moveBuckets ready (binAt ready (ready.bincount - 1))
          (binAt ready (mergeBefore ready.maxp ready.p).2)) :=
      move_buckets_relinks (show ready.bincount - 1 < ready.bincount by omega) rfl
        (show (mergeBefore ready.maxp ready.p).2 < ready.bincount by omega) rfl
    rw [run, sameBins, sameMaxp, sameP]
    apply (spec.both move_buckets_count).bind
    rintro moved ⟨⟨relinks, emptied⟩, count⟩
    have movedShape := relinks.shape (fun _ bound => bound) readyShape
    have movedWide : 256 < moved.bincount := by
      rw [relinks.bincount]
      exact readyWide
    have adjacent := retreat_adjacent movedShape movedWide
    rw [ensures_ok, ← relinks.bincount]
    constructor
    · constructor
      · rw [sameMaxp, sameP, ← relinks.maxp, ← relinks.p]
        exact adjacent.split
      · rw [sameBins, ← relinks.bincount]
        exact adjacent.bincount
      · rw [sameCount, ← count]
        exact adjacent.count
    · intro short
      change (retreated moved).directoryLength = table.directoryLength
      have sameLength : moved.directoryLength = ready.directoryLength := by rw [relinks.rest]
      rw [retreated_eq, ← untouched short]
      exact sameLength

theorem contract_check_enlarged (shape : Shape table) (fresh : answers.Fresh table) :
    Ensures (fun after => (Sparse table → Enlarged after table ∧ (¬ShrinksDirectory table →
          after.directoryLength = table.directoryLength)) ∧
        (¬Sparse table → after = table)) (fun _ => True)
      (metadataContractCheck build table answers) := by
  unfold metadataContractCheck
  split_ifs with sparse
  · apply (contract_table_enlarged build shape fresh (shape.wide sparse.1)).weaken
    · intro after spec
      exact ⟨fun _ => spec, fun dense => absurd sparse dense⟩
    · exact fun _ _ => trivial
  · exact ⟨fun now => absurd now sparse, fun _ => rfl⟩

/-- An operation added one bin; its check read the new census and the old bins. -/
structure Grows (before after : Metadata) : Prop where
  bincount : after.bincount = before.bincount + 1
  length : after.directoryLength = roomyLength before
  crowded : after.count / before.bincount > cfg.maxLoad

structure Shrinks (before after : Metadata) : Prop where
  bincount : before.bincount = after.bincount + 1
  deep : 0 < before.L
  sparse : after.count / before.bincount < cfg.minLoad

/-- An operation left the number of bins alone; after an add, its check had no reason
to expand. -/
structure Stays (op : Op) (before after : Metadata) : Prop where
  bincount : after.bincount = before.bincount
  length : after.directoryLength = before.directoryLength
  calm : ∀ bucket chunk, op = .add bucket chunk → before.bincount < cfg.bincountMax →
    after.count / before.bincount ≤ cfg.maxLoad

def Resizes (op : Op) (before after : Metadata) : Prop :=
  Stays op before after ∨ Grows before after ∨ Shrinks before after

variable {op : Op}

theorem add_resizes {bucket : BucketPtr} {chunk : Chunk} (shape : Shape table)
    (fresh : answers.Fresh table) (granted : answers.Granted) :
    Ensures (fun result => Resizes op table result.2) (fun _ => True)
      (metadataAdd build (setChunk table bucket chunk) bucket answers) := by
  obtain ⟨cached, cachedDef⟩ : ∃ cached, cached = ifCached build (setChunk table bucket chunk)
      fun cache => cacheInsert cache ((setChunk table bucket chunk).bucket bucket).chunk
        (some bucket) := ⟨_, rfl⟩
  have cachedShape : Shape cached := by
    rw [cachedDef]
    exact shape.refill rfl
  obtain ⟨linked, linkedDef⟩ : ∃ linked, linked = linkFront cached (binAt cached
      (bindexOf build.hash cached ((setChunk table bucket chunk).bucket bucket).chunk)) bucket :=
    ⟨_, rfl⟩
  have relinks : Relinks (· < cached.bincount) cached linked := by
    rw [linkedDef]
    exact link_front_relinks (cachedShape.bindex_of_lt build.hash _) rfl
  have linkedShape := relinks.shape (fun _ bound => bound) cachedShape
  have linkedFresh : answers.Fresh linked := by
    apply relinks.fresh
    rw [cachedDef]
    exact ⟨fresh.segment, fresh.directory⟩
  have bins : linked.bincount = table.bincount := by
    rw [relinks.bincount, cachedDef]
    rfl
  have length : linked.directoryLength = table.directoryLength := by
    rw [relinks.rest, cachedDef]
    rfl
  have current : linked.directoryCurrent = table.directoryCurrent := by
    rw [relinks.rest, cachedDef]
    rfl
  have accepted : ¬Refused linked answers := by
    rintro (directory | segment)
    · exact granted.2 directory.2
    · exact granted.1 segment.2
  simp only [metadataAdd, ← cachedDef, cachedShape.fetch_bucket, ok_bind]
  rw [← linkedDef]
  apply (expand_check_enlarged build linkedShape linkedFresh accepted).weaken
  · rintro ⟨success, after⟩ ⟨grown, kept⟩
    by_cases crowded : Crowded linked
    · obtain ⟨enlarged, roomy⟩ := grown crowded
      have load := crowded.2
      rw [metadataLoad, ← enlarged.count, bins] at load
      refine Or.inr (Or.inl ⟨by rw [enlarged.bincount, bins], ?_, load⟩)
      rw [roomy, roomyLength, length, current, roomyLength]
    · have same : after = linked := kept crowded
      refine Or.inl ⟨by rw [same, bins], by rw [same, length], ?_⟩
      intro _ _ _ room
      by_contra excess
      apply crowded
      rw [Crowded, metadataLoad, bins]
      rw [same] at excess
      exact ⟨room, Nat.lt_of_not_le excess⟩
  · exact fun _ _ => trivial

theorem contract_check_resizes (shape : Shape table) (fresh : answers.Fresh table)
    (bins : table.bincount = before.bincount) (depth : table.L = before.L)
    (length : table.directoryLength = before.directoryLength)
    (deletes : ∀ bucket chunk, op ≠ .add bucket chunk) :
    Ensures (fun after => Resizes op before after) (fun _ => True)
      (metadataContractCheck build table answers) := by
  apply (contract_check_enlarged build shape fresh).weaken
  · rintro after ⟨shrunk, kept⟩
    by_cases sparse : Sparse table
    · obtain ⟨enlarged, _⟩ := shrunk sparse
      have load := sparse.2
      rw [metadataLoad, enlarged.count, bins] at load
      refine Or.inr (Or.inr ⟨?_, ?_, load⟩)
      · rw [← bins, enlarged.bincount]
      · rw [← depth]
        exact sparse.1
    · have same : after = table := kept sparse
      exact Or.inl ⟨by rw [same, bins], by rw [same, length],
        fun bucket chunk adds => absurd adds (deletes _ _)⟩
  · exact fun _ _ => trivial

theorem delete_resizes {chunk : Chunk} (shape : Shape table) (fresh : answers.Fresh table)
    (isDelete : op = .delete chunk) :
    Ensures (fun result => Resizes op table result.2) (fun _ => True)
      (metadataDelete build table chunk answers) := by
  obtain ⟨cached, cachedDef⟩ : ∃ cached, cached =
      ifCached build table fun cache => cacheDelete cache chunk := ⟨_, rfl⟩
  have cachedShape : Shape cached := by
    rw [cachedDef]
    exact shape.refill rfl
  have cachedFresh : answers.Fresh cached := by
    rw [cachedDef]
    exact ⟨fresh.segment, fresh.directory⟩
  have bins : cached.bincount = table.bincount := by rw [cachedDef]; rfl
  have depth : cached.L = table.L := by rw [cachedDef]; rfl
  have length : cached.directoryLength = table.directoryLength := by rw [cachedDef]; rfl
  have deletes : ∀ bucket key, op ≠ .add bucket key := by
    intro bucket key adds
    rw [isDelete] at adds
    cases adds
  have bound := cachedShape.bindex_of_lt build.hash chunk
  have spec : Ensures (fun result => Relinks (· < cached.bincount) cached result.2)
      (· = Fault.endlessChain)
      (deleteLoop chunk (binAt cached (bindexOf build.hash cached chunk)) cached.fuel none
        (cached.slot (binAt cached (bindexOf build.hash cached chunk))) cached) :=
    delete_loop_relinks bound rfl
  simp only [metadataDelete, ← cachedDef, cachedShape.fetch_bucket, ok_bind]
  apply Ensures.bind (spec.weaken (fun _ relinks => relinks) (fun _ _ => trivial))
  rintro ⟨found, removed⟩ relinks
  have removedShape := relinks.shape (fun _ bound => bound) cachedShape
  have removedBins : removed.bincount = table.bincount := relinks.bincount.trans bins
  have removedDepth : removed.L = table.L := (congrArg Metadata.L relinks.rest).trans depth
  have removedLength : removed.directoryLength = table.directoryLength :=
    (congrArg Metadata.directoryLength relinks.rest).trans length
  cases found with
  | false =>
      exact Or.inl ⟨removedBins, removedLength,
        fun bucket key adds => absurd adds (deletes _ _)⟩
  | true =>
      apply (contract_check_resizes build removedShape (relinks.fresh cachedFresh) removedBins
        removedDepth removedLength deletes).bind
      exact fun _ resizes => resizes

theorem delete_all_resizes {chunk : Chunk} (shape : Shape table) (fresh : answers.Fresh table)
    (isDelete : op = .deleteAll chunk) :
    Ensures (fun result => Resizes op table result.2) (fun _ => True)
      (metadataDeleteAll build table chunk answers) := by
  have deletes : ∀ bucket key, op ≠ .add bucket key := by
    intro bucket key adds
    rw [isDelete] at adds
    cases adds
  have bound := shape.bindex_of_lt build.hash chunk
  have spec : Ensures (fun result => Relinks (· < table.bincount) table result.2)
      (· = Fault.endlessChain)
      (deleteAllLoop chunk (binAt table (bindexOf build.hash table chunk)) table.fuel 0 none
        (table.slot (binAt table (bindexOf build.hash table chunk))) table) :=
    delete_all_loop_relinks bound rfl
  simp only [metadataDeleteAll, shape.fetch_bucket, ok_bind]
  apply Ensures.bind (spec.weaken (fun _ relinks => relinks) (fun _ _ => trivial))
  rintro ⟨count, removed⟩ relinks
  have counted : Relinks (· < table.bincount) table
      (removed.setCount (wrapSub removed.count count)) := relinks.trans (Relinks.recount _)
  have countedShape := counted.shape (fun _ bound => bound) shape
  by_cases some : count > 0
  · simp only [if_pos some]
    apply (contract_check_resizes build countedShape (counted.fresh fresh) counted.bincount
      (by rw [counted.rest]) (by rw [counted.rest]) deletes).bind
    exact fun _ resizes => resizes
  · simp only [if_neg some]
    exact Or.inl ⟨counted.bincount, by rw [counted.rest],
      fun bucket key adds => absurd adds (deletes _ _)⟩

theorem lookup_resizes {chunk : Chunk} (shape : Shape table) :
    Ensures (fun result => Resizes (.lookup chunk) table result.2) (fun _ => True)
      (metadataLookup build table chunk) := by
  have searched : ∀ cache, Ensures (fun result : Option BucketPtr × Metadata =>
      result.2.bincount = table.bincount ∧
        result.2.directoryLength = table.directoryLength) (fun _ => True)
      (lookupTable build { table with cache := cache } chunk) := by
    intro cache
    have cachedShape : Shape { table with cache := cache } := shape.refill rfl
    simp only [lookupTable, cachedShape.fetch_bucket, ok_bind]
    apply Ensures.bind (lookup_loop_fault.weaken (fun _ _ => trivial) (fun _ _ => trivial))
    rintro ⟨value, bucketpPrev⟩ _
    cases value with
    | none => exact ⟨rfl, rfl⟩
    | some bucketp =>
        have relinks : Relinks (fun _ => True) { table with cache := cache }
            (promote { table with cache := cache } (binAt { table with cache := cache }
              (bindexOf build.hash { table with cache := cache } chunk)) bucketpPrev bucketp) :=
          promote_relinks trivial rfl
        exact ⟨relinks.bincount, by rw [relinks.rest]⟩
  have kept : ∀ after : Metadata, after.bincount = table.bincount →
      after.directoryLength = table.directoryLength → Resizes (.lookup chunk) table after := by
    intro after bins length
    refine Or.inl ⟨bins, length, ?_⟩
    intro bucket other impossible
    cases impossible
  simp only [metadataLookup]
  split_ifs
  · cases (cacheLookup table.cache chunk).1 with
    | some bucket => exact kept _ rfl rfl
    | none =>
        apply (searched (cacheLookup table.cache chunk).2).bind
        exact fun _ same => kept _ same.1 same.2
  · apply (searched table.cache).weaken
    · exact fun _ same => kept _ same.1 same.2
    · exact fun _ _ => trivial

theorem step_resizes (shape : Shape table) (fresh : answers.Fresh table)
    (granted : answers.Granted) :
    Ensures (fun result => Resizes op table result.2) (fun _ => True)
      (step build table op answers) := by
  cases op with
  | add bucket chunk =>
      apply (add_resizes build shape fresh granted).bind
      exact fun _ resizes => resizes
  | lookup chunk =>
      apply (lookup_resizes build shape).bind
      exact fun _ resizes => resizes
  | delete chunk =>
      apply (delete_resizes build shape fresh rfl).bind
      exact fun _ resizes => resizes
  | deleteAll chunk =>
      apply (delete_all_resizes build shape fresh rfl).bind
      exact fun _ resizes => resizes

/-- The load is at most `max_load`, unless the table cannot grow any more. -/
def Bounded (table : Metadata) : Prop :=
  table.count < 4 * table.bincount ∨ table.bincount = cfg.bincountMax

theorem init_bounded (fuel : Nat) (buckets : BucketPtr → Bucket) (address : DirectoryPtr)
    (seg : SegmentPtr) : Bounded (initMetadata fuel buckets address seg) :=
  Or.inl (show 0 < 4 * 256 by decide)

/-- An add brings one bucket, every other operation brings none. -/
theorem spec_step_length (entries : KeyedStack.Entries Chunk BucketPtr) (op : Op) :
    (specStep entries op).2.length ≤ entries.length + 1 ∧
      ((∀ bucket chunk, op ≠ .add bucket chunk) →
        (specStep entries op).2.length ≤ entries.length) := by
  cases op with
  | add bucket chunk => exact ⟨Nat.le_refl _, fun other => absurd rfl (other bucket chunk)⟩
  | lookup chunk => exact ⟨Nat.le_succ _, fun _ => Nat.le_refl _⟩
  | delete chunk =>
      have shorter : (KeyedStack.pop entries chunk).length ≤ entries.length :=
        List.length_eraseP_le
      exact ⟨Nat.le_succ_of_le shorter, fun _ => shorter⟩
  | deleteAll chunk =>
      have shorter : (KeyedStack.popAll entries chunk).length ≤ entries.length :=
        List.length_filter_le _ _
      exact ⟨Nat.le_succ_of_le shorter, fun _ => shorter⟩

theorem Grows.load (grows : Grows before after) (positive : 0 < before.bincount) :
    cfg.minLoad ≤ metadataLoad after := by
  have least : cfg.minLoad = 2 := rfl
  have most : cfg.maxLoad = 3 := rfl
  have crowded : 4 * before.bincount ≤ after.count := by
    apply (Nat.le_div_iff_mul_le positive).mp
    have load := grows.crowded
    omega
  rw [metadataLoad, grows.bincount, least]
  apply (Nat.le_div_iff_mul_le (by omega)).mpr
  omega

theorem Shrinks.census (shrinks : Shrinks before after) (positive : 0 < before.bincount) :
    after.count < 2 * before.bincount := by
  have least : cfg.minLoad = 2 := rfl
  apply (Nat.div_lt_iff_lt_mul positive).mp
  have load := shrinks.sparse
  omega

theorem Shrinks.load (shrinks : Shrinks before after) (wide : 256 ≤ after.bincount) :
    metadataLoad after ≤ cfg.maxLoad := by
  have most : cfg.maxLoad = 3 := rfl
  have bincount := shrinks.bincount
  have census := shrinks.census (by omega)
  have small : after.count / after.bincount < 4 :=
    (Nat.div_lt_iff_lt_mul (by omega)).mpr (by omega)
  rw [metadataLoad, most]
  omega

theorem Resizes.bounded {hash : Chunk → UInt32}
    {entries : KeyedStack.Entries Chunk BucketPtr} (resizes : Resizes op before after)
    (holds : Holds hash before entries) (kept : Holds hash after (specStep entries op).2)
    (bounded : Bounded before) : Bounded after := by
  obtain ⟨shorter, shrinking⟩ := spec_step_length entries op
  have count := holds.count
  have newCount := kept.count
  have atMost := holds.shape.atMost
  have wide := holds.shape.maxp_at_least
  have bins := holds.shape.bins
  have newWide := kept.shape.maxp_at_least
  have newBins := kept.shape.bins
  rcases resizes with stays | grows | shrinks
  · have same := stays.bincount
    by_cases saturated : before.bincount = cfg.bincountMax
    · exact Or.inr (same.trans saturated)
    · left
      have room : before.bincount < cfg.bincountMax := by omega
      have below : before.count < 4 * before.bincount :=
        bounded.resolve_right saturated
      by_cases adds : ∃ bucket chunk, op = .add bucket chunk
      · obtain ⟨bucket, chunk, isAdd⟩ := adds
        have calm := stays.calm bucket chunk isAdd room
        have most : cfg.maxLoad = 3 := rfl
        have census : after.count < 4 * before.bincount :=
          (Nat.div_lt_iff_lt_mul (by omega)).mp (by omega)
        rwa [← same] at census
      · have fewer := shrinking (fun bucket chunk isAdd => adds ⟨bucket, chunk, isAdd⟩)
        omega
  · left
    have room := grows.bincount
    have below : before.count < 4 * before.bincount := by
      refine bounded.resolve_right fun saturated => ?_
      have newAtMost := kept.shape.atMost
      omega
    omega
  · left
    have bincount := shrinks.bincount
    have census := shrinks.census (by omega)
    omega

theorem run_bounded {start : Metadata} {ops : List Op} {replies : List Reply}
    (holds : Holds build.hash start []) (bounded : Bounded start)
    (run : Run build granted start ops replies after) (admissible : Admissible ops)
    (ample : ops.length < start.fuel) : Bounded after := by
  induction run with
  | start => exact bounded
  | @next ops _ _ _ _ _ _ earlier fresh granted result ih =>
      rw [List.length_append, List.length_singleton] at ample
      obtain ⟨kept, fuel⟩ :=
        run_holds build holds earlier admissible.earlier (Nat.lt_of_succ_lt ample)
      have shorter := spec_entries_length ops
      have spec := (step_spec build kept (by rw [fuel]; omega) fresh admissible.last).value result
      have resizes := (step_resizes build kept.shape fresh granted).value result
      exact resizes.bounded kept spec.1 (ih admissible.earlier (Nat.lt_of_succ_lt ample))

/-- One operation changes the number of bins by one at most, and the check in the
other direction does not ask for the resize to be undone. -/
structure Settles (build : Build) (op : Op) (before after : Metadata) : Prop where
  bins : after.bincount = before.bincount ∨ after.bincount = before.bincount + 1 ∨
    before.bincount = after.bincount + 1
  expanded : before.bincount < after.bincount → cfg.minLoad ≤ metadataLoad after ∧
    ∀ answers, metadataContractCheck build after answers = .ok after
  contracted : after.bincount < before.bincount → metadataLoad after ≤ cfg.maxLoad ∧
    ∀ answers, metadataExpandCheck build after answers = .ok (true, after)

theorem Resizes.settles (resizes : Resizes op before after) (shape : Shape before)
    (afterShape : Shape after) : Settles build op before after := by
  have wide := shape.maxp_at_least
  have bins := shape.bins
  have newWide := afterShape.maxp_at_least
  have newBins := afterShape.bins
  rcases resizes with stays | grows | shrinks
  · have same := stays.bincount
    exact ⟨Or.inl same, fun _ => by omega, fun _ => by omega⟩
  · have bincount := grows.bincount
    have load := grows.load (by omega)
    refine ⟨Or.inr (Or.inl bincount), fun _ => ⟨load, fun answers => ?_⟩, fun _ => by omega⟩
    rw [metadataContractCheck, if_neg (fun sparse => Nat.not_lt.mpr load sparse.2)]
    rfl
  · have bincount := shrinks.bincount
    have load := shrinks.load (by omega)
    refine ⟨Or.inr (Or.inr bincount), fun _ => by omega, fun _ => ⟨load, fun answers => ?_⟩⟩
    rw [metadataExpandCheck, if_neg (fun crowded => Nat.not_lt.mpr load crowded.2)]
    rfl

/-- In every run whose allocations succeed the load stays at most `max_load` as
long as the table can grow, and no operation asks for its own resize to be undone. -/
theorem reachable_load (fuel : Nat) (buckets : BucketPtr → Bucket) (address : DirectoryPtr)
    (seg : SegmentPtr) (ops : List Op) (replies : List Reply) (table : Metadata)
    (run : Run build granted (initMetadata fuel buckets address seg) ops replies table)
    (admissible : Admissible ops) (ample : ops.length + 1 < fuel) :
    (table.bincount < cfg.bincountMax → metadataLoad table ≤ cfg.maxLoad) ∧
      ∀ op answers reply after, Admissible (ops ++ [op]) → answers.Fresh table →
        answers.Granted → step build table op answers = .ok (reply, after) →
        Settles build op table after := by
  have holds := init_holds build.hash fuel buckets address seg
  have enough : ops.length < (initMetadata fuel buckets address seg).fuel := Nat.lt_of_succ_lt ample
  obtain ⟨kept, sameFuel⟩ := run_holds build holds run admissible enough
  have bounded := run_bounded build holds (init_bounded fuel buckets address seg) run admissible
    enough
  have wide := kept.shape.maxp_at_least
  have bins := kept.shape.bins
  constructor
  · intro room
    have most : cfg.maxLoad = 3 := rfl
    have below : table.count < 4 * table.bincount := bounded.resolve_right (by omega)
    have small : table.count / table.bincount < 4 :=
      (Nat.div_lt_iff_lt_mul (by omega)).mpr below
    rw [metadataLoad, most]
    omega
  · intro op answers reply after admits fresh granted result
    have resizes := (step_resizes build kept.shape fresh granted).value result
    have afterShape := (step_shape build kept.shape fresh).value result
    exact resizes.settles build kept.shape afterShape

end SriGlibcMalloc.MetadataTable
