import SriGlibcMalloc.Metadata.Load

/-!
# The segments of the directory

What one operation does to the directory, also when an allocation is refused:
nothing, one segment more, which is the one that was allocated, or one fewer.
-/

namespace SriGlibcMalloc.MetadataTable

open Outcome

set_option autoImplicit false

structure SameSegments (before after : Metadata) : Prop where
  directory : after.directory = before.directory
  current : after.directoryCurrent = before.directoryCurrent

/-- What an operation did to the directory. -/
inductive Rehoused (answers : Answers) (before after : Metadata) : Prop
  | kept (same : SameSegments before after)
  | taken (seg : SegmentPtr) (answer : answers.segment = some seg)
      (directory : after.directory =
        Function.update before.directory before.directoryCurrent (some seg))
      (current : after.directoryCurrent = before.directoryCurrent + 1)
  | givenBack
      (directory : after.directory =
        Function.update before.directory (before.directoryCurrent - 1) none)
      (current : after.directoryCurrent + 1 = before.directoryCurrent)

variable {table before middle after : Metadata} {answers : Answers} (build : Build)

theorem SameSegments.refl (table : Metadata) : SameSegments table table := ⟨rfl, rfl⟩

theorem SameSegments.trans (first : SameSegments before middle)
    (second : SameSegments middle after) : SameSegments before after :=
  ⟨second.directory.trans first.directory, second.current.trans first.current⟩

theorem Relinks.segments {touched : Nat → Prop} (relinks : Relinks touched before after) :
    SameSegments before after := by
  constructor
  · rw [relinks.rest]
  · rw [relinks.rest]

theorem Redirected.segments (redirected : Redirected before after) :
    SameSegments before after := by
  constructor
  · rw [redirected.rest]
  · rw [redirected.rest]

theorem Rehoused.after_same (same : SameSegments before middle)
    (rehoused : Rehoused answers middle after) : Rehoused answers before after := by
  cases rehoused with
  | kept onward => exact Rehoused.kept (same.trans onward)
  | taken seg answer directory current =>
      rw [same.directory, same.current] at directory
      rw [same.current] at current
      exact Rehoused.taken seg answer directory current
  | givenBack directory current =>
      rw [same.directory, same.current] at directory
      rw [same.current] at current
      exact Rehoused.givenBack directory current

theorem Rehoused.then_same (rehoused : Rehoused answers before middle)
    (same : SameSegments middle after) : Rehoused answers before after := by
  cases rehoused with
  | kept earlier => exact Rehoused.kept (earlier.trans same)
  | taken seg answer directory current =>
      exact Rehoused.taken seg answer (same.directory.trans directory)
        (same.current.trans current)
  | givenBack directory current =>
      apply Rehoused.givenBack (same.directory.trans directory)
      rw [same.current]
      exact current

theorem expand_segment_rehoused (shape : Shape table) :
    Rehoused answers table
      (expandSegment table (table.bincount / 256) (table.bincount % 256) answers).2 := by
  have current := shape.current
  unfold expandSegment
  split_ifs with absent
  · have place : table.directoryCurrent = table.bincount / 256 := by omega
    cases answer : answers.segment with
    | none => exact Rehoused.kept (SameSegments.refl table)
    | some seg =>
        apply Rehoused.taken seg answer
        · rw [place]
        · rfl
  · exact Rehoused.kept (SameSegments.refl table)

theorem advance_segments : SameSegments table (advanceSplit table) := by
  unfold advanceSplit
  split_ifs <;> exact ⟨rfl, rfl⟩

theorem link_segments {bin : BinPtr} {last : Option BucketPtr} {bucket : BucketPtr} :
    SameSegments table (linkBucket table bin last bucket) := by
  cases last <;> exact ⟨rfl, rfl⟩

theorem unlink_segments {bin : BinPtr} {previous : Option BucketPtr} {bucket : BucketPtr} :
    SameSegments table (unlinkBucket table bin previous bucket) := by
  cases previous <;> exact ⟨rfl, rfl⟩

theorem split_buckets_segments {newBindex : Nat} {oldbin newbin : BinPtr} (fuel : Nat)
    (current previous last : Option BucketPtr) :
    Ensures (SameSegments table) (fun _ => True)
      (splitBuckets build newBindex oldbin newbin fuel current previous last table) := by
  induction fuel generalizing current previous last table with
  | zero => trivial
  | succ fuel ih =>
      cases current with
      | none => exact SameSegments.refl table
      | some bucket =>
          rw [splitBuckets]
          have addressed : Ensures (fun _ => True) (fun _ => True)
              (metadataBindex build table (table.bucket bucket).chunk) := by
            cases metadataBindex build table (table.bucket bucket).chunk <;> trivial
          apply addressed.bind
          · intro bindex _
            dsimp only
            split_ifs with moves
            · have linked : SameSegments table (linkBucket table newbin last bucket) :=
                link_segments
              have step : SameSegments table
                  ((unlinkBucket (linkBucket table newbin last bucket) oldbin previous
                    bucket).setNextBucket bucket none) :=
                linked.trans (unlink_segments.trans ⟨rfl, rfl⟩)
              exact (ih _ _ _).weaken (fun _ onward => step.trans onward) (fun _ _ => trivial)
            · exact ih _ _ _

theorem expand_bin_rehoused (shape : Shape table) :
    Ensures (fun result => Rehoused answers table result.2) (fun _ => True)
      (expandBin build table table.bincount answers) := by
  have splitBound : table.p < table.bincount := by
    have bins := shape.bins
    have positive := shape.maxp_positive
    omega
  have segments : cfg.segmentLength = 256 := rfl
  have rehoused : Rehoused answers table
      (expandSegment table (table.bincount / 256) (table.bincount % 256) answers).2 :=
    expand_segment_rehoused shape
  simp only [expandBin, shape.bindex2bin build splitBound, ok_bind, mod_segment_length]
  rw [segments]
  cases outcome : expandSegment table (table.bincount / 256) (table.bincount % 256) answers with
  | mk success grown
  rw [outcome] at rehoused
  cases success with
  | false => exact rehoused
  | true =>
      simp only [if_true]
      cases grown.directory (table.bincount / 256) with
      | none => trivial
      | some newseg =>
          have asserted : ∀ condition fault, Ensures (fun _ => True) (fun _ => True)
              (assert build condition fault) := by
            intro condition fault
            unfold assert
            split_ifs <;> trivial
          apply (asserted _ _).bind
          · intro _ _
            apply (split_buckets_segments build _ _ _ _).bind
            intro split same
            exact rehoused.then_same (advance_segments.trans same)

theorem expand_check_rehoused (shape : Shape table) (fresh : answers.Fresh table) :
    Ensures (fun result => Rehoused answers table result.2) (fun _ => True)
      (metadataExpandCheck build table answers) := by
  have max : cfg.bincountMax = 4294967295 := rfl
  have bins := shape.bins
  unfold metadataExpandCheck
  split_ifs with crowded
  · have room := crowded.1
    have newBindex : addSize table.maxp table.p = some table.bincount := by
      rw [bins]
      exact add_size_exact _ _ (by omega)
    simp only [metadataExpandTable, newBindex, assert, decide_eq_true room, Bool.or_true,
      if_true, ok_bind]
    rcases expand_directory_if_full_cases build shape fresh with
      ⟨_, run⟩ | ⟨_, ⟨_, _, run⟩ | ⟨ready, redirected, readyShape, _, _, _, run⟩⟩
    · rw [run]
      trivial
    · rw [run]
      exact Rehoused.kept (SameSegments.refl table)
    · have sameBins : table.bincount = ready.bincount := by rw [redirected.rest]
      rw [run, ok_bind, sameBins]
      rw [sameBins] at room
      simp only [if_true, if_pos room]
      apply (expand_bin_rehoused build readyShape).weaken
      · exact fun _ rehoused => rehoused.after_same redirected.segments
      · exact fun _ _ => trivial
  · exact Rehoused.kept (SameSegments.refl table)

theorem retreat_rehoused (shape : Shape table) (wide : 256 < table.bincount) :
    Rehoused answers table (retreated table) := by
  have current := shape.current
  rw [retreated_eq]
  by_cases boundary : (table.bincount - 1) % 256 = 0
  · have place : (table.bincount - 1) / 256 = table.directoryCurrent - 1 := by omega
    apply Rehoused.givenBack
    · simp only [if_pos boundary, place]
    · simp only [if_pos boundary]
      omega
  · apply Rehoused.kept
    constructor
    · simp only [if_neg boundary]
    · simp only [if_neg boundary]

theorem contract_check_rehoused (shape : Shape table) (fresh : answers.Fresh table) :
    Ensures (fun after => Rehoused answers table after) (fun _ => True)
      (metadataContractCheck build table answers) := by
  unfold metadataContractCheck
  split_ifs with sparse
  · rcases contract_table_cases build shape fresh (shape.wide sparse.1) with
      ⟨_, _, run⟩ | ⟨_, ready, redirected, readyShape, _, run⟩
    · rw [run]
      trivial
    · have wide : 256 < ready.bincount := by
        rw [redirected.rest]
        exact shape.wide sparse.1
      have sameBins : table.bincount = ready.bincount := by rw [redirected.rest]
      have sameMaxp : table.maxp = ready.maxp := by rw [redirected.rest]
      have sameP : table.p = ready.p := by rw [redirected.rest]
      obtain ⟨_, lower, numbers, _⟩ := readyShape.merge_numbers wide
      have least := readyShape.maxp_at_least
      have bins := readyShape.bins
      have spec : Ensures (fun moved => Relinks (· < ready.bincount) ready moved ∧
          moved.slot (binAt ready (ready.bincount - 1)) = none) (· = Fault.endlessChain)
          (moveBuckets ready (binAt ready (ready.bincount - 1))
            (binAt ready (mergeBefore ready.maxp ready.p).2)) :=
        move_buckets_relinks (show ready.bincount - 1 < ready.bincount by omega) rfl
          (show (mergeBefore ready.maxp ready.p).2 < ready.bincount by omega) rfl
      rw [run, sameBins, sameMaxp, sameP]
      apply Ensures.bind (spec.weaken (fun _ moved => moved) (fun _ _ => trivial))
      rintro moved ⟨relinks, _⟩
      have movedShape := relinks.shape (fun _ bound => bound) readyShape
      rw [ensures_ok, ← relinks.bincount]
      apply Rehoused.after_same (redirected.segments.trans relinks.segments)
      apply retreat_rehoused movedShape
      rw [relinks.bincount]
      exact wide
  · exact Rehoused.kept (SameSegments.refl table)

theorem add_rehoused {bucket : BucketPtr} (shape : Shape table) (fresh : answers.Fresh table) :
    Ensures (fun result => Rehoused answers table result.2) (fun _ => True)
      (metadataAdd build table bucket answers) := by
  obtain ⟨cached, cachedDef⟩ : ∃ cached, cached = ifCached build table fun cache =>
      cacheInsert cache (table.bucket bucket).chunk (some bucket) := ⟨_, rfl⟩
  have cachedShape : Shape cached := by
    rw [cachedDef]
    exact shape.refill rfl
  obtain ⟨linked, linkedDef⟩ : ∃ linked, linked = linkFront cached (binAt cached
      (bindexOf build.hash cached (table.bucket bucket).chunk)) bucket := ⟨_, rfl⟩
  have relinks : Relinks (· < cached.bincount) cached linked := by
    rw [linkedDef]
    exact link_front_relinks (cachedShape.bindex_of_lt build.hash _) rfl
  have cachedSame : SameSegments table cached := by
    rw [cachedDef]
    exact ⟨rfl, rfl⟩
  have linkedFresh : answers.Fresh linked := by
    apply relinks.fresh
    rw [cachedDef]
    exact ⟨fresh.segment, fresh.directory⟩
  simp only [metadataAdd, ← cachedDef, cachedShape.fetch_bucket, ok_bind]
  rw [← linkedDef]
  apply (expand_check_rehoused build (relinks.shape (fun _ bound => bound) cachedShape)
    linkedFresh).weaken
  · exact fun _ rehoused => rehoused.after_same (cachedSame.trans relinks.segments)
  · exact fun _ _ => trivial

theorem delete_rehoused {chunk : Chunk} (shape : Shape table) (fresh : answers.Fresh table) :
    Ensures (fun result => Rehoused answers table result.2) (fun _ => True)
      (metadataDelete build table chunk answers) := by
  obtain ⟨cached, cachedDef⟩ : ∃ cached, cached =
      ifCached build table fun cache => cacheDelete cache chunk := ⟨_, rfl⟩
  have cachedShape : Shape cached := by
    rw [cachedDef]
    exact shape.refill rfl
  have cachedSame : SameSegments table cached := by
    rw [cachedDef]
    exact ⟨rfl, rfl⟩
  have cachedFresh : answers.Fresh cached := by
    rw [cachedDef]
    exact ⟨fresh.segment, fresh.directory⟩
  have spec : Ensures (fun result => Relinks (· < cached.bincount) cached result.2)
      (· = Fault.endlessChain)
      (deleteLoop chunk (binAt cached (bindexOf build.hash cached chunk)) cached.fuel none
        (cached.slot (binAt cached (bindexOf build.hash cached chunk))) cached) :=
    delete_loop_relinks (cachedShape.bindex_of_lt build.hash chunk) rfl
  simp only [metadataDelete, ← cachedDef, cachedShape.fetch_bucket, ok_bind]
  apply Ensures.bind (spec.weaken (fun _ relinks => relinks) (fun _ _ => trivial))
  rintro ⟨found, removed⟩ relinks
  have same := cachedSame.trans relinks.segments
  cases found with
  | false => exact Rehoused.kept same
  | true =>
      apply (contract_check_rehoused build (relinks.shape (fun _ bound => bound) cachedShape)
        (relinks.fresh cachedFresh)).bind
      exact fun _ rehoused => rehoused.after_same same

theorem delete_all_rehoused {chunk : Chunk} (shape : Shape table)
    (fresh : answers.Fresh table) :
    Ensures (fun result => Rehoused answers table result.2) (fun _ => True)
      (metadataDeleteAll build table chunk answers) := by
  have spec : Ensures (fun result => Relinks (· < table.bincount) table result.2)
      (· = Fault.endlessChain)
      (deleteAllLoop chunk (binAt table (bindexOf build.hash table chunk)) table.fuel 0 none
        (table.slot (binAt table (bindexOf build.hash table chunk))) table) :=
    delete_all_loop_relinks (shape.bindex_of_lt build.hash chunk) rfl
  simp only [metadataDeleteAll, shape.fetch_bucket, ok_bind]
  apply Ensures.bind (spec.weaken (fun _ relinks => relinks) (fun _ _ => trivial))
  rintro ⟨count, removed⟩ relinks
  have counted : Relinks (· < table.bincount) table
      (removed.setCount (wrapSub removed.count count)) := relinks.trans (Relinks.recount _)
  by_cases some : count > 0
  · simp only [if_pos some]
    apply (contract_check_rehoused build (counted.shape (fun _ bound => bound) shape)
      (counted.fresh fresh)).bind
    exact fun _ rehoused => rehoused.after_same counted.segments
  · simp only [if_neg some]
    exact Rehoused.kept counted.segments

theorem lookup_table_segments {chunk : Chunk} (shape : Shape table) :
    Ensures (fun result => SameSegments table result.2) (fun _ => True)
      (lookupTable build table chunk) := by
  simp only [lookupTable, shape.fetch_bucket, ok_bind]
  apply Ensures.bind (lookup_loop_fault.weaken (fun _ _ => trivial) (fun _ _ => trivial))
  rintro ⟨value, bucketpPrev⟩ _
  cases value with
  | none => exact SameSegments.refl table
  | some bucketp =>
      have relinks : Relinks (fun _ => True) table (promote table
          (binAt table (bindexOf build.hash table chunk)) bucketpPrev bucketp) :=
        promote_relinks trivial rfl
      exact relinks.segments

theorem lookup_segments {chunk : Chunk} (shape : Shape table) :
    Ensures (fun result => SameSegments table result.2) (fun _ => True)
      (metadataLookup build table chunk) := by
  simp only [metadataLookup]
  split_ifs
  · have cachedShape : Shape { table with cache := (cacheLookup table.cache chunk).2 } :=
      shape.refill rfl
    cases (cacheLookup table.cache chunk).1 with
    | some bucket => exact ⟨rfl, rfl⟩
    | none =>
        apply (lookup_table_segments build cachedShape).bind
        exact fun _ same => ⟨same.directory, same.current⟩
  · exact lookup_table_segments build shape

theorem step_rehoused {op : Op} (shape : Shape table) (fresh : answers.Fresh table) :
    Ensures (fun result => Rehoused answers table result.2) (fun _ => True)
      (step build table op answers) := by
  cases op with
  | add bucket chunk =>
      have keyed : Shape (setChunk table bucket chunk) := shape.refill rfl
      have same : SameSegments table (setChunk table bucket chunk) := ⟨rfl, rfl⟩
      apply (add_rehoused build keyed ⟨fresh.segment, fresh.directory⟩).bind
      exact fun _ rehoused => rehoused.after_same same
  | lookup chunk =>
      apply (lookup_segments build shape).bind
      exact fun _ same => Rehoused.kept same
  | delete chunk =>
      apply (delete_rehoused build shape fresh).bind
      exact fun _ rehoused => rehoused
  | deleteAll chunk =>
      apply (delete_all_rehoused build shape fresh).bind
      exact fun _ rehoused => rehoused

end SriGlibcMalloc.MetadataTable
