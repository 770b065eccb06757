import SriGlibcMalloc.Metadata.KeyedRun

/-!
# Lookup and the front of a chain

`metadata_lookup` starts its trailing pointer at the head of the bin and skips
the move when that pointer still is the head. It is the head for a bucket in
the first position, but also for one in the second: that bucket is found and
stays where it is.
-/

namespace SriGlibcMalloc.MetadataTable

open PointerList KeyedStack

set_option autoImplicit false

/-- `after` has the numbers and the directory of `before`, and its buckets have
kept their chunks. -/
structure SameTable (before after : Metadata) : Prop where
  rest : after = { before with bucket := after.bucket, segment := after.segment }
  chunk : ∀ node, (after.bucket node).chunk = (before.bucket node).chunk

/-- A hit moves its bucket to the front of its bin and changes nothing else; a
miss changes nothing. -/
structure LookupMovesToFront (build : Build) (table : Metadata) (bins : Nat → List BucketPtr)
    (chunk : Chunk) : Prop where
  returns : ∃ value after, metadataLookup build table chunk = .ok (value, after)
  miss : ∀ after, metadataLookup build table chunk = .ok (none, after) → after = table
  hit : ∀ bucket after, metadataLookup build table chunk = .ok (some bucket, after) →
    SameTable table after ∧
      Chained build.hash after (Function.update bins (bindexOf build.hash table chunk)
        (bucket :: (bins (bindexOf build.hash table chunk)).erase bucket))

/-- The bucket that the search stops at is the second of its bin. -/
def SecondMatch (hash : Chunk → UInt32) (table : Metadata) (bins : Nat → List BucketPtr)
    (chunk : Chunk) : Prop :=
  ∃ first second back, bins (bindexOf hash table chunk) = first :: second :: back ∧
    (table.bucket first).chunk ≠ chunk ∧ (table.bucket second).chunk = chunk

variable {table : Metadata} {bins : Nat → List BucketPtr} {build : Build} {chunk : Chunk}

theorem Chained.head_unique {hash : Chunk → UInt32} {other : Nat → List BucketPtr} {index : Nat}
    (chained : Chained hash table bins) (again : Chained hash table other)
    (bound : index < table.bincount) : (bins index).head? = (other index).head? :=
  (chain_start (chained.chain index bound)).symm.trans (chain_start (again.chain index bound))

theorem metadata_lookup_uncached (cacheOff : build.sriMetadataCache = false)
    (table : Metadata) (chunk : Chunk) :
    metadataLookup build table chunk = lookupTable build table chunk := by
  rw [metadataLookup, if_neg (by simp [cacheOff])]

theorem SecondMatch.stays (second : SecondMatch build.hash table bins chunk)
    (shape : Shape table) (chained : Chained build.hash table bins)
    (cacheOff : build.sriMetadataCache = false)
    (fits : (bins (bindexOf build.hash table chunk)).length < table.fuel) :
    ¬LookupMovesToFront build table bins chunk := by
  intro moves
  obtain ⟨first, wanted, tail, nodes, firstOther, wantedFound⟩ := second
  rcases chained.lookup_table build shape chunk rfl fits with
    ⟨absent, _⟩ | ⟨front, bucket, back, after, split, absent, found, run, relinks, _, moved⟩
  · exact absent wanted (by rw [nodes]; simp) wantedFound
  · rw [nodes] at split
    have position : front = [first] ∧ bucket = wanted := by
      cases front with
      | nil =>
          simp only [List.nil_append, List.cons.injEq] at split
          rw [← split.1] at found
          exact absurd found firstOther
      | cons node others =>
          simp only [List.cons_append, List.cons.injEq] at split
          cases others with
          | nil =>
              simp only [List.nil_append, List.cons.injEq] at split
              exact ⟨by rw [split.1], split.2.1.symm⟩
          | cons later others =>
              simp only [List.cons_append, List.cons.injEq] at split
              have early := absent later (by simp)
              rw [← split.2.1] at early
              exact absurd wantedFound early
    rw [← metadata_lookup_uncached cacheOff table chunk] at run
    have claimed := (moves.hit bucket after run).2
    have bound : bindexOf build.hash table chunk < after.bincount := by
      rw [relinks.bincount]
      exact shape.bindex_of_lt build.hash chunk
    have heads := moved.head_unique claimed bound
    rw [Function.update_self, Function.update_self, position.1, position.2] at heads
    simp only [promoted, List.length_singleton, Nat.one_lt_ofNat, if_true, List.singleton_append,
      List.head?_cons, Option.some.injEq] at heads
    rw [← heads] at wantedFound
    exact firstOther wantedFound

theorem promoted_eq {front back : List BucketPtr} {bucket : BucketPtr}
    (other : front.length ≠ 1) (nodup : (front ++ bucket :: back).Nodup) :
    promoted front bucket back = bucket :: (front ++ bucket :: back).erase bucket := by
  have outside : bucket ∉ front := by
    intro member
    exact (List.nodup_append.mp nodup).2.2 bucket member bucket (by simp) rfl
  rw [List.erase_append_right _ outside, List.erase_cons_head, promoted]
  split_ifs with shallow
  · have empty : front = [] := List.length_eq_zero_iff.mp (by omega)
    rw [empty]
    rfl
  · rfl

/-- A lookup moves its bucket to the front exactly when that bucket is not the
second of its bin. -/
theorem lookup_moves_to_front_iff (build : Build) (table : Metadata)
    (bins : Nat → List BucketPtr) (chunk : Chunk) (cacheOff : build.sriMetadataCache = false)
    (shape : Shape table) (chained : Chained build.hash table bins)
    (fits : (bins (bindexOf build.hash table chunk)).length < table.fuel) :
    LookupMovesToFront build table bins chunk ↔ ¬SecondMatch build.hash table bins chunk := by
  constructor
  · intro moves second
    exact second.stays shape chained cacheOff fits moves
  · intro elsewhere
    have uncached := metadata_lookup_uncached cacheOff table chunk
    rcases chained.lookup_table build shape chunk rfl fits with
      ⟨_, run⟩ | ⟨front, bucket, back, after, nodes, absent, found, run, relinks, count, moved⟩
    · refine ⟨⟨_, _, uncached.trans run⟩, ?_, ?_⟩
      · intro after result
        rw [uncached, run] at result
        cases result
        rfl
      · intro bucket after result
        rw [uncached, run] at result
        cases result
    · refine ⟨⟨_, _, uncached.trans run⟩, ?_, ?_⟩
      · intro after result
        rw [uncached, run] at result
        cases result
      · intro other final result
        rw [uncached, run] at result
        cases result
        have deep : front.length ≠ 1 := by
          intro single
          obtain ⟨first, shape⟩ := List.length_eq_one_iff.mp single
          rw [shape] at nodes absent
          exact elsewhere ⟨first, bucket, back, nodes, absent first (by simp), found⟩
        have nodup := chained.nodup (bindexOf build.hash table chunk)
        rw [nodes] at nodup
        rw [promoted_eq deep nodup, ← nodes] at moved
        refine ⟨⟨?_, relinks.chunk⟩, moved⟩
        rw [relinks.rest, ← count]

def twoInBin : Metadata :=
  linkFront (setChunk (linkFront (setChunk (initMetadata 4 (fun _ => ⟨0, none⟩) 5 6) 9 16)
    (6, 7) 9) 10 32) (6, 7) 10

def twoBins (index : Nat) : List BucketPtr := if index = 7 then [10, 9] else []

theorem two_in_bin_run :
    Run ⟨true, false, fun _ => 7⟩ anything (initMetadata 4 (fun _ => ⟨0, none⟩) 5 6)
      [.add 9 16, .add 10 32] [.added true, .added true] twoInBin := by
  have fromInit : Run ⟨true, false, fun _ => 7⟩ anything
      (initMetadata 4 (fun _ => ⟨0, none⟩) 5 6) [] []
      (initMetadata 4 (fun _ => ⟨0, none⟩) 5 6) := Run.start
  have first := fromInit.perform (.add 9 16) ⟨none, none⟩ ⟨nofun, nofun⟩ trivial rfl
  exact first.perform (.add 10 32) ⟨none, none⟩ ⟨nofun, nofun⟩ trivial rfl

theorem two_in_bin_chained : Chained (fun _ => 7) twoInBin twoBins where
  chain := by
    intro index bound
    have inFirst : index / 256 = 0 := Nat.div_eq_of_lt bound
    by_cases seventh : index = 7
    · rw [seventh]
      exact ⟨rfl, rfl, rfl⟩
    · have offset : index % 256 ≠ 7 := by omega
      rw [twoBins, if_neg seventh]
      change twoInBin.segment ((twoInBin.directory (index / 256)).getD 0) (index % 256) = none
      rw [inFirst]
      simp [twoInBin, linkFront, setChunk, initMetadata, Metadata.setSlot,
        Metadata.setNextBucket, Metadata.setCount, offset]
  outside := by
    intro index bound
    have beyond : index ≠ 7 := by
      intro seventh
      rw [seventh] at bound
      exact absurd bound (by decide)
    exact if_neg beyond
  nodup := by
    intro index
    unfold twoBins
    split_ifs <;> decide
  addressed := by
    intro index node member
    unfold twoBins at member
    split_ifs at member with seventh
    · rw [seventh]
      rfl
    · cases member

/-- After two adds to one bin, looking up the older of the two leaves it second. -/
theorem two_in_bin_not_moved :
    Run ⟨true, false, fun _ => 7⟩ anything (initMetadata 4 (fun _ => ⟨0, none⟩) 5 6)
        [.add 9 16, .add 10 32] [.added true, .added true] twoInBin ∧
      Chained (fun _ => 7) twoInBin twoBins ∧
      ¬LookupMovesToFront ⟨true, false, fun _ => 7⟩ twoInBin twoBins 16 := by
  have shape := run_shape _ (init_shape 4 (fun _ => ⟨0, none⟩) 5 6) two_in_bin_run
  refine ⟨two_in_bin_run, two_in_bin_chained, ?_⟩
  apply SecondMatch.stays _ shape two_in_bin_chained rfl (by decide)
  exact ⟨10, 9, [], rfl, by decide, by decide⟩

theorem lookup_moves_to_front_first :
    LookupMovesToFront ⟨true, false, fun _ => 7⟩ twoInBin twoBins 32 ↔
      ¬SecondMatch (fun _ => 7) twoInBin twoBins 32 := by
  have shape := run_shape _ (init_shape 4 (fun _ => ⟨0, none⟩) 5 6) two_in_bin_run
  exact lookup_moves_to_front_iff ⟨true, false, fun _ => 7⟩ twoInBin twoBins 32 rfl shape
    two_in_bin_chained (by decide)

end SriGlibcMalloc.MetadataTable
