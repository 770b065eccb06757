import SriGlibcMalloc.Metadata.Inverse

/-!
# Growing to the maximum

The number of bins is bounded by `UINT32_MAX` and the directory by that number
divided by the segment length, rounded down. A directory doubles, so the bound
that `metadata_expand_directory` asserts cuts off the last doubling: in a debug
build a table whose directory of 2^23 entries is full cannot expand.
-/

namespace SriGlibcMalloc.MetadataTable

open PointerList KeyedStack Outcome

set_option autoImplicit false

/-- An expansion returns true, adds one bin and leaves every bucket in the bin of its
chunk; no assertion fails on the way. -/
def Expands (build : Build) (table : Metadata) (bins : Nat → List BucketPtr)
    (answers : Answers) : Prop :=
  ∃ after bins', metadataExpandTable build table answers = .ok (true, after) ∧
    after.bincount = table.bincount + 1 ∧ Chained build.hash after bins' ∧
    SameBuckets bins bins'

/-- A crowded table expands, and one that has all its bins still takes adds. -/
structure GrowsToMaximum (build : Build) (table : Metadata) (bins : Nat → List BucketPtr)
    (answers : Answers) : Prop where
  expands : Crowded table → Expands build table bins answers
  saturated : table.bincount = cfg.bincountMax → ∀ bucket chunk, ∃ after,
    metadataAdd build (setChunk table bucket chunk) bucket answers = .ok (true, after) ∧
      after.bincount = table.bincount

variable {table : Metadata} {answers : Answers} (build : Build)

theorem Shape.saturated_add (shape : Shape table) (saturated : table.bincount = cfg.bincountMax)
    (bucket : BucketPtr) (chunk : Chunk) :
    ∃ after, metadataAdd build (setChunk table bucket chunk) bucket answers = .ok (true, after) ∧
      after.bincount = table.bincount := by
  obtain ⟨cached, cachedDef⟩ : ∃ cached, cached = ifCached build (setChunk table bucket chunk)
      fun cache => cacheInsert cache ((setChunk table bucket chunk).bucket bucket).chunk
        (some bucket) := ⟨_, rfl⟩
  have cachedShape : Shape cached := by
    rw [cachedDef]
    exact shape.refill rfl
  have sameBins : cached.bincount = table.bincount := by
    rw [cachedDef]
    rfl
  simp only [metadataAdd, ← cachedDef, cachedShape.fetch_bucket, ok_bind]
  refine ⟨linkFront cached (binAt cached (bindexOf build.hash cached
    ((setChunk table bucket chunk).bucket bucket).chunk)) bucket, ?_, sameBins⟩
  rw [metadataExpandCheck, if_neg]
  · rfl
  · rintro ⟨room, _⟩
    have full : cached.bincount < cfg.bincountMax := room
    omega

/-- A table grows to its maximum except from the states in which a debug build asserts
that the next directory is too long. -/
theorem grows_to_maximum_iff (table : Metadata) (bins : Nat → List BucketPtr)
    (answers : Answers) (shape : Shape table) (chained : Chained build.hash table bins)
    (short : (bins table.p).length < table.fuel) (granted : answers.Granted)
    (fresh : answers.Fresh table) :
    GrowsToMaximum build table bins answers ↔
      ¬(Crowded table ∧ DirectoryTooLong build table) := by
  constructor
  · rintro grows ⟨crowded, long⟩
    obtain ⟨after, _, run, _⟩ := grows.expands crowded
    rcases chained.expand_table build shape fresh granted crowded.1 short with
      ⟨_, stops⟩ | ⟨fine, _⟩
    · rw [stops] at run
      cases run
    · exact fine long
  · intro fits
    refine ⟨?_, fun saturated bucket chunk => shape.saturated_add build saturated bucket chunk⟩
    intro crowded
    rcases chained.expand_table build shape fresh granted crowded.1 short with
      ⟨long, _⟩ | ⟨_, after, bins', run, _, enlarged, _, split, same, _⟩
    · exact absurd ⟨crowded, long⟩ fits
    · exact ⟨after, bins', run, enlarged.bincount, split, same⟩

/-- A table with 2^31 bins and `number` buckets, all of one chunk and so in one bin. -/
def packed (number : Nat) : Metadata where
  bucket node := { chunk := 16, nextBucket := if node < number then some (node + 1) else none }
  segment seg offset := if seg = 1 ∧ offset = 7 ∧ 0 < number then some 1 else none
  directoryAddress := 0
  directory index := if index < 2 ^ 23 then some (index + 1) else none
  directoryLength := 2 ^ 23
  directoryCurrent := 2 ^ 23
  N := 256
  L := 23
  p := 0
  count := number
  maxp := 2 ^ 31
  bincount := 2 ^ 31
  cache :=
    { nextUpdateIsZero := true
      cacheKeys0 := 0
      cacheKeys1 := 0
      cacheValues0 := none
      cacheValues1 := none }
  fuel := number + 1

def packedBins (number index : Nat) : List BucketPtr :=
  if index = 7 then List.range' 1 number else []

theorem packed_present {number index : Nat} (bound : index < 2 ^ 23) :
    (packed number).directory index = some (index + 1) := if_pos bound

theorem packed_directory {number index : Nat} {seg : SegmentPtr}
    (stored : (packed number).directory index = some seg) : index < 2 ^ 23 ∧ seg = index + 1 := by
  simp only [packed, Option.ite_none_right_eq_some, Option.some.injEq] at stored
  exact ⟨stored.1, stored.2.symm⟩

theorem packed_shape (number : Nat) : Shape (packed number) where
  minimum := rfl
  doubling := show 2 ^ 31 = 256 * 2 ^ 23 by norm_num
  depth := Nat.le_refl 23
  split := show 0 < 2 ^ 31 by norm_num
  bins := show 2 ^ 31 = 2 ^ 31 + 0 by norm_num
  atMost := show 2 ^ 31 ≤ 4294967295 by norm_num
  length := ⟨13, show 2 ^ 23 = 1024 * 2 ^ 13 by norm_num⟩
  lengthBound := show 2 ^ 23 ≤ 2 ^ 25 by norm_num
  current := show 2 ^ 23 = (2 ^ 31 + 255) / 256 by norm_num
  currentLe := Nat.le_refl _
  present := fun index bound => ⟨index + 1, packed_present bound⟩
  absent := fun index bound => if_neg (Nat.not_lt.mpr bound)
  distinct := by
    intro left right seg leftStored rightStored
    have leftSeg := (packed_directory leftStored).2
    have rightSeg := (packed_directory rightStored).2
    rw [leftSeg] at rightSeg
    exact Nat.succ.inj rightSeg
  emptyAbove := by
    intro index offset seg stored small above
    have inside := (packed_directory stored).1
    change 2 ^ 31 ≤ 256 * index + offset at above
    omega
  emptyPool := by
    intro seg pooled offset small
    have other : seg ≠ 1 := by
      intro first
      apply pooled 0
      rw [first]
      exact packed_present (by norm_num)
    exact if_neg (fun used => other used.1)

theorem packed_chain (number first count : Nat) (positive : 0 < count)
    (last : first + count = number + 1) :
    Chain (packed number).nextBucket (some first) (List.range' first count) := by
  induction count generalizing first with
  | zero => exact absurd positive (Nat.lt_irrefl 0)
  | succ count ih =>
      rw [List.range'_succ]
      refine ⟨rfl, ?_⟩
      change Chain _ (if first < number then some (first + 1) else none) _
      rcases Nat.eq_zero_or_pos count with done | more
      · rw [if_neg (by omega), done]
        rfl
      · rw [if_pos (by omega)]
        exact ih (first + 1) more (by omega)

theorem packed_chained (number : Nat) :
    Chained (fun _ => 7) (packed number) (packedBins number) where
  chain := by
    intro index bound
    have segment : index / 256 < 2 ^ 23 := by
      change index < 2 ^ 31 at bound
      omega
    have top : topOf (packed number) index =
        if index / 256 + 1 = 1 ∧ index % 256 = 7 ∧ 0 < number then some 1 else none := by
      rw [topOf, binAt, packed_present segment]
      rfl
    rw [top]
    by_cases seventh : index = 7 ∧ 0 < number
    · rw [if_pos (by omega), packedBins, if_pos seventh.1]
      exact packed_chain number 1 number seventh.2 (Nat.add_comm 1 number)
    · rw [if_neg (by omega), packedBins]
      split_ifs with here
      · have none : number = 0 := by omega
        rw [none]
        rfl
      · rfl
  outside := by
    intro index bound
    have beyond : index ≠ 7 := by
      change 2 ^ 31 ≤ index at bound
      omega
    exact if_neg beyond
  nodup := by
    intro index
    unfold packedBins
    split_ifs
    · exact List.nodup_range'
    · exact List.nodup_nil
  addressed := by
    intro index node member
    unfold packedBins at member
    split_ifs at member with seventh
    · rw [seventh]
      rfl
    · cases member

theorem packed_fresh (number : Nat) : Answers.Fresh ⟨some 0, some 1⟩ (packed number) where
  segment := by
    intro seg answer index stored
    cases answer
    exact absurd (packed_directory stored).2.symm (Nat.succ_ne_zero index)
  directory := nofun

/-- A crowded table of 2^31 bins whose directory of 2^23 entries is full: in a debug
build the expansion fails the assertion on `directory_length_max`. -/
theorem packed_does_not_grow :
    Shape (packed (2 ^ 33)) ∧ Chained (fun _ => 7) (packed (2 ^ 33)) (packedBins (2 ^ 33)) ∧
      (packedBins (2 ^ 33) 7).length = (packed (2 ^ 33)).count ∧
      Crowded (packed (2 ^ 33)) ∧ Answers.Fresh ⟨some 0, some 1⟩ (packed (2 ^ 33)) ∧
      metadataExpandTable ⟨false, false, fun _ => 7⟩ (packed (2 ^ 33)) ⟨some 0, some 1⟩ =
        .error .assertDirectoryLengthMax ∧
      ¬GrowsToMaximum ⟨false, false, fun _ => 7⟩ (packed (2 ^ 33)) (packedBins (2 ^ 33))
        ⟨some 0, some 1⟩ := by
  obtain ⟨number, atNumber⟩ : ∃ number, number = 2 ^ 33 := ⟨_, rfl⟩
  rw [← atNumber]
  have shape := packed_shape number
  have chained := packed_chained number
  have crowded : Crowded (packed number) := by
    have load : metadataLoad (packed number) = number / 2 ^ 31 := rfl
    refine ⟨show 2 ^ 31 < 4294967295 by norm_num, ?_⟩
    rw [load, atNumber]
    norm_num [cfg]
  have fresh := packed_fresh number
  have long : DirectoryTooLong ⟨false, false, fun _ => 7⟩ (packed number) :=
    ⟨rfl, rfl, show (2 ^ 32 - 1) / 256 ≤ 2 * 2 ^ 23 by norm_num⟩
  have fault : metadataExpandTable ⟨false, false, fun _ => 7⟩ (packed number)
      ⟨some 0, some 1⟩ = .error .assertDirectoryLengthMax := by
    rcases expand_table_cases ⟨false, false, fun _ => 7⟩ shape fresh crowded.1 with
      ⟨_, stops⟩ | ⟨fine, _⟩
    · exact stops
    · exact absurd long fine
  have length : (packedBins number 7).length = (packed number).count := by
    rw [packedBins, if_pos rfl, List.length_range']
    rfl
  refine ⟨shape, chained, length, crowded, fresh, fault, ?_⟩
  intro grows
  obtain ⟨after, _, run, _⟩ := grows.expands crowded
  rw [fault] at run
  cases run

theorem grows_to_maximum_of_packed :
    GrowsToMaximum ⟨true, false, fun _ => 7⟩ (packed (2 ^ 33)) (packedBins (2 ^ 33))
        ⟨some 0, some 1⟩ ↔
      ¬(Crowded (packed (2 ^ 33)) ∧
        DirectoryTooLong ⟨true, false, fun _ => 7⟩ (packed (2 ^ 33))) := by
  exact grows_to_maximum_iff ⟨true, false, fun _ => 7⟩ (packed (2 ^ 33)) (packedBins (2 ^ 33))
    ⟨some 0, some 1⟩ (packed_shape _) (packed_chained _) (Nat.succ_pos _) ⟨nofun, nofun⟩
    (packed_fresh _)

end SriGlibcMalloc.MetadataTable
