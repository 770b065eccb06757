import SriGlibcMalloc.Metadata.Chained

/-!
# The operations refine a keyed stack

One specification per operation of `metadata.c`, for a table that holds given
entries: what it returns and which entries the table holds afterwards. The
faults that remain possible are those that no state of the table can exclude.
-/

namespace SriGlibcMalloc.MetadataTable

open PointerList KeyedStack Outcome

set_option autoImplicit false

/-- `after` has the fuel, the cache and the chunks of `before`. -/
structure Steady (before after : Metadata) : Prop where
  fuel : after.fuel = before.fuel
  cache : after.cache = before.cache
  chunk : ∀ node, (after.bucket node).chunk = (before.bucket node).chunk

theorem Steady.refl (table : Metadata) : Steady table table := ⟨rfl, rfl, fun _ => rfl⟩

theorem Steady.trans {before middle after : Metadata} (first : Steady before middle)
    (second : Steady middle after) : Steady before after :=
  ⟨second.fuel.trans first.fuel, second.cache.trans first.cache,
    fun node => (second.chunk node).trans (first.chunk node)⟩

theorem Relinks.steady {touched : Nat → Prop} {before after : Metadata}
    (relinks : Relinks touched before after) : Steady before after :=
  ⟨by rw [relinks.rest], by rw [relinks.rest], relinks.chunk⟩

theorem Adjacent.larger {small large : Metadata} (adjacent : Adjacent small large) :
    Steady small large :=
  ⟨adjacent.fuel, adjacent.cache, fun node => by rw [adjacent.bucket]⟩

theorem Adjacent.smaller {small large : Metadata} (adjacent : Adjacent small large) :
    Steady large small :=
  ⟨adjacent.fuel.symm, adjacent.cache.symm, fun node => by rw [adjacent.bucket]⟩

theorem Redirected.steady {before after : Metadata} (redirected : Redirected before after) :
    Steady before after := by
  rw [redirected.rest]
  exact ⟨rfl, rfl, fun _ => rfl⟩

theorem Redirected.holds {hash : Chunk → UInt32} {before after : Metadata}
    {entries : Entries Chunk BucketPtr} (redirected : Redirected before after)
    (shape : Shape after) (holds : Holds hash before entries) : Holds hash after entries := by
  obtain ⟨bins, chained, stacked⟩ := holds.chains
  have count := holds.count
  rw [redirected.rest] at shape ⊢
  exact
    { shape := shape
      chains := ⟨bins, ⟨chained.chain, chained.outside, chained.nodup, chained.addressed⟩, stacked⟩
      count := count
      addresses := holds.addresses }

variable {table : Metadata} {entries : Entries Chunk BucketPtr} {answers : Answers}
variable (build : Build)

theorem carrying_promoted {front back : List BucketPtr} {bucket : BucketPtr} {chunk : Chunk}
    (found : (table.bucket bucket).chunk = chunk)
    (absent : ∀ node ∈ front, (table.bucket node).chunk ≠ chunk) (other : Chunk) :
    carrying table other (promoted front bucket back) =
      carrying table other (front ++ bucket :: back) := by
  unfold promoted
  split_ifs
  · rfl
  · by_cases same : other = chunk
    · subst same
      have skipped := carrying_skips absent
      simp only [carrying_append, skipped, List.nil_append]
      simp only [carrying, List.filter_cons, found, decide_true, if_true, List.filter_append]
      rw [← carrying, skipped, List.nil_append]
    · simp [carrying, found, Ne.symm same]

theorem Chained.lookup_table {bins : Nat → List BucketPtr} {index : Nat}
    (chained : Chained build.hash table bins) (shape : Shape table) (chunk : Chunk)
    (atIndex : index = bindexOf build.hash table chunk)
    (fits : (bins index).length < table.fuel) :
    ((∀ node ∈ bins index, (table.bucket node).chunk ≠ chunk) ∧
      lookupTable build table chunk = .ok (none, table)) ∨
    ∃ front bucket back after, bins index = front ++ bucket :: back ∧
      (∀ earlier ∈ front, (table.bucket earlier).chunk ≠ chunk) ∧
      (table.bucket bucket).chunk = chunk ∧
      lookupTable build table chunk = .ok (some bucket, after) ∧
      Relinks (· = index) table after ∧ after.count = table.count ∧
      Chained build.hash after (Function.update bins index (promoted front bucket back)) := by
  have bound : index < table.bincount := by
    rw [atIndex]
    exact shape.bindex_of_lt build.hash chunk
  have chain := chained.chain index bound
  simp only [lookupTable, shape.fetch_bucket, ok_bind, ← atIndex]
  rcases first_carrying table chunk (bins index) with
    ⟨_, absent⟩ | ⟨front, bucket, back, nodes, absent, found, _⟩
  · left
    obtain ⟨last, run⟩ : ∃ last, lookupLoop table chunk table.fuel (topOf table index)
        (topOf table index) = .ok (none, last) := lookup_loop_absent chain absent fits
    rw [topOf] at run
    rw [run]
    exact ⟨absent, rfl⟩
  · right
    have nodup := chained.nodup index
    rw [nodes] at chain nodup fits
    have short : front.length < table.fuel := by
      simp only [List.length_append, List.length_cons] at fits
      omega
    have run : lookupLoop table chunk table.fuel (topOf table index) (topOf table index) =
        .ok (some bucket, front.getLast?.or (topOf table index)) :=
      lookup_loop_found chain absent found short
    obtain ⟨count, newChain, frame⟩ := promote_chain chain nodup
    have relinks : Relinks (· = index) table
        (promote table (binAt table index) (front.getLast?.or (topOf table index)) bucket) :=
      promote_relinks rfl rfl
    have members : ∀ node, node ∈ promoted front bucket back ↔ node ∈ bins index := by
      intro node
      rw [nodes, promoted]
      split_ifs
      · rfl
      · simp only [List.mem_cons, List.mem_append]
        tauto
    rw [topOf] at run
    refine ⟨front, bucket, back,
      promote table (binAt table index) (front.getLast?.or (topOf table index)) bucket,
      nodes, absent, found, ?_, relinks, count, ?_⟩
    · rw [run]
      rfl
    · apply chained.relink_bin shape bound relinks (chained.outside_frame ?_) ?_ ?_ ?_
      · rw [nodes]
        exact frame
      · rw [relinks.slot_top]
        exact newChain
      · unfold promoted
        split_ifs
        · exact nodup
        · exact List.nodup_middle.mp nodup
      · intro node member
        exact chained.addressed index node ((members node).mp member)

theorem lookup_table_spec (holds : Holds build.hash table entries)
    (ample : entries.length < table.fuel) (chunk : Chunk) :
    ∃ after, lookupTable build table chunk = .ok ((stack entries chunk).head?, after) ∧
      Holds build.hash after entries ∧ Steady table after := by
  obtain ⟨bins, chained, stacked⟩ := holds.chains
  obtain ⟨index, atIndex⟩ : ∃ index, index = bindexOf build.hash table chunk := ⟨_, rfl⟩
  have bound : index < table.bincount := by
    rw [atIndex]
    exact holds.shape.bindex_of_lt build.hash chunk
  have fits : (bins index).length < table.fuel :=
    Nat.lt_of_le_of_lt (chained.bin_length stacked) ample
  have atTop := stacked chunk
  rw [← atIndex] at atTop
  rcases chained.lookup_table build holds.shape chunk atIndex fits with
    ⟨absent, run⟩ | ⟨front, bucket, back, after, nodes, absent, found, run, relinks, count, moved⟩
  · refine ⟨table, ?_, holds, Steady.refl table⟩
    rw [run, atTop, carrying_skips absent]
    rfl
  · refine ⟨after, ?_, ?_, relinks.steady⟩
    · rw [run, atTop, nodes, carrying_append, carrying_skips absent]
      simp [carrying, found]
    · refine
        { shape := relinks.shape (fun _ same => same ▸ bound) holds.shape
          chains := ⟨_, moved, ?_⟩
          count := count.trans holds.count
          addresses := holds.addresses }
      intro other
      rw [relinks.bindexOf, relinks.carrying, stacked]
      by_cases here : bindexOf build.hash table other = index
      · rw [here, Function.update_self, carrying_promoted found absent, ← nodes]
      · rw [Function.update_of_ne here]

theorem Adjacent.stays {large : Metadata} (adjacent : Adjacent table large) (shape : Shape table)
    (room : table.bincount < cfg.bincountMax) (hash : Chunk → UInt32) {chunk : Chunk}
    (other : bindexOf hash table chunk ≠ table.p) :
    bindexOf hash large chunk = bindexOf hash table chunk := by
  have step := bindex_at_split_other _ _ _ shape.maxp_positive shape.split
    (by rw [← shape.bins]; exact room) other
  rw [adjacent.split] at step
  exact step

theorem Adjacent.moves {large : Metadata} (adjacent : Adjacent table large) (shape : Shape table)
    (hash : Chunk → UInt32) {chunk : Chunk} (same : bindexOf hash table chunk = table.p) :
    bindexOf hash large chunk = table.p ∨ bindexOf hash large chunk = table.bincount := by
  have step := bindex_at_split_same _ _ _ shape.maxp_positive shape.split same
  rw [adjacent.split, ← shape.bins] at step
  exact step

def splitBins (hash : Chunk → UInt32) (table large : Metadata) (bins : Nat → List BucketPtr)
    (index : Nat) : List BucketPtr :=
  if index = table.p then
    (bins table.p).filter fun node =>
      bindexOf hash large (large.bucket node).chunk ≠ table.bincount
  else if index = table.bincount then
    (bins table.p).filter fun node =>
      bindexOf hash large (large.bucket node).chunk = table.bincount
  else bins index

theorem split_bins_carrying {large : Metadata} {hash : Chunk → UInt32}
    {bins : Nat → List BucketPtr} (adjacent : Adjacent table large) (shape : Shape table)
    (room : table.bincount < cfg.bincountMax) (chunk : Chunk) :
    carrying large chunk (splitBins hash table large bins (bindexOf hash large chunk)) =
      carrying large chunk (bins (bindexOf hash table chunk)) := by
  have below := shape.bindex_of_lt hash chunk
  have positive := shape.maxp_positive
  have binsCount := shape.bins
  by_cases old : bindexOf hash table chunk = table.p
  · rcases adjacent.moves shape hash old with stay | move
    · rw [splitBins, if_pos stay, old]
      refine carrying_filter fun node same => decide_eq_true ?_
      rw [same, stay]
      omega
    · rw [splitBins, if_neg (by omega), if_pos move, old]
      refine carrying_filter fun node same => decide_eq_true ?_
      rw [same, move]
  · rw [adjacent.stays shape room hash old, splitBins, if_neg old, if_neg (by omega)]

theorem Chained.split_addressed {large : Metadata} {hash : Chunk → UInt32}
    {bins : Nat → List BucketPtr} (chained : Chained hash table bins)
    (adjacent : Adjacent table large) (shape : Shape table)
    (room : table.bincount < cfg.bincountMax) (index : Nat) :
    ∀ node ∈ splitBins hash table large bins index,
      bindexOf hash large (large.bucket node).chunk = index := by
  intro node member
  have sameChunk := adjacent.larger.chunk node
  unfold splitBins at member
  split_ifs at member with old new
  · obtain ⟨inBin, kept⟩ := List.mem_filter.mp member
    have home := chained.addressed table.p node inBin
    rw [← sameChunk] at home
    rcases adjacent.moves shape hash home with stay | move
    · rw [stay, old]
    · exact absurd move (of_decide_eq_true kept)
  · obtain ⟨_, moved⟩ := List.mem_filter.mp member
    rw [of_decide_eq_true moved, new]
  · have home := chained.addressed index node member
    rw [← sameChunk] at home
    rw [adjacent.stays shape room hash (by rw [home]; exact old), home]

theorem Chained.split {large : Metadata} {bins : Nat → List BucketPtr}
    (chained : Chained build.hash table bins) (before : Shape table)
    (room : table.bincount < cfg.bincountMax) (short : (bins table.p).length < table.fuel)
    (shape : Shape large) (adjacent : Adjacent table large)
    (empty : topOf large table.bincount = none) :
    ∃ after, splitBuckets build table.bincount (binAt large table.p)
        (binAt large table.bincount) large.fuel (topOf large table.p) none none large =
          .ok after ∧
      Relinks (fun index => index = table.p ∨ index = table.bincount) large after ∧
      Shape after ∧ after.count = table.count ∧
      Chained build.hash after (splitBins build.hash table large bins) := by
  have binsCount := before.bins
  have positive := before.maxp_positive
  have largeCount := adjacent.bincount
  have splitBound : table.p < table.bincount := by omega
  have different : binAt large table.p ≠ binAt large table.bincount := by
    intro same
    have equal := shape.bin_at_injective (by omega) (by omega) same
    omega
  have sameNext : large.nextBucket = table.nextBucket := by
    funext node
    simp only [Metadata.nextBucket, adjacent.bucket]
  have sameTop : ∀ index < table.bincount, topOf large index = topOf table index := by
    intro index bound
    simp only [topOf, Metadata.slot, adjacent.bins index bound, adjacent.segment]
  have oldChain : Chain large.nextBucket (large.slot (binAt large table.p)) ([] ++ bins table.p) := by
    rw [sameNext]
    have chain := chained.chain table.p splitBound
    rw [← sameTop _ splitBound] at chain
    exact chain
  have newChain : Chain large.nextBucket (large.slot (binAt large table.bincount)) [] := empty
  have fits : (bins table.p).length < large.fuel := by
    rw [adjacent.fuel]
    exact short
  have nodup : ([] ++ bins table.p ++ []).Nodup := by
    simpa using chained.nodup table.p
  have topHead : topOf large table.p = (bins table.p).head? := chain_start oldChain
  have atNew : binAt large table.bincount = binAt large table.bincount := rfl
  obtain ⟨after, run, count, afterOld, afterNew, frame⟩ :=
    split_buckets_spec build (fun _ => rfl) shape.maxp_pow rfl atNew different oldChain newChain
      nodup topHead fits
  have relinks : Relinks (fun index => index = table.p ∨ index = table.bincount) large after :=
    (split_buckets_relinks build _ _ _ _ shape.maxp_pow (Or.inl rfl) rfl (Or.inr rfl)
      atNew).value run
  simp only [List.nil_append, List.append_nil] at afterOld afterNew frame
  rw [← relinks.slot_top] at afterOld afterNew
  have inUse : ∀ index, index = table.p ∨ index = table.bincount → index < large.bincount := by
    rintro index (old | new) <;> omega
  refine ⟨after, run, relinks, relinks.shape inUse shape, count.trans adjacent.count,
    ⟨?_, ?_, ?_, ?_⟩⟩
  · intro index bound
    rw [relinks.bincount] at bound
    unfold splitBins
    split_ifs with old new
    · rw [old]
      exact afterOld
    · rw [new]
      exact afterNew
    · have untouched : ¬(index = table.p ∨ index = table.bincount) := by
        rintro (same | same)
        · exact old same
        · exact new same
      rw [relinks.topOf shape bound inUse untouched, sameTop index (by omega)]
      refine segment_frame ?_ (chained.chain index (by omega))
      intro node member
      rw [frame node (fun inside => old (chained.apart member inside)), sameNext]
  · intro index bound
    rw [relinks.bincount] at bound
    rw [splitBins, if_neg (by omega), if_neg (by omega)]
    exact chained.outside index (by omega)
  · intro index
    unfold splitBins
    split_ifs
    · exact (chained.nodup table.p).filter _
    · exact (chained.nodup table.p).filter _
    · exact chained.nodup index
  · intro index node member
    rw [relinks.bindexOf, relinks.chunk]
    exact chained.split_addressed adjacent before room index node member

theorem Holds.split {large : Metadata} (holds : Holds build.hash table entries)
    (room : table.bincount < cfg.bincountMax) (ample : entries.length < table.fuel)
    (shape : Shape large) (adjacent : Adjacent table large)
    (empty : topOf large table.bincount = none) :
    ∃ after, splitBuckets build table.bincount (binAt large table.p)
        (binAt large table.bincount) large.fuel (topOf large table.p) none none large =
          .ok after ∧
      Holds build.hash after entries ∧ Steady table after := by
  obtain ⟨bins, chained, stacked⟩ := holds.chains
  have short : (bins table.p).length < table.fuel :=
    Nat.lt_of_le_of_lt (chained.bin_length stacked) ample
  obtain ⟨after, run, relinks, afterShape, count, split⟩ :=
    chained.split build holds.shape room short shape adjacent empty
  refine ⟨after, run, ?_, adjacent.larger.trans relinks.steady⟩
  refine
    { shape := afterShape
      chains := ⟨splitBins build.hash table large bins, split, ?_⟩
      count := count.trans holds.count
      addresses := holds.addresses }
  intro chunk
  rw [relinks.bindexOf, relinks.carrying, split_bins_carrying adjacent holds.shape room, stacked]
  simp only [carrying, adjacent.larger.chunk]

theorem Adjacent.merges {large : Metadata} (adjacent : Adjacent table large) (shape : Shape table)
    (room : table.bincount < cfg.bincountMax) (hash : Chunk → UInt32) (chunk : Chunk) :
    bindexOf hash table chunk =
      if bindexOf hash large chunk = table.bincount then table.p
      else bindexOf hash large chunk := by
  have step := bindex_at_merge (hash chunk).toNat _ _ shape.maxp_positive shape.split
    (by rw [← shape.bins]; exact room)
  rw [adjacent.split, ← shape.bins] at step
  exact step

def mergeBins (bins : Nat → List BucketPtr) (source target index : Nat) : List BucketPtr :=
  if index = target then bins target ++ bins source
  else if index = source then []
  else bins index

theorem Chained.merge {hash : Chunk → UInt32} {bins : Nat → List BucketPtr}
    {source target : Nat} (chained : Chained hash table bins) (shape : Shape table)
    (wide : 256 < table.bincount) (atSource : source = table.bincount - 1)
    (atTarget : target = (mergeBefore table.maxp table.p).2)
    (fits : (bins target).length ≤ table.fuel) :
    ∃ moved, moveBuckets table (binAt table source) (binAt table target) = .ok moved ∧
      moved.bincount = table.bincount ∧ Steady table (retreated moved) ∧
      Shape (retreated moved) ∧ (retreated moved).count = table.count ∧
      Chained hash (retreated moved) (mergeBins bins source target) ∧
      Adjacent (retreated moved) moved ∧ source ≠ target ∧
      ∀ chunk, bindexOf hash (retreated moved) chunk =
        if bindexOf hash table chunk = source then target else bindexOf hash table chunk := by
  obtain ⟨_, _, numbers, _⟩ := shape.merge_numbers wide
  have least := shape.maxp_at_least
  have binsCount := shape.bins
  have atMost := shape.atMost
  rw [← atTarget] at numbers
  have positive : 0 < (mergeBefore table.maxp table.p).1 := by
    unfold mergeBefore
    split_ifs <;> simp only <;> omega
  have different : binAt table source ≠ binAt table target := by
    intro same
    have equal := shape.bin_at_injective (by omega) (by omega) same
    omega
  have nodup : (bins target ++ bins source).Nodup := by
    refine List.nodup_append.mpr ⟨chained.nodup target, chained.nodup source, ?_⟩
    intro left inTarget right inSource same
    have equal := chained.apart inTarget (same ▸ inSource)
    omega
  obtain ⟨moved, run, count, emptied, targetChain, frame⟩ :=
    move_buckets_spec different (chained.chain source (by omega))
      (chained.chain target (by omega)) nodup fits
  have atBin : ∀ index, binAt table index = binAt table index := fun _ => rfl
  have relinks : Relinks (fun index => index = source ∨ index = target) table moved :=
    ((move_buckets_relinks (Or.inl rfl) (atBin source) (Or.inr rfl) (atBin target)).value run).1
  have inUse : ∀ index, index = source ∨ index = target → index < table.bincount := by
    rintro index (old | new) <;> omega
  have movedShape := relinks.shape inUse shape
  rw [← relinks.slot_top] at emptied targetChain
  have movedCount : moved.bincount = table.bincount := relinks.bincount
  have movedWide : 256 < moved.bincount := by omega
  have empty : topOf moved (moved.bincount - 1) = none := by
    rw [movedCount, ← atSource]
    exact emptied
  have small := movedShape.retreat movedWide empty
  have adjacent := retreat_adjacent movedShape movedWide
  have smallCount := adjacent.bincount
  have smallSource : (retreated moved).bincount = source := by omega
  have smallTarget : (retreated moved).p = target := by
    rw [retreated_eq, atTarget, ← relinks.maxp, ← relinks.p]
  have address : ∀ chunk, bindexOf hash (retreated moved) chunk =
      if bindexOf hash table chunk = source then target else bindexOf hash table chunk := by
    intro chunk
    rw [adjacent.merges small (by omega) hash chunk, smallSource, smallTarget, relinks.bindexOf]
  have steady : Steady table (retreated moved) := relinks.steady.trans adjacent.smaller
  refine ⟨moved, run, movedCount, steady, small, adjacent.count.symm.trans count,
    ⟨?_, ?_, ?_, ?_⟩, adjacent, by omega, address⟩
  · intro index bound
    have sameNext : (retreated moved).nextBucket = moved.nextBucket := by
      funext node
      simp only [Metadata.nextBucket, adjacent.bucket]
    have sameTop : topOf (retreated moved) index = topOf moved index := by
      simp only [topOf, Metadata.slot, adjacent.bins index bound, adjacent.segment]
    rw [sameNext, sameTop]
    unfold mergeBins
    split_ifs with atEnd last
    · rw [atEnd]
      exact targetChain
    · omega
    · have untouched : ¬(index = source ∨ index = target) := by
        rintro (same | same)
        · exact last same
        · exact atEnd same
      rw [relinks.topOf shape (by omega) inUse untouched]
      refine segment_frame ?_ (chained.chain index (by omega))
      intro node member
      exact frame node (fun inside => atEnd (chained.apart member inside))
  · intro index bound
    unfold mergeBins
    split_ifs with atEnd last
    · omega
    · rfl
    · exact chained.outside index (by omega)
  · intro index
    unfold mergeBins
    split_ifs
    · exact nodup
    · exact List.nodup_nil
    · exact chained.nodup index
  · intro index node member
    rw [address, steady.chunk]
    unfold mergeBins at member
    split_ifs at member with atEnd last
    · rcases List.mem_append.mp member with inTarget | inSource
      · rw [chained.addressed target node inTarget, if_neg (by omega), atEnd]
      · rw [chained.addressed source node inSource, if_pos rfl, atEnd]
    · cases member
    · rw [chained.addressed index node member, if_neg last]

theorem Holds.merge {hash : Chunk → UInt32} (holds : Holds hash table entries)
    (wide : 256 < table.bincount) (ample : entries.length < table.fuel) :
    ∃ moved, moveBuckets table (binAt table (table.bincount - 1))
        (binAt table (mergeBefore table.maxp table.p).2) = .ok moved ∧
      moved.bincount = table.bincount ∧ Holds hash (retreated moved) entries ∧
      Steady table (retreated moved) := by
  obtain ⟨bins, chained, stacked⟩ := holds.chains
  obtain ⟨source, atSource⟩ : ∃ source, source = table.bincount - 1 := ⟨_, rfl⟩
  obtain ⟨target, atTarget⟩ : ∃ target, target = (mergeBefore table.maxp table.p).2 := ⟨_, rfl⟩
  rw [← atSource, ← atTarget]
  have fits : (bins target).length ≤ table.fuel :=
    Nat.le_of_lt (Nat.lt_of_le_of_lt (chained.bin_length stacked) ample)
  obtain ⟨moved, run, movedCount, steady, small, count, merged, _, different, address⟩ :=
    chained.merge holds.shape wide atSource atTarget fits
  refine ⟨moved, run, movedCount, ?_, steady⟩
  refine
    { shape := small
      chains := ⟨mergeBins bins source target, merged, ?_⟩
      count := count.trans holds.count
      addresses := holds.addresses }
  intro chunk
  have same : ∀ nodes, carrying (retreated moved) chunk nodes = carrying table chunk nodes := by
    intro nodes
    simp only [carrying, steady.chunk]
  rw [address, same, stacked]
  have skips : ∀ index, index ≠ bindexOf hash table chunk →
      carrying table chunk (bins index) = [] := by
    intro index other
    refine carrying_skips fun node member found => other ?_
    rw [← chained.addressed index node member, found]
  unfold mergeBins
  by_cases last : bindexOf hash table chunk = source
  · rw [if_pos last, if_pos rfl, carrying_append, skips target (by omega), last,
      List.nil_append]
  · rw [if_neg last, if_neg last]
    split_ifs with atEnd
    · rw [atEnd, carrying_append, skips source (by omega), List.append_nil]
    · rfl

end SriGlibcMalloc.MetadataTable
