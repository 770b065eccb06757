import Mathlib.Data.Finset.Card
import Mathlib.Order.Interval.Finset.Nat
import SriGlibcMalloc.Metadata.Refinement

/-!
# The four operations

`metadata_add`, `metadata_lookup`, `metadata_delete` and `metadata_delete_all`
against the keyed stack, for either setting of the cache switch: the cache is
carried along and never read here.
-/

namespace SriGlibcMalloc.MetadataTable

open PointerList KeyedStack Outcome

set_option autoImplicit false

/-- The faults that the state of a table cannot exclude: the debug assertion on
the size of the directory, and a contraction whose directory is refused. -/
inductive Unavoidable (build : Build) (answers : Answers) : Fault → Prop
  | directoryLengthMax (debug : build.ndebug = false) :
      Unavoidable build answers .assertDirectoryLengthMax
  | nullDirectory (refused : answers.directory = none) :
      Unavoidable build answers .nullDirectory

def DirectoryMax (build : Build) (fault : Fault) : Prop :=
  build.ndebug = false ∧ fault = .assertDirectoryLengthMax

def Crowded (table : Metadata) : Prop :=
  table.bincount < cfg.bincountMax ∧ metadataLoad table > cfg.maxLoad

def Sparse (table : Metadata) : Prop :=
  table.L > 0 ∧ metadataLoad table < cfg.minLoad

/-- The condition under which `metadata_add` returns false. -/
def AddFails (table : Metadata) (answers : Answers) : Prop :=
  table.bincount < cfg.bincountMax ∧
    (table.count + 1) % 2 ^ 64 / table.bincount > cfg.maxLoad ∧ Refused table answers

variable {table : Metadata} {entries : Entries Chunk BucketPtr} {answers : Answers}
variable (build : Build)

theorem wrap_sub_exact {left right : Nat} (le : right ≤ left) (bound : left < 2 ^ 64) :
    wrapSub left right = left - right := by
  unfold wrapSub
  omega

theorem Holds.nodup_values {hash : Chunk → UInt32} (holds : Holds hash table entries) :
    (entries.map fun entry => entry.2).Nodup := by
  apply KeyedStack.nodup_values
  · intro chunk
    obtain ⟨bins, chained, stacked⟩ := holds.chains
    rw [stacked]
    exact (chained.nodup _).filter _
  · intro left right value inLeft inRight
    rw [← holds.chunk_of_mem (mem_stack.mpr inLeft), ← holds.chunk_of_mem (mem_stack.mpr inRight)]

/-- Distinct non-null addresses are fewer than `2^64`. -/
theorem length_of_addresses (nodup : (entries.map fun entry => entry.2).Nodup)
    (addresses : ∀ entry ∈ entries, 0 < entry.2 ∧ entry.2 < 2 ^ 64) :
    entries.length < 2 ^ 64 := by
  have inside : (entries.map fun entry => entry.2).toFinset ⊆ Finset.Ioo 0 (2 ^ 64) := by
    intro bucket member
    obtain ⟨entry, inEntries, same⟩ := List.mem_map.mp (List.mem_toFinset.mp member)
    rw [← same]
    exact Finset.mem_Ioo.mpr (addresses entry inEntries)
  have fewer := Finset.card_le_card inside
  rw [List.toFinset_card_of_nodup nodup, List.length_map, Nat.card_Ioo] at fewer
  omega

theorem Holds.length_bound {hash : Chunk → UInt32} (holds : Holds hash table entries) :
    entries.length < 2 ^ 64 :=
  length_of_addresses holds.nodup_values holds.addresses

theorem Relinks.fresh {touched : Nat → Prop} {before after : Metadata}
    (relinks : Relinks touched before after) (fresh : answers.Fresh before) :
    answers.Fresh after := by
  rw [relinks.rest]
  exact ⟨fresh.segment, fresh.directory⟩

theorem expand_table_spec (holds : Holds build.hash table entries)
    (ample : entries.length < table.fuel) (fresh : answers.Fresh table)
    (room : table.bincount < cfg.bincountMax) :
    Ensures (fun result => Holds build.hash result.2 entries ∧ Steady table result.2 ∧
        (result.1 = false ↔ Refused table answers))
      (DirectoryMax build) (metadataExpandTable build table answers) := by
  rcases expand_table_cases build holds.shape fresh room with
    ⟨long, run⟩ | ⟨_, ⟨refused, ready, redirected, shape, run⟩ |
      ⟨granted, large, shape, adjacent, empty, _, run⟩⟩
  · rw [run]
    exact ⟨long.1, rfl⟩
  · rw [run]
    exact ⟨redirected.holds shape holds, redirected.steady, fun _ => refused, fun _ => rfl⟩
  · obtain ⟨after, splitRun, kept, steady⟩ := holds.split build room ample shape adjacent empty
    rw [run, splitRun]
    exact ⟨kept, steady, nofun, fun failed => absurd failed granted⟩

theorem expand_check_spec (holds : Holds build.hash table entries)
    (ample : entries.length < table.fuel) (fresh : answers.Fresh table) :
    Ensures (fun result => Holds build.hash result.2 entries ∧ Steady table result.2 ∧
        (result.1 = false ↔ table.bincount < cfg.bincountMax ∧
          metadataLoad table > cfg.maxLoad ∧ Refused table answers))
      (DirectoryMax build) (metadataExpandCheck build table answers) := by
  unfold metadataExpandCheck
  split_ifs with crowded
  · refine (expand_table_spec build holds ample fresh crowded.1).weaken ?_ (fun _ fault => fault)
    rintro result ⟨kept, steady, failed⟩
    exact ⟨kept, steady, fun refused => ⟨crowded.1, crowded.2, failed.mp refused⟩,
      fun refused => failed.mpr refused.2.2⟩
  · exact ⟨holds, Steady.refl table, nofun, fun failed => absurd ⟨failed.1, failed.2.1⟩ crowded⟩

def Starved (table : Metadata) (answers : Answers) : Prop :=
  Sparse table ∧ ShrinksDirectory table ∧ answers.directory = none

/-- A contraction writes through a null directory exactly when it is starved. -/
theorem contract_check_cases {hash : Chunk → UInt32} (holds : Holds hash table entries)
    (ample : entries.length < table.fuel) (fresh : answers.Fresh table) :
    (Starved table answers ∧ metadataContractCheck build table answers = .error .nullDirectory) ∨
    ¬Starved table answers ∧ ∃ after, metadataContractCheck build table answers = .ok after ∧
      Holds hash after entries ∧ Steady table after := by
  unfold metadataContractCheck
  split_ifs with sparse
  · rcases contract_table_cases build holds.shape fresh (holds.shape.wide sparse.1) with
      ⟨shrinks, refused, run⟩ | ⟨fed, ready, redirected, shape, _, run⟩
    · exact Or.inl ⟨⟨sparse, shrinks, refused⟩, run⟩
    · right
      have readyHolds := redirected.holds shape holds
      have readyDeep : 0 < ready.L := by
        rw [redirected.rest]
        exact sparse.1
      have readyAmple : entries.length < ready.fuel := by
        rw [redirected.steady.fuel]
        exact ample
      have sameBins : table.bincount = ready.bincount := by rw [redirected.rest]
      have sameMaxp : table.maxp = ready.maxp := by rw [redirected.rest]
      have sameP : table.p = ready.p := by rw [redirected.rest]
      obtain ⟨moved, movedRun, movedBins, kept, steady⟩ := readyHolds.merge (shape.wide readyDeep) readyAmple
      refine ⟨fun starved => fed starved.2, retreated moved, ?_, kept,
        redirected.steady.trans steady⟩
      rw [run, sameBins, sameMaxp, sameP, movedRun, ok_bind, ← movedBins]
      rfl
  · exact Or.inr ⟨fun starved => sparse starved.1, table, rfl, holds, Steady.refl table⟩

theorem contract_check_spec {hash : Chunk → UInt32} (holds : Holds hash table entries)
    (ample : entries.length < table.fuel) (fresh : answers.Fresh table) :
    Ensures (fun after => Holds hash after entries ∧ Steady table after)
      (Unavoidable build answers) (metadataContractCheck build table answers) := by
  rcases contract_check_cases build holds ample fresh with
    ⟨starved, run⟩ | ⟨_, after, run, kept, steady⟩
  · rw [run]
    exact Unavoidable.nullDirectory starved.2.2
  · exact ensures_of_ok run ⟨kept, steady⟩

theorem Holds.recache {hash : Chunk → UInt32} (holds : Holds hash table entries)
    (cache : Cache) : Holds hash { table with cache := cache } entries := by
  obtain ⟨bins, chained, stacked⟩ := holds.chains
  exact
    { shape := holds.shape.refill rfl
      chains := ⟨bins, ⟨chained.chain, chained.outside, chained.nodup, chained.addressed⟩, stacked⟩
      count := holds.count
      addresses := holds.addresses }

theorem Holds.link {hash : Chunk → UInt32} {newbucket : BucketPtr} {chunk : Chunk}
    (holds : Holds hash table entries) (carries : (table.bucket newbucket).chunk = chunk)
    (absent : ∀ entry ∈ entries, entry.2 ≠ newbucket)
    (address : 0 < newbucket ∧ newbucket < 2 ^ 64) :
    Holds hash (linkFront table (binAt table (bindexOf hash table chunk)) newbucket)
      (push entries chunk newbucket) := by
  obtain ⟨bins, chained, stacked⟩ := holds.chains
  have shape := holds.shape
  obtain ⟨index, atIndex⟩ : ∃ index, index = bindexOf hash table chunk := ⟨_, rfl⟩
  rw [← atIndex]
  have bound : index < table.bincount := by
    rw [atIndex]
    exact shape.bindex_of_lt hash chunk
  have unlinked : ∀ other, newbucket ∉ bins other := by
    intro other member
    have home := chained.addressed other newbucket member
    have carried : newbucket ∈ stack entries (table.bucket newbucket).chunk := by
      rw [stacked, home]
      simp [carrying, member]
    exact absent _ (mem_stack.mp carried) rfl
  have addresses : ∀ entry ∈ push entries chunk newbucket, 0 < entry.2 ∧ entry.2 < 2 ^ 64 := by
    intro entry member
    rcases List.mem_cons.mp member with new | old
    · rw [new]
      exact address
    · exact holds.addresses entry old
  have nodup : ((push entries chunk newbucket).map fun entry => entry.2).Nodup := by
    rw [push, List.map_cons, List.nodup_cons]
    refine ⟨?_, holds.nodup_values⟩
    intro again
    obtain ⟨entry, member, same⟩ := List.mem_map.mp again
    exact absent entry member same
  have small := length_of_addresses nodup addresses
  have relinks : Relinks (· = index) table (linkFront table (binAt table index) newbucket) :=
    link_front_relinks rfl rfl
  refine chained.holds (newbucket :: bins index) shape bound relinks ?_ ?_ ?_ ?_ stacked ?_ ?_
    ?_ addresses
  · intro other _ node member
    have different : node ≠ newbucket := by
      intro same
      exact unlinked other (same ▸ member)
    rw [link_front_next, Function.update_of_ne different]
  · rw [relinks.slot_top, link_front_next]
    refine ⟨link_front_slot, ?_⟩
    rw [Function.update_self]
    exact segment_update_frame (unlinked index) (chained.chain index bound)
  · exact List.nodup_cons.mpr ⟨unlinked index, chained.nodup index⟩
  · intro node member
    rcases List.mem_cons.mp member with new | old
    · rw [new, carries, atIndex]
    · exact chained.addressed index node old
  · intro other here
    by_cases same : other = chunk
    · rw [same, stack_push_same, stacked, ← atIndex]
      simp [carrying, carries]
    · rw [stack_push_other same, stacked, here]
      simp [carrying, carries, Ne.symm same]
  · intro other elsewhere
    refine stack_push_other fun same => elsewhere ?_
    rw [same, atIndex]
  · have census : (linkFront table (binAt table index) newbucket).count =
        (table.count + 1) % 2 ^ 64 := rfl
    rw [census, push, List.length_cons, holds.count]
    rw [push, List.length_cons] at small
    exact Nat.mod_eq_of_lt small

theorem add_spec {newbucket : BucketPtr} {chunk : Chunk} (holds : Holds build.hash table entries)
    (ample : entries.length + 1 < table.fuel) (fresh : answers.Fresh table)
    (carries : (table.bucket newbucket).chunk = chunk)
    (absent : ∀ entry ∈ entries, entry.2 ≠ newbucket)
    (address : 0 < newbucket ∧ newbucket < 2 ^ 64) :
    Ensures (fun result => Holds build.hash result.2 (push entries chunk newbucket) ∧
        Steady (ifCached build table fun cache => cacheInsert cache chunk (some newbucket))
          result.2 ∧
        (result.1 = false ↔ AddFails table answers))
      (DirectoryMax build) (metadataAdd build table newbucket answers) := by
  obtain ⟨cached, cachedDef⟩ : ∃ cached, cached =
      ifCached build table fun cache => cacheInsert cache chunk (some newbucket) := ⟨_, rfl⟩
  have cachedHolds : Holds build.hash cached entries := by
    rw [cachedDef]
    exact holds.recache _
  have cachedCarries : (cached.bucket newbucket).chunk = chunk := by
    rw [cachedDef]
    exact carries
  obtain ⟨linked, linkedDef⟩ : ∃ linked, linked =
      linkFront cached (binAt cached (bindexOf build.hash cached chunk)) newbucket := ⟨_, rfl⟩
  have linkedHolds : Holds build.hash linked (push entries chunk newbucket) := by
    rw [linkedDef]
    exact cachedHolds.link cachedCarries absent address
  have steady : Steady cached linked := by
    have relinks : Relinks (fun _ => True) cached linked := by
      rw [linkedDef]
      exact link_front_relinks trivial rfl
    exact relinks.steady
  have linkedFresh : answers.Fresh linked := by
    rw [linkedDef, cachedDef]
    exact ⟨fresh.segment, fresh.directory⟩
  have linkedAmple : (push entries chunk newbucket).length < linked.fuel := by
    rw [steady.fuel, cachedDef]
    exact ample
  have run : metadataAdd build table newbucket answers =
      metadataExpandCheck build linked answers := by
    simp only [metadataAdd, carries, ← cachedDef, cachedHolds.shape.fetch_bucket, ok_bind,
      linkedDef]
  rw [run, ← cachedDef]
  refine (expand_check_spec build linkedHolds linkedAmple linkedFresh).weaken ?_ (fun _ h => h)
  rintro result ⟨kept, onward, failed⟩
  refine ⟨kept, steady.trans onward, failed.trans ?_⟩
  rw [linkedDef, cachedDef]
  rfl

theorem Holds.unlink {hash : Chunk → UInt32} {chunk : Chunk} {bins : Nat → List BucketPtr}
    {index : Nat} {front back : List BucketPtr} {bucket : BucketPtr}
    (holds : Holds hash table entries) (chained : Chained hash table bins)
    (stacked : ∀ other, stack entries other =
      carrying table other (bins (bindexOf hash table other)))
    (atIndex : index = bindexOf hash table chunk)
    (nodes : bins index = front ++ bucket :: back)
    (absent : ∀ earlier ∈ front, (table.bucket earlier).chunk ≠ chunk)
    (found : (table.bucket bucket).chunk = chunk) :
    Holds hash ((unlinkBucket table (binAt table index) front.getLast? bucket).setCount
      (wrapSub table.count 1)) (pop entries chunk) := by
  have shape := holds.shape
  have bound : index < table.bincount := by
    rw [atIndex]
    exact shape.bindex_of_lt hash chunk
  have chain := chained.chain index bound
  have nodup := chained.nodup index
  rw [nodes] at chain nodup
  have step : Relinks (· = index) table
      (unlinkBucket table (binAt table index) front.getLast? bucket) := unlink_relinks rfl rfl
  have relinks : Relinks (· = index) table
      ((unlinkBucket table (binAt table index) front.getLast? bucket).setCount
        (wrapSub table.count 1)) := step.trans (Relinks.recount _)
  have stackHere : stack entries chunk = bucket :: carrying table chunk back := by
    rw [stacked, ← atIndex, nodes, carrying_append, carrying_skips absent]
    simp [carrying, found]
  refine chained.holds (front ++ back) shape bound relinks ?_ ?_ ?_ ?_ stacked ?_ ?_ ?_ ?_
  · refine chained.outside_frame fun node outside => ?_
    rw [Metadata.next_set_count]
    refine unlink_next_of_ne fun same => ?_
    rw [nodes] at outside
    exact outside (List.mem_append_left _ (List.mem_of_getLast? same))
  · rw [relinks.slot_top, Metadata.next_set_count, Metadata.slot_set_count]
    exact unlink_chain chain nodup
  · exact nodup.sublist (List.Sublist.append_left (List.sublist_cons_self _ _) _)
  · intro node member
    refine chained.addressed index node ?_
    rw [nodes]
    exact (List.Sublist.append_left (List.sublist_cons_self _ _) _).subset member
  · intro other here
    by_cases same : other = chunk
    · rw [same, stack_pop_same, stackHere, carrying_append, carrying_skips absent]
      rfl
    · rw [stack_pop_other same, stacked, here, nodes]
      simp [carrying, found, Ne.symm same]
  · intro other elsewhere
    refine stack_pop_other fun same => elsewhere ?_
    rw [same, atIndex]
  · have some : stack entries chunk ≠ [] := by
      rw [stackHere]
      simp
    have shorter := length_pop some
    rw [Metadata.count_set_count, holds.count, wrap_sub_exact (by omega) holds.length_bound]
    omega
  · exact fun entry member => holds.addresses entry (mem_of_mem_pop member)

/-- What `metadata_delete` does before it looks at the load: a miss leaves the
table, a hit unlinks the first bucket of the chunk. -/
theorem delete_run (chunk : Chunk) (answers : Answers) (holds : Holds build.hash table entries)
    (ample : entries.length < table.fuel) :
    (stack entries chunk = [] ∧ metadataDelete build table chunk answers =
        .ok (false, ifCached build table fun cache => cacheDelete cache chunk)) ∨
    stack entries chunk ≠ [] ∧ ∃ index removed,
      Relinks (· = index) (ifCached build table fun cache => cacheDelete cache chunk) removed ∧
      Holds build.hash removed (pop entries chunk) ∧
      metadataDelete build table chunk answers =
        metadataContractCheck build removed answers >>= fun contracted =>
          .ok (true, contracted) := by
  obtain ⟨cached, cachedDef⟩ : ∃ cached, cached =
      ifCached build table fun cache => cacheDelete cache chunk := ⟨_, rfl⟩
  have cachedHolds : Holds build.hash cached entries := by
    rw [cachedDef]
    exact holds.recache _
  have cachedAmple : entries.length < cached.fuel := by
    rw [cachedDef]
    exact ample
  obtain ⟨bins, chained, stacked⟩ := cachedHolds.chains
  have shape := cachedHolds.shape
  have bound := shape.bindex_of_lt build.hash chunk
  obtain ⟨index, atIndex⟩ : ∃ index, index = bindexOf build.hash cached chunk := ⟨_, rfl⟩
  rw [← atIndex] at bound
  have chain := chained.chain index bound
  have fits : (bins index).length < cached.fuel :=
    Nat.lt_of_le_of_lt (chained.bin_length stacked) cachedAmple
  have atTop := stacked chunk
  rw [← atIndex] at atTop
  simp only [metadataDelete, ← cachedDef, shape.fetch_bucket, ok_bind, ← atIndex]
  rcases first_carrying cached chunk (bins index) with
    ⟨empty, absent⟩ | ⟨front, bucket, back, nodes, absent, found, rest⟩
  · left
    have run : deleteLoop chunk (binAt cached index) cached.fuel none
        (cached.slot (binAt cached index)) cached = .ok (false, cached) :=
      delete_loop_absent chain absent fits
    rw [run]
    exact ⟨atTop.trans empty, rfl⟩
  · right
    rw [nodes] at chain fits
    have short : front.length < cached.fuel := by
      simp only [List.length_append, List.length_cons] at fits
      omega
    obtain ⟨removed, removedDef⟩ : ∃ removed, removed =
        (unlinkBucket cached (binAt cached index) front.getLast? bucket).setCount
          (wrapSub cached.count 1) := ⟨_, rfl⟩
    have run : deleteLoop chunk (binAt cached index) cached.fuel none
        (cached.slot (binAt cached index)) cached = .ok (true, removed) := by
      rw [removedDef]
      have found' : deleteLoop chunk (binAt cached index) cached.fuel none
          (cached.slot (binAt cached index)) cached = .ok (true,
            (unlinkBucket cached (binAt cached index) (front.getLast?.or none) bucket).setCount
              (wrapSub cached.count 1)) :=
        delete_loop_found chain absent found short
      rwa [Option.or_none] at found'
    have spec : Ensures (fun result => Relinks (· = index) cached result.2)
        (· = Fault.endlessChain) (deleteLoop chunk (binAt cached index) cached.fuel none
          (cached.slot (binAt cached index)) cached) := delete_loop_relinks rfl rfl
    refine ⟨by rw [atTop, rest]; simp, index, removed, spec.value run, ?_, by rw [run]; rfl⟩
    rw [removedDef]
    exact cachedHolds.unlink chained stacked atIndex nodes absent found

theorem delete_spec (chunk : Chunk) (holds : Holds build.hash table entries)
    (ample : entries.length < table.fuel) (fresh : answers.Fresh table) :
    Ensures (fun result => Holds build.hash result.2 (pop entries chunk) ∧
        Steady (ifCached build table fun cache => cacheDelete cache chunk) result.2 ∧
        (result.1 = true ↔ stack entries chunk ≠ []) ∧
        (stack entries chunk = [] →
          result.2 = ifCached build table fun cache => cacheDelete cache chunk))
      (Unavoidable build answers) (metadataDelete build table chunk answers) := by
  rcases delete_run build chunk answers holds ample with
    ⟨nothing, run⟩ | ⟨some, index, removed, relinks, kept, run⟩
  · rw [run]
    refine ⟨?_, Steady.refl _, ⟨nofun, fun some => absurd nothing some⟩, fun _ => rfl⟩
    rw [pop_empty nothing]
    exact holds.recache _
  · have removedAmple : (pop entries chunk).length < removed.fuel := by
      have shorter := length_pop some
      have sameFuel : removed.fuel = table.fuel := relinks.steady.fuel
      omega
    have removedFresh : answers.Fresh removed :=
      relinks.fresh ⟨fresh.segment, fresh.directory⟩
    rw [run]
    refine (contract_check_spec build kept removedAmple removedFresh).bind ?_
    rintro after ⟨kept, steady⟩
    exact ⟨kept, relinks.steady.trans steady, ⟨fun _ => some, fun _ => rfl⟩,
      fun nothing => absurd nothing some⟩

theorem delete_all_run (chunk : Chunk) (answers : Answers)
    (holds : Holds build.hash table entries) (ample : entries.length < table.fuel) :
    ∃ index counted, Relinks (· = index) table counted ∧
      Holds build.hash counted (popAll entries chunk) ∧
      metadataDeleteAll build table chunk answers =
        if (stack entries chunk).length > 0 then
          metadataContractCheck build counted answers >>= fun contracted =>
            .ok ((stack entries chunk).length, contracted)
        else .ok ((stack entries chunk).length, counted) := by
  obtain ⟨bins, chained, stacked⟩ := holds.chains
  have shape := holds.shape
  have bound := shape.bindex_of_lt build.hash chunk
  obtain ⟨index, atIndex⟩ : ∃ index, index = bindexOf build.hash table chunk := ⟨_, rfl⟩
  rw [← atIndex] at bound
  have fits : (bins index).length < table.fuel :=
    Nat.lt_of_le_of_lt (chained.bin_length stacked) ample
  have atTop := stacked chunk
  rw [← atIndex] at atTop
  have chain : Chain table.nextBucket (table.slot (binAt table index)) ([] ++ bins index) :=
    chained.chain index bound
  have atBin : binAt table index = binAt table index := rfl
  obtain ⟨removed, run, count, afterChain, frame⟩ :=
    delete_all_loop_spec chunk 0 (fun _ => rfl) atBin chain (chained.nodup index)
      (chain_start chain) fits
  have spec : Ensures (fun result => Relinks (· = index) table result.2)
      (· = Fault.endlessChain) (deleteAllLoop chunk (binAt table index) table.fuel 0 none
        (table.slot (binAt table index)) table) := delete_all_loop_relinks rfl rfl
  have relinks : Relinks (· = index) table removed := spec.value run
  have purged : (bins index).filter (fun node => (table.bucket node).chunk = chunk) =
      stack entries chunk := atTop.symm
  simp only [List.nil_append, Nat.zero_add, purged, List.getLast?_nil] at run afterChain frame
  obtain ⟨counted, countedDef⟩ : ∃ counted, counted =
      removed.setCount (wrapSub removed.count (stack entries chunk).length) := ⟨_, rfl⟩
  have countedRelinks : Relinks (· = index) table counted := by
    rw [countedDef]
    exact relinks.trans (Relinks.recount _)
  have countedHolds : Holds build.hash counted (popAll entries chunk) := by
    refine chained.holds ((bins index).filter fun node => (table.bucket node).chunk ≠ chunk)
      shape bound countedRelinks ?_ ?_ ?_ ?_ stacked ?_ ?_ ?_ ?_
    · refine chained.outside_frame fun node outside => ?_
      rw [countedDef, Metadata.next_set_count]
      exact frame node outside
    · rw [countedRelinks.slot_top, countedDef, Metadata.next_set_count, Metadata.slot_set_count]
      exact afterChain
    · exact (chained.nodup index).filter _
    · intro node member
      exact chained.addressed index node (List.mem_filter.mp member).1
    · intro other here
      by_cases same : other = chunk
      · rw [same, stack_pop_all_same]
        simp [carrying]
      · rw [stack_pop_all_other same, stacked, here]
        refine (carrying_filter fun node found => decide_eq_true ?_).symm
        rw [found]
        exact same
    · intro other elsewhere
      refine stack_pop_all_other fun same => elsewhere ?_
      rw [same, atIndex]
    · have parts : (popAll entries chunk).length + (stack entries chunk).length =
          entries.length := length_pop_all
      rw [countedDef, Metadata.count_set_count, count, holds.count,
        wrap_sub_exact (by omega) holds.length_bound]
      omega
    · exact fun entry member => holds.addresses entry (mem_of_mem_pop_all member)
  refine ⟨index, counted, countedRelinks, countedHolds, ?_⟩
  simp only [metadataDeleteAll, shape.fetch_bucket, ok_bind, ← atIndex, run, ← countedDef, pure_ok]

theorem delete_all_spec (chunk : Chunk) (holds : Holds build.hash table entries)
    (ample : entries.length < table.fuel) (fresh : answers.Fresh table) :
    Ensures (fun result => Holds build.hash result.2 (popAll entries chunk) ∧
        Steady table result.2 ∧ result.1 = (stack entries chunk).length)
      (Unavoidable build answers) (metadataDeleteAll build table chunk answers) := by
  obtain ⟨index, counted, relinks, kept, run⟩ := delete_all_run build chunk answers holds ample
  have countedAmple : (popAll entries chunk).length < counted.fuel := by
    have parts : (popAll entries chunk).length + (stack entries chunk).length =
        entries.length := length_pop_all
    rw [relinks.steady.fuel]
    omega
  rw [run]
  split_ifs
  · refine (contract_check_spec build kept countedAmple (relinks.fresh fresh)).bind ?_
    rintro after ⟨kept, steady⟩
    exact ⟨kept, relinks.steady.trans steady, rfl⟩
  · exact ⟨kept, relinks.steady, rfl⟩

end SriGlibcMalloc.MetadataTable
