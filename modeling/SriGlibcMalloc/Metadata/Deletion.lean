import SriGlibcMalloc.Metadata.AllOrNothing

/-!
# Deletion without memory

A deletion may shrink the table, and shrinking may move the directory into a
smaller one. `metadata_contract_directory` does not look at what the allocation
returned: a refused directory is written through. Every other deletion
completes, whatever the allocator answers.
-/

namespace SriGlibcMalloc.MetadataTable

open PointerList KeyedStack Outcome

set_option autoImplicit false

/-- `after` is `before` without `removed` buckets of `chunk`: those that are left
keep their order, and a lookup finds the newest of every chunk. -/
structure Without (build : Build) (chunk : Chunk) (removed : Nat) (before after : Metadata) :
    Prop where
  rest : stackOf build.hash after chunk = (stackOf build.hash before chunk).drop removed
  others : ∀ other, other ≠ chunk →
    stackOf build.hash after other = stackOf build.hash before other
  count : after.count = before.count - removed
  retrievable : ∀ key, ∃ final, lookupTable build after key =
    .ok ((stackOf build.hash after key).head?, final)

def DeleteCompletes (build : Build) (table : Metadata) (chunk : Chunk) (answers : Answers) :
    Prop :=
  ∃ found after, metadataDelete build table chunk answers = .ok (found, after) ∧
    (found = true ↔ stackOf build.hash table chunk ≠ []) ∧
    Without build chunk (min 1 (stackOf build.hash table chunk).length) table after

def DeleteAllCompletes (build : Build) (table : Metadata) (chunk : Chunk) (answers : Answers) :
    Prop :=
  ∃ after, metadataDeleteAll build table chunk answers =
      .ok ((stackOf build.hash table chunk).length, after) ∧
    Without build chunk (stackOf build.hash table chunk).length table after

/-- Removing `removed` buckets makes the table contract, the directory is then more
than twice too long, and the smaller one is refused. -/
structure Starves (table : Metadata) (removed : Nat) (answers : Answers) : Prop where
  some : 0 < removed
  deep : 0 < table.L
  sparse : (table.count - removed) / table.bincount < cfg.minLoad
  long : table.directoryLength > cfg.initialDirectoryLength
  half : table.directoryCurrent < table.directoryLength / 2
  refused : answers.directory = none

variable {table removed after : Metadata} {entries : Entries Chunk BucketPtr}
variable {answers : Answers} (build : Build)

theorem Holds.without {left : Entries Chunk BucketPtr} {chunk : Chunk} {number : Nat}
    (holds : Holds build.hash table entries) (kept : Holds build.hash after left)
    (ample : entries.length < table.fuel) (fuel : after.fuel = table.fuel)
    (rest : stack left chunk = (stack entries chunk).drop number)
    (others : ∀ other, other ≠ chunk → stack left other = stack entries other)
    (count : left.length = entries.length - number) :
    Without build chunk number table after := by
  have fewer : left.length < after.fuel := by omega
  have readAfter := kept.stack_of (Nat.le_of_lt fewer)
  have readBefore := holds.stack_of (Nat.le_of_lt ample)
  constructor
  · rw [readAfter, readBefore, rest]
  · intro other different
    rw [readAfter, readBefore, others other different]
  · rw [kept.count, holds.count, count]
  · intro key
    obtain ⟨final, found, _⟩ := lookup_table_spec build kept fewer key
    exact ⟨final, by rw [found, readAfter]⟩

theorem starves_iff {number : Nat} (some : 0 < number)
    (numbers : removed = { table with
      bucket := removed.bucket, segment := removed.segment, count := removed.count,
      cache := removed.cache })
    (count : removed.count = table.count - number) :
    Starved removed answers ↔ Starves table number answers := by
  have depth : removed.L = table.L := by rw [numbers]
  have bins : removed.bincount = table.bincount := by rw [numbers]
  have length : removed.directoryLength = table.directoryLength := by rw [numbers]
  have current : removed.directoryCurrent = table.directoryCurrent := by rw [numbers]
  simp only [Starved, Sparse, ShrinksDirectory, metadataLoad, depth, bins, length, current, count]
  constructor
  · rintro ⟨⟨deep, sparse⟩, ⟨long, half⟩, refused⟩
    exact ⟨some, deep, sparse, long, half, refused⟩
  · intro starves
    exact ⟨⟨starves.deep, starves.sparse⟩, ⟨starves.long, starves.half⟩, starves.refused⟩

theorem length_pop_min (entries : Entries Chunk BucketPtr) (chunk : Chunk) :
    (pop entries chunk).length = entries.length - min 1 (stack entries chunk).length := by
  by_cases empty : stack entries chunk = []
  · rw [pop_empty empty, empty]
    rfl
  · have shorter := length_pop empty
    have positive : 0 < (stack entries chunk).length := List.length_pos_iff.mpr empty
    omega

theorem delete_completes_iff {chunk : Chunk} (holds : Holds build.hash table entries)
    (ample : entries.length < table.fuel) (fresh : answers.Fresh table) :
    DeleteCompletes build table chunk answers ↔
      ¬Starves table (min 1 (stackOf build.hash table chunk).length) answers := by
  have read := holds.stack_of (Nat.le_of_lt ample) chunk
  rw [DeleteCompletes, read]
  rcases delete_run build chunk answers holds ample with
    ⟨nothing, run⟩ | ⟨some, index, removed, relinks, kept, run⟩
  · have same : Without build chunk 0 table
        (ifCached build table fun cache => cacheDelete cache chunk) :=
      holds.without build (holds.recache _) ample rfl rfl (fun _ _ => rfl) rfl
    rw [nothing]
    constructor
    · rintro _ starves
      exact absurd starves.some (by decide)
    · intro _
      exact ⟨false, _, run, ⟨nofun, fun some => absurd rfl some⟩, same⟩
  · have positive : 0 < (stack entries chunk).length := List.length_pos_iff.mpr some
    have one : min 1 (stack entries chunk).length = 1 := by omega
    have removedCount : removed.count = table.count - 1 := by
      rw [kept.count, holds.count, length_pop_min, one]
    have starves : Starved removed answers ↔ Starves table 1 answers :=
      starves_iff Nat.one_pos (by rw [relinks.rest]; rfl) removedCount
    have sameFuel : removed.fuel = table.fuel := relinks.steady.fuel
    have shorter := length_pop some
    have removedFresh : answers.Fresh removed :=
      relinks.fresh ⟨fresh.segment, fresh.directory⟩
    rw [one, ← starves, run]
    rcases contract_check_cases build kept (by omega) removedFresh with
      ⟨starved, contracts⟩ | ⟨fed, after, contracts, holdsAfter, steady⟩
    · rw [contracts]
      constructor
      · rintro ⟨_, _, failed, _⟩
        cases failed
      · exact fun fed => absurd starved fed
    · rw [contracts]
      constructor
      · exact fun _ => fed
      · intro _
        refine ⟨true, after, rfl, ⟨fun _ => some, fun _ => rfl⟩, ?_⟩
        apply holds.without build holdsAfter ample (steady.fuel.trans sameFuel)
        · rw [stack_pop_same, List.drop_one]
        · exact fun other different => stack_pop_other different
        · rw [length_pop_min, one]

theorem delete_all_completes_iff {chunk : Chunk} (holds : Holds build.hash table entries)
    (ample : entries.length < table.fuel) (fresh : answers.Fresh table) :
    DeleteAllCompletes build table chunk answers ↔
      ¬Starves table (stackOf build.hash table chunk).length answers := by
  have read := holds.stack_of (Nat.le_of_lt ample) chunk
  have parts : (popAll entries chunk).length + (stack entries chunk).length = entries.length :=
    length_pop_all
  obtain ⟨index, counted, relinks, kept, run⟩ := delete_all_run build chunk answers holds ample
  have purged : ∀ after, Holds build.hash after (popAll entries chunk) →
      after.fuel = table.fuel →
      Without build chunk (stack entries chunk).length table after := by
    intro after holdsAfter sameFuel
    apply holds.without build holdsAfter ample sameFuel
    · rw [stack_pop_all_same, List.drop_length]
    · exact fun other different => stack_pop_all_other different
    · omega
  have sameFuel : counted.fuel = table.fuel := relinks.steady.fuel
  rw [DeleteAllCompletes, read, run]
  split_ifs with some
  · have countedCount : counted.count = table.count - (stack entries chunk).length := by
      rw [kept.count, holds.count]
      omega
    have starves : Starved counted answers ↔
        Starves table (stack entries chunk).length answers :=
      starves_iff some (by rw [relinks.rest]) countedCount
    rw [← starves]
    rcases contract_check_cases build kept (by omega) (relinks.fresh fresh) with
      ⟨starved, contracts⟩ | ⟨fed, after, contracts, holdsAfter, steady⟩
    · rw [contracts]
      constructor
      · rintro ⟨_, failed, _⟩
        cases failed
      · exact fun fed => absurd starved fed
    · rw [contracts]
      constructor
      · exact fun _ => fed
      · intro _
        exact ⟨after, rfl, purged after holdsAfter (steady.fuel.trans sameFuel)⟩
  · constructor
    · exact fun _ starves => absurd starves.some some
    · intro _
      exact ⟨counted, rfl, purged counted kept sameFuel⟩

/-- In every reachable table a deletion completes exactly when it does not start a
contraction that asks for a smaller directory and is refused. -/
theorem reachable_deletion_iff (fuel : Nat) (buckets : BucketPtr → Bucket)
    (address : DirectoryPtr) (seg : SegmentPtr) (ops : List Op) (replies : List Reply)
    (table : Metadata) (chunk : Chunk) (answers : Answers)
    (run : Run build anything (initMetadata fuel buckets address seg) ops replies table)
    (admissible : Admissible ops) (ample : ops.length < fuel) (fresh : answers.Fresh table) :
    (DeleteCompletes build table chunk answers ↔
        ¬Starves table (min 1 (stackOf build.hash table chunk).length) answers) ∧
      (DeleteAllCompletes build table chunk answers ↔
        ¬Starves table (stackOf build.hash table chunk).length answers) := by
  obtain ⟨kept, sameFuel⟩ :=
    run_holds build (init_holds build.hash fuel buckets address seg) run admissible ample
  have shorter := spec_entries_length ops
  have enough : (specEntries ops).length < table.fuel := by
    rw [sameFuel]
    exact Nat.lt_of_le_of_lt shorter ample
  exact ⟨delete_completes_iff build kept enough fresh,
    delete_all_completes_iff build kept enough fresh⟩

/-- Both deletions from a table that has split, when no directory is granted. -/
theorem paired_deletion : ∃ replies table,
    Run ⟨true, false, UInt32.ofNat⟩ anything (initMetadata 2048 (fun _ => ⟨0, none⟩) 5 6) pairedOps
        replies table ∧
      table.bincount = 257 ∧ stackOf UInt32.ofNat table 256 = [768, 256] ∧
      DeleteCompletes ⟨true, false, UInt32.ofNat⟩ table 256 ⟨none, none⟩ ∧
      DeleteAllCompletes ⟨true, false, UInt32.ofNat⟩ table 256 ⟨none, none⟩ := by
  obtain ⟨replies, table, _, _, _, run, split, _⟩ := paired_run
  have short : pairedOps.length < 2048 := by decide +kernel
  obtain ⟨kept, fuel⟩ := run_holds _ (init_holds UInt32.ofNat 2048 (fun _ => ⟨0, none⟩) 5 6) run
    paired_admissible short
  have shallow := kept.shape.shallow (by omega)
  have fed : ∀ removed, ¬Starves table removed ⟨none, none⟩ := by
    intro removed starves
    have deep := starves.deep
    omega
  have stacked : stackOf UInt32.ofNat table 256 = stack (specEntries pairedOps) 256 := by
    apply kept.stack_of
    rw [fuel]
    exact Nat.le_trans (spec_entries_length pairedOps) (Nat.le_of_lt short)
  obtain ⟨one, all⟩ := reachable_deletion_iff _ 2048 _ _ _ _ _ _ 256 ⟨none, none⟩ run.of_granted
    paired_admissible short ⟨nofun, nofun⟩
  refine ⟨replies, table, run.of_granted, split, ?_, one.mpr (fed _), all.mpr (fed _)⟩
  rw [stacked]
  decide +kernel

theorem Shape.deep_of_wide (shape : Shape table) (wide : 512 ≤ table.bincount) : 0 < table.L := by
  by_contra shallow
  have level : table.L = 0 := Nat.eq_zero_of_not_pos shallow
  have doubling := shape.doubling
  have split := shape.split
  have bins := shape.bins
  rw [level, shape.minimum] at doubling
  omega

theorem fill_length (count : Nat) : (specEntries (fillOps count)).length = count := adds_of_length

theorem fill_keys (count : Nat) : ∀ entry ∈ specEntries (fillOps count), entry.1 = 16 := by
  induction count with
  | zero => exact nofun
  | succ count ih =>
      rw [fill_ops_succ, spec_entries_concat]
      intro entry member
      rcases List.mem_cons.mp member with new | old
      · rw [new]
      · exact ih entry old

def drainOps (adds count : Nat) : List Op := fillOps adds ++ List.replicate count (.delete 16)

section Drain

variable {adds count : Nat}

theorem drain_ops_zero : drainOps adds 0 = fillOps adds := by
  rw [drainOps, List.replicate_zero, List.append_nil]

theorem drain_ops_succ :
    drainOps adds (count + 1) = drainOps adds count ++ [.delete 16] := by
  rw [drainOps, drainOps, List.replicate_succ', List.append_assoc]

theorem stack_of_one_key {chunk : Chunk} (keys : ∀ entry ∈ entries, entry.1 = chunk) :
    (stack entries chunk).length = entries.length := by
  rw [stack, List.length_map, List.filter_eq_self.mpr]
  intro entry member
  exact decide_eq_true (keys entry member)

theorem drain_keys : ∀ entry ∈ specEntries (drainOps adds count), entry.1 = 16 := by
  induction count with
  | zero =>
      rw [drain_ops_zero]
      exact fill_keys adds
  | succ count ih =>
      rw [drain_ops_succ, spec_entries_concat]
      exact fun entry member => ih entry (mem_of_mem_pop member)

theorem drain_length : (specEntries (drainOps adds count)).length = adds - count := by
  induction count with
  | zero =>
      rw [drain_ops_zero]
      exact fill_length adds
  | succ count ih =>
      rw [drain_ops_succ, spec_entries_concat]
      change (pop (specEntries (drainOps adds count)) 16).length = _
      rw [length_pop_min, stack_of_one_key drain_keys, ih]
      omega

theorem drain_admissible (bound : adds < 2 ^ 64) : Admissible (drainOps adds count) := by
  induction count with
  | zero =>
      rw [drain_ops_zero]
      exact fill_admissible bound
  | succ count ih =>
      rw [drain_ops_succ]
      exact ih.concat trivial

theorem drain_present (left : count < adds) :
    stack (specEntries (drainOps adds count)) 16 ≠ [] := by
  intro empty
  have entries : (specEntries (drainOps adds count)).length = adds - count := drain_length
  have keyed : (stack (specEntries (drainOps adds count)) 16).length =
      (specEntries (drainOps adds count)).length := stack_of_one_key drain_keys
  rw [empty, entries] at keyed
  simp only [List.length_nil] at keyed
  omega

structure Drained (adds count : Nat) (table : Metadata) : Prop where
  bincount : table.bincount = min 262145 ((adds - count) / 2)
  length : table.directoryLength = 2048

/-- The table between the removal of the bucket and the check of the load. -/
structure Removed (adds count : Nat) (removed : Metadata) : Prop where
  holds : Holds (fun _ => 7) removed (pop (specEntries (drainOps adds count)) 16)
  bincount : removed.bincount = min 262145 ((adds - count) / 2)
  length : removed.directoryLength = 2048
  census : removed.count = adds - count - 1
  ample : (pop (specEntries (drainOps adds count)) 16).length < removed.fuel

theorem Drained.delete {replies : List Reply} (drained : Drained adds count table)
    (million : adds = 2 ^ 20) (bound : count ≤ 524800)
    (run : Run ⟨true, false, fun _ => 7⟩ anything
      (initMetadata (2 ^ 22) (fun _ => ⟨0, none⟩) 5 6) (drainOps adds count) replies table) :
    ∃ removed, Removed adds count removed ∧
      metadataDelete ⟨true, false, fun _ => 7⟩ table 16 ⟨none, none⟩ =
        metadataContractCheck ⟨true, false, fun _ => 7⟩ removed ⟨none, none⟩ >>= fun contracted =>
          .ok (true, contracted) := by
  have admissible : Admissible (drainOps adds count) := drain_admissible (by omega)
  have opsLength : (drainOps adds count).length = adds + count := by
    simp [drainOps, fillOps]
  have long : (initMetadata (2 ^ 22) (fun _ => ⟨0, none⟩) 5 6).fuel = 2 ^ 22 := rfl
  have begins := init_holds (fun _ => 7) (2 ^ 22) (fun _ => ⟨0, none⟩) 5 6
  obtain ⟨kept, fuel⟩ := run_holds _ begins run admissible (by omega)
  have entries : (specEntries (drainOps adds count)).length = adds - count := drain_length
  have some : stack (specEntries (drainOps adds count)) 16 ≠ [] := drain_present (by omega)
  have shorter := length_pop some
  rcases delete_run _ 16 ⟨none, none⟩ kept (by omega) with
    ⟨nothing, _⟩ | ⟨_, index, removed, relinks, holds, result⟩
  · exact absurd nothing some
  · have sameFuel : removed.fuel = table.fuel := relinks.steady.fuel
    have sameLength : removed.directoryLength = table.directoryLength := by rw [relinks.rest]; rfl
    refine ⟨removed, ⟨holds, ?_, sameLength.trans drained.length, ?_, by omega⟩, result⟩
    · rw [relinks.bincount]
      exact drained.bincount
    · rw [holds.count]
      omega

variable {removed : Metadata}

theorem Removed.sparse_iff (removal : Removed adds count removed) (million : adds = 2 ^ 20)
    (bound : count ≤ 524800) : Sparse removed ↔ removed.count < 2 * removed.bincount := by
  have bincount := removal.bincount
  have deep := removal.holds.shape.deep_of_wide (by omega)
  have quotient : removed.count / removed.bincount < 2 ↔ removed.count < 2 * removed.bincount :=
    Nat.div_lt_iff_lt_mul (by omega)
  rw [← quotient]
  exact ⟨fun sparse => sparse.2, fun load => ⟨deep, load⟩⟩

theorem Removed.shrinks_iff (removal : Removed adds count removed) :
    ShrinksDirectory removed ↔ removed.directoryCurrent < 1024 := by
  rw [ShrinksDirectory, removal.length]
  exact ⟨fun shrinks => shrinks.2, fun half => ⟨by decide, half⟩⟩

theorem drain_run (million : adds = 2 ^ 20) (bound : count ≤ 524800) :
    ∃ replies table, Run ⟨true, false, fun _ => 7⟩ anything
        (initMetadata (2 ^ 22) (fun _ => ⟨0, none⟩) 5 6) (drainOps adds count) replies table ∧
      Drained adds count table := by
  induction count with
  | zero =>
      obtain ⟨replies, table, run, filled⟩ := fill_run (fun _ => 7) (fun _ => 16)
        (Nat.le_of_eq million) (show adds + 1 < 2 ^ 22 by omega)
      have bincount := filled.bincount
      have length := filled.length
      refine ⟨replies, table, ?_, ?_, ?_⟩
      · rw [drain_ops_zero]
        exact run.of_granted
      · omega
      · rw [length, if_neg (by omega)]
  | succ count ih =>
      obtain ⟨replies, table, run, drained⟩ := ih (Nat.le_of_succ_le bound)
      obtain ⟨removed, removal, result⟩ := drained.delete million (Nat.le_of_succ_le bound) run
      have sparseIff := removal.sparse_iff million (Nat.le_of_succ_le bound)
      have bincount := removal.bincount
      have census := removal.census
      have current := removal.holds.shape.current
      have fresh : Answers.Fresh ⟨none, none⟩ table := ⟨nofun, nofun⟩
      have removedFresh : Answers.Fresh ⟨none, none⟩ removed := ⟨nofun, nofun⟩
      have fed : ¬(Sparse removed ∧ ShrinksDirectory removed) := by
        rw [sparseIff, removal.shrinks_iff]
        omega
      rcases contract_check_cases ⟨true, false, fun _ => 7⟩ removal.holds removal.ample
        removedFresh with ⟨starved, _⟩ | ⟨_, after, contracts, _, _⟩
      · exact absurd ⟨starved.1, starved.2.1⟩ fed
      · have numbers := contract_check_enlarged ⟨true, false, fun _ => 7⟩ removal.holds.shape
          removedFresh
        obtain ⟨shrunk, same⟩ := numbers.value contracts
        have stepped : step ⟨true, false, fun _ => 7⟩ table (.delete 16) ⟨none, none⟩ =
            .ok (.deleted true, after) := by
          simp only [step, result, contracts, ok_bind, pure_ok]
        rw [drain_ops_succ]
        refine ⟨_, after, run.perform _ _ fresh trivial stepped, ?_⟩
        by_cases sparse : Sparse removed
        · obtain ⟨enlarged, kept⟩ := shrunk sparse
          have fewer := enlarged.bincount
          have few := sparseIff.mp sparse
          constructor
          · omega
          · rw [kept (fun shrinks => fed ⟨sparse, shrinks⟩), removal.length]
        · rw [same sparse]
          rw [sparseIff] at sparse
          exact ⟨by omega, removal.length⟩

end Drain

/-- After 2^20 adds and 524800 deletions the next deletion starts a contraction, asks
for a directory of 1024 entries, and writes through the null pointer it gets. -/
theorem starved_deletion :
    ∃ replies table, Run ⟨true, false, fun _ => 7⟩ anything
        (initMetadata (2 ^ 22) (fun _ => ⟨0, none⟩) 5 6) (drainOps (2 ^ 20) 524800) replies table ∧
      Admissible (drainOps (2 ^ 20) 524800) ∧ Answers.Fresh ⟨none, none⟩ table ∧
      metadataDelete ⟨true, false, fun _ => 7⟩ table 16 ⟨none, none⟩ =
        .error .nullDirectory ∧
      ¬DeleteCompletes ⟨true, false, fun _ => 7⟩ table 16 ⟨none, none⟩ := by
  obtain ⟨adds, million⟩ : ∃ adds, adds = 2 ^ 20 := ⟨_, rfl⟩
  rw [← million]
  obtain ⟨replies, table, run, drained⟩ := drain_run million (Nat.le_refl 524800)
  obtain ⟨removed, removal, result⟩ := drained.delete million (Nat.le_refl 524800) run
  have bincount := removal.bincount
  have census := removal.census
  have current := removal.holds.shape.current
  have starved : Starved removed ⟨none, none⟩ := by
    refine ⟨?_, ?_, rfl⟩
    · rw [removal.sparse_iff million (Nat.le_refl 524800)]
      omega
    · rw [removal.shrinks_iff]
      omega
  have removedFresh : Answers.Fresh ⟨none, none⟩ removed := ⟨nofun, nofun⟩
  have fault : metadataDelete ⟨true, false, fun _ => 7⟩ table 16 ⟨none, none⟩ =
      .error .nullDirectory := by
    rcases contract_check_cases ⟨true, false, fun _ => 7⟩ removal.holds removal.ample
      removedFresh with ⟨_, contracts⟩ | ⟨fed, _⟩
    · rw [result, contracts]
      rfl
    · exact absurd starved fed
  have fresh : Answers.Fresh ⟨none, none⟩ table := ⟨nofun, nofun⟩
  refine ⟨replies, table, run, drain_admissible (by omega), fresh, fault, ?_⟩
  rintro ⟨found, after, completes, _⟩
  rw [fault] at completes
  cases completes

end SriGlibcMalloc.MetadataTable
