import SriGlibcMalloc.Metadata.Filling

/-!
# A failed add

`metadata_add` links and counts the bucket before it asks for the expansion, so
when the expansion is refused it returns false with the bucket in the table.
That is the only way it fails.
-/

namespace SriGlibcMalloc.MetadataTable

open KeyedStack Outcome

set_option autoImplicit false

/-- A failed add leaves the table as it was, and a chunk whose registration
fails has no metadata. -/
structure AllOrNothing (build : Build) (table : Metadata) (bucket : BucketPtr) (chunk : Chunk)
    (answers : Answers) : Prop where
  add : ∀ after,
    metadataAdd build (setChunk table bucket chunk) bucket answers = .ok (false, after) →
      (∀ key, stackOf build.hash after key = stackOf build.hash table key) ∧
        after.count = table.count
  register : ∀ after, registerChunk build table bucket chunk answers = .ok (none, after) →
    stackOf build.hash after chunk = []

variable {table : Metadata} {entries : Entries Chunk BucketPtr} {answers : Answers}
variable {build : Build} {bucket : BucketPtr} {chunk : Chunk}

theorem add_returns (shipped : build.ndebug = true) (holds : Holds build.hash table entries)
    (ample : entries.length + 1 < table.fuel) (fresh : answers.Fresh table)
    (admits : Admits entries (.add bucket chunk)) :
    ∃ success after,
      metadataAdd build (setChunk table bucket chunk) bucket answers = .ok (success, after) ∧
        Holds build.hash after (push entries chunk bucket) ∧ after.fuel = table.fuel ∧
        (success = false ↔ AddFails table answers) := by
  obtain ⟨address, absent⟩ := admits
  have carries : ((setChunk table bucket chunk).bucket bucket).chunk = chunk := by
    simp [setChunk]
  obtain ⟨⟨success, after⟩, run, kept, steady, failed⟩ :=
    (add_spec build (holds.set_chunk absent chunk) ample ⟨fresh.segment, fresh.directory⟩ carries
      absent address).returns (fun _ debug => by simp [DirectoryMax, shipped] at debug)
  exact ⟨success, after, run, kept, steady.fuel, failed⟩

theorem Holds.all_or_nothing_iff (shipped : build.ndebug = true)
    (holds : Holds build.hash table entries) (ample : entries.length + 1 < table.fuel)
    (fresh : answers.Fresh table) (admits : Admits entries (.add bucket chunk)) :
    AllOrNothing build table bucket chunk answers ↔ ¬AddFails table answers := by
  obtain ⟨success, after, run, kept, fuel, failed⟩ :=
    add_returns shipped holds ample fresh admits
  constructor
  · intro atomic fails
    rw [failed.mpr fails] at run
    have census := (atomic.add after run).2
    rw [kept.count, holds.count, push, List.length_cons] at census
    omega
  · intro works
    have succeeds : success = true := by
      cases success with
      | true => rfl
      | false => exact absurd (failed.mp rfl) works
    rw [succeeds] at run
    constructor
    · intro other failure
      rw [run] at failure
      cases failure
    · intro other failure
      simp only [registerChunk, run, ok_bind, assert, Bool.or_true, if_true] at failure
      cases failure

/-- In every reachable state an add is all or nothing if and only if the
expansion is not refused; `AddFails` reads only the table before the call and
the answers of the allocator. -/
theorem reachable_all_or_nothing (build : Build) (shipped : build.ndebug = true) (fuel : Nat)
    (buckets : BucketPtr → Bucket) (address : DirectoryPtr) (seg : SegmentPtr) (ops : List Op)
    (replies : List Reply) (table : Metadata) (bucket : BucketPtr) (chunk : Chunk)
    (answers : Answers)
    (run : Run build anything (initMetadata fuel buckets address seg) ops replies table)
    (admissible : Admissible (ops ++ [.add bucket chunk])) (ample : ops.length + 1 < fuel)
    (fresh : answers.Fresh table) :
    AllOrNothing build table bucket chunk answers ↔ ¬AddFails table answers := by
  have holds := init_holds build.hash fuel buckets address seg
  obtain ⟨kept, sameFuel⟩ :=
    run_holds build holds run admissible.earlier (Nat.lt_of_succ_lt ample)
  have shorter := spec_entries_length ops
  refine kept.all_or_nothing_iff shipped ?_ fresh admissible.last
  rw [sameFuel]
  exact Nat.lt_of_le_of_lt (Nat.succ_le_succ shorter) ample

/-- `count` adds of one chunk to a new table. -/
def fillOps (count : Nat) : List Op :=
  (List.range count).map fun index => .add (index + 1) 16

/-- The table that they leave: bin 7 holds everything. -/
def filled : Nat → Metadata
  | 0 => initMetadata 2048 (fun _ => ⟨0, none⟩) 5 6
  | count + 1 => linkFront (setChunk (filled count) (count + 1) 16) (6, 7) (count + 1)

/-- What no add without an expansion changes. -/
structure Unexpanded (table : Metadata) : Prop where
  directory : table.directory 0 = some 6
  directoryAddress : table.directoryAddress = 5
  directoryLength : table.directoryLength = 1024
  directoryCurrent : table.directoryCurrent = 1
  maxp : table.maxp = 256
  p : table.p = 0
  bincount : table.bincount = 256
  segments : ∀ index, index ≠ 0 → table.directory index = none

theorem filled_unexpanded (count : Nat) : Unexpanded (filled count) := by
  induction count with
  | zero =>
      exact ⟨rfl, rfl, rfl, rfl, rfl, rfl, rfl, fun index other => by simp [filled, initMetadata, other]⟩
  | succ count ih =>
      exact ⟨ih.directory, ih.directoryAddress, ih.directoryLength, ih.directoryCurrent, ih.maxp,
        ih.p, ih.bincount, ih.segments⟩

theorem filled_count {count : Nat} (bound : count < 2 ^ 64) : (filled count).count = count := by
  induction count with
  | zero => rfl
  | succ count ih =>
      have census : (filled (count + 1)).count = ((filled count).count + 1) % 2 ^ 64 := rfl
      rw [census, ih (Nat.lt_of_succ_lt bound)]
      exact Nat.mod_eq_of_lt bound

theorem fill_ops_succ (count : Nat) :
    fillOps (count + 1) = fillOps count ++ [.add (count + 1) 16] := adds_of_succ

theorem filled_step {count : Nat} (bound : count < 1023) (shape : Shape (filled count)) :
    step ⟨true, false, fun _ => 7⟩ (filled count) (.add (count + 1) 16) ⟨none, none⟩ =
      .ok (.added true, filled (count + 1)) := by
  have fields := filled_unexpanded count
  have keyed : Shape (setChunk (filled count) (count + 1) 16) := shape.refill rfl
  have carries : ((setChunk (filled count) (count + 1) 16).bucket (count + 1)).chunk = 16 := by
    simp [setChunk]
  have address : bindexOf (fun _ => 7) (setChunk (filled count) (count + 1) 16) 16 = 7 := by
    change bindexAt 7 (filled count).maxp (filled count).p = 7
    rw [fields.maxp, fields.p]
    rfl
  have place : binAt (setChunk (filled count) (count + 1) 16) 7 = (6, 7) := by
    change (((filled count).directory 0).getD 0, 7) = (6, 7)
    rw [fields.directory]
    rfl
  have fetch := keyed.fetch_bucket ⟨true, false, fun _ => 7⟩ 16
  rw [address, place] at fetch
  have sparse : metadataExpandCheck ⟨true, false, fun _ => 7⟩ (filled (count + 1))
      ⟨none, none⟩ = .ok (true, filled (count + 1)) := by
    rw [metadataExpandCheck, if_neg]
    · rfl
    · rintro ⟨_, crowded⟩
      rw [metadataLoad, filled_count (by omega), (filled_unexpanded (count + 1)).bincount] at crowded
      have most : cfg.maxLoad = 3 := rfl
      omega
  have added : metadataAdd ⟨true, false, fun _ => 7⟩ (setChunk (filled count) (count + 1) 16)
      (count + 1) ⟨none, none⟩ = .ok (true, filled (count + 1)) := by
    rw [metadataAdd, carries]
    change (metadataFetchBucket _ (setChunk (filled count) (count + 1) 16) 16 >>= _) = _
    rw [fetch, ok_bind]
    exact sparse
  rw [step, added]
  rfl

theorem filled_run {count : Nat} (bound : count ≤ 1023) :
    Run ⟨true, false, fun _ => 7⟩ anything (filled 0) (fillOps count)
      (List.replicate count (.added true)) (filled count) := by
  induction count with
  | zero => exact Run.start
  | succ count ih =>
      have earlier := ih (Nat.le_of_succ_le bound)
      have shape := run_shape _ (init_shape 2048 (fun _ => ⟨0, none⟩) 5 6) earlier
      have fresh : Answers.Fresh ⟨none, none⟩ (filled count) := ⟨nofun, nofun⟩
      rw [fill_ops_succ, List.replicate_succ']
      exact earlier.next fresh trivial (filled_step bound shape)

theorem fill_admissible {count : Nat} (bound : count < 2 ^ 64) : Admissible (fillOps count) :=
  adds_of_admissible bound

theorem fill_last_admissible : Admissible (fillOps 1023 ++ [.add 1024 16]) := by
  rw [← fill_ops_succ]
  exact fill_admissible (by norm_num)

theorem filled_fresh {segment : Option SegmentPtr} (other : segment ≠ some 6) :
    Answers.Fresh ⟨segment, some 8⟩ (filled 1023) := by
  have fields := filled_unexpanded 1023
  constructor
  · intro seg answer index stored
    cases answer
    by_cases first : index = 0
    · rw [first, fields.directory] at stored
      exact other stored.symm
    · rw [fields.segments index first] at stored
      cases stored
  · rw [fields.directoryAddress]
    exact fun same => absurd (Option.some.inj same) (by decide)

/-- The 1024th add is crowded, and its expansion needs a segment. -/
theorem filled_refused : AddFails (filled 1023) ⟨none, some 8⟩ := by
  have fields := filled_unexpanded 1023
  refine ⟨?_, ?_, Or.inr ⟨?_, rfl⟩⟩
  · rw [fields.bincount]
    decide
  · rw [fields.bincount, filled_count (by norm_num)]
    decide
  · rw [fields.bincount]

/-- The 1024th add to a new table, when its segment is granted and when it is refused. -/
theorem filled_all_or_nothing :
    AllOrNothing ⟨true, false, fun _ => 7⟩ (filled 1023) 1024 16 ⟨some 7, some 8⟩ ∧
      ¬AllOrNothing ⟨true, false, fun _ => 7⟩ (filled 1023) 1024 16 ⟨none, some 8⟩ := by
  have run := filled_run (Nat.le_refl 1023)
  have length : (fillOps 1023).length = 1023 := by simp [fillOps]
  have whole_iff := fun answers => reachable_all_or_nothing _ rfl 2048 _ _ _ _ _ _ 1024 16 answers
    run fill_last_admissible (by omega)
  constructor
  · rw [whole_iff ⟨some 7, some 8⟩ (filled_fresh (by decide))]
    exact granted_add ⟨nofun, nofun⟩
  · rw [whole_iff ⟨none, some 8⟩ (filled_fresh nofun)]
    exact fun whole => whole filled_refused

/-- The 1024th add to a new table asks for a segment; when that is refused the
add returns false and leaves its bucket in the table. -/
theorem filled_not_all_or_nothing :
    Run ⟨true, false, fun _ => 7⟩ anything (initMetadata 2048 (fun _ => ⟨0, none⟩) 5 6)
        (fillOps 1023) (List.replicate 1023 (.added true)) (filled 1023) ∧
      Admissible (fillOps 1023 ++ [.add 1024 16]) ∧
      Answers.Fresh ⟨none, some 8⟩ (filled 1023) ∧
      ¬AllOrNothing ⟨true, false, fun _ => 7⟩ (filled 1023) 1024 16 ⟨none, some 8⟩ := by
  have run := filled_run (Nat.le_refl 1023)
  have fresh : Answers.Fresh ⟨none, some 8⟩ (filled 1023) := filled_fresh nofun
  refine ⟨run, fill_last_admissible, fresh, ?_⟩
  have length : (fillOps 1023).length = 1023 := by simp [fillOps]
  have begins := init_holds (fun _ => 7) 2048 (fun _ => ⟨0, none⟩) 5 6
  have given : (filled 0).fuel = 2048 := rfl
  obtain ⟨kept, fuel⟩ := run_holds _ begins run fill_last_admissible.earlier (by omega)
  have shorter := spec_entries_length (fillOps 1023)
  rw [kept.all_or_nothing_iff rfl (by omega) fresh fill_last_admissible.last, not_not]
  exact filled_refused

end SriGlibcMalloc.MetadataTable
