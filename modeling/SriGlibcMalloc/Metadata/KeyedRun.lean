import SriGlibcMalloc.Metadata.Invariant

/-!
# The table behaves as a keyed stack

The abstract machine replays the operations on a keyed stack. Every run of the
table holds the entries of the abstract run, also when allocations fail and
with the cache compiled in; when allocations succeed and the cache is off, the
replies agree as well.
-/

namespace SriGlibcMalloc.MetadataTable

open PointerList KeyedStack Outcome

set_option autoImplicit false

def specStep (entries : Entries Chunk BucketPtr) : Op → Reply × Entries Chunk BucketPtr
  | .add bucket chunk => (.added true, push entries chunk bucket)
  | .lookup chunk => (.found (stack entries chunk).head?, entries)
  | .delete chunk => (.deleted (stack entries chunk ≠ []), pop entries chunk)
  | .deleteAll chunk => (.purged (stack entries chunk).length, popAll entries chunk)

def specRun (ops : List Op) : List Reply × Entries Chunk BucketPtr :=
  ops.foldl (fun state op => (state.1 ++ [(specStep state.2 op).1], (specStep state.2 op).2))
    ([], [])

def specReplies (ops : List Op) : List Reply := (specRun ops).1

def specEntries (ops : List Op) : Entries Chunk BucketPtr := (specRun ops).2

/-- A bucket that is added is a pointer that the table does not hold yet. -/
def Admits (entries : Entries Chunk BucketPtr) : Op → Prop
  | .add bucket _ => (0 < bucket ∧ bucket < 2 ^ 64) ∧ ∀ entry ∈ entries, entry.2 ≠ bucket
  | _ => True

def Admissible (ops : List Op) : Prop :=
  ∀ earlier op later, ops = earlier ++ op :: later → Admits (specEntries earlier) op

def stackOf (hash : Chunk → UInt32) (table : Metadata) (chunk : Chunk) : List BucketPtr :=
  carrying table chunk
    (walk table.nextBucket table.fuel (topOf table (bindexOf hash table chunk)))

variable {table : Metadata} {entries : Entries Chunk BucketPtr} {answers : Answers}
variable {ops : List Op} {op : Op} (build : Build)

theorem spec_entries_concat : specEntries (ops ++ [op]) = (specStep (specEntries ops) op).2 := by
  simp [specEntries, specRun]

theorem spec_replies_concat :
    specReplies (ops ++ [op]) = specReplies ops ++ [(specStep (specEntries ops) op).1] := by
  simp [specReplies, specEntries, specRun]

theorem Admissible.earlier (admissible : Admissible (ops ++ [op])) : Admissible ops := by
  intro earlier other later shape
  refine admissible earlier other (later ++ [op]) ?_
  rw [shape]
  simp

theorem Admissible.last (admissible : Admissible (ops ++ [op])) :
    Admits (specEntries ops) op := admissible ops op [] rfl

theorem Admissible.nil : Admissible [] := by
  intro earlier op later shape
  have long := congrArg List.length shape
  simp at long

theorem Admissible.concat (admissible : Admissible ops)
    (admits : Admits (specEntries ops) op) : Admissible (ops ++ [op]) := by
  intro earlier other later shape
  rcases List.eq_nil_or_concat' later with empty | ⟨init, last, split⟩
  · subst empty
    obtain ⟨sameOps, sameOp⟩ := List.append_inj' shape rfl
    cases sameOp
    rw [← sameOps]
    exact admits
  · subst split
    have regrouped : ops ++ [op] = (earlier ++ other :: init) ++ [last] := by
      rw [shape]
      simp
    exact admissible earlier other init (List.append_inj' regrouped rfl).1

theorem spec_entries_length (ops : List Op) : (specEntries ops).length ≤ ops.length := by
  induction ops using List.reverseRecOn with
  | nil => exact Nat.le_refl 0
  | append_singleton ops op ih =>
      rw [spec_entries_concat, List.length_append, List.length_singleton]
      cases op with
      | add bucket chunk => exact Nat.succ_le_succ ih
      | lookup chunk => exact Nat.le_succ_of_le ih
      | delete chunk => exact Nat.le_succ_of_le (Nat.le_trans List.length_eraseP_le ih)
      | deleteAll chunk => exact Nat.le_succ_of_le (Nat.le_trans (List.length_filter_le _ _) ih)

theorem next_set_chunk (table : Metadata) (bucket : BucketPtr) (chunk : Chunk) :
    (setChunk table bucket chunk).nextBucket = table.nextBucket := by
  funext node
  by_cases same : node = bucket
  · simp [Metadata.nextBucket, setChunk, same]
  · simp [Metadata.nextBucket, setChunk, Function.update_of_ne same]

theorem Holds.set_chunk {hash : Chunk → UInt32} {bucket : BucketPtr}
    (holds : Holds hash table entries) (absent : ∀ entry ∈ entries, entry.2 ≠ bucket)
    (chunk : Chunk) : Holds hash (setChunk table bucket chunk) entries := by
  obtain ⟨bins, chained, stacked⟩ := holds.chains
  have same : ∀ index, ∀ node ∈ bins index,
      ((setChunk table bucket chunk).bucket node).chunk = (table.bucket node).chunk := by
    intro index node member
    have carried : node ∈ stack entries (table.bucket node).chunk := by
      rw [stacked, chained.addressed index node member]
      simp [carrying, member]
    have different : node ≠ bucket := absent _ (mem_stack.mp carried)
    simp [setChunk, Function.update_of_ne different]
  refine
    { shape := holds.shape.refill rfl
      chains := ⟨bins, ⟨?_, chained.outside, chained.nodup, ?_⟩, ?_⟩
      count := holds.count
      addresses := holds.addresses }
  · intro index bound
    rw [next_set_chunk]
    exact chained.chain index bound
  · intro index node member
    rw [same index node member]
    exact chained.addressed index node member
  · intro other
    rw [stacked]
    refine List.filter_congr fun node member => ?_
    have home : node ∈ bins (bindexOf hash table other) := member
    rw [same _ node home]

theorem lookup_spec {chunk : Chunk} (holds : Holds build.hash table entries)
    (ample : entries.length < table.fuel) :
    Ensures (fun result => Holds build.hash result.2 entries ∧ result.2.fuel = table.fuel ∧
        (build.sriMetadataCache = false → result.1 = (stack entries chunk).head?))
      (Unavoidable build answers) (metadataLookup build table chunk) := by
  unfold metadataLookup
  by_cases cached : build.sriMetadataCache = true
  · simp only [if_pos cached]
    have cacheOn : build.sriMetadataCache ≠ false := by simp [cached]
    cases (cacheLookup table.cache chunk).1 with
    | some bucket => exact ⟨holds.recache _, rfl, fun off => absurd off cacheOn⟩
    | none =>
        obtain ⟨after, run, kept, steady⟩ :=
          lookup_table_spec build (holds.recache (cacheLookup table.cache chunk).2) ample chunk
        simp only [run, ok_bind]
        exact ⟨kept.recache _, steady.fuel, fun off => absurd off cacheOn⟩
  · rw [if_neg cached]
    obtain ⟨after, run, kept, steady⟩ := lookup_table_spec build holds ample chunk
    exact ensures_of_ok run ⟨kept, steady.fuel, fun _ => rfl⟩

theorem granted_add (granted : answers.Granted) : ¬AddFails table answers := by
  rintro ⟨_, _, directory | segment⟩
  · exact granted.2 directory.2
  · exact granted.1 segment.2

theorem step_spec (holds : Holds build.hash table entries)
    (ample : entries.length + 1 < table.fuel) (fresh : answers.Fresh table)
    (admits : Admits entries op) :
    Ensures (fun result => Holds build.hash result.2 (specStep entries op).2 ∧
        result.2.fuel = table.fuel ∧
        (build.sriMetadataCache = false → answers.Granted →
          result.1 = (specStep entries op).1))
      (Unavoidable build answers) (step build table op answers) := by
  have shorter : entries.length < table.fuel := Nat.lt_of_succ_lt ample
  cases op with
  | add bucket chunk =>
      obtain ⟨address, absent⟩ := admits
      have keyed := holds.set_chunk absent chunk
      have carries : ((setChunk table bucket chunk).bucket bucket).chunk = chunk := by
        simp [setChunk]
      have spec := add_spec build keyed ample ⟨fresh.segment, fresh.directory⟩ carries absent
        address
      have tolerated : ∀ fault, DirectoryMax build fault → Unavoidable build answers fault := by
        rintro fault ⟨debug, same⟩
        rw [same]
        exact Unavoidable.directoryLengthMax debug
      refine (spec.weaken (fun _ result => result) tolerated).bind ?_
      rintro ⟨success, after⟩ ⟨kept, steady, failed⟩
      refine ⟨kept, steady.fuel, fun _ granted => ?_⟩
      cases success with
      | true => rfl
      | false => exact absurd (failed.mp rfl) (granted_add granted)
  | lookup chunk =>
      refine (lookup_spec build holds shorter).bind ?_
      rintro ⟨value, after⟩ ⟨kept, fuel, answer⟩
      exact ⟨kept, fuel, fun off _ => congrArg Reply.found (answer off)⟩
  | delete chunk =>
      refine (delete_spec build chunk holds shorter fresh).bind ?_
      rintro ⟨success, after⟩ ⟨kept, steady, found, _⟩
      refine ⟨kept, steady.fuel, fun _ _ => ?_⟩
      change Reply.deleted success = .deleted (stack entries chunk ≠ [])
      rw [Reply.deleted.injEq, Bool.eq_iff_iff, found, decide_eq_true_iff]
  | deleteAll chunk =>
      refine (delete_all_spec build chunk holds shorter fresh).bind ?_
      rintro ⟨count, after⟩ ⟨kept, steady, purged⟩
      refine ⟨kept, steady.fuel, fun _ _ => ?_⟩
      exact congrArg Reply.purged purged

theorem init_holds (hash : Chunk → UInt32) (fuel : Nat) (buckets : BucketPtr → Bucket)
    (address : DirectoryPtr) (seg : SegmentPtr) :
    Holds hash (initMetadata fuel buckets address seg) [] where
  shape := init_shape fuel buckets address seg
  chains := ⟨fun _ => [], ⟨fun _ _ => rfl, fun _ _ => rfl, fun _ => List.nodup_nil, nofun⟩,
    fun _ => rfl⟩
  count := rfl
  addresses := nofun

theorem run_holds {permitted : Permit} {start after : Metadata} {replies : List Reply}
    (holds : Holds build.hash start []) (run : Run build permitted start ops replies after)
    (admissible : Admissible ops) (ample : ops.length < start.fuel) :
    Holds build.hash after (specEntries ops) ∧ after.fuel = start.fuel := by
  induction run with
  | start => exact ⟨holds, rfl⟩
  | @next ops _ _ _ _ _ _ _ fresh _ result ih =>
      rw [List.length_append, List.length_singleton] at ample
      obtain ⟨kept, fuel⟩ := ih admissible.earlier (Nat.lt_of_succ_lt ample)
      have shorter := spec_entries_length ops
      have spec := (step_spec build kept (by rw [fuel]; omega) fresh admissible.last).value result
      rw [spec_entries_concat]
      exact ⟨spec.1, spec.2.1.trans fuel⟩

theorem run_replies {start after : Metadata} {replies : List Reply}
    (cacheOff : build.sriMetadataCache = false) (holds : Holds build.hash start [])
    (run : Run build granted start ops replies after)
    (admissible : Admissible ops) (ample : ops.length < start.fuel) :
    replies = specReplies ops := by
  induction run with
  | start => rfl
  | @next ops _ _ _ _ _ _ earlier fresh granted result ih =>
      rw [List.length_append, List.length_singleton] at ample
      obtain ⟨kept, fuel⟩ :=
        run_holds build holds earlier admissible.earlier (Nat.lt_of_succ_lt ample)
      have shorter := spec_entries_length ops
      have spec := (step_spec build kept (by rw [fuel]; omega) fresh admissible.last).value result
      rw [spec_replies_concat, ih admissible.earlier (Nat.lt_of_succ_lt ample)]
      exact congrArg (fun reply => specReplies ops ++ [reply]) (spec.2.2 cacheOff granted)

theorem Holds.stack_of {hash : Chunk → UInt32} (holds : Holds hash table entries)
    (ample : entries.length ≤ table.fuel) (chunk : Chunk) :
    stackOf hash table chunk = stack entries chunk := by
  obtain ⟨bins, chained, stacked⟩ := holds.chains
  have chain := chained.chain _ (holds.shape.bindex_of_lt hash chunk)
  have short : (bins (bindexOf hash table chunk)).length ≤ table.fuel :=
    Nat.le_trans (chained.bin_length stacked) ample
  rw [stackOf, walk_of_chain chain short, stacked]

/-- The table is a keyed stack: in a run whose allocations succeed the replies,
the stack of every chunk and the census are those of the abstract machine, and
the next operation returns as well. -/
theorem run_keyed_stack (fuel : Nat) (buckets : BucketPtr → Bucket) (address : DirectoryPtr)
    (seg : SegmentPtr) (ops : List Op) (replies : List Reply) (after : Metadata)
    (cacheOff : build.sriMetadataCache = false)
    (run : Run build granted (initMetadata fuel buckets address seg) ops replies after)
    (admissible : Admissible ops) (ample : ops.length + 1 < fuel) :
    replies = specReplies ops ∧
      (∀ chunk, stackOf build.hash after chunk = stack (specEntries ops) chunk) ∧
      after.count = (specEntries ops).length ∧
      ∀ op answers, Admissible (ops ++ [op]) → answers.Fresh after → answers.Granted →
        Ensures (fun _ => True) (DirectoryMax build)
          (step build after op answers) := by
  have holds := init_holds build.hash fuel buckets address seg
  have enough : ops.length < (initMetadata fuel buckets address seg).fuel := Nat.lt_of_succ_lt ample
  obtain ⟨kept, sameFuel⟩ := run_holds build holds run admissible enough
  have shorter := spec_entries_length ops
  have ampleNow : (specEntries ops).length + 1 < after.fuel := by
    rw [sameFuel]
    exact Nat.lt_of_le_of_lt (Nat.succ_le_succ shorter) ample
  refine ⟨run_replies build cacheOff holds run admissible enough,
    kept.stack_of (by omega), kept.count, ?_⟩
  intro op answers admits fresh granted
  refine (step_spec build kept ampleNow fresh admits.last).weaken (fun _ _ => trivial) ?_
  rintro fault (debug | refused)
  · exact ⟨debug, rfl⟩
  · exact absurd refused granted.2

end SriGlibcMalloc.MetadataTable
