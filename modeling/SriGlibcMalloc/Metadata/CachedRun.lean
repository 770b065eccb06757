import SriGlibcMalloc.Metadata.KeyedRun

/-!
# The two-entry cache

The cache answers a lookup before the table does, so it may only hold a bucket
of a key while that bucket is on top of the stack of the key. One slot may lag
behind: slot 1 can keep the second bucket of the key whose top is in slot 0,
because slot 0 is asked first and slot 1 is the next to be written. `Coherent`
says so, and `CacheSafe` names the operations that preserve it.
-/

namespace SriGlibcMalloc.MetadataTable

open KeyedStack Outcome

set_option autoImplicit false

/-- What the cache holds is what the table would answer. -/
structure Coherent (entries : Entries Chunk BucketPtr) (cache : Cache) : Prop where
  zero : ∀ bucket, cache.cacheValues0 = some bucket →
    (stack entries cache.cacheKeys0).head? = some bucket
  one : ∀ bucket, cache.cacheValues1 = some bucket →
    (stack entries cache.cacheKeys1).head? = some bucket ∨
      (cache.cacheKeys0 = cache.cacheKeys1 ∧ cache.cacheValues0 ≠ none ∧
        cache.nextUpdateIsZero = false ∧
        (stack entries cache.cacheKeys1).tail.head? = some bucket)

/-- The operations after which no slot of the cache is stale. -/
def CacheSafe (hash : Chunk → UInt32) : Permit := fun table op _ =>
  match op with
  | .add _ chunk =>
      ¬(table.cache.nextUpdateIsZero = false ∧ table.cache.cacheKeys0 = chunk ∧
        table.cache.cacheValues0 ≠ none)
  | .lookup _ => True
  | .delete chunk =>
      ¬(table.cache.cacheKeys0 = chunk ∧ table.cache.cacheKeys1 = chunk ∧
        table.cache.cacheValues1 ≠ none ∧
        table.cache.cacheValues1 = (stackOf hash table chunk).head?)
  | .deleteAll chunk =>
      (table.cache.cacheKeys0 = chunk → table.cache.cacheValues0 = none) ∧
        (table.cache.cacheKeys1 = chunk → table.cache.cacheValues1 = none)

variable {entries : Entries Chunk BucketPtr} {cache : Cache} {chunk : Chunk} {bucket : BucketPtr}

/-- While slot 0 is the next to be written, slot 1 does not lag behind. -/
theorem Coherent.fresh_one (coherent : Coherent entries cache)
    (turn : cache.nextUpdateIsZero = true) (stored : cache.cacheValues1 = some bucket) :
    (stack entries cache.cacheKeys1).head? = some bucket := by
  rcases coherent.one bucket stored with top | ⟨_, _, other, _⟩
  · exact top
  · rw [turn] at other
    cases other

/-- Neither does it when the two slots have different keys. -/
theorem Coherent.apart_one (coherent : Coherent entries cache)
    (different : cache.cacheKeys0 ≠ cache.cacheKeys1) (stored : cache.cacheValues1 = some bucket) :
    (stack entries cache.cacheKeys1).head? = some bucket := by
  rcases coherent.one bucket stored with top | ⟨same, _, _, _⟩
  · exact top
  · exact absurd same different

theorem Coherent.add (coherent : Coherent entries cache)
    (safe : ¬(cache.nextUpdateIsZero = false ∧ cache.cacheKeys0 = chunk ∧
      cache.cacheValues0 ≠ none)) :
    Coherent (push entries chunk bucket) (cacheInsert cache chunk (some bucket)) := by
  unfold cacheInsert
  cases turn : cache.nextUpdateIsZero with
  | true =>
      constructor
      · intro found stored
        cases stored
        simp
      · intro found stored
        have top := coherent.fresh_one turn stored
        by_cases same : cache.cacheKeys1 = chunk
        · right
          refine ⟨same.symm, Option.some_ne_none _, rfl, ?_⟩
          simp only [same] at top
          simp [same, top]
        · left
          simpa [stack_push_other same] using top
  | false =>
      constructor
      · intro found stored
        have other : cache.cacheKeys0 ≠ chunk := by
          intro same
          exact safe ⟨turn, same, by simp_all⟩
        simpa [stack_push_other other] using coherent.zero found stored
      · intro found stored
        cases stored
        simp

theorem Coherent.insert (coherent : Coherent entries cache) :
    Coherent entries (cacheInsert cache chunk (stack entries chunk).head?) := by
  unfold cacheInsert
  cases turn : cache.nextUpdateIsZero with
  | true =>
      constructor
      · intro found stored
        exact stored
      · intro found stored
        exact Or.inl (coherent.fresh_one turn stored)
  | false =>
      constructor
      · intro found stored
        exact coherent.zero found stored
      · intro found stored
        exact Or.inl stored

theorem Coherent.lookup (coherent : Coherent entries cache) (chunk : Chunk) :
    Coherent entries (cacheLookup cache chunk).2 ∧
      ∀ found, (cacheLookup cache chunk).1 = some found →
        (stack entries chunk).head? = some found := by
  unfold cacheLookup
  by_cases atZero : cache.cacheKeys0 = chunk
  · simp only [if_pos atZero]
    refine ⟨⟨coherent.zero, fun found stored => ?_⟩, fun found stored => ?_⟩
    · rcases coherent.one found stored with top | ⟨same, present, _, second⟩
      · exact Or.inl top
      · exact Or.inr ⟨same, present, rfl, second⟩
    · rw [← atZero]
      exact coherent.zero found stored
  · by_cases atOne : cache.cacheKeys1 = chunk
    · simp only [if_neg atZero, if_pos atOne]
      have different : cache.cacheKeys0 ≠ cache.cacheKeys1 := by
        rw [atOne]
        exact atZero
      refine ⟨⟨coherent.zero, fun found stored => ?_⟩, fun found stored => ?_⟩
      · exact Or.inl (coherent.apart_one different stored)
      · rw [← atOne]
        exact coherent.apart_one different stored
    · simp only [if_neg atZero, if_neg atOne]
      refine ⟨coherent, ?_⟩
      intro found impossible
      cases impossible

theorem Coherent.delete (coherent : Coherent entries cache)
    (safe : ¬(cache.cacheKeys0 = chunk ∧ cache.cacheKeys1 = chunk ∧ cache.cacheValues1 ≠ none ∧
      cache.cacheValues1 = (stack entries chunk).head?)) :
    Coherent (pop entries chunk) (cacheDelete cache chunk) := by
  unfold cacheDelete
  by_cases atZero : cache.cacheKeys0 = chunk
  · rw [if_pos atZero]
    refine ⟨nofun, fun found stored => Or.inl ?_⟩
    change cache.cacheValues1 = some found at stored
    change (stack (pop entries chunk) cache.cacheKeys1).head? = some found
    by_cases atOne : cache.cacheKeys1 = chunk
    · rcases coherent.one found stored with top | ⟨_, _, _, second⟩
      · rw [atOne] at top
        exact absurd ⟨atZero, atOne, by simp [stored], stored.trans top.symm⟩ safe
      · rw [atOne] at second
        rw [atOne, stack_pop_same, second]
    · have different : cache.cacheKeys0 ≠ cache.cacheKeys1 := by
        rw [atZero]
        exact Ne.symm atOne
      rw [stack_pop_other atOne]
      exact coherent.apart_one different stored
  · rw [if_neg atZero]
    by_cases atOne : cache.cacheKeys1 = chunk
    · rw [if_pos atOne]
      refine ⟨fun found stored => ?_, nofun⟩
      rw [stack_pop_other atZero]
      exact coherent.zero found stored
    · rw [if_neg atOne]
      refine ⟨fun found stored => ?_, fun found stored => ?_⟩
      · rw [stack_pop_other atZero]
        exact coherent.zero found stored
      · rw [stack_pop_other atOne]
        exact coherent.one found stored

theorem Coherent.delete_all (coherent : Coherent entries cache)
    (safe : (cache.cacheKeys0 = chunk → cache.cacheValues0 = none) ∧
      (cache.cacheKeys1 = chunk → cache.cacheValues1 = none)) :
    Coherent (popAll entries chunk) cache := by
  refine ⟨fun found stored => ?_, fun found stored => ?_⟩
  · have other : cache.cacheKeys0 ≠ chunk := by
      intro same
      rw [safe.1 same] at stored
      cases stored
    rw [stack_pop_all_other other]
    exact coherent.zero found stored
  · have other : cache.cacheKeys1 ≠ chunk := by
      intro same
      rw [safe.2 same] at stored
      cases stored
    rw [stack_pop_all_other other]
    exact coherent.one found stored

theorem init_coherent (fuel : Nat) (buckets : BucketPtr → Bucket) (address : DirectoryPtr)
    (seg : SegmentPtr) : Coherent [] (initMetadata fuel buckets address seg).cache :=
  ⟨nofun, nofun⟩

variable {table : Metadata} {answers : Answers} {op : Op}

theorem cached_lookup_spec {build : Build} (cacheOn : build.sriMetadataCache = true)
    (holds : Holds build.hash table entries) (ample : entries.length < table.fuel)
    (coherent : Coherent entries table.cache) (chunk : Chunk) :
    ∃ after, metadataLookup build table chunk = .ok ((stack entries chunk).head?, after) ∧
      Coherent entries after.cache := by
  obtain ⟨kept, hit⟩ := coherent.lookup chunk
  unfold metadataLookup
  simp only [if_pos cacheOn]
  cases result : (cacheLookup table.cache chunk).1 with
  | some bucket =>
      rw [hit bucket result]
      exact ⟨_, rfl, kept⟩
  | none =>
      obtain ⟨after, run, _, steady⟩ :=
        lookup_table_spec build (holds.recache (cacheLookup table.cache chunk).2) ample chunk
      simp only [run, ok_bind]
      refine ⟨_, rfl, ?_⟩
      have same : after.cache = (cacheLookup table.cache chunk).2 := steady.cache
      change Coherent entries (cacheInsert after.cache chunk (stack entries chunk).head?)
      rw [same]
      exact kept.insert

theorem coherent_step {build : Build} (cacheOn : build.sriMetadataCache = true)
    (holds : Holds build.hash table entries) (ample : entries.length + 1 < table.fuel)
    (fresh : answers.Fresh table) (admits : Admits entries op)
    (coherent : Coherent entries table.cache) (safe : CacheSafe build.hash table op answers) :
    Ensures (fun result => Coherent (specStep entries op).2 result.2.cache) (fun _ => True)
      (step build table op answers) := by
  have shorter : entries.length < table.fuel := Nat.lt_of_succ_lt ample
  cases op with
  | add bucket chunk =>
      obtain ⟨address, absent⟩ := admits
      have carries : ((setChunk table bucket chunk).bucket bucket).chunk = chunk := by
        simp [setChunk]
      have spec := add_spec build (holds.set_chunk absent chunk) ample
        ⟨fresh.segment, fresh.directory⟩ carries absent address
      refine (spec.weaken (fun _ result => result) (fun _ _ => trivial)).bind ?_
      rintro ⟨success, after⟩ ⟨_, steady, _⟩
      have cache : after.cache = cacheInsert table.cache chunk (some bucket) :=
        steady.cache.trans (if_pos cacheOn)
      change Coherent _ after.cache
      rw [cache]
      exact coherent.add safe
  | lookup chunk =>
      obtain ⟨after, run, kept⟩ := cached_lookup_spec cacheOn holds shorter coherent chunk
      rw [step, run]
      exact kept
  | delete chunk =>
      have spec := delete_spec build chunk holds shorter fresh
      refine (spec.weaken (fun _ result => result) (fun _ _ => trivial)).bind ?_
      rintro ⟨success, after⟩ ⟨_, steady, _, _⟩
      have cache : after.cache = cacheDelete table.cache chunk :=
        steady.cache.trans (if_pos cacheOn)
      have stacked := holds.stack_of (Nat.le_of_lt shorter) chunk
      simp only [CacheSafe, stacked] at safe
      change Coherent _ after.cache
      rw [cache]
      exact coherent.delete safe
  | deleteAll chunk =>
      have spec := delete_all_spec build chunk holds shorter fresh
      refine (spec.weaken (fun _ result => result) (fun _ _ => trivial)).bind ?_
      rintro ⟨count, after⟩ ⟨_, steady, _⟩
      have cache : after.cache = table.cache := steady.cache
      change Coherent _ after.cache
      rw [cache]
      exact coherent.delete_all safe

/-- Every lookup of a script was answered with the top of the stack of its key. -/
def AnswersTop (ops : List Op) (replies : List Reply) : Prop :=
  ops.length = replies.length ∧ ∀ (index : Nat) (chunk : Chunk), ops[index]? = some (.lookup chunk) →
    replies[index]? = some (.found (stack (specEntries (ops.take index)) chunk).head?)

theorem AnswersTop.concat {ops : List Op} {replies : List Reply} {reply : Reply}
    (earlier : AnswersTop ops replies)
    (last : ∀ chunk, op = .lookup chunk →
      reply = .found (stack (specEntries ops) chunk).head?) :
    AnswersTop (ops ++ [op]) (replies ++ [reply]) := by
  obtain ⟨length, tops⟩ := earlier
  refine ⟨by simp [length], fun index chunk asked => ?_⟩
  by_cases inside : index < ops.length
  · rw [List.getElem?_append_left inside] at asked
    rw [List.getElem?_append_left (length ▸ inside), List.take_append_of_le_length
      (Nat.le_of_lt inside)]
    exact tops index chunk asked
  · have atEnd : index = ops.length := by
      have bound := (List.getElem?_eq_some_iff.mp asked).1
      rw [List.length_append, List.length_singleton] at bound
      omega
    subst atEnd
    rw [List.getElem?_append_right (Nat.le_refl _), Nat.sub_self] at asked
    rw [length, List.getElem?_append_right (Nat.le_refl _), Nat.sub_self, ← length,
      List.take_left]
    simp only [List.getElem?_cons_zero, Option.some.injEq] at asked ⊢
    exact last chunk asked

theorem cached_run {build : Build} {start after : Metadata} {ops : List Op}
    {replies : List Reply} (cacheOn : build.sriMetadataCache = true)
    (holds : Holds build.hash start []) (coherent : Coherent [] start.cache)
    (run : Run build (CacheSafe build.hash) start ops replies after)
    (admissible : Admissible ops) (ample : ops.length < start.fuel) :
    Coherent (specEntries ops) after.cache ∧ AnswersTop ops replies := by
  induction run with
  | start => exact ⟨coherent, rfl, nofun⟩
  | @next ops replies before after op answers reply earlier fresh safe result ih =>
      rw [List.length_append, List.length_singleton] at ample
      have shorter := spec_entries_length ops
      obtain ⟨kept, fuel⟩ :=
        run_holds build holds earlier admissible.earlier (Nat.lt_of_succ_lt ample)
      obtain ⟨coherentBefore, tops⟩ := ih admissible.earlier (Nat.lt_of_succ_lt ample)
      have enough : (specEntries ops).length + 1 < before.fuel := by
        rw [fuel]
        omega
      have coherentAfter := (coherent_step cacheOn kept enough fresh admissible.last coherentBefore
        safe).value result
      rw [spec_entries_concat]
      refine ⟨coherentAfter, tops.concat fun chunk asked => ?_⟩
      obtain ⟨found, answer, _⟩ := cached_lookup_spec cacheOn kept (Nat.lt_of_succ_lt enough)
        coherentBefore chunk
      rw [asked, step, answer] at result
      cases result
      rfl

theorem plain_run {build : Build} {start after : Metadata} {ops : List Op}
    {replies : List Reply} (cacheOff : build.sriMetadataCache = false)
    (holds : Holds build.hash start []) (run : Run build anything start ops replies after)
    (admissible : Admissible ops) (ample : ops.length < start.fuel) :
    AnswersTop ops replies := by
  induction run with
  | start => exact ⟨rfl, nofun⟩
  | @next ops replies before after op answers reply earlier fresh _ result ih =>
      rw [List.length_append, List.length_singleton] at ample
      have shorter := spec_entries_length ops
      obtain ⟨kept, fuel⟩ :=
        run_holds build holds earlier admissible.earlier (Nat.lt_of_succ_lt ample)
      refine (ih admissible.earlier (Nat.lt_of_succ_lt ample)).concat fun chunk asked => ?_
      have enough : (specEntries ops).length < before.fuel := by
        rw [fuel]
        omega
      obtain ⟨found, answer, _⟩ := lookup_table_spec build kept enough chunk
      rw [asked, step, metadataLookup, if_neg (by simp [cacheOff]), answer] at result
      cases result
      rfl

/-- In a run whose operations are all safe for the cache, every lookup is
answered as in the same run without the cache. -/
theorem cache_keeps_answers (ndebug : Bool) (hash : Chunk → UInt32) (fuel : Nat)
    (buckets : BucketPtr → Bucket) (address : DirectoryPtr) (seg : SegmentPtr) (ops : List Op)
    (cachedReplies plainReplies : List Reply) (cachedAfter plainAfter : Metadata)
    (admissible : Admissible ops) (ample : ops.length < fuel)
    (cached : Run ⟨ndebug, true, hash⟩ (CacheSafe hash)
      (initMetadata fuel buckets address seg) ops cachedReplies cachedAfter)
    (plain : Run ⟨ndebug, false, hash⟩ anything
      (initMetadata fuel buckets address seg) ops plainReplies plainAfter) :
    ∀ (index : Nat) (chunk : Chunk), ops[index]? = some (.lookup chunk) →
      cachedReplies[index]? = plainReplies[index]? := by
  have holds := init_holds hash fuel buckets address seg
  have coherent := init_coherent fuel buckets address seg
  have cachedTops := (cached_run rfl holds coherent cached admissible ample).2
  have plainTops := plain_run rfl holds plain admissible ample
  intro index chunk asked
  rw [cachedTops.2 index chunk asked, plainTops.2 index chunk asked]

def emptyTable : Metadata := initMetadata 8 (fun _ => ⟨0, none⟩) 5 6

/-- An add and a lookup of its key, with and without the cache. -/
theorem cache_keeps_answer_after_add :
    ∃ cachedReplies plainReplies : List Reply,
      cachedReplies = [.added true, .found (some 9)] ∧ cachedReplies[1]? = plainReplies[1]? := by
  have added : Admits (specEntries []) (.add 9 16) := ⟨by decide, nofun⟩
  have admissible : Admissible ([] ++ [.add 9 16] ++ [.lookup 16]) :=
    (Admissible.nil.concat added).concat trivial
  have cachedStart : Run ⟨true, true, fun _ => 7⟩ (CacheSafe fun _ => 7) emptyTable [] []
      emptyTable := Run.start
  have plainStart : Run ⟨true, false, fun _ => 7⟩ anything emptyTable [] [] emptyTable :=
    Run.start
  have safe : CacheSafe (fun _ => 7) emptyTable (.add 9 16) ⟨none, none⟩ :=
    fun stale => absurd stale.1 (by decide)
  have cachedAdd := cachedStart.perform (.add 9 16) ⟨none, none⟩ ⟨nofun, nofun⟩ safe rfl
  have plainAdd := plainStart.perform (.add 9 16) ⟨none, none⟩ ⟨nofun, nofun⟩ trivial rfl
  have cached := cachedAdd.perform (.lookup 16) ⟨none, none⟩ ⟨nofun, nofun⟩ trivial rfl
  have plain := plainAdd.perform (.lookup 16) ⟨none, none⟩ ⟨nofun, nofun⟩ trivial rfl
  exact ⟨_, _, rfl, cache_keeps_answers true _ 8 _ 5 6 _ _ _ _ _ admissible (by decide) cached plain
    1 16 rfl⟩

/-- Looking up an absent key, adding it and deleting it leaves the deleted
bucket in slot 1: `cache_delete` purges slot 0 only. -/
theorem cache_returns_a_deleted_bucket :
    ∃ cachedAfter plainAfter,
      Run ⟨true, true, fun _ => 7⟩ anything emptyTable
        [.lookup 16, .add 9 16, .delete 16, .lookup 16]
        [.found none, .added true, .deleted true, .found (some 9)] cachedAfter ∧
      Run ⟨true, false, fun _ => 7⟩ anything emptyTable
        [.lookup 16, .add 9 16, .delete 16, .lookup 16]
        [.found none, .added true, .deleted true, .found none] plainAfter ∧
      Admissible [.lookup 16, .add 9 16, .delete 16, .lookup 16] := by
  have cachedStart : Run ⟨true, true, fun _ => 7⟩ anything emptyTable [] [] emptyTable :=
    Run.start
  have plainStart : Run ⟨true, false, fun _ => 7⟩ anything emptyTable [] [] emptyTable :=
    Run.start
  have cached := (((cachedStart.perform (.lookup 16) ⟨none, none⟩ ⟨nofun, nofun⟩ trivial
    rfl).perform (.add 9 16) ⟨none, none⟩ ⟨nofun, nofun⟩ trivial rfl).perform (.delete 16)
    ⟨none, none⟩ ⟨nofun, nofun⟩ trivial rfl).perform (.lookup 16) ⟨none, none⟩ ⟨nofun, nofun⟩
    trivial rfl
  have plain := (((plainStart.perform (.lookup 16) ⟨none, none⟩ ⟨nofun, nofun⟩ trivial
    rfl).perform (.add 9 16) ⟨none, none⟩ ⟨nofun, nofun⟩ trivial rfl).perform (.delete 16)
    ⟨none, none⟩ ⟨nofun, nofun⟩ trivial rfl).perform (.lookup 16) ⟨none, none⟩ ⟨nofun, nofun⟩
    trivial rfl
  have added : Admits (specEntries ([] ++ [.lookup 16])) (.add 9 16) := ⟨by decide, nofun⟩
  have asked : Admissible ([] ++ [.lookup 16]) := Admissible.nil.concat (show True from trivial)
  have removed : Admissible ([] ++ [.lookup 16] ++ [.add 9 16] ++ [.delete 16]) :=
    (asked.concat added).concat (show True from trivial)
  have admissible : Admissible ([] ++ [.lookup 16] ++ [.add 9 16] ++ [.delete 16] ++
      [.lookup 16]) := removed.concat (show True from trivial)
  exact ⟨_, _, cached, plain, admissible⟩

end SriGlibcMalloc.MetadataTable
