import SriGlibcMalloc.PoolAllocator.SlotRun

/-!
# Which slot is handed out next

The pools hand out the first slot that is not live, in the order of the pools
and of the slots of a pool. A release does not change that order.
-/

namespace SriGlibcMalloc.PoolAllocator

open BitMask

set_option autoImplicit false

/-- The slots of the pools at `bases`, in the order the allocator looks at them. -/
def slotsOf (kind : Kind) (bases : List Nat) : List Nat :=
  bases.flatMap fun base => (List.range kind.length).map (kind.slot base)

def firstVacant (kind : Kind) (bases : List Nat) (live : Finset Nat) : Option Nat :=
  (slotsOf kind bases).find? fun slot => slot ∉ live

def Pools.bases (pools : Pools) : List Nat := pools.pools.map Pool.base

/-- The mask of its pool says that a slot is free. -/
def Vacant (kind : Kind) (pools : Pools) (slot : Nat) : Prop :=
  ∃ pool ∈ pools.pools, ∃ index, index < kind.length ∧ slot = kind.slot pool.base index ∧
    marked pool.bitmasks index = false

variable {kind : Kind} {pool changed : Pool} {listed : List Pool} {pools later : Pools}
variable {live : Finset Nat} {client : Client} {slot index : Nat} {area : Option Nat}

theorem set_below_lowest_clear {mask : BitVec 64} {place : Nat} (inside : place < 64)
    (below : place < lowest (~~~mask)) : mask.getLsbD place = true := by
  have missed := List.not_of_lt_findIdx below
  rw [List.getElem_range, BitVec.getLsbD_not, decide_eq_true inside, Bool.true_and] at missed
  simpa using missed

theorem take_lowest (found : pool.take kind = some (kind.slot pool.base index, changed))
    {earlier : Nat} (before : earlier < index) : marked pool.bitmasks earlier = true := by
  rw [Pool.take] at found
  obtain ⟨_, searched⟩ := Option.ite_none_right_eq_some.mp found
  obtain ⟨scale, chosen, result⟩ := Option.map_eq_some_iff.mp searched
  have same : scale * 64 + getFreeBit (pool.bitmasks scale) = index :=
    slot_injective (Prod.mk.inj result).1
  have room := (List.find?_range_eq_some.mp chosen).1
  have full := (List.find?_range_eq_some.mp chosen).2.2
  have notFull : pool.bitmasks scale ≠ BitVec.allOnes 64 := by
    intro full
    exact full_word.mpr full (of_decide_eq_true room)
  have low : getFreeBit (pool.bitmasks scale) < 64 := (lowest_clear notFull).1
  by_cases sameWord : earlier / 64 = scale
  · rw [marked, sameWord]
    apply set_below_lowest_clear (Nat.mod_lt earlier (by decide))
    change earlier % 64 < getFreeBit (pool.bitmasks scale)
    omega
  · have word := full (earlier / 64) (by omega)
    rw [Bool.not_eq_true', decide_eq_false_iff_not, full_word] at word
    rw [marked, word, BitVec.getLsbD_allOnes]
    exact decide_eq_true (Nat.mod_lt earlier (by decide))

theorem take_first (counted : pool.freeCount.toNat = vacant pool.bitmasks kind.length)
    (used : ∀ index, index < kind.length →
      (marked pool.bitmasks index = true ↔ kind.slot pool.base index ∈ live)) :
    (pool.take kind).map Prod.fst =
      ((List.range kind.length).map (kind.slot pool.base)).find? fun slot => slot ∉ live := by
  rw [List.find?_map]
  cases taken : pool.take kind with
  | none =>
      rw [Option.map_none, eq_comm, Option.map_eq_none_iff, List.find?_eq_none]
      intro index member
      have inside := List.mem_range.mp member
      simpa using (used index inside).mp (take_none counted taken inside)
  | some result =>
      obtain ⟨slot, changed⟩ := result
      obtain ⟨index, inside, address, clear, _⟩ := take_some taken
      rw [address] at taken
      have first : (List.range kind.length).find?
          ((fun slot => decide (slot ∉ live)) ∘ kind.slot pool.base) = some index := by
        rw [List.find?_range_eq_some]
        refine ⟨?_, List.mem_range.mpr inside, ?_⟩
        · simp [← used index inside, clear]
        · intro earlier before
          simpa using (used earlier (before.trans inside)).mp (take_lowest taken before)
      rw [first, Option.map_some, Option.map_some, address]

theorem take_from_first
    (counted : ∀ pool ∈ listed, pool.freeCount.toNat = vacant pool.bitmasks kind.length)
    (used : ∀ pool ∈ listed, ∀ index, index < kind.length →
      (marked pool.bitmasks index = true ↔ kind.slot pool.base index ∈ live)) :
    (takeFrom kind listed).map Prod.fst = firstVacant kind (listed.map Pool.base) live := by
  induction listed with
  | nil => rfl
  | cons pool rest ih =>
      have here := take_first (counted pool (by simp)) (used pool (by simp))
      have onward := ih (fun other member => counted other (by simp [member]))
        (fun other member => used other (by simp [member]))
      rw [firstVacant, slotsOf, List.map_cons, List.flatMap_cons, List.find?_append, ← here,
        takeFrom]
      cases pool.take kind with
      | some result => rfl
      | none =>
          rw [Option.map_none, Option.none_or, Option.map_map]
          exact onward

/-- An allocation serves the first slot that is not live. -/
theorem alloc_first (sound : Sound kind pools live)
    (first : firstVacant kind pools.bases live = some slot) :
    (alloc kind pools area).1 = some slot := by
  have search := take_from_first sound.exact.counted sound.exact.used
  rw [Pools.bases] at first
  rw [first] at search
  obtain ⟨⟨served, found⟩, taken, same⟩ := Option.map_eq_some_iff.mp search
  simp only [alloc, taken]
  exact congrArg some same

/-- A slot of a pool that is not live is there to be served. -/
theorem first_vacant_exists (inside : index < kind.length) {base : Nat}
    (member : base ∈ pools.bases) (free : kind.slot base index ∉ live) :
    ∃ slot, firstVacant kind pools.bases live = some slot := by
  rw [← Option.isSome_iff_exists, firstVacant, List.find?_isSome]
  refine ⟨kind.slot base index, ?_, by simpa using free⟩
  rw [slotsOf, List.mem_flatMap]
  exact ⟨base, member, List.mem_map.mpr ⟨index, List.mem_range.mpr inside, rfl⟩⟩

theorem Returned.bases (returned : Returned kind pools slot later) :
    later.bases = pools.bases := by
  obtain ⟨front, pool, rest, index, split, _, _, same⟩ := returned
  rw [same, Pools.bases, Pools.bases, split]
  simp [Pool.giveBack]

theorem Sound.vacant {before : Finset Nat} (sound : Sound kind pools before)
    (after : Sound kind later live) (bases : later.bases = pools.bases)
    (held : slot ∈ before) (released : slot ∉ live) : Vacant kind later slot := by
  obtain ⟨pool, member, index, inside, address⟩ := sound.exact.placed slot held
  have listed : pool.base ∈ later.bases := by
    rw [bases]
    exact List.mem_map_of_mem member
  obtain ⟨now, present, same⟩ := List.mem_map.mp listed
  rw [← same] at address
  refine ⟨now, present, index, inside, address, ?_⟩
  rw [← Bool.not_eq_true, after.exact.used now present index inside, ← address]
  exact released

/-- The state after releases: the pools are where they were. -/
structure Gone (before after : Client) : Prop where
  consistent : Consistent after
  segments : after.memcxt.segments.bases = before.memcxt.segments.bases
  buckets : after.memcxt.buckets.bases = before.memcxt.buckets.bases

theorem Gone.refl (consistent : Consistent client) : Gone client client :=
  ⟨consistent, rfl, rfl⟩

theorem Gone.trans {middle after : Client} (first : Gone client middle)
    (second : Gone middle after) : Gone client after :=
  ⟨second.consistent, second.segments.trans first.segments, second.buckets.trans first.buckets⟩

theorem Gone.fresh {after : Client} (gone : Gone client after)
    (fresh : Fresh client.memcxt kind area) : Fresh after.memcxt kind area := by
  intro base granted
  obtain ⟨fromSegments, fromBuckets⟩ := fresh base granted
  constructor
  · intro pool member
    have listed : pool.base ∈ after.memcxt.segments.bases := List.mem_map_of_mem member
    rw [gone.segments] at listed
    obtain ⟨old, present, same⟩ := List.mem_map.mp listed
    rw [← same]
    exact fromSegments old present
  · intro pool member
    have listed : pool.base ∈ after.memcxt.buckets.bases := List.mem_map_of_mem member
    rw [gone.buckets] at listed
    obtain ⟨old, present, same⟩ := List.mem_map.mp listed
    rw [← same]
    exact fromBuckets old present

theorem free_segment_gone (consistent : Consistent client)
    (member : slot ∈ client.liveSegments) :
    ∃ memcxt, freeSegment client.memcxt slot = some memcxt ∧
      Gone client { client with
        memcxt := memcxt
        liveSegments := client.liveSegments.erase slot } := by
  obtain ⟨after, freed, returned, later⟩ := free_segment_spec consistent member
  exact ⟨_, freed, later, returned.bases, rfl⟩

/-- Distinct live buckets can be released one after the other. -/
theorem free_buckets_gone {slots : List Nat} (consistent : Consistent client)
    (nodup : slots.Nodup) (members : ∀ slot ∈ slots, slot ∈ client.liveBuckets) :
    ∃ memcxt, slots.foldlM freeBucket client.memcxt = some memcxt ∧
      memcxt.segments = client.memcxt.segments ∧
      Gone client { client with
        memcxt := memcxt
        liveBuckets := client.liveBuckets \ slots.toFinset } := by
  induction slots generalizing client with
  | nil =>
      refine ⟨client.memcxt, rfl, rfl, ?_⟩
      rw [List.toFinset_nil, Finset.sdiff_empty]
      exact Gone.refl consistent
  | cons slot slots ih =>
      obtain ⟨fresh, distinct⟩ := List.nodup_cons.mp nodup
      obtain ⟨after, freed, returned, later⟩ := free_bucket_spec consistent (members slot (by simp))
      have others : ∀ other ∈ slots, other ∈ client.liveBuckets.erase slot := by
        intro other member
        rw [Finset.mem_erase]
        exact ⟨fun same => fresh (same ▸ member), members other (by simp [member])⟩
      obtain ⟨memcxt, ran, segments, gone⟩ := ih later distinct others
      have first : Gone client { client with
          memcxt := { client.memcxt with buckets := after }
          liveBuckets := client.liveBuckets.erase slot } := ⟨later, rfl, returned.bases⟩
      refine ⟨memcxt, ?_, segments, ?_⟩
      · rw [List.foldlM_cons, freed]
        exact ran
      · have rest : client.liveBuckets \ (slot :: slots).toFinset =
            client.liveBuckets.erase slot \ slots.toFinset := by
          rw [List.toFinset_cons, Finset.sdiff_insert, Finset.erase_sdiff_comm]
        rw [rest]
        exact first.trans gone

end SriGlibcMalloc.PoolAllocator
