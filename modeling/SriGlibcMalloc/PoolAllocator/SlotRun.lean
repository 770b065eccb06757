import SriGlibcMalloc.PoolAllocator.Exact
import SriGlibcMalloc.Transition.Run

/-!
# Runs of the pool allocator

A client allocates and frees buckets and segments; it frees live slots only, and
`sri_mmap` answers NULL or an area that is not in use.
-/

namespace SriGlibcMalloc.PoolAllocator

open BitMask Transition

set_option autoImplicit false

structure Client where
  memcxt : Memcxt
  liveSegments : Finset Nat
  liveBuckets : Finset Nat

inductive Action
  | allocBucket (area : Option Nat)
  | freeBucket (slot : Nat)
  | allocSegment (area : Option Nat)
  | freeSegment (slot : Nat)
  deriving DecidableEq, Repr

/-- Whether an area of the pools of one kind is apart from all pools. -/
def Fresh (memcxt : Memcxt) (kind : Kind) (area : Option Nat) : Prop :=
  ∀ base ∈ area,
    (∀ pool ∈ memcxt.segments.pools,
      Separate base kind.poolBytes pool.base segmentKind.poolBytes) ∧
    (∀ pool ∈ memcxt.buckets.pools, Separate base kind.poolBytes pool.base bucketKind.poolBytes)

instance (memcxt : Memcxt) (kind : Kind) : ∀ area, Decidable (Fresh memcxt kind area)
  | none => isTrue fun _ impossible => by cases impossible
  | some base => decidable_of_iff
      ((∀ pool ∈ memcxt.segments.pools,
        Separate base kind.poolBytes pool.base segmentKind.poolBytes) ∧
      (∀ pool ∈ memcxt.buckets.pools,
        Separate base kind.poolBytes pool.base bucketKind.poolBytes))
      ⟨fun apart other same => (Option.some.inj same) ▸ apart, fun apart => apart base rfl⟩

def hold (live : Finset Nat) : Option Nat → Finset Nat
  | none => live
  | some slot => insert slot live

def step (client : Client) : Action → Option Client
  | .allocBucket area =>
      if Fresh client.memcxt bucketKind area then
        let (slot, memcxt) := allocBucket client.memcxt area
        some { client with memcxt := memcxt, liveBuckets := hold client.liveBuckets slot }
      else none
  | .freeBucket slot =>
      if slot ∈ client.liveBuckets then
        (freeBucket client.memcxt slot).map fun memcxt =>
          { client with memcxt := memcxt, liveBuckets := client.liveBuckets.erase slot }
      else none
  | .allocSegment area =>
      if Fresh client.memcxt segmentKind area then
        let (slot, memcxt) := allocSegment client.memcxt area
        some { client with memcxt := memcxt, liveSegments := hold client.liveSegments slot }
      else none
  | .freeSegment slot =>
      if slot ∈ client.liveSegments then
        (freeSegment client.memcxt slot).map fun memcxt =>
          { client with memcxt := memcxt, liveSegments := client.liveSegments.erase slot }
      else none

def start (memory : Nat → Nat) (segments buckets : Option Nat) : Client :=
  ⟨(initMemcxt memory segments buckets).2, ∅, ∅⟩

/-- What an allocation answers: a slot that is not live, or NULL when every slot
is live and no new pool was granted. -/
def Serves (kind : Kind) (pools : Pools) (live others : Finset Nat) (area answer : Option Nat) :
    Prop :=
  (∀ slot, answer = some slot → slot ∉ live ∧ slot ∉ others) ∧
    (answer = none → area = none ∧ ∀ pool ∈ pools.pools, ∀ index, index < kind.length →
      kind.slot pool.base index ∈ live)

/-- What a release changes: the slot is clear again in its own pool. -/
def Returned (kind : Kind) (pools : Pools) (slot : Nat) (after : Pools) : Prop :=
  ∃ front pool rest index, pools.pools = front ++ pool :: rest ∧ index < kind.length ∧
    slot = kind.slot pool.base index ∧
    after = ⟨front ++ pool.giveBack index :: rest, pools.poolPtr⟩

structure Consistent (client : Client) : Prop where
  segments : Sound segmentKind client.memcxt.segments client.liveSegments
  buckets : Sound bucketKind client.memcxt.buckets client.liveBuckets
  apart : ∀ segment ∈ client.memcxt.segments.pools, ∀ bucket ∈ client.memcxt.buckets.pools,
    Separate segment.base segmentKind.poolBytes bucket.base bucketKind.poolBytes

variable {client next : Client} {action : Action}

theorem kinds_disjoint (consistent : Consistent client) {slot : Nat}
    (segment : slot ∈ client.liveSegments) (bucket : slot ∈ client.liveBuckets) : False := by
  obtain ⟨first, left, index, inside, same⟩ := consistent.segments.exact.placed slot segment
  obtain ⟨second, right, place, within, equal⟩ := consistent.buckets.exact.placed slot bucket
  have low := slot_inside first.base inside
  have high := slot_inside second.base within
  rw [← same] at low
  rw [← equal] at high
  rcases consistent.apart first left second right with below | above <;> omega

theorem alloc_sound {kind : Kind} {listed later : Pools} {live : Finset Nat}
    {area answer : Option Nat} (sound : Sound kind listed live)
    (fresh : ∀ base, area = some base → ∀ pool ∈ listed.pools,
      Separate base kind.poolBytes pool.base kind.poolBytes)
    (allocated : alloc kind listed area = (answer, later)) :
    Sound kind later (hold live answer) := by
  obtain ⟨_, served, refused⟩ := alloc_spec sound fresh allocated
  cases answer with
  | none =>
      rw [(refused rfl).2.1]
      exact sound
  | some slot => exact (served slot rfl).2

theorem alloc_segment_consistent {area answer : Option Nat} {memcxt : Memcxt}
    (consistent : Consistent client) (fresh : Fresh client.memcxt segmentKind area)
    (allocated : allocSegment client.memcxt area = (answer, memcxt)) :
    Consistent { client with
      memcxt := memcxt
      liveSegments := hold client.liveSegments answer } := by
  cases served : alloc segmentKind client.memcxt.segments area with | mk slot later
  have apart : ∀ base, area = some base → ∀ pool ∈ client.memcxt.segments.pools,
      Separate base segmentKind.poolBytes pool.base segmentKind.poolBytes := by
    intro base granted
    exact (fresh base granted).1
  have sound := alloc_sound consistent.segments apart served
  obtain ⟨grown, _⟩ := alloc_spec consistent.segments apart served
  rw [allocSegment, served] at allocated
  cases allocated
  refine ⟨sound, consistent.buckets, ?_⟩
  intro segment member bucket other
  rcases grown segment member with ⟨old, found, same⟩ | granted
  · rw [← same]
    exact consistent.apart old found bucket other
  · exact (fresh segment.base granted).2 bucket other

theorem alloc_bucket_consistent {area answer : Option Nat} {memcxt : Memcxt}
    (consistent : Consistent client) (fresh : Fresh client.memcxt bucketKind area)
    (allocated : allocBucket client.memcxt area = (answer, memcxt)) :
    Consistent { client with
      memcxt := memcxt
      liveBuckets := hold client.liveBuckets answer } := by
  cases served : alloc bucketKind client.memcxt.buckets area with | mk slot later
  have apart : ∀ base, area = some base → ∀ pool ∈ client.memcxt.buckets.pools,
      Separate base bucketKind.poolBytes pool.base bucketKind.poolBytes := by
    intro base granted
    exact (fresh base granted).2
  have sound := alloc_sound consistent.buckets apart served
  obtain ⟨grown, _⟩ := alloc_spec consistent.buckets apart served
  rw [allocBucket, served] at allocated
  cases allocated
  refine ⟨consistent.segments, sound, ?_⟩
  intro segment other bucket member
  rcases grown bucket member with ⟨old, found, same⟩ | granted
  · rw [← same]
    exact consistent.apart segment other old found
  · exact ((fresh bucket.base granted).1 segment other).symm

theorem free_segment_spec {slot : Nat} (consistent : Consistent client)
    (live : slot ∈ client.liveSegments) :
    ∃ after, freeSegment client.memcxt slot = some { client.memcxt with segments := after } ∧
      Returned segmentKind client.memcxt.segments slot after ∧
      Consistent { client with
        memcxt := { client.memcxt with segments := after }
        liveSegments := client.liveSegments.erase slot } := by
  obtain ⟨front, pool, rest, index, split, inside, address, freed, sound⟩ :=
    free_spec consistent.segments live
  refine ⟨_, by rw [freeSegment, freed]; rfl, ⟨front, pool, rest, index, split, inside, address, rfl⟩,
    sound, consistent.buckets, ?_⟩
  intro segment member bucket other
  have old := consistent.apart
  rw [split] at old
  rw [List.mem_append, List.mem_cons] at member
  rcases member with before | same | behind
  · exact old segment (by simp [before]) bucket other
  · rw [same]
    exact old pool (by simp) bucket other
  · exact old segment (by simp [behind]) bucket other

theorem free_bucket_spec {slot : Nat} (consistent : Consistent client)
    (live : slot ∈ client.liveBuckets) :
    ∃ after, freeBucket client.memcxt slot = some { client.memcxt with buckets := after } ∧
      Returned bucketKind client.memcxt.buckets slot after ∧
      Consistent { client with
        memcxt := { client.memcxt with buckets := after }
        liveBuckets := client.liveBuckets.erase slot } := by
  obtain ⟨front, pool, rest, index, split, inside, address, freed, sound⟩ :=
    free_spec consistent.buckets live
  refine ⟨_, by rw [freeBucket, freed]; rfl, ⟨front, pool, rest, index, split, inside, address, rfl⟩,
    consistent.segments, sound, ?_⟩
  intro segment other bucket member
  have old := consistent.apart segment other
  rw [split] at old
  rw [List.mem_append, List.mem_cons] at member
  rcases member with before | same | behind
  · exact old bucket (by simp [before])
  · rw [same]
    exact old pool (by simp)
  · exact old bucket (by simp [behind])

theorem step_consistent (client : Client) (action : Action) (next : Client)
    (consistent : Consistent client) (stepped : step client action = some next) :
    Consistent next := by
  cases action with
  | allocBucket area =>
      obtain ⟨fresh, shape⟩ := Option.ite_none_right_eq_some.mp stepped
      cases shape
      exact alloc_bucket_consistent consistent fresh rfl
  | freeBucket slot =>
      obtain ⟨live, shape⟩ := Option.ite_none_right_eq_some.mp stepped
      obtain ⟨after, freed, _, later⟩ := free_bucket_spec consistent live
      rw [freed] at shape
      cases shape
      exact later
  | allocSegment area =>
      obtain ⟨fresh, shape⟩ := Option.ite_none_right_eq_some.mp stepped
      cases shape
      exact alloc_segment_consistent consistent fresh rfl
  | freeSegment slot =>
      obtain ⟨live, shape⟩ := Option.ite_none_right_eq_some.mp stepped
      obtain ⟨after, freed, _, later⟩ := free_segment_spec consistent live
      rw [freed] at shape
      cases shape
      exact later

theorem start_consistent (memory : Nat → Nat) (segments buckets : Option Nat)
    (apart : ∀ segment ∈ segments, ∀ bucket ∈ buckets,
      Separate segment segmentKind.poolBytes bucket bucketKind.poolBytes) :
    Consistent (start memory segments buckets) := by
  refine ⟨first_sound segmentKind memory segments, first_sound bucketKind memory buckets, ?_⟩
  intro segment member bucket other
  cases segments with
  | none => cases member
  | some first =>
      cases buckets with
      | none => cases other
      | some second =>
          rw [List.mem_singleton.mp member, List.mem_singleton.mp other]
          exact apart first rfl second rfl

theorem serves_of_consistent {kind : Kind} {listed later : Pools} {live others : Finset Nat}
    {area answer : Option Nat} (sound : Sound kind listed live)
    (fresh : ∀ base, area = some base → ∀ pool ∈ listed.pools,
      Separate base kind.poolBytes pool.base kind.poolBytes)
    (allocated : alloc kind listed area = (answer, later))
    (disjoint : ∀ slot ∈ hold live answer, slot ∉ others) :
    Serves kind listed live others area answer := by
  obtain ⟨_, served, refused⟩ := alloc_spec sound fresh allocated
  constructor
  · intro slot answered
    subst answered
    exact ⟨(served slot rfl).1, disjoint slot (Finset.mem_insert_self slot live)⟩
  · intro answered
    exact ⟨(refused answered).1, (refused answered).2.2⟩

/-- In every run the masks and counters are exact, an allocation serves a slot
that is not live and fails only when it has to, and a slot that is freed goes
back to its pool. -/
theorem pool_slots_exact (memory : Nat → Nat) (segments buckets : Option Nat)
    (actions : List Action) (client : Client)
    (apart : ∀ segment ∈ segments, ∀ bucket ∈ buckets,
      Separate segment segmentKind.poolBytes bucket bucketKind.poolBytes)
    (ran : run step (start memory segments buckets) actions = some client) :
    Exact segmentKind client.memcxt.segments.pools client.liveSegments ∧
      Exact bucketKind client.memcxt.buckets.pools client.liveBuckets ∧
      (∀ area, Fresh client.memcxt segmentKind area →
        Serves segmentKind client.memcxt.segments client.liveSegments client.liveBuckets area
          (allocSegment client.memcxt area).1) ∧
      (∀ area, Fresh client.memcxt bucketKind area →
        Serves bucketKind client.memcxt.buckets client.liveBuckets client.liveSegments area
          (allocBucket client.memcxt area).1) ∧
      (∀ slot ∈ client.liveSegments, ∃ after,
        freeSegment client.memcxt slot = some { client.memcxt with segments := after } ∧
          Returned segmentKind client.memcxt.segments slot after) ∧
      (∀ slot ∈ client.liveBuckets, ∃ after,
        freeBucket client.memcxt slot = some { client.memcxt with buckets := after } ∧
          Returned bucketKind client.memcxt.buckets slot after) := by
  have consistent := run_preserves step_consistent actions _ client
    (start_consistent memory segments buckets apart) ran
  refine ⟨consistent.segments.exact, consistent.buckets.exact, ?_, ?_, ?_, ?_⟩
  · intro area fresh
    have later := alloc_segment_consistent consistent fresh rfl
    apply serves_of_consistent consistent.segments (fun base granted => (fresh base granted).1) rfl
    intro slot mine other
    exact kinds_disjoint later mine other
  · intro area fresh
    have later := alloc_bucket_consistent consistent fresh rfl
    apply serves_of_consistent consistent.buckets (fun base granted => (fresh base granted).2) rfl
    intro slot mine other
    exact kinds_disjoint later other mine
  · intro slot live
    obtain ⟨after, freed, returned, _⟩ := free_segment_spec consistent live
    exact ⟨after, freed, returned⟩
  · intro slot live
    obtain ⟨after, freed, returned, _⟩ := free_bucket_spec consistent live
    exact ⟨after, freed, returned⟩

theorem first_slots_exact : ∃ client,
    run step (start (fun _ => 0) (some 0x7f0000000000) (some 0x7f0001000000))
        [.allocSegment none, .allocBucket none, .freeSegment 0x7f0000000000] = some client ∧
      Exact segmentKind client.memcxt.segments.pools client.liveSegments ∧
      Exact bucketKind client.memcxt.buckets.pools client.liveBuckets := by
  have runs : (run step (start (fun _ => 0) (some 0x7f0000000000) (some 0x7f0001000000))
      [.allocSegment none, .allocBucket none, .freeSegment 0x7f0000000000]).isSome = true := by
    decide +kernel
  obtain ⟨client, ran⟩ := Option.isSome_iff_exists.mp runs
  have exact := pool_slots_exact (fun _ => 0) (some 0x7f0000000000) (some 0x7f0001000000)
    [.allocSegment none, .allocBucket none, .freeSegment 0x7f0000000000] client
    (by intro segment first bucket second; cases first; cases second; decide) ran
  exact ⟨client, ran, exact.1, exact.2.1⟩

end SriGlibcMalloc.PoolAllocator
