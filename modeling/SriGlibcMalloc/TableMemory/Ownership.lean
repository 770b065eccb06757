import SriGlibcMalloc.TableMemory.Model

/-!
# The table owns its memory

In every run the buckets of the chains and the segments of the directory are
live slots of the pools, and the buckets of the chains are those that were added
and not released.
-/

namespace SriGlibcMalloc.TableMemory

open MetadataTable KeyedStack Outcome Transition
open PoolAllocator (Consistent Gone allocSegment freeBucket freeSegment segmentKind bucketKind
  alloc_segment_consistent free_buckets_gone free_segment_gone hold)

set_option autoImplicit false

/-- The invariant of a run: what the table holds, and where its memory comes from. -/
structure Owns (build : Build) (world : World) (entries : Entries Chunk BucketPtr) : Prop where
  holds : Holds build.hash world.table entries
  linked : world.linked = (entries.map fun entry => entry.2).toFinset
  consistent : Consistent world.client
  buckets : world.linked ⊆ world.client.liveBuckets
  segments : ∀ index seg, world.table.directory index = some seg →
    seg ∈ world.client.liveSegments

variable {build : Build} {world next : World} {entries : Entries Chunk BucketPtr}
variable {op : Op} {directory : Option DirectoryPtr} {area : Option Nat}

theorem hold_mem {live : Finset Nat} {answer : Option Nat} {slot : Nat} (member : slot ∈ live) :
    slot ∈ hold live answer := by
  cases answer with
  | none => exact member
  | some other => exact Finset.mem_insert_of_mem member

theorem Owns.pools_step {action : PoolAllocator.Action} {client : PoolAllocator.Client}
    (owns : Owns build world entries) (permits : Permits world (.pools action))
    (stepped : PoolAllocator.step world.client action = some client) :
    Owns build { world with client := client } entries := by
  refine ⟨owns.holds, owns.linked,
    PoolAllocator.step_consistent _ _ _ owns.consistent stepped, ?_, ?_⟩
  · intro bucket member
    have live := owns.buckets member
    cases action with
    | allocBucket area =>
        obtain ⟨_, shape⟩ := Option.ite_none_right_eq_some.mp stepped
        cases shape
        exact hold_mem live
    | freeBucket slot =>
        obtain ⟨_, shape⟩ := Option.ite_none_right_eq_some.mp stepped
        obtain ⟨memcxt, _, same⟩ := Option.map_eq_some_iff.mp shape
        cases same
        rw [Finset.mem_erase]
        exact ⟨fun equal => permits (equal ▸ member), live⟩
    | allocSegment area =>
        obtain ⟨_, shape⟩ := Option.ite_none_right_eq_some.mp stepped
        cases shape
        exact live
    | freeSegment slot => exact permits.elim
  · intro index seg stored
    have live := owns.segments index seg stored
    cases action with
    | allocBucket area =>
        obtain ⟨_, shape⟩ := Option.ite_none_right_eq_some.mp stepped
        cases shape
        exact live
    | freeBucket slot =>
        obtain ⟨_, shape⟩ := Option.ite_none_right_eq_some.mp stepped
        obtain ⟨memcxt, _, same⟩ := Option.map_eq_some_iff.mp shape
        cases same
        exact live
    | allocSegment area =>
        obtain ⟨_, shape⟩ := Option.ite_none_right_eq_some.mp stepped
        cases shape
        exact hold_mem live
    | freeSegment slot => exact permits.elim

theorem Owns.fresh (owns : Owns build world entries)
    (apart : PoolAllocator.Fresh world.client.memcxt segmentKind area)
    (moved : directory ≠ some world.table.directoryAddress) :
    (answersOf world.client directory area).Fresh world.table := by
  refine ⟨?_, moved⟩
  intro seg answer index stored
  have separate : ∀ base, area = some base → ∀ pool ∈ world.client.memcxt.segments.pools,
      PoolAllocator.Separate base segmentKind.poolBytes pool.base segmentKind.poolBytes := by
    intro base granted
    exact (apart base granted).1
  obtain ⟨_, served, _⟩ := PoolAllocator.alloc_spec owns.consistent.segments separate rfl
  exact (served seg answer).1 (owns.segments index seg stored)

theorem Owns.released (owns : Owns build world entries)
    (ample : entries.length ≤ world.table.fuel) (op : Op) :
    (releases build world.table op).Nodup ∧
      (∀ bucket ∈ releases build world.table op, bucket ∈ world.linked) ∧
      linkedAfter world.linked (releases build world.table op) op =
        ((specStep entries op).2.map fun entry => entry.2).toFinset := by
  have stacked := owns.holds.stack_of ample
  have distinct := owns.holds.nodup_values
  have linked := owns.linked
  -- a list that is split off the values
  have parts : ∀ (released : List BucketPtr) (later : Entries Chunk BucketPtr),
      (entries.map fun entry => entry.2).Perm (released ++ later.map fun entry => entry.2) →
      released.Nodup ∧ (∀ bucket ∈ released, bucket ∈ world.linked) ∧
        world.linked \ released.toFinset = (later.map fun entry => entry.2).toFinset := by
    intro released later split
    have nodup := split.nodup distinct
    refine ⟨nodup.of_append_left, ?_, ?_⟩
    · intro bucket member
      rw [linked, List.mem_toFinset, split.mem_iff]
      exact List.mem_append_left _ member
    · ext bucket
      rw [Finset.mem_sdiff, linked, List.mem_toFinset, List.mem_toFinset, List.mem_toFinset,
        split.mem_iff, List.mem_append]
      have apart := List.disjoint_of_nodup_append nodup
      constructor
      · rintro ⟨released | kept, absent⟩
        · exact absurd released absent
        · exact kept
      · intro kept
        exact ⟨Or.inr kept, fun released => apart released kept⟩
  cases op with
  | add bucket chunk =>
      refine ⟨List.nodup_nil, nofun, ?_⟩
      change insert bucket world.linked = _
      rw [linked, specStep, push, List.map_cons, List.toFinset_cons]
  | lookup chunk => exact parts [] entries (List.Perm.refl _)
  | delete chunk =>
      have split := values_pop entries chunk
      rw [← stacked chunk] at split
      exact parts _ _ split
  | deleteAll chunk =>
      have split := values_pop_all entries chunk
      rw [← stacked chunk] at split
      exact parts _ _ split

theorem settle_segments_spec {before after : Metadata} {client lighter settled :
    PoolAllocator.Client} (shape : Shape before)
    (gone : Gone client lighter) (sameSegments : lighter.memcxt.segments = client.memcxt.segments)
    (sameLive : lighter.liveSegments = client.liveSegments)
    (live : ∀ index seg, before.directory index = some seg → seg ∈ client.liveSegments)
    (apart : PoolAllocator.Fresh client.memcxt segmentKind area)
    (rehoused : Rehoused (answersOf client directory area) before after)
    (settles : settleSegments before after area lighter = some settled) :
    Consistent settled ∧ settled.liveBuckets = lighter.liveBuckets ∧
      ∀ index seg, after.directory index = some seg → seg ∈ settled.liveSegments := by
  unfold settleSegments at settles
  cases rehoused with
  | kept same =>
      rw [if_neg (by rw [same.current]; omega), if_neg (by rw [same.current]; omega)] at settles
      cases settles
      refine ⟨gone.consistent, rfl, ?_⟩
      intro index seg stored
      rw [same.directory] at stored
      rw [sameLive]
      exact live index seg stored
  | taken newseg answer grown current =>
      rw [if_pos (by omega)] at settles
      cases settles
      refine ⟨alloc_segment_consistent gone.consistent (gone.fresh apart) rfl, rfl, ?_⟩
      intro index seg stored
      rw [grown] at stored
      by_cases last : index = before.directoryCurrent
      · rw [last, Function.update_self, ← answer] at stored
        have served : (allocSegment lighter.memcxt area).1 = some seg := by
          simp only [allocSegment, sameSegments]
          exact stored
        change seg ∈ hold lighter.liveSegments (allocSegment lighter.memcxt area).1
        rw [served]
        exact Finset.mem_insert_self seg _
      · rw [Function.update_of_ne last] at stored
        apply hold_mem
        rw [sameLive]
        exact live index seg stored
  | givenBack shrunk current =>
      rw [if_neg (by omega), if_pos (by omega)] at settles
      obtain ⟨last, atEnd⟩ := shape.present (before.directoryCurrent - 1) (by omega)
      have member : last ∈ lighter.liveSegments := by
        rw [sameLive]
        exact live _ last atEnd
      obtain ⟨memcxt, freed, onward⟩ := free_segment_gone gone.consistent member
      simp only [atEnd, freed, Option.bind_eq_bind, Option.bind_some, Option.pure_def,
        Option.some.injEq] at settles
      rw [← settles]
      refine ⟨onward.consistent, rfl, ?_⟩
      intro index seg stored
      rw [shrunk] at stored
      by_cases here : index = before.directoryCurrent - 1
      · rw [here, Function.update_self] at stored
        cases stored
      · rw [Function.update_of_ne here] at stored
        change seg ∈ lighter.liveSegments.erase last
        rw [Finset.mem_erase, sameLive]
        refine ⟨?_, live index seg stored⟩
        intro same
        rw [same] at stored
        exact here (shape.distinct _ _ _ stored atEnd)

theorem Owns.table_step (owns : Owns build world entries)
    (ample : entries.length + 1 < world.table.fuel)
    (permits : Permits world (.table op directory area))
    (stepped : step build world (.table op directory area) = some next) :
    Owns build next (specStep entries op).2 ∧ next.table.fuel = world.table.fuel := by
  obtain ⟨apart, moved, adds⟩ := permits
  have fresh := owns.fresh apart moved
  have admits : Admits entries op := by
    cases op with
    | add bucket chunk =>
        obtain ⟨_, unlinked, address⟩ := adds bucket chunk rfl
        refine ⟨address, ?_⟩
        intro entry member same
        apply unlinked
        rw [owns.linked, List.mem_toFinset, ← same]
        exact List.mem_map_of_mem member
    | lookup chunk => trivial
    | delete chunk => trivial
    | deleteAll chunk => trivial
  have spec := (step_rehoused build owns.holds.shape fresh).both
    (step_spec build owns.holds ample fresh admits)
  obtain ⟨distinct, members, linked⟩ := owns.released (by omega) op
  obtain ⟨memcxt, freed, sameSegments, gone⟩ := free_buckets_gone owns.consistent distinct
    (fun bucket member => owns.buckets (members bucket member))
  rw [step] at stepped
  cases result : MetadataTable.step build world.table op
    (answersOf world.client directory area) with
  | error fault =>
      rw [result] at stepped
      cases stepped
  | ok answer =>
      obtain ⟨reply, after⟩ := answer
      obtain ⟨rehoused, holds, fuel, _⟩ := spec.value result
      rw [result] at stepped
      simp only [settleBuckets, freed, Option.map_some, Option.bind_eq_bind,
        Option.bind_some] at stepped
      obtain ⟨settled, settles, same⟩ := Option.bind_eq_some_iff.mp stepped
      cases same
      obtain ⟨consistent, sameBuckets, segments⟩ := settle_segments_spec owns.holds.shape gone
        sameSegments rfl owns.segments apart rehoused settles
      refine ⟨⟨holds, linked, consistent, ?_, segments⟩, fuel⟩
      intro bucket member
      rw [sameBuckets]
      change bucket ∈ linkedAfter world.linked (releases build world.table op) op at member
      change bucket ∈ world.client.liveBuckets \ (releases build world.table op).toFinset
      rw [Finset.mem_sdiff]
      cases op with
      | add newbucket chunk =>
          refine ⟨?_, List.not_mem_nil ∘ List.mem_toFinset.mp⟩
          rcases Finset.mem_insert.mp member with new | old
          · rw [new]
            exact (adds newbucket chunk rfl).1
          · exact owns.buckets old
      | lookup chunk =>
          exact ⟨owns.buckets (Finset.mem_sdiff.mp member).1, (Finset.mem_sdiff.mp member).2⟩
      | delete chunk =>
          exact ⟨owns.buckets (Finset.mem_sdiff.mp member).1, (Finset.mem_sdiff.mp member).2⟩
      | deleteAll chunk =>
          exact ⟨owns.buckets (Finset.mem_sdiff.mp member).1, (Finset.mem_sdiff.mp member).2⟩

theorem spec_step_length (entries : Entries Chunk BucketPtr) (op : Op) :
    (specStep entries op).2.length ≤ entries.length + 1 := by
  cases op with
  | add bucket chunk => exact Nat.le_refl _
  | lookup chunk => exact Nat.le_succ _
  | delete chunk => exact (List.length_eraseP_le).trans (Nat.le_succ _)
  | deleteAll chunk => exact (List.length_filter_le _ _).trans (Nat.le_succ _)

theorem run_owns {actions : List Action} {start : World} (owns : Owns build start entries)
    (ample : entries.length + actions.length + 1 < start.table.fuel)
    (permitted : Permitted (step build) Permits start actions)
    (ran : run (step build) start actions = some world) :
    ∃ later, Owns build world later ∧ later.length < world.table.fuel := by
  induction actions generalizing start entries with
  | nil =>
      cases ran
      exact ⟨entries, owns, Nat.lt_of_succ_lt ample⟩
  | cons action rest ih =>
      obtain ⟨next, stepped, onward⟩ := run_cons ran
      obtain ⟨permits, later⟩ := permitted
      rw [List.length_cons] at ample
      cases action with
      | pools action =>
          obtain ⟨client, moved, same⟩ := Option.map_eq_some_iff.mp stepped
          have further := later next stepped
          rw [← same] at onward further
          have room : entries.length + rest.length + 1 < start.table.fuel := by omega
          exact ih (owns.pools_step permits moved) room further onward
      | table op directory area =>
          obtain ⟨kept, fuel⟩ := owns.table_step (by omega) permits stepped
          have longer := spec_step_length entries op
          exact ih kept (by omega) (later next stepped) onward

theorem create_owns (build : Build) {fuel : Nat} {bucket : BucketPtr → Bucket} {client : PoolAllocator.Client}
    (consistent : Consistent client) (apart : PoolAllocator.Fresh client.memcxt segmentKind area)
    (created : create fuel bucket client directory area = some world) :
    Owns build world [] ∧ world.table.fuel = fuel := by
  obtain ⟨table, initial, same⟩ := Option.map_eq_some_iff.mp created
  subst same
  cases directory with
  | none => cases initial
  | some address =>
      rw [init_over_some] at initial
      obtain ⟨seg, served, shape⟩ := Option.map_eq_some_iff.mp initial
      subst shape
      refine ⟨⟨init_holds build.hash fuel bucket address seg, rfl,
        alloc_segment_consistent consistent apart rfl, Finset.empty_subset _, ?_⟩, rfl⟩
      intro index other stored
      change (if index = 0 then some seg else none) = some other at stored
      obtain ⟨_, first⟩ := Option.ite_none_right_eq_some.mp stored
      cases first
      change seg ∈ hold client.liveSegments (allocSegment client.memcxt area).1
      rw [served]
      exact Finset.mem_insert_self seg _

end SriGlibcMalloc.TableMemory
