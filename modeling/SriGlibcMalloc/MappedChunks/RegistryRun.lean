import SriGlibcMalloc.MappedChunks.Routines
import SriGlibcMalloc.Transition.Run

/-!
# Runs over the mapped chunks

`free_atfork` unmaps a chunk and leaves its record behind. The next chunk that the system
places there has two.
-/

namespace SriGlibcMalloc.MappedChunks

open ByteMemory (In)
open EntryPoints (minSize checkedRequest2size)
open MainArena (wrap alignUp pageSize sizeSz)
open Transition

set_option autoImplicit false

/-- The routines, and what else the main arena and the program do with records and pages. -/
inductive Action
  | intMalloc (bytes : Nat) (served : Served)
  | intMemalign (alignment bytes : Nat) (served : Served) (metadata : Bool)
  | libcFree (p : Nat)
  | intFree (p : Nat)
  | freeCheck (p : Nat) (valid : Bool)
  | freeAtfork (p : Nat)
  | libcRealloc (p bytes : Nat) (replenished : Bool) (answer : Option Nat) (served : Served)
  | reallocCheck (p bytes : Nat) (valid : Bool) (answer : Option Nat) (served : Served)
  | registerChunk (p prevSize size : Nat)
  | unregisterChunk (p : Nat)
  | map (start length : Nat)
  | unmap (start length : Nat)

def step (registry : Registry) : Action → Option Registry
  | .intMalloc bytes served => some (registry.intMalloc bytes served)
  | .intMemalign alignment bytes served metadata =>
      registry.intMemalign alignment bytes served metadata
  | .libcFree p => registry.libcFree p
  | .intFree p => registry.intFree p
  | .freeCheck p valid => registry.freeCheck p valid
  | .freeAtfork p => registry.freeAtfork p
  | .libcRealloc p bytes replenished answer served =>
      registry.libcRealloc p bytes replenished answer served
  | .reallocCheck p bytes valid answer served =>
      registry.reallocCheck p bytes valid answer served
  | .registerChunk p prevSize size => some (registry.registerChunk p ⟨prevSize, size, false⟩)
  | .unregisterChunk p => some (registry.unregisterChunk p)
  | .map start length => some (registry.map start length)
  | .unmap start length => some (registry.munmap start length)

/-- Before the first request there is no record; the program itself is mapped. -/
def Registry.initial (mapped : Nat → Bool) : Registry where
  records := fun _ => []
  bound := fun _ => none
  mapped := mapped
  mmappedMem := 0

variable (registry : Registry)

/-- A mapped byte that is not in the mapping of a chunk. -/
def Registry.Elsewhere (byte : Nat) : Prop :=
  registry.mapped byte = true ∧ ∀ p record, registry.Holds p record → ¬Region p record byte

/-- Mapped chunks are passed to the routines that move and release them, new mappings are
fresh, alignments are powers of two, and the rest stays away from the mapped chunks. -/
def Proper : Action → Prop
  | .intMalloc bytes served =>
      ∀ nb, checkedRequest2size bytes = some nb → registry.Grants nb served
  | .intMemalign alignment bytes served _ => ∃ k, 5 ≤ k ∧ k < 64 ∧ alignment = 2 ^ k ∧
      ∀ nb padded, checkedRequest2size bytes = some nb →
        checkedRequest2size (wrap (wrap (nb + 2 ^ k) + minSize)) = some padded →
          registry.Grants padded served
  | .libcFree p => registry.Bound p
  | .intFree p => registry.Bound p
  | .freeCheck p _ => registry.Bound p
  | .freeAtfork p => registry.Bound p
  | .libcRealloc p bytes _ answer served =>
      registry.Bound p ∧ registry.Resizes p bytes answer served
  | .reallocCheck p bytes _ answer served =>
      registry.Bound p ∧ registry.Resizes p (bytes + 1) answer served
  | .registerChunk p _ _ => registry.Elsewhere p
  | .unregisterChunk p => registry.Elsewhere p
  | .map start length => ∀ byte, In start length byte → registry.mapped byte = false
  | .unmap start length =>
      ∀ byte, In start length byte → registry.Elsewhere byte ∧ registry.records byte = []

/-- No mapped chunk is released by `free_atfork`, and neither the sum of `mremap_chunk` nor
that of `_int_memalign` wraps around. -/
def Careful : Action → Prop
  | .freeAtfork _ => False
  | .intMemalign alignment bytes served _ => AlignmentFits alignment bytes served
  | .libcRealloc p bytes _ answer _ => registry.LengthFits p bytes answer
  | .reallocCheck p bytes _ answer _ => registry.LengthFits p (bytes + 1) answer
  | _ => True

variable {registry} {after : Registry} {p nb start length : Nat} {record : Record}

theorem initial_kept (mapped : Nat → Bool) : (Registry.initial mapped).Kept where
  held := fun _ bound => by cases bound
  flagged := fun _ _ holds => by cases holds.bound
  placed := fun _ _ holds => by cases holds.bound
  backed := fun _ _ holds => by cases holds.bound
  bound := fun _ _ member => by cases member
  recorded := fun _ present => absurd rfl present
  alone := fun _ _ _ holds => by cases holds.bound
  apart := fun _ _ _ _ _ holds => by cases holds.bound

theorem Registry.Elsewhere.unbound (kept : registry.Kept) (elsewhere : registry.Elsewhere p) :
    ¬registry.Bound p := by
  intro bound
  obtain ⟨record, holds⟩ := kept.held p bound
  exact elsewhere.2 p record holds (kept.placed p record holds).own

theorem Registry.Kept.records_elsewhere (kept : registry.Kept) (elsewhere : registry.Elsewhere p)
    (records : ∀ q, q ≠ p → after.records q = registry.records q)
    (bound : after.bound = registry.bound) (mapped : after.mapped = registry.mapped)
    (flags : ∀ record, record ∈ after.records p → record.mmapped = true →
      record ∈ registry.records p) : after.Kept := by
  apply kept.transfer
  case bound =>
    intro q
    unfold Registry.Bound
    rw [bound]
  case single =>
    intro q found
    apply records
    rintro rfl
    exact elsewhere.unbound kept found
  case mapped => exact fun _ _ byte _ _ => congrFun mapped byte
  case flags =>
    intro q record member flagged
    by_cases same : q = p
    · subst same
      exact kept.bound q record (flags record member flagged) flagged
    · rw [records q same] at member
      exact kept.bound q record member flagged
  case recorded =>
    intro q present
    rw [mapped]
    by_cases same : q = p
    · rw [same]
      exact elsewhere.1
    · rw [records q same] at present
      exact kept.recorded q present
  case alone =>
    intro q record byte held inside present
    by_cases same : byte = p
    · rw [same] at inside
      exact absurd inside (elsewhere.2 q record held)
    · rw [records byte same] at present
      exact present

theorem Registry.Kept.pages_elsewhere (kept : registry.Kept)
    (records : after.records = registry.records) (bound : after.bound = registry.bound)
    (mapped : ∀ byte, after.mapped byte = registry.mapped byte ∨ registry.records byte = [] ∧
      ∀ p record, registry.Holds p record → ¬Region p record byte) : after.Kept := by
  apply kept.transfer
  case bound =>
    intro q
    unfold Registry.Bound
    rw [bound]
  case single => exact fun q _ => congrFun records q
  case mapped =>
    intro q record byte held inside
    exact (mapped byte).resolve_right fun outside => outside.2 q record held inside
  case flags =>
    intro q record member
    rw [records] at member
    exact kept.bound q record member
  case recorded =>
    intro q present
    rw [records] at present
    rw [(mapped q).resolve_right fun outside => present outside.1]
    exact kept.recorded q present
  case alone =>
    intro _ _ _ _ _ present
    rw [records] at present
    exact present

theorem register_elsewhere (kept : registry.Kept) (elsewhere : registry.Elsewhere p)
    (prevSize size : Nat) : (registry.registerChunk p ⟨prevSize, size, false⟩).Kept := by
  apply kept.records_elsewhere elsewhere
  case records => exact fun q differs => Function.update_of_ne differs ..
  case bound => rfl
  case mapped => rfl
  case flags =>
    intro record member flagged
    unfold Registry.registerChunk at member
    dsimp only at member
    rw [Function.update_self] at member
    obtain rfl | old := List.mem_cons.mp member
    · cases flagged
    · exact old

theorem unregister_elsewhere (kept : registry.Kept) (elsewhere : registry.Elsewhere p) :
    (registry.unregisterChunk p).Kept := by
  apply kept.records_elsewhere elsewhere
  case records => exact fun q differs => Function.update_of_ne differs ..
  case bound => rfl
  case mapped => rfl
  case flags =>
    intro record member _
    unfold Registry.unregisterChunk at member
    dsimp only at member
    rw [Function.update_self] at member
    exact List.mem_of_mem_tail member

theorem map_elsewhere (kept : registry.Kept)
    (unused : ∀ byte, In start length byte → registry.mapped byte = false) :
    (registry.map start length).Kept := by
  apply kept.pages_elsewhere
  case records => rfl
  case bound => rfl
  intro byte
  by_cases inside : In start length byte
  · right
    refine ⟨kept.unrecorded (unused byte inside), ?_⟩
    intro p record held within
    have backed := kept.backed p record held byte within
    rw [unused byte inside] at backed
    cases backed
  · left
    unfold Registry.map
    dsimp only
    unfold In at inside
    rw [decide_eq_false inside]
    rfl

theorem unmap_elsewhere (kept : registry.Kept)
    (clear : ∀ byte, In start length byte → registry.Elsewhere byte ∧ registry.records byte = []) :
    (registry.munmap start length).Kept := by
  apply kept.pages_elsewhere
  case records => rfl
  case bound => rfl
  intro byte
  by_cases inside : In start length byte
  · obtain ⟨elsewhere, unrecorded⟩ := clear byte inside
    exact Or.inr ⟨unrecorded, elsewhere.2⟩
  · left
    unfold Registry.munmap
    dsimp only
    unfold In at inside
    rw [decide_eq_false inside]
    rfl

theorem step_kept (action : Action) (kept : registry.Kept) (proper : Proper registry action)
    (careful : Careful registry action) : ∃ next, step registry action = some next ∧ next.Kept := by
  cases action with
  | intMalloc bytes served =>
      exact ⟨registry.intMalloc bytes served, rfl, int_malloc_kept kept proper⟩
  | intMemalign alignment bytes served metadata =>
      obtain ⟨k, low, below, same, grants⟩ := proper
      have fits : AlignmentFits alignment bytes served := careful
      rw [same] at fits
      rw [step, same]
      exact int_memalign_kept low below kept grants fits
  | libcFree p => exact libc_free_kept kept p
  | intFree p => exact int_free_kept kept proper
  | freeCheck p valid => exact free_check_kept kept proper valid
  | freeAtfork p => exact absurd careful id
  | libcRealloc p bytes replenished answer served =>
      exact libc_realloc_kept kept proper.1 proper.2 careful
  | reallocCheck p bytes valid answer served =>
      exact realloc_check_kept kept proper.1 proper.2 careful
  | registerChunk p prevSize size => exact ⟨_, rfl, register_elsewhere kept proper prevSize size⟩
  | unregisterChunk p => exact ⟨_, rfl, unregister_elsewhere kept proper⟩
  | map start length => exact ⟨_, rfl, map_elsewhere kept proper⟩
  | unmap start length => exact ⟨_, rfl, unmap_elsewhere kept proper⟩

/-- A careful run goes through, and the tables agree after it. -/
theorem careful_run_consistent (mapped : Nat → Bool) (actions : List Action)
    (permitted : Permitted step (fun registry action => Proper registry action ∧
      Careful registry action) (Registry.initial mapped) actions) :
    ∃ final, run step (Registry.initial mapped) actions = some final ∧ final.Consistent := by
  obtain ⟨final, ran, kept⟩ := run_goes_through (fun _ registry => registry.Kept) actions.length
    (fun _ registry action _ kept either => step_kept action kept either.1 either.2)
    actions (Registry.initial mapped) 0 (by omega) (initial_kept mapped) permitted
  exact ⟨final, ran, kept.consistent⟩

def movedAddress : Nat := 0x7f0000002000

def alignedRun : List Action :=
  [.intMemalign 8192 200000 (.mapped 0x7f0000001000) true,
    .libcRealloc movedAddress 300000 true none .refused, .libcFree movedAddress]

theorem bound_of_run {actions : List Action} {start : Registry}
    (ran : run step start actions = some after)
    (evaluated : (run step start actions).map (fun registry => (registry.bound p).isSome) =
      some true) : after.Bound p := by
  rw [ran] at evaluated
  exact Option.some.inj evaluated

theorem aligned_run_consistent :
    ∃ final, run step (Registry.initial fun _ => false) alignedRun = some final ∧
      final.Consistent := by
  apply careful_run_consistent
  have requested : checkedRequest2size 200000 = some 200000 := by decide +kernel
  have padded : checkedRequest2size (wrap (wrap (200000 + 2 ^ 13) + minSize)) = some 208224 := by
    decide +kernel
  refine ⟨⟨⟨13, by decide, by decide, rfl, ?_⟩, ?_⟩, fun first aligned => ?_⟩
  · intro nb larger request request'
    cases requested.symm.trans request
    cases padded.symm.trans request'
    exact ⟨by decide +kernel, by decide +kernel, fun _ _ => rfl⟩
  · intro nb mm request _
    cases requested.symm.trans request
    decide
  have ran : run step (Registry.initial fun _ => false) (alignedRun.take 1) = some first := by
    unfold alignedRun
    rw [List.take_succ_cons, run, aligned]
    rfl
  have bound : first.Bound movedAddress := bound_of_run ran (by decide +kernel)
  refine ⟨⟨⟨bound, ?_⟩, ?_⟩, fun second stayed => ⟨⟨?_, trivial⟩, fun _ _ => trivial⟩⟩
  · intro record nb _ _
    refine ⟨⟨fun cp impossible => ?_, fun cp byte impossible => ?_⟩, trivial⟩
    · cases impossible
    · cases impossible
  · intro record nb _ _ impossible
    exact absurd rfl impossible
  · have ran : run step (Registry.initial fun _ => false) (alignedRun.take 2) = some second := by
      unfold alignedRun
      rw [List.take_succ_cons, run, aligned, Option.bind_some, List.take_succ_cons, run, stayed]
      rfl
    exact bound_of_run ran (by decide +kernel)

/-- After `free_atfork` the mapping and the address are gone, the record is not. -/
theorem free_atfork_stale (kept : registry.Kept) (holds : registry.Holds p record)
    (freed : registry.freeAtfork p = some after) :
    ¬after.Bound p ∧ after.records p = [record] ∧ after.Free p record := by
  have bound : (registry.bound p).isSome = true := holds.bound
  unfold Registry.freeAtfork at freed
  rw [if_pos bound, munmap_chunk_eq kept holds] at freed
  cases freed
  refine ⟨?_, holds.single, ?_⟩
  · unfold Registry.Bound Registry.munmap
    dsimp only
    rw [Function.update_self]
    exact Bool.false_ne_true
  · intro byte inside
    unfold Region In at inside
    unfold Registry.munmap
    dsimp only
    rw [decide_eq_true inside]
    rfl

/-- A chunk that is placed where a record has been left has two. -/
theorem create_at_stale (stale : registry.records p ≠ [])
    (larger : nb < alignUp (wrap (nb + sizeSz)) pageSize) :
    ¬(registry.create nb (some p)).2.Consistent := by
  rw [create_eq registry p larger]
  intro consistent
  have both := consistent p
  unfold Registry.Bound Registry.addMem Registry.lookupAddMmap Registry.registerChunk at both
  dsimp only at both
  rw [Function.update_self, Function.update_self] at both
  obtain ⟨record, single, _⟩ := both.mp rfl
  exact stale (List.cons.inj single).2

def reusedAddress : Nat := 0x7f0000000000

/-- A chunk is created, released by `free_atfork`, and created again in the same place. -/
def atforkRun : List Action :=
  [.intMalloc 200000 (.mapped reusedAddress), .freeAtfork reusedAddress,
    .intMalloc 200000 (.mapped reusedAddress)]

theorem reused_placed : Placed reusedAddress (mappedRecord 200000) := by
  constructor <;> decide +kernel

theorem reused_grants (free : registry.Free reusedAddress (mappedRecord 200000)) :
    Proper registry (.intMalloc 200000 (.mapped reusedAddress)) := by
  have padded : checkedRequest2size 200000 = some 200000 := by decide +kernel
  intro nb requested
  cases padded.symm.trans requested
  refine ⟨by decide +kernel, by decide +kernel, fun byte inside => ?_⟩
  exact free byte (reused_placed.region.mpr inside)

theorem reused_create (created : step registry (.intMalloc 200000 (.mapped reusedAddress)) =
    some after) : (registry.create 200000 (some reusedAddress)).2 = after := by
  have padded : checkedRequest2size 200000 = some 200000 := by decide +kernel
  unfold step at created
  dsimp only at created
  unfold Registry.intMalloc at created
  rw [padded] at created
  exact Option.some.inj created

theorem reused_first {first : Registry} (mapped : Nat → Bool)
    (created : step (.initial mapped) (.intMalloc 200000 (.mapped reusedAddress)) = some first)
    (free : (Registry.initial mapped).Free reusedAddress (mappedRecord 200000)) :
    first.Kept ∧ first.Holds reusedAddress (mappedRecord 200000) := by
  have kept := initial_kept mapped
  have larger : 200000 < alignUp (wrap (200000 + sizeSz)) pageSize := by decide +kernel
  have fresh : (Registry.initial mapped).Fresh reusedAddress (mappedRecord 200000).size :=
    ⟨by decide +kernel, by decide +kernel, fun byte inside =>
      free byte (reused_placed.region.mpr inside)⟩
  have same := create_same kept fresh larger
  rw [reused_create created] at same
  refine ⟨(kept.enter reused_placed rfl free).same same, ?_⟩
  exact (Registry.holds_enter.mpr (Or.inl ⟨rfl, rfl⟩)).same same

/-- `free_atfork` breaks the tables: the reused address has two records. -/
theorem atfork_leaves_record :
    ¬∀ (mapped : Nat → Bool) (actions : List Action),
      Permitted step Proper (Registry.initial mapped) actions →
        ∃ final, run step (Registry.initial mapped) actions = some final ∧ final.Consistent := by
  intro claimed
  have free : (Registry.initial fun _ => false).Free reusedAddress (mappedRecord 200000) :=
    fun _ _ => rfl
  have permitted : Permitted step Proper (Registry.initial fun _ => false) atforkRun := by
    refine ⟨reused_grants free, fun first created => ?_⟩
    obtain ⟨kept, holds⟩ := reused_first _ created free
    refine ⟨holds.bound, fun second freed => ?_⟩
    obtain ⟨_, _, later⟩ := free_atfork_stale kept holds freed
    exact ⟨reused_grants later, fun _ _ => trivial⟩
  obtain ⟨final, ran, consistent⟩ := claimed _ atforkRun permitted
  obtain ⟨first, created, ran⟩ := run_cons ran
  obtain ⟨second, freed, ran⟩ := run_cons ran
  obtain ⟨third, again, ran⟩ := run_cons ran
  cases ran
  obtain ⟨kept, holds⟩ := reused_first _ created free
  obtain ⟨_, single, _⟩ := free_atfork_stale kept holds freed
  have stale : second.records reusedAddress ≠ [] := by
    rw [single]
    exact List.cons_ne_nil _ _
  rw [← reused_create again] at consistent
  exact create_at_stale stale (by decide +kernel) consistent

end SriGlibcMalloc.MappedChunks
