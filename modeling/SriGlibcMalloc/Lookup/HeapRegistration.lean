import SriGlibcMalloc.Lookup.Model
import SriGlibcMalloc.Transition.Run

/-!
# Registering and deleting heaps of several arenas

An arena holds its own lock while `sysmalloc` maps and then registers a heap,
and while `heap_trim` unmaps and then deregisters one; the four calls of
different arenas interleave freely. The kernel answers `new_heap` with any
aligned area that is not mapped, so with an area another arena has unmapped and
not deregistered yet as well. An arena is named by its `arena_index`.
-/

namespace SriGlibcMalloc.ArenaLookup

open Transition

set_option autoImplicit false

/-- Where an arena stands between the two calls of either pair. -/
inductive Pending
  | idle
  | registering (heap : Nat)
  | deregistering (heap : Nat)
  deriving DecidableEq, Repr

/-- `heaps` is the `prev` chain of the registered heaps of an arena, the newest
first; `mapped` says which aligned areas the kernel has mapped. -/
structure System where
  mapped : Nat → Bool
  lookup : Lookup
  heaps : Nat → List Nat
  pending : Nat → Pending

inductive Action
  | newHeap (arena : Nat) (heap : Nat)
  | lookupAddHeap (arena : Nat)
  | deleteHeap (arena : Nat)
  | lookupDeleteHeap (arena : Nat)
  deriving DecidableEq, Repr

/-- The smallest index of an arena that has heaps; `1` is the main arena. -/
def firstHeapArena : Nat := 2

/-- What `mmap` and the alignment in `new_heap` guarantee of an area. -/
structure Area (heapMax : Nat) (heap : Nat) : Prop where
  positive : 0 < heap
  aligned : heap % heapMax = 0
  word : heap + heapMax ≤ 2 ^ 64

instance (heapMax : Nat) (heap : Nat) : Decidable (Area heapMax heap) :=
  decidable_of_iff (0 < heap ∧ heap % heapMax = 0 ∧ heap + heapMax ≤ 2 ^ 64)
    ⟨fun ⟨positive, aligned, word⟩ => ⟨positive, aligned, word⟩,
      fun area => ⟨area.positive, area.aligned, area.word⟩⟩

def newHeap (system : System) (arena : Nat) (heap : Nat) : Option System :=
  if firstHeapArena ≤ arena ∧ system.pending arena = .idle ∧
      Area system.lookup.heapMax heap ∧ system.mapped heap = false then
    some { system with
      mapped := Function.update system.mapped heap true
      pending := Function.update system.pending arena (.registering heap) }
  else none

def registerHeap (system : System) (arena : Nat) : Option System :=
  match system.pending arena with
  | .registering heap =>
      some { system with
        lookup := lookupAddHeap system.lookup heap arena
        heaps := Function.update system.heaps arena (heap :: system.heaps arena)
        pending := Function.update system.pending arena .idle }
  | _ => none

/-- `heap_trim` deletes the newest heap, never the first one of its arena. -/
def deleteHeap (system : System) (arena : Nat) : Option System :=
  match system.pending arena, system.heaps arena with
  | .idle, heap :: prevHeap :: older =>
      some { system with
        mapped := Function.update system.mapped heap false
        heaps := Function.update system.heaps arena (prevHeap :: older)
        pending := Function.update system.pending arena (.deregistering heap) }
  | _, _ => none

def deregisterHeap (system : System) (arena : Nat) : Option System :=
  match system.pending arena with
  | .deregistering heap =>
      some { system with
        lookup := lookupDeleteHeap system.lookup heap
        pending := Function.update system.pending arena .idle }
  | _ => none

def step (system : System) : Action → Option System
  | .newHeap arena heap => newHeap system arena heap
  | .lookupAddHeap arena => registerHeap system arena
  | .deleteHeap arena => deleteHeap system arena
  | .lookupDeleteHeap arena => deregisterHeap system arena

/-- No arena has a heap yet; the main arena may have used the lookup. -/
def initial (lookup : Lookup) (mapped : Nat → Bool) : System where
  mapped := mapped
  lookup := { lookup with heapTbl := fun _ => tombstone }
  heaps := fun _ => []
  pending := fun _ => .idle

/-- Every registered heap is bound to its arena, and the lookup answers the
arena for its addresses. -/
def Attributed (system : System) : Prop :=
  ∀ arena heap, heap ∈ system.heaps arena →
    system.lookup.heapTbl heap = arena ∧
    ∀ ptr, heap ≤ ptr → ptr < heap + system.lookup.heapMax →
      system.lookup.inSbrkRegion ptr = false → system.lookup.mmapTbl ptr = tombstone →
      lookupArenaIndex system.lookup ptr = some arena

/-- A heap is not registered while another arena has unmapped the same area and
still has to deregister it. -/
def NotWhileDeleting (system : System) : Action → Prop
  | .lookupAddHeap arena =>
      ∀ heap other, system.pending arena = .registering heap →
        system.pending other ≠ .deregistering heap
  | _ => True

structure Registered (system : System) : Prop where
  live : ∀ arena heap, heap ∈ system.heaps arena →
    Area system.lookup.heapMax heap ∧ system.mapped heap = true ∧ firstHeapArena ≤ arena ∧
      system.lookup.heapTbl heap = arena
  liveIdle : ∀ arena heap other, heap ∈ system.heaps arena →
    system.pending other ≠ .registering heap ∧ system.pending other ≠ .deregistering heap
  distinct : ∀ arena, (system.heaps arena).Nodup
  mapping : ∀ arena heap, system.pending arena = .registering heap →
    Area system.lookup.heapMax heap ∧ system.mapped heap = true ∧ firstHeapArena ≤ arena
  single : ∀ arena other heap, system.pending arena = .registering heap →
    system.pending other = .registering heap → arena = other

variable {system next : System} {arena : Nat} {heap : Nat}

theorem initial_registered (lookup : Lookup) (mapped : Nat → Bool) :
    Registered (initial lookup mapped) where
  live := by
    intro arena heap member
    cases member
  liveIdle := by
    intro arena heap other member
    cases member
  distinct := by
    intro arena
    exact List.nodup_nil
  mapping := by
    intro arena heap registering
    cases registering
  single := by
    intro arena other heap registering
    cases registering

theorem update_eq_iff {Value : Type} {map : Nat → Value} {key other : Nat} {value found : Value} :
    Function.update map key value other = found ↔
      (other = key ∧ value = found) ∨ (other ≠ key ∧ map other = found) := by
  by_cases same : other = key
  · subst same
    simp
  · simp [same]

theorem busy_before {pending : Nat → Pending} {other : Nat} {state : Pending}
    (busy : state ≠ .idle) (after : Function.update pending arena .idle other = state) :
    other ≠ arena ∧ pending other = state := by
  rcases update_eq_iff.mp after with ⟨_, same⟩ | before
  · exact absurd same.symm busy
  · exact before

/-- The kernel does not hand out an area that is still mapped. -/
theorem new_heap_registered (registered : Registered system)
    (stepped : newHeap system arena heap = some next) : Registered next := by
  rw [newHeap, Option.ite_none_right_eq_some] at stepped
  obtain ⟨⟨indexed, idle, area, unmapped⟩, result⟩ := stepped
  cases result
  have apart : ∀ other, system.mapped other = true → other ≠ heap := by
    intro other isMapped same
    rw [same, unmapped] at isMapped
    cases isMapped
  have stays : ∀ other, system.mapped other = true →
      Function.update system.mapped heap true other = true := by
    intro other isMapped
    rw [Function.update_of_ne (apart other isMapped), isMapped]
  constructor
  · intro owner other member
    obtain ⟨otherArea, isMapped, index, bound⟩ := registered.live owner other member
    exact ⟨otherArea, stays other isMapped, index, bound⟩
  · intro owner other third member
    have different := apart other (registered.live owner other member).2.1
    have before := registered.liveIdle owner other third member
    constructor <;> intro after
    · rcases update_eq_iff.mp after with ⟨_, same⟩ | ⟨_, same⟩
      · cases same
        exact different rfl
      · exact before.1 same
    · rcases update_eq_iff.mp after with ⟨_, same⟩ | ⟨_, same⟩
      · cases same
      · exact before.2 same
  · exact registered.distinct
  · intro owner other registering
    rcases update_eq_iff.mp registering with ⟨sameArena, same⟩ | ⟨_, before⟩
    · cases same
      exact ⟨area, Function.update_self .., sameArena ▸ indexed⟩
    · obtain ⟨otherArea, isMapped, index⟩ := registered.mapping owner other before
      exact ⟨otherArea, stays other isMapped, index⟩
  · intro first second other left right
    rcases update_eq_iff.mp left with ⟨firstArena, same⟩ | ⟨_, before⟩
    · cases same
      rcases update_eq_iff.mp right with ⟨secondArena, _⟩ | ⟨_, before⟩
      · rw [firstArena, secondArena]
      · exact absurd rfl (apart heap (registered.mapping second heap before).2.1)
    · rcases update_eq_iff.mp right with ⟨_, same⟩ | ⟨_, beforeRight⟩
      · cases same
        exact absurd rfl (apart heap (registered.mapping first heap before).2.1)
      · exact registered.single first second other before beforeRight

theorem register_heap_registered (registered : Registered system)
    (permitted : NotWhileDeleting system (.lookupAddHeap arena))
    (stepped : registerHeap system arena = some next) : Registered next := by
  cases pending : system.pending arena with
  | idle => simp [registerHeap, pending] at stepped
  | deregistering heap => simp [registerHeap, pending] at stepped
  | registering heap =>
      simp only [registerHeap, pending, Option.some.injEq] at stepped
      subst stepped
      obtain ⟨area, isMapped, indexed⟩ := registered.mapping arena heap pending
      have fresh : ∀ owner, heap ∉ system.heaps owner := by
        intro owner member
        exact (registered.liveIdle owner heap arena member).1 pending
      have members : ∀ owner other,
          other ∈ Function.update system.heaps arena (heap :: system.heaps arena) owner →
            (owner = arena ∧ other = heap) ∨ (other ∈ system.heaps owner ∧ other ≠ heap) := by
        intro owner other member
        by_cases same : owner = arena
        · subst same
          rw [Function.update_self, List.mem_cons] at member
          rcases member with new | old
          · exact Or.inl ⟨rfl, new⟩
          · exact Or.inr ⟨old, fun equal => fresh owner (equal ▸ old)⟩
        · rw [Function.update_of_ne same] at member
          exact Or.inr ⟨member, fun equal => fresh owner (equal ▸ member)⟩
      constructor
      · intro owner other member
        rcases members owner other member with ⟨sameOwner, sameHeap⟩ | ⟨old, different⟩
        · subst sameOwner
          subst sameHeap
          exact ⟨area, isMapped, indexed, Function.update_self ..⟩
        · obtain ⟨otherArea, otherMapped, index, bound⟩ := registered.live owner other old
          exact ⟨otherArea, otherMapped, index,
            (Function.update_of_ne different ..).trans bound⟩
      · intro owner other third member
        rcases members owner other member with ⟨_, sameHeap⟩ | ⟨old, _⟩
        · subst sameHeap
          constructor <;> intro after
          · obtain ⟨different, before⟩ := busy_before (by simp) after
            exact different (registered.single third arena other before pending)
          · exact permitted other third pending (busy_before (by simp) after).2
        · have before := registered.liveIdle owner other third old
          constructor <;> intro after
          · exact before.1 (busy_before (by simp) after).2
          · exact before.2 (busy_before (by simp) after).2
      · intro owner
        by_cases same : owner = arena
        · subst same
          simpa [Function.update_self] using ⟨fresh owner, registered.distinct owner⟩
        · simpa [Function.update_of_ne same] using registered.distinct owner
      · intro owner other registering
        exact registered.mapping owner other (busy_before (by simp) registering).2
      · intro first second other left right
        exact registered.single first second other (busy_before (by simp) left).2
          (busy_before (by simp) right).2

theorem delete_heap_registered (registered : Registered system)
    (stepped : deleteHeap system arena = some next) : Registered next := by
  cases pending : system.pending arena with
  | registering heap => simp [deleteHeap, pending] at stepped
  | deregistering heap => simp [deleteHeap, pending] at stepped
  | idle =>
  match chain : system.heaps arena with
  | [] => simp [deleteHeap, pending, chain] at stepped
  | [first] => simp [deleteHeap, pending, chain] at stepped
  | heap :: prevHeap :: older =>
      simp only [deleteHeap, pending, chain, Option.some.injEq] at stepped
      subst stepped
      have newest : heap ∈ system.heaps arena := by
        rw [chain]
        exact List.mem_cons_self
      have bound := (registered.live arena heap newest).2.2.2
      have distinct := registered.distinct arena
      rw [chain, List.nodup_cons] at distinct
      have members : ∀ owner other,
          other ∈ Function.update system.heaps arena (prevHeap :: older) owner →
            other ∈ system.heaps owner ∧ other ≠ heap := by
        intro owner other member
        by_cases same : owner = arena
        · subst same
          rw [Function.update_self] at member
          rw [chain]
          exact ⟨List.mem_cons_of_mem _ member, fun equal => distinct.1 (equal ▸ member)⟩
        · rw [Function.update_of_ne same] at member
          constructor
          · exact member
          · intro equal
            subst equal
            exact same ((registered.live owner other member).2.2.2.symm.trans bound)
      have stays : ∀ other, other ≠ heap → system.mapped other = true →
          Function.update system.mapped heap false other = true := by
        intro other different isMapped
        rw [Function.update_of_ne different, isMapped]
      constructor
      · intro owner other member
        obtain ⟨old, different⟩ := members owner other member
        obtain ⟨area, isMapped, index, otherBound⟩ := registered.live owner other old
        exact ⟨area, stays other different isMapped, index, otherBound⟩
      · intro owner other third member
        obtain ⟨old, different⟩ := members owner other member
        have before := registered.liveIdle owner other third old
        constructor <;> intro after
        · rcases update_eq_iff.mp after with ⟨_, same⟩ | ⟨_, same⟩
          · cases same
          · exact before.1 same
        · rcases update_eq_iff.mp after with ⟨_, same⟩ | ⟨_, same⟩
          · cases same
            exact different rfl
          · exact before.2 same
      · intro owner
        by_cases same : owner = arena
        · subst same
          simpa [Function.update_self] using distinct.2
        · simpa [Function.update_of_ne same] using registered.distinct owner
      · intro owner other registering
        rcases update_eq_iff.mp registering with ⟨_, same⟩ | ⟨_, before⟩
        · cases same
        · obtain ⟨area, isMapped, index⟩ := registered.mapping owner other before
          have different : other ≠ heap := by
            intro equal
            subst equal
            exact (registered.liveIdle arena other owner newest).1 before
          exact ⟨area, stays other different isMapped, index⟩
      · intro first second other left right
        rcases update_eq_iff.mp left with ⟨_, same⟩ | ⟨_, beforeLeft⟩
        · cases same
        rcases update_eq_iff.mp right with ⟨_, same⟩ | ⟨_, beforeRight⟩
        · cases same
        exact registered.single first second other beforeLeft beforeRight

/-- No registered heap is being deregistered, so none loses its binding. -/
theorem deregister_heap_registered (registered : Registered system)
    (stepped : deregisterHeap system arena = some next) : Registered next := by
  cases pending : system.pending arena with
  | idle => simp [deregisterHeap, pending] at stepped
  | registering heap => simp [deregisterHeap, pending] at stepped
  | deregistering heap =>
      simp only [deregisterHeap, pending, Option.some.injEq] at stepped
      subst stepped
      constructor
      · intro owner other member
        obtain ⟨area, isMapped, index, bound⟩ := registered.live owner other member
        have different : other ≠ heap := by
          intro equal
          subst equal
          exact (registered.liveIdle owner other arena member).2 pending
        exact ⟨area, isMapped, index, (Function.update_of_ne different ..).trans bound⟩
      · intro owner other third member
        have before := registered.liveIdle owner other third member
        constructor <;> intro after
        · exact before.1 (busy_before (by simp) after).2
        · exact before.2 (busy_before (by simp) after).2
      · exact registered.distinct
      · intro owner other registering
        exact registered.mapping owner other (busy_before (by simp) registering).2
      · intro first second other left right
        exact registered.single first second other (busy_before (by simp) left).2
          (busy_before (by simp) right).2

theorem step_registered (state : System) (action : Action) (after : System)
    (registered : Registered state) (permitted : NotWhileDeleting state action)
    (stepped : step state action = some after) : Registered after := by
  cases action with
  | newHeap arena heap => exact new_heap_registered registered stepped
  | lookupAddHeap arena => exact register_heap_registered registered permitted stepped
  | deleteHeap arena => exact delete_heap_registered registered stepped
  | lookupDeleteHeap arena => exact deregister_heap_registered registered stepped

theorem step_heap_max (state : System) (action : Action) (after : System)
    (stepped : step state action = some after) :
    after.lookup.heapMax = state.lookup.heapMax := by
  cases action with
  | newHeap arena heap =>
      rw [step, newHeap, Option.ite_none_right_eq_some] at stepped
      cases stepped.2
      rfl
  | lookupAddHeap arena =>
      rw [step, registerHeap] at stepped
      split at stepped <;> cases stepped
      rfl
  | deleteHeap arena =>
      rw [step, deleteHeap] at stepped
      split at stepped <;> cases stepped
      rfl
  | lookupDeleteHeap arena =>
      rw [step, deregisterHeap] at stepped
      split at stepped <;> cases stepped
      rfl

theorem Registered.attributed {bits : Nat} (registered : Registered system)
    (power : system.lookup.heapMax = 2 ^ bits) : Attributed system := by
  intro arena heap member
  obtain ⟨area, _, index, bound⟩ := registered.live arena heap member
  have indexed : arena ≠ tombstone := Nat.ne_of_gt (Nat.lt_of_lt_of_le (by decide) index)
  constructor
  · exact bound
  · intro ptr above below outside unmapped
    rw [power] at area below
    have small : bits ≤ 64 := by
      apply (Nat.pow_le_pow_iff_right (Nat.one_lt_two)).mp
      exact Nat.le_trans (Nat.le_add_left ..) area.word
    have word : ptr < 2 ^ 64 := Nat.lt_of_lt_of_le below area.word
    have base := heap_for_ptr small area.aligned above below word
    simp [lookupArenaIndex, outside, unmapped, power, base, bound, indexed]

/-- In every interleaving in which no heap is registered while its area is still
to be deregistered, a registered heap is attributed to its arena. -/
theorem registered_heaps_attributed (bits : Nat) (lookup : Lookup) (mapped : Nat → Bool)
    (power : lookup.heapMax = 2 ^ bits) (actions : List Action) (final : System)
    (permitted : Permitted step NotWhileDeleting (initial lookup mapped) actions)
    (ran : run step (initial lookup mapped) actions = some final) : Attributed final := by
  have preserved : ∀ state action after,
      Registered state ∧ state.lookup.heapMax = 2 ^ bits → NotWhileDeleting state action →
        step state action = some after → Registered after ∧ after.lookup.heapMax = 2 ^ bits := by
    intro state action after invariant allowed stepped
    exact ⟨step_registered state action after invariant.1 allowed stepped,
      (step_heap_max state action after stepped).trans invariant.2⟩
  have holds := run_invariant preserved actions _ final
    ⟨initial_registered lookup mapped, power⟩ permitted ran
  exact holds.1.attributed holds.2

/-- Arena 3 registers another area between the two calls of `heap_trim` for arena 2. -/
def apartActions : List Action :=
  [.newHeap 2 (2 ^ 26), .lookupAddHeap 2, .newHeap 2 (2 ^ 27), .lookupAddHeap 2, .deleteHeap 2,
    .newHeap 3 (3 * 2 ^ 26), .lookupAddHeap 3, .lookupDeleteHeap 2]

def Quiet (pending : Nat → Pending) : Prop := ∀ other heap, pending other ≠ .deregistering heap

theorem Quiet.update {pending : Nat → Pending} {state : Pending} (quiet : Quiet pending)
    (other : ∀ heap, state ≠ .deregistering heap) :
    Quiet (Function.update pending arena state) := by
  intro owner heap after
  rcases update_eq_iff.mp after with ⟨_, same⟩ | ⟨_, before⟩
  · exact other heap same
  · exact quiet owner heap before

theorem Quiet.register {pending : Nat → Pending} (quiet : Quiet pending) (heap : Nat) :
    Quiet (Function.update pending arena (.registering heap)) :=
  quiet.update fun _ same => by cases same

theorem Quiet.finish {pending : Nat → Pending} (quiet : Quiet pending) :
    Quiet (Function.update pending arena .idle) :=
  quiet.update fun _ same => by cases same

theorem quiet_initial (lookup : Lookup) (mapped : Nat → Bool) :
    Quiet (initial lookup mapped).pending :=
  fun _ _ same => by cases same

theorem apart_permitted :
    Permitted step NotWhileDeleting (initial (lookupInit (2 ^ 26)) fun _ => false)
      apartActions := by
  have idle := quiet_initial (lookupInit (2 ^ 26)) fun _ => false
  refine ⟨trivial, fun mapped done => ?_⟩
  cases done
  refine ⟨fun heap other _ deregistering => ?_, fun registered done => ?_⟩
  · exact idle.register (2 ^ 26) other heap deregistering
  cases done
  refine ⟨trivial, fun mapped done => ?_⟩
  cases done
  refine ⟨fun heap other _ deregistering => ?_, fun registered done => ?_⟩
  · exact (idle.register (2 ^ 26)).finish.register (2 ^ 27) other heap deregistering
  cases done
  refine ⟨trivial, fun deleted done => ?_⟩
  cases done
  refine ⟨trivial, fun mapped done => ?_⟩
  cases done
  -- Arena 2 is deleting the area at `2 ^ 27`, and arena 3 registers the one after it.
  refine ⟨fun heap other registering deregistering => ?_, fun registered done => ?_⟩
  · rcases update_eq_iff.mp deregistering with ⟨_, same⟩ | ⟨_, before⟩
    · cases same
    rcases update_eq_iff.mp before with ⟨_, same⟩ | ⟨_, earlier⟩
    · cases same
      exact absurd (Pending.registering.inj registering) (by decide)
    · exact (idle.register (2 ^ 26)).finish.register (2 ^ 27) |>.finish other heap earlier
  cases done
  exact ⟨trivial, fun _ _ => trivial⟩

theorem apart_heaps_attributed :
    ∃ final, run step (initial (lookupInit (2 ^ 26)) fun _ => false) apartActions = some final ∧
      Attributed final := by
  refine ⟨_, rfl, ?_⟩
  exact registered_heaps_attributed 26 (lookupInit (2 ^ 26)) (fun _ => false) rfl apartActions _
    apart_permitted rfl

/-- Arena 3 registers the area of the second heap of arena 2 between the two
calls of `heap_trim`: its heap ends up without a binding. -/
theorem reused_area_loses_its_arena :
    ∃ final, run step (initial (lookupInit (2 ^ 26)) fun _ => false)
      [.newHeap 2 (2 ^ 26), .lookupAddHeap 2, .newHeap 2 (2 ^ 27), .lookupAddHeap 2,
        .deleteHeap 2, .newHeap 3 (2 ^ 27), .lookupAddHeap 3, .lookupDeleteHeap 2] = some final ∧
      lookupArenaIndex final.lookup (2 ^ 27) = none ∧ ¬Attributed final := by
  refine ⟨_, rfl, by decide, ?_⟩
  intro attributed
  have bound := (attributed 3 (2 ^ 27) (by decide)).1
  revert bound
  decide

end SriGlibcMalloc.ArenaLookup
