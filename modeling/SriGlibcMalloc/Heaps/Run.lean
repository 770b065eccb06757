import SriGlibcMalloc.Heaps.Trim
import SriGlibcMalloc.BlockLedger.Requests
import SriGlibcMalloc.Transition.Trace

/-!
# Runs of an arena

An arena of a thread starts with one heap and takes one action after the other: what `malloc`,
`free`, `realloc`, `memalign` and the trimming do with its chunks. Which chunk an action is
about is up to the caller, as long as the tests pass that lead to it.
-/

namespace SriGlibcMalloc.Heaps

open BoundaryTags
open BlockLedger
open Chunks
open EntryPoints (minSize)
open Bins (ChunkSize fastbinIndex)
open MainArena (pageSize)
open Transition

set_option autoImplicit false

inductive Action
  | takeFast (p nb maxFast : Nat)
  | takeWhole (p nb : Nat)
  | carve (p nb : Nat)
  | useTop (nb : Nat)
  | sysmalloc (nb topPad maxFast : Nat) (mprotect : Bool) (mapped : Option Nat)
  | intFree (p maxFast : Nat)
  | consolidate (p : Nat)
  | shrink (p nb maxFast : Nat)
  | growIntoTop (p nb : Nat)
  | growForward (p nb maxFast : Nat)
  | growNextDoor (p nb maxFast : Nat)
  | giveBackLeader (p leadsize maxFast : Nat)
  | giveBackRemainder (p nb maxFast : Nat)
  | heapTrim (pad trimThreshold : Nat) (mayShrink remapped : Bool)
  deriving DecidableEq, Repr

def ThreadArena.on (state : ThreadArena) (change : Arena → Option Arena) : Option ThreadArena :=
  (change state.arena).map fun arena => { state with arena := arena }

def ThreadArena.act (state : ThreadArena) : Action → Option ThreadArena
  | .takeFast p nb maxFast => state.on (Arena.takeFast · p nb maxFast)
  | .takeWhole p nb => state.on (Arena.takeWhole · p nb)
  | .carve p nb => state.on (Arena.carve · p nb)
  | .useTop nb => state.on (Arena.useTop · nb)
  | .sysmalloc nb topPad maxFast mprotect mapped =>
      (state.sysmalloc nb topPad maxFast mprotect mapped).map Prod.snd
  | .intFree p maxFast => state.on (Arena.intFree · p maxFast)
  | .consolidate p => state.on (Arena.consolidate · p)
  | .shrink p nb maxFast => state.on (Arena.shrink · p nb maxFast)
  | .growIntoTop p nb => state.on (Arena.growIntoTop · p nb)
  | .growForward p nb maxFast => state.on (Arena.growForward · p nb maxFast)
  | .growNextDoor p nb maxFast => state.on (Arena.growNextDoor · p nb maxFast)
  | .giveBackLeader p leadsize maxFast => state.on (Arena.giveBackLeader · p leadsize maxFast)
  | .giveBackRemainder p nb maxFast => state.on (Arena.giveBackRemainder · p nb maxFast)
  | .heapTrim pad trimThreshold mayShrink remapped =>
      state.heapTrim pad trimThreshold mayShrink remapped

def Placed (arena : Arena) (p : Nat) (place : Place) (test : Tag → Prop) : Prop :=
  ∃ tag ∈ arena.htbl p, tag.place = some place ∧ test tag

def Followed (arena : Arena) (tag : Tag) (test : Nat → Tag → Prop) : Prop :=
  ∃ next ∈ tag.next, ∃ tagNext ∈ arena.htbl next, test next tagNext

/-- The tests that the routines make before an action, and what the program promises: what is
freed or resized is held. -/
def Proper (state : ThreadArena) : Action → Prop
  | .takeFast p nb maxFast =>
      ChunkSize nb ∧ nb ≤ maxFast ∧ maxFast ≤ maxFastSize ∧
        Placed state.arena p .fast fun tag => fastbinIndex tag.size = fastbinIndex nb
  | .takeWhole p nb =>
      Placed state.arena p .bin fun tag => nb ≤ tag.size ∧ tag.size - nb < minSize
  | .carve p nb => ChunkSize nb ∧ Placed state.arena p .bin fun tag => nb + minSize ≤ tag.size
  | .useTop nb =>
      ChunkSize nb ∧ ∃ tag ∈ state.arena.htbl state.arena.mdTop, nb + minSize ≤ tag.size
  | .sysmalloc nb _ maxFast _ mapped =>
      ChunkSize nb ∧ maxFast ≤ maxFastSize ∧ Answers state mapped ∧
        ∀ tag ∈ state.arena.htbl state.arena.mdTop, tag.size < nb + minSize
  | .intFree p maxFast => maxFast ≤ maxFastSize ∧ Placed state.arena p .held fun _ => True
  | .consolidate p => Placed state.arena p .fast fun _ => True
  | .shrink p nb maxFast =>
      ChunkSize nb ∧ maxFast ≤ maxFastSize ∧ Placed state.arena p .held fun tag => nb ≤ tag.size
  | .growIntoTop p nb =>
      ChunkSize nb ∧ Placed state.arena p .held fun tag => tag.size < nb ∧
        Followed state.arena tag fun next top =>
          next = state.arena.mdTop ∧ nb + minSize ≤ tag.size + top.size
  | .growForward p nb maxFast =>
      ChunkSize nb ∧ maxFast ≤ maxFastSize ∧ Placed state.arena p .held fun tag =>
        tag.size < nb ∧ Followed state.arena tag fun next tagNext =>
          next ≠ state.arena.mdTop ∧ inuseBit state.arena.htbl next = some false ∧
            nb ≤ tag.size + tagNext.size
  | .growNextDoor p nb maxFast =>
      ChunkSize nb ∧ maxFast ≤ maxFastSize ∧ Placed state.arena p .held fun tag =>
        Followed state.arena tag fun _ tagNext =>
          tagNext.place = some .held ∧ nb ≤ tagNext.size + tag.size
  | .giveBackLeader p leadsize maxFast =>
      leadsize % 16 = 0 ∧ minSize ≤ leadsize ∧ maxFast ≤ maxFastSize ∧
        Placed state.arena p .held fun tag => leadsize + minSize ≤ tag.size
  | .giveBackRemainder p nb maxFast =>
      ChunkSize nb ∧ maxFast ≤ maxFastSize ∧ Placed state.arena p .held fun tag => nb ≤ tag.size
  | .heapTrim _ _ _ _ => True

instance chunkSizeDecidable (nb : Nat) : Decidable (ChunkSize nb) :=
  decidable_of_iff (minSize ≤ nb ∧ nb % 16 = 0 ∧ nb + minSize < 2 ^ 64)
    ⟨fun parts => ⟨parts.1, parts.2.1, parts.2.2⟩,
      fun chunk => ⟨chunk.minimal, chunk.aligned, chunk.room⟩⟩

instance answersDecidable (state : ThreadArena) (mapped : Option Nat) :
    Decidable (Answers state mapped) := inferInstanceAs (Decidable (∀ addr ∈ mapped, _))

instance placedDecidable (arena : Arena) (p : Nat) (place : Place) (test : Tag → Prop)
    [DecidablePred test] : Decidable (Placed arena p place test) :=
  inferInstanceAs (Decidable (∃ tag ∈ arena.htbl p, _))

instance followedDecidable (arena : Arena) (tag : Tag) (test : Nat → Tag → Prop)
    [∀ next tagNext, Decidable (test next tagNext)] : Decidable (Followed arena tag test) :=
  inferInstanceAs (Decidable (∃ next ∈ tag.next, ∃ tagNext ∈ arena.htbl next, _))

instance properDecidable (state : ThreadArena) : ∀ action, Decidable (Proper state action)
  | .takeFast _ _ _ => inferInstanceAs (Decidable (_ ∧ _))
  | .takeWhole _ _ => inferInstanceAs (Decidable (Placed _ _ _ _))
  | .carve _ _ => inferInstanceAs (Decidable (_ ∧ _))
  | .useTop _ => inferInstanceAs (Decidable (_ ∧ _))
  | .sysmalloc _ _ _ _ _ => inferInstanceAs (Decidable (_ ∧ _))
  | .intFree _ _ => inferInstanceAs (Decidable (_ ∧ _))
  | .consolidate _ => inferInstanceAs (Decidable (Placed _ _ _ _))
  | .shrink _ _ _ => inferInstanceAs (Decidable (_ ∧ _))
  | .growIntoTop _ _ => inferInstanceAs (Decidable (_ ∧ _))
  | .growForward _ _ _ => inferInstanceAs (Decidable (_ ∧ _))
  | .growNextDoor _ _ _ => inferInstanceAs (Decidable (_ ∧ _))
  | .giveBackLeader _ _ _ => inferInstanceAs (Decidable (_ ∧ _))
  | .giveBackRemainder _ _ _ => inferInstanceAs (Decidable (_ ∧ _))
  | .heapTrim _ _ _ _ => inferInstanceAs (Decidable True)

/-- What an action is asked to do with the blocks. -/
def Action.request : Action → Request
  | .takeFast _ nb _ => .allocate nb
  | .takeWhole _ nb => .allocate nb
  | .carve _ nb => .allocate nb
  | .useTop nb => .allocate nb
  | .sysmalloc nb topPad _ _ mapped =>
      if Provided nb topPad mapped then .allocate nb else .attempt nb
  | .intFree p _ => .release p
  | .consolidate _ => .nothing
  | .shrink p nb _ => .resize p nb
  | .growIntoTop p nb => .resize p nb
  | .growForward p nb _ => .resize p nb
  | .growNextDoor p nb _ => .join p nb
  | .giveBackLeader p leadsize _ => .behead p leadsize
  | .giveBackRemainder p nb _ => .cut p nb
  | .heapTrim _ _ _ _ => .nothing

variable {form : MallocState} {first p nb size maxFast : Nat} {state after start final : ThreadArena}
variable {base : Table} {regions : List Region} {arena : Arena} {tag : Tag} {ledger : Ledger}
variable {action : Action} {actions : List Action}

theorem InOrder.on (ordered : InOrder form first state) (change : Arena → Option Arena)
    (done : ∃ after, change state.arena = some after ∧
      Kept (initialRecords form first) (regionsOf form state.heaps) state.arena after ∧
      after.held = ledger) :
    ∃ after, state.on change = some after ∧ InOrder form first after ∧ after.arena.held = ledger := by
  obtain ⟨arena, changed, kept, held⟩ := done
  refine ⟨{ state with arena := arena }, ?_, ordered.keep kept, held⟩
  unfold ThreadArena.on
  rw [changed]
  rfl

theorem InOrder.allocates (ordered : InOrder form first after) (unheld : ledger p = none)
    (enough : nb ≤ size) (frugal : size < nb + minSize)
    (held : after.arena.held = Function.update ledger p (some size)) :
    Serves minSize (.allocate nb) ledger after.arena.held := by
  have separate := ordered.orderly.separate
  rw [held] at separate ⊢
  exact .allocate enough frugal (clear_of_unowed unheld separate)

theorem InOrder.resizes {old : Nat} (ordered : InOrder form first after)
    (owed : ledger p = some old) (enough : nb ≤ size) (frugal : size < nb + minSize)
    (held : after.arena.held = Function.update ledger p (some size)) :
    Serves minSize (.resize p nb) ledger after.arena.held := by
  have separate := ordered.orderly.separate
  rw [held] at separate ⊢
  exact .resize owed enough frugal (clear_of_separate separate)

/-- Top is smaller than what is asked for. -/
theorem below_request (short : ∀ tag ∈ state.arena.htbl state.arena.mdTop, tag.size < nb + minSize)
    (size : Nat) (sized : state.arena.chunksize state.arena.mdTop = some size) :
    size < nb + minSize := by
  obtain ⟨tag, listed, same⟩ := Option.map_eq_some_iff.mp sized
  exact same ▸ short tag listed

theorem request_provided {topPad : Nat} {mprotect : Bool} {mapped : Option Nat}
    (provided : Provided nb topPad mapped) :
    (Action.sysmalloc nb topPad maxFast mprotect mapped).request = .allocate nb := if_pos provided

theorem request_attempt {topPad : Nat} {mprotect : Bool} {mapped : Option Nat}
    (short : ¬Provided nb topPad mapped) :
    (Action.sysmalloc nb topPad maxFast mprotect mapped).request = .attempt nb := if_neg short

theorem request_wanted (nb topPad maxFast : Nat) (mprotect : Bool) (mapped : Option Nat) :
    (Action.sysmalloc nb topPad maxFast mprotect mapped).request.wanted = some nb := by
  by_cases provided : Provided nb topPad mapped
  · rw [request_provided provided]
    rfl
  · rw [request_attempt provided]
    rfl

/-- A proper action goes through; the arena is in order after it, and the blocks that are held
are as asked. -/
theorem InOrder.act (ordered : InOrder form first state) (proper : Proper state action) :
    ∃ after, state.act action = some after ∧ InOrder form first after ∧
      Serves minSize action.request state.arena.held after.arena.held := by
  have orderly := ordered.orderly
  have spare {nb : Nat} : nb < nb + minSize := Nat.lt_add_of_pos_right (by decide)
  cases action with
  | takeFast p nb maxFast =>
      obtain ⟨request, small, limit, tag, listed, cached, index⟩ := proper
      obtain ⟨after, taking, inOrder, held⟩ :=
        ordered.on (Arena.takeFast · p nb maxFast)
        (orderly.take_fast listed cached small limit request index)
      have unheld := not_held_of_placed listed (by rw [cached]; exact fun same => by cases same)
      exact ⟨after, taking, inOrder,
        inOrder.allocates unheld (Nat.le_refl _) spare held⟩
  | takeWhole p nb =>
      obtain ⟨tag, listed, binned, fits, exhausted⟩ := proper
      obtain ⟨taken, taking, kept, same, _⟩ := orderly.take_whole listed binned fits exhausted
      obtain ⟨after, taking, inOrder, held⟩ :=
        ordered.on (Arena.takeWhole · p nb) ⟨taken, taking, kept, same⟩
      have unheld := not_held_of_placed listed (by rw [binned]; exact fun same => by cases same)
      exact ⟨after, taking, inOrder, inOrder.allocates unheld fits (by omega) held⟩
  | carve p nb =>
      obtain ⟨request, tag, listed, binned, fits⟩ := proper
      obtain ⟨carved, carving, kept, same, _⟩ := orderly.carve listed binned request fits
      obtain ⟨after, carving, inOrder, held⟩ :=
        ordered.on (Arena.carve · p nb) ⟨carved, carving, kept, same⟩
      have unheld := not_held_of_placed listed (by rw [binned]; exact fun same => by cases same)
      exact ⟨after, carving, inOrder,
        inOrder.allocates unheld (Nat.le_refl _) spare held⟩
  | useTop nb =>
      obtain ⟨request, tag, listed, fits⟩ := proper
      obtain ⟨divided, using', kept, same, _⟩ :=
        orderly.use_top (congrArg (Option.map Tag.size) listed) request fits
      obtain ⟨after, using', inOrder, held⟩ :=
        ordered.on (Arena.useTop · nb) ⟨divided, using', kept, same⟩
      exact ⟨after, using', inOrder,
        inOrder.allocates orderly.top_unheld (Nat.le_refl _) spare held⟩
  | sysmalloc nb topPad maxFast mprotect mapped =>
      obtain ⟨request, limit, answers, short⟩ := proper
      obtain ⟨result, after, growing, inOrder, unheld, held, granted⟩ := @InOrder.sysmalloc _ _ nb
        topPad maxFast state mprotect mapped ordered request (below_request short) limit answers
      refine ⟨after, congrArg (Option.map Prod.snd) growing, inOrder, ?_⟩
      cases result with
      | none =>
          rw [held, request_attempt fun provided => granted provided rfl]
          exact .refuse
      | some p =>
          have served := inOrder.allocates (unheld p rfl).1 (Nat.le_refl nb) spare held
          by_cases provided : Provided nb topPad mapped
          · rw [request_provided provided]
            exact served
          · rw [request_attempt provided]
            exact .attempt served
  | intFree p maxFast =>
      obtain ⟨limit, tag, listed, owned, _⟩ := proper
      obtain ⟨after, freeing, inOrder, held⟩ := ordered.on (Arena.intFree · p maxFast)
        (orderly.int_free listed owned limit)
      refine ⟨after, freeing, inOrder, ?_⟩
      rw [held]
      exact .release (held_of_placed listed owned)
  | consolidate p =>
      obtain ⟨tag, listed, cached, _⟩ := proper
      obtain ⟨after, merging, inOrder, held⟩ := ordered.on (Arena.consolidate · p)
        (orderly.consolidate listed cached)
      refine ⟨after, merging, inOrder, ?_⟩
      rw [held]
      exact .nothing
  | shrink p nb maxFast =>
      obtain ⟨request, limit, tag, listed, owned, fits⟩ := proper
      obtain ⟨after, shrinking, inOrder, held⟩ :=
        ordered.on (Arena.shrink · p nb maxFast)
        (orderly.shrink listed owned request fits limit)
      obtain ⟨enough, frugal⟩ := kept_size_spec fits
      exact ⟨after, shrinking, inOrder,
        inOrder.resizes (held_of_placed listed owned) enough frugal held⟩
  | growIntoTop p nb =>
      obtain ⟨request, tag, listed, owned, short, next, follows, top, listedTop, isTop, fits⟩ :=
        proper
      subst isTop
      obtain ⟨after, growing, inOrder, held⟩ := ordered.on (Arena.growIntoTop · p nb)
        (orderly.grow_into_top listed owned
        request follows (congrArg (Option.map Tag.size) listedTop) short fits)
      exact ⟨after, growing, inOrder, inOrder.resizes (held_of_placed listed owned)
        (Nat.le_refl _) spare held⟩
  | growForward p nb maxFast =>
      obtain ⟨request, limit, tag, listed, owned, short, next, follows, tagNext, listedNext, below,
        unused, fits⟩ := proper
      obtain ⟨after, growing, inOrder, held⟩ := ordered.on (Arena.growForward · p nb maxFast)
        (orderly.grow_forward listed owned
        request follows unused below (congrArg (Option.map Tag.size) listedNext) short fits limit)
      obtain ⟨enough, frugal⟩ := kept_size_spec fits
      exact ⟨after, growing, inOrder,
        inOrder.resizes (held_of_placed listed owned) enough frugal held⟩
  | growNextDoor p nb maxFast =>
      obtain ⟨request, limit, tag, listed, owned, next, follows, tagNext, listedNext, ownedNext,
        fits⟩ := proper
      obtain ⟨after, growing, inOrder, held⟩ := ordered.on (Arena.growNextDoor · p nb maxFast)
        (orderly.grow_next_door listed owned
        request follows listedNext ownedNext fits limit)
      obtain ⟨enough, frugal⟩ := kept_size_spec fits
      refine ⟨after, growing, inOrder, ?_⟩
      have separate := inOrder.orderly.separate
      rw [held] at separate ⊢
      exact .join (held_of_placed listed owned) (held_of_placed listedNext ownedNext) enough frugal
        (clear_of_separate separate)
  | giveBackLeader p leadsize maxFast =>
      obtain ⟨aligned, large, limit, tag, listed, owned, fits⟩ := proper
      obtain ⟨after, freeing, inOrder, held⟩ := ordered.on (Arena.giveBackLeader · p leadsize maxFast)
        (orderly.give_back_leader listed owned
        aligned large fits limit)
      refine ⟨after, freeing, inOrder, ?_⟩
      rw [held]
      exact .behead (held_of_placed listed owned) (Nat.le_trans (Nat.le_add_right _ _) fits)
  | giveBackRemainder p nb maxFast =>
      obtain ⟨request, limit, tag, listed, owned, fits⟩ := proper
      obtain ⟨after, freeing, inOrder, held⟩ :=
        ordered.on (Arena.giveBackRemainder · p nb maxFast)
        (orderly.give_back_remainder listed owned request limit)
      refine ⟨after, freeing, inOrder, ?_⟩
      rw [held]
      apply Serves.cut (held_of_placed listed owned)
      · split_ifs with small
        · exact fits
        · exact Nat.le_refl _
      · split_ifs with small
        · exact small
        · exact Nat.le_add_right _ _
      · split_ifs with small
        · exact Nat.le_refl _
        · exact fits
  | heapTrim pad trimThreshold mayShrink remapped =>
      obtain ⟨after, trimming, inOrder, held, _⟩ :=
        @InOrder.heap_trim _ _ pad trimThreshold _ mayShrink remapped ordered
      refine ⟨after, trimming, inOrder, ?_⟩
      rw [held]
      exact .nothing

def Aligned (mapped : Option Nat) : Prop :=
  ∀ addr ∈ mapped, addr % heapMaxSize = 0 ∧ addr + heapMaxSize < 2 ^ 63

instance alignedDecidable (mapped : Option Nat) : Decidable (Aligned mapped) :=
  inferInstanceAs (Decidable (∀ addr ∈ mapped, _))

theorem new_arena_in_order {size topPad : Nat} {answer answer' : Option Nat}
    (made : intNewArena form size topPad answer answer' = some start) (aligned : Aligned answer)
    (aligned' : Aligned answer') :
    ∃ first, InOrder form first start ∧ start.arena.held = (fun _ => none) ∧
      start.heaps.map HeapInfo.addr = [first] := by
  obtain ⟨heap, found, made⟩ := Option.bind_eq_some_iff.mp made
  rw [← Option.some.inj made]
  have answered : ∃ request topPad mapped, newHeap request topPad mapped = some heap ∧
      Aligned mapped := by
    cases tried : newHeap (MainArena.wrap (size + (heapInfoSize + form.size + 16))) topPad answer with
    | some _ =>
        rw [tried] at found
        cases found
        exact ⟨_, _, _, tried, aligned⟩
    | none =>
        rw [tried] at found
        exact ⟨_, _, _, found, aligned'⟩
  obtain ⟨request, padding, mapped, result, aligned⟩ := answered
  obtain ⟨answered, accessible, large, fits, whole⟩ := new_heap_spec result
  obtain ⟨masked, bounded⟩ := aligned heap.addr answered
  have okHeap : HeapOk heap :=
    ⟨masked, whole, fits, bounded, Nat.le_of_eq accessible.symm, accessible ▸ fits⟩
  obtain ⟨low, high, place⟩ := first_chunk_spec form heap.addr
  have ok : HeapsOk form heap.addr [heap] :=
    { each := fun other member => List.mem_singleton.mp member ▸ okHeap
      distinct := List.nodup_singleton _
      first := rfl
      room := by
        intro region listed
        rw [List.mem_singleton.mp listed]
        dsimp only [chunksStart]
        omega }
  have room := ok.room _ List.mem_cons_self
  dsimp only [chunksStart] at room
  have paged : (heap.addr + heap.size) % pageSize = 0 := ok.ground.paged _ rfl
  simp only [pageSize] at paged
  have sound : Sound ⟨firstChunk form heap.addr,
      heap.addr + heap.size - firstChunk form heap.addr, 0, .top⟩ :=
    sound_chunk rfl place (by omega) (by omega) fun cached => by cases cached
  have ground : Ground (initialRecords form heap.addr) (regionsOf form [heap]) heap.size false :=
    ok.ground
  have fills : Fills (regionsOf form [heap]) [⟨firstChunk form heap.addr,
      heap.addr + heap.size - firstChunk form heap.addr, 0, .top⟩] :=
    reaches_start.fills rfl rfl (by dsimp only [chunksStart]; omega)
  have layout := @layout_of _ _ ⟨initialRecords form heap.addr, firstChunk form heap.addr, heap.size,
    false⟩ [] _ ground fills (fun piece member => List.mem_singleton.mp member ▸ sound)
    (List.isChain_singleton _) rfl
  have same : setHead (registerChunk (initialRecords form heap.addr) (firstChunk form heap.addr))
      (firstChunk form heap.addr) (heap.addr + heap.size - firstChunk form heap.addr) =
        table (initialRecords form heap.addr) none none [⟨firstChunk form heap.addr,
          heap.addr + heap.size - firstChunk form heap.addr, 0, .top⟩] := by
    unfold setHead retag registerChunk
    rw [Function.update_self, Function.update_idem]
    rfl
  refine ⟨heap.addr, ⟨ok, rfl, rfl, ?_⟩, ?_, rfl⟩
  · rw [same]
    exact ⟨_, layout⟩
  · dsimp only
    rw [same]
    exact layout.held_eq.trans (Function.update_eq_self_iff.mpr rfl)

def Begun (form : MallocState) (start : ThreadArena) : Prop :=
  ∃ size topPad answer answer', Aligned answer ∧ Aligned answer' ∧
    intNewArena form size topPad answer answer' = some start

theorem Begun.in_order (begun : Begun form start) :
    ∃ first, InOrder form first start ∧ start.arena.held = (fun _ => none) ∧
      start.heaps.map HeapInfo.addr = [first] := by
  obtain ⟨size, topPad, answer, answer', aligned, aligned', made⟩ := begun
  exact new_arena_in_order made aligned aligned'

/-- An arena whose first heap is at the third multiple of `HEAP_MAX_SIZE`. -/
def sampleForm : MallocState := ⟨4096, 64, by decide, by decide⟩

def sampleStart : ThreadArena :=
  let addr := 3 * heapMaxSize
  let top := addr + 4128
  let htbl := setHead (registerChunk (initialRecords sampleForm addr) top) top (heapMinSize - 4128)
  ⟨⟨htbl, top, heapMinSize, false⟩, [⟨addr, heapMinSize, heapMinSize⟩]⟩

theorem sample_begun : Begun sampleForm sampleStart :=
  ⟨100, 0, some (3 * heapMaxSize), none, by decide, by decide, rfl⟩

/-- A block from top, one from a heap of its own because the first one cannot grow, and one from
what was left of the old top. -/
def sampleActions : List Action :=
  [.useTop 64, .sysmalloc 100000 0 128 false (some (7 * heapMaxSize)),
    .carve (3 * heapMaxSize + 4128 + 64) 1024, .intFree (3 * heapMaxSize + 4128) 128]

def Reached (form : MallocState) (state : ThreadArena) : Prop :=
  ∃ start actions, Begun form start ∧ Permitted ThreadArena.act Proper start actions ∧
    run ThreadArena.act start actions = some state

theorem InOrder.run_serves (ordered : InOrder form first start)
    (permitted : Permitted ThreadArena.act Proper start actions)
    (ran : run ThreadArena.act start actions = some final) :
    InOrder form first final ∧
      Traced (Serves minSize) start.arena.held (actions.map Action.request) final.arena.held := by
  have simulated : ∀ state action next, InOrder form first state → Proper state action →
      state.act action = some next → InOrder form first next ∧
        Serves minSize action.request state.arena.held next.arena.held := by
    intro state action next ordered proper stepped
    obtain ⟨after, acted, result⟩ := ordered.act proper
    cases acted.symm.trans stepped
    exact result
  obtain ⟨inOrder, traced⟩ := @run_traced ThreadArena Action Ledger
    (fun action => Serves minSize action.request) _ Proper (InOrder form first)
    (fun state => state.arena.held) simulated actions start final ordered permitted ran
  exact ⟨inOrder, traced.rename⟩

theorem Reached.in_order (reached : Reached form state) : ∃ first, InOrder form first state := by
  obtain ⟨start, actions, begun, permitted, ran⟩ := reached
  obtain ⟨first, ordered, _⟩ := begun.in_order
  exact ⟨first, (ordered.run_serves permitted ran).1⟩

def sampleEnd : ThreadArena := (run ThreadArena.act sampleStart sampleActions).get (by decide)

theorem sample_ran : run ThreadArena.act sampleStart sampleActions = some sampleEnd :=
  (Option.some_get _).symm

theorem sample_reached : Reached sampleForm sampleEnd :=
  ⟨sampleStart, sampleActions, sample_begun, by decide, sample_ran⟩

end SriGlibcMalloc.Heaps
