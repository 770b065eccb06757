import SriGlibcMalloc.Heaps.Run
import SriGlibcMalloc.Heaps.Surroundings

/-!
# What holds of an arena after every run

The heaps account for the memory of the arena, their chunks cover them, every block is in the
heap that its address names, and the records agree with their neighbours.
-/

namespace SriGlibcMalloc.Heaps

open ArenaLookup (System heapForPtr lookupAddHeap lookupInit)
open Bins (Links Node unsortedChunks)
open BoundaryTags
open Chunks
open EntryPoints (minSize)
open MainArena (pageSize)
open Transition

set_option autoImplicit false

variable {form : MallocState} {first p q size addr : Nat} {state : ThreadArena} {tag : Tag}
variable {heaps : List HeapInfo} {system : System} {index : Nat} {links : Links}

theorem system_mem_is_that_of_heaps (reached : Reached form state) :
    state.arena.systemMem = (state.heaps.map HeapInfo.size).sum ∧
      (∀ heap ∈ state.heaps, heap.addr % heapMaxSize = 0 ∧ heap.size % pageSize = 0 ∧
        heap.size ≤ heap.mprotectSize ∧ heap.mprotectSize ≤ heapMaxSize) ∧
      state.heaps.Pairwise fun heap other =>
        heap.addr + heapMaxSize ≤ other.addr ∨ other.addr + heapMaxSize ≤ heap.addr := by
  obtain ⟨first, ordered⟩ := reached.in_order
  have ok := ordered.heaps
  refine ⟨ordered.total, fun heap member => ?_, ?_⟩
  · have okHeap := ok.each heap member
    exact ⟨okHeap.aligned, okHeap.paged, okHeap.accessible⟩
  · have distinct := ok.distinct
    rw [List.Nodup, List.pairwise_map] at distinct
    refine distinct.imp_of_mem fun member member' differs => ?_
    have aligned := (ok.each _ member).aligned
    have aligned' := (ok.each _ member').aligned
    simp only [heapMaxSize] at aligned aligned' ⊢
    omega

theorem sample_system_mem : sampleEnd.arena.systemMem = (sampleEnd.heaps.map HeapInfo.size).sum :=
  (system_mem_is_that_of_heaps sample_reached).1

/-- The bytes of a chunk, of which a fencepost has 16. -/
def extent (tag : Tag) : Nat := if tag.size = 0 then 16 else tag.size

theorem extent_at {base : Table} {regions : List Region} {arena : Arena}
    {left right : List Piece} {piece : Piece}
    (layout : Layout base regions arena (left ++ piece :: right)) :
    extent (BoundaryTags.tag (lastOr none left) piece (headAddr none right)) = piece.size := by
  have sound := layout.sound_at
  have positive := sound.positive
  unfold extent BoundaryTags.tag Piece.recorded
  dsimp only
  by_cases post : piece.kind = .post
  · rw [if_pos post, if_pos rfl, sound.post (by rw [post]; rfl)]
  · rw [if_neg post, if_neg (by omega)]

/-- Every byte of a heap behind its header is in exactly one chunk that is on record. -/
theorem every_byte_in_one_chunk {region : Region} (reached : Reached form state)
    (listed : region ∈ regionsOf form state.heaps) (low : region.start ≤ addr)
    (high : addr < region.stop) :
    ∃! p, ∃ tag, state.arena.htbl p = some tag ∧ p ≤ addr ∧ addr < p + extent tag := by
  obtain ⟨first, ordered⟩ := reached.in_order
  obtain ⟨pieces, layout⟩ := ordered.orderly
  obtain ⟨piece, member, starts, stops⟩ := layout.fills.covers listed low high
  obtain ⟨left, right, shape⟩ := List.append_of_mem member
  subst shape
  refine ⟨piece.addr, ⟨_, layout.row.at, starts, ?_⟩, ?_⟩
  · rw [extent_at layout]
    exact stops
  · rintro q ⟨tag, listed', starts', stops'⟩
    rcases layout.record listed' with ⟨left', other, right', shape, own, same⟩ | header
    · subst own same
      have member' : other ∈ left ++ piece :: right :=
        shape ▸ List.mem_append_right _ List.mem_cons_self
      have whole := layout
      rw [shape] at whole
      rw [extent_at whole] at stops'
      have symmetric : Std.Symm Piece.Apart := ⟨fun _ _ apart => apart.symm⟩
      rcases eq_or_ne other piece with equal | differs
      · rw [equal]
      · have apart := (layout.fills.apart layout.ground.apart).forall member' member differs
        unfold Piece.Apart at apart
        omega
    · have inside := form.inside
      unfold initialRecords registerChunk at header
      rw [Function.update_apply] at header
      split_ifs at header with place
      rw [← Option.some.inj header, extent, if_pos rfl] at stops'
      rcases header_outside ordered.heaps listed with behind | before
      · omega
      · omega

theorem sample_byte : ∃! p, ∃ tag, sampleEnd.arena.htbl p = some tag ∧
    p ≤ 7 * heapMaxSize + 40 ∧ 7 * heapMaxSize + 40 < p + extent tag :=
  @every_byte_in_one_chunk _ _ _ ⟨7 * heapMaxSize + 32, 7 * heapMaxSize + 102400⟩ sample_reached
    (by decide) (by decide) (by decide)

/-- A block is aligned, and in accessible memory of the heap that its address names. -/
theorem block_in_its_heap (reached : Reached form state) (held : state.arena.held p = some size) :
    p % 16 = 0 ∧ size % 16 = 0 ∧ minSize ≤ size ∧
      ∃ heap ∈ state.heaps, heapForPtr heapMaxSize p = heap.addr ∧
        heap.addr + heapInfoSize ≤ p ∧ p + size ≤ heap.addr + heap.size ∧
        heap.size ≤ heap.mprotectSize := by
  obtain ⟨first, ordered⟩ := reached.in_order
  obtain ⟨pieces, layout⟩ := ordered.orderly
  obtain ⟨foot, member⟩ := layout.held_piece held
  have sound := layout.sound _ member
  obtain ⟨region, listed, low, high⟩ := layout.fills.inside _ member
  obtain ⟨heap, inHeaps, start, stop⟩ := region_of_heap listed
  have okHeap := ordered.heaps.each heap inHeaps
  have large : minSize ≤ size := sound.minimal rfl
  dsimp only at low high
  refine ⟨sound.aligned, sound.multiple, large, heap, inHeaps, ?_, by omega, by omega,
    okHeap.accessible.1⟩
  simp only [minSize] at large
  exact okHeap.heap_for (by omega) (by omega)

theorem sample_block : ∃ heap ∈ sampleEnd.heaps, heapForPtr heapMaxSize (7 * heapMaxSize + 32) =
    heap.addr ∧ 7 * heapMaxSize + 32 + 100000 ≤ heap.addr + heap.size := by
  have held : sampleEnd.arena.held (7 * heapMaxSize + 32) = some 100000 := by decide
  obtain ⟨_, _, _, heap, member, named, _, stop, _⟩ := block_in_its_heap sample_reached held
  exact ⟨heap, member, named, stop⟩

/-- The records of neighbours name each other, the bit and `prev_size` are right, and free chunks
have been merged. Nothing follows top and `initial_top`. -/
theorem records_agree (reached : Reached form state) (listed : state.arena.htbl p = some tag) :
    (∀ n ∈ tag.next, ∃ tagNext, state.arena.htbl n = some tagNext ∧ tagNext.prev = some p ∧
      tagNext.prevInuse = decide (tag.place ≠ some .bin) ∧ (0 < tag.size → n = p + tag.size) ∧
      (tag.place = some .bin →
        tagNext.prevSize = tag.size ∧ tagNext.place ≠ some .bin ∧ n ≠ state.arena.mdTop)) ∧
    (∀ q ∈ tag.prev, ∃ tagPrev, state.arena.htbl q = some tagPrev ∧ tagPrev.next = some p) ∧
    (tag.next = none → p = state.arena.mdTop ∨
      ∃ heap ∈ state.heaps, p = heap.addr + heapInfoSize + form.initialTop) := by
  obtain ⟨first, ordered⟩ := reached.in_order
  obtain ⟨pieces, layout⟩ := ordered.orderly
  rcases layout.record listed with ⟨left, piece, right, shape, own, same⟩ | other
  · subst shape own same
    refine ⟨?_, ?_, ?_⟩
    · intro n follows
      cases right with
      | nil => cases follows
      | cons next rest =>
          cases follows
          exact ⟨_, layout.row.next_at, rfl, layout.next_agrees⟩
    · intro q precedes
      rcases List.eq_nil_or_concat' left with empty | ⟨front, last, shape⟩
      · rw [empty] at precedes
        cases precedes
      · subst shape
        rw [← List.append_cons front] at layout
        rw [last_or_append] at precedes
        cases precedes
        exact ⟨_, layout.row.at, rfl⟩
    · intro nothing
      cases right with
      | nil => exact Or.inl (layout.top_iff.mpr (layout.fills.last.mpr rfl))
      | cons next rest => cases nothing
  · obtain ⟨heap, inHeaps, oldest⟩ := ordered.heaps.first_heap
    unfold initialRecords registerChunk at other
    rw [Function.update_apply] at other
    split_ifs at other with place
    rw [← Option.some.inj other]
    refine ⟨(fun _ nothing => by cases nothing), (fun _ nothing => by cases nothing), fun _ => ?_⟩
    exact Or.inr ⟨heap, inHeaps, by rw [place, oldest]⟩

theorem sample_records : ∃ tag, sampleEnd.arena.htbl (3 * heapMaxSize + 4192) = some tag ∧
    ∀ n ∈ tag.next, ∃ tagNext, sampleEnd.arena.htbl n = some tagNext ∧
      tagNext.prev = some (3 * heapMaxSize + 4192) := by
  have recorded : (sampleEnd.arena.htbl (3 * heapMaxSize + 4192)).isSome = true := by decide
  obtain ⟨tag, listed⟩ := Option.isSome_iff_exists.mp recorded
  refine ⟨tag, listed, fun n follows => ?_⟩
  obtain ⟨tagNext, found, back, _⟩ := (records_agree sample_reached listed).1 n follows
  exact ⟨tagNext, found, back⟩

/-- No check of a chunk fails. -/
theorem debug_checks_pass (reached : Reached form state)
    (surrounded : Surrounded state system index links) (listed : state.arena.htbl p = some tag) :
    (tag.place = some .bin →
        state.arena.checkFreeChunk p ⟨system.lookup, index, links⟩ = some ()) ∧
      (tag.place = some .held ∨ tag.place = some .fast →
        state.arena.checkInuseChunk p ⟨system.lookup, index, links⟩ = some ()) ∧
      (p = state.arena.mdTop →
        state.arena.checkChunk p ⟨system.lookup, index, links⟩ = some ()) := by
  obtain ⟨first, ordered⟩ := reached.in_order
  exact ordered.orderly.checks_pass ordered.separate (ordered.within surrounded) listed

/-- Two heaps are registered for the second arena. -/
def sampleSystem : System where
  mapped := fun heap => decide (heap = 3 * heapMaxSize ∨ heap = 7 * heapMaxSize)
  lookup := lookupAddHeap (lookupAddHeap (lookupInit heapMaxSize) (3 * heapMaxSize) 2)
    (7 * heapMaxSize) 2
  heaps := fun arena => if arena = 2 then [7 * heapMaxSize, 3 * heapMaxSize] else []
  pending := fun _ => .idle

theorem sample_registered : ArenaLookup.Registered sampleSystem where
  live := by
    intro arena heap member
    change heap ∈ (if arena = 2 then [7 * heapMaxSize, 3 * heapMaxSize] else []) at member
    split_ifs at member with second
    · subst second
      rcases List.mem_cons.mp member with newest | member
      · subst newest
        decide
      · rw [List.mem_singleton.mp member]
        decide
    · cases member
  liveIdle := by
    intro arena heap other member
    constructor
    · exact fun busy => by cases busy
    · exact fun busy => by cases busy
  distinct := by
    intro arena
    change (if arena = 2 then [7 * heapMaxSize, 3 * heapMaxSize] else []).Nodup
    split_ifs
    · decide
    · exact List.nodup_nil
  mapping := fun _ _ busy => by cases busy
  single := fun _ _ _ busy => by cases busy

def sampleLinks (p size : Nat) : Links where
  size := fun node => if node = .chunk p then size else 0
  fd := fun node => if node = unsortedChunks then .chunk p else unsortedChunks
  bk := fun node => if node = unsortedChunks then .chunk p else unsortedChunks
  fdNextsize := fun _ => .null
  bkNextsize := fun _ => .null

theorem sample_on (p size : Nat) : (sampleLinks p size).On 1 ⟨p, size⟩ := by
  have apart : Node.chunk p ≠ unsortedChunks := fun same => by cases same
  have back : (if Node.chunk p = unsortedChunks then Node.chunk p else unsortedChunks) =
      unsortedChunks := if_neg apart
  refine ⟨[⟨p, size⟩], ⟨⟨?_, ?_⟩, ?_, ?_⟩, List.mem_cons_self⟩
  · exact .cons_cons ⟨rfl, back⟩ (.singleton _)
  · intro last isLast first isFirst
    cases isLast
    cases isFirst
    exact ⟨back, rfl⟩
  · exact List.nodup_cons.mpr ⟨fun same => apart (List.mem_singleton.mp same).symm,
      List.nodup_singleton _⟩
  · intro chunk member
    rw [List.mem_singleton.mp member]
    exact if_pos rfl

theorem sample_surrounded (ordered : InOrder sampleForm (3 * heapMaxSize) state)
    (heaps : state.heaps.map HeapInfo.addr = [7 * heapMaxSize, 3 * heapMaxSize])
    (binned : allAlong state.arena.htbl
      (fun q tag => tag.place ≠ some .bin || (q = p && tag.size = size)) 10
      (3 * heapMaxSize + 4128) = true) :
    Surrounded state sampleSystem 2 (sampleLinks p size) where
  attributed := @ArenaLookup.Registered.attributed _ 26 sample_registered rfl
  registered := heaps.symm
  reserved := rfl
  unclaimed := by
    intro heap member q low high
    exact ⟨rfl, rfl⟩
  linked := by
    intro q tag listed place
    have passed := ordered.all_along binned listed (by rw [place]; exact Option.some_ne_none _)
    have same : q = p ∧ tag.size = size := by simpa [place] using passed
    rw [same.1, same.2]
    exact ⟨1, sample_on p size⟩

theorem sample_in_order : InOrder sampleForm (3 * heapMaxSize) sampleEnd := by
  obtain ⟨first, ordered⟩ := sample_reached.in_order
  have oldest : (sampleEnd.heaps.map HeapInfo.addr).getLast? = some (3 * heapMaxSize) := by decide
  cases oldest.symm.trans ordered.heaps.first
  exact ordered

theorem sample_checks :
    sampleEnd.arena.checkFreeChunk (3 * heapMaxSize + 5216)
        ⟨sampleSystem.lookup, 2, sampleLinks (3 * heapMaxSize + 5216) 27520⟩ = some () ∧
      sampleEnd.arena.checkInuseChunk (3 * heapMaxSize + 4192)
        ⟨sampleSystem.lookup, 2, sampleLinks (3 * heapMaxSize + 5216) 27520⟩ = some () := by
  have surrounded : Surrounded sampleEnd sampleSystem 2
      (sampleLinks (3 * heapMaxSize + 5216) 27520) :=
    sample_surrounded sample_in_order (by decide) (by decide)
  have free : ∃ tag, sampleEnd.arena.htbl (3 * heapMaxSize + 5216) = some tag ∧
      tag.place = some .bin := by decide
  have held : ∃ tag, sampleEnd.arena.htbl (3 * heapMaxSize + 4192) = some tag ∧
      tag.place = some .held := by decide
  obtain ⟨_, listed, placed⟩ := free
  obtain ⟨_, listed', placed'⟩ := held
  exact ⟨(debug_checks_pass sample_reached surrounded listed).1 placed,
    (debug_checks_pass sample_reached surrounded listed').2.1 (Or.inl placed')⟩

theorem InOrder.new_block {ledger : Nat → Option Nat} {size' nb : Nat} {after : ThreadArena}
    (inOrder : InOrder form first after) (surrounded : Surrounded after system index links)
    (unheld : ledger p = none) (held : after.arena.held p = some size)
    (same : after.arena.held = Function.update ledger q (some size')) (enough : nb ≤ size')
    (frugal : size' < nb + minSize) :
    after.arena.checkRemallocedChunk p ⟨system.lookup, index, links⟩ nb = some () ∧
      (Bordered after.arena q →
        after.arena.checkMallocedChunk p ⟨system.lookup, index, links⟩ nb = some ()) := by
  have found := held
  rw [same, Function.update_apply] at found
  split_ifs at found with own
  · subst own
    cases found
    exact inOrder.orderly.check_malloced_chunk inOrder.separate (inOrder.within surrounded) held
      enough frugal
  · rw [unheld] at found
    cases found

/-- The block that an action hands out passes `check_remalloced_chunk`, and
`check_malloced_chunk` when it does not come from a fast bin. -/
theorem new_block_passes_check {action : Action} {after : ThreadArena} {nb : Nat}
    (reached : Reached form state) (proper : Proper state action)
    (acted : state.act action = some after) (asked : action.request.wanted = some nb)
    (unheld : state.arena.held p = none) (held : after.arena.held p = some size)
    (surrounded : Surrounded after system index links) :
    after.arena.checkRemallocedChunk p ⟨system.lookup, index, links⟩ nb = some () ∧
      ((∀ q maxFast, action ≠ .takeFast q nb maxFast) →
        after.arena.checkMallocedChunk p ⟨system.lookup, index, links⟩ nb = some ()) := by
  obtain ⟨first, ordered⟩ := reached.in_order
  have orderly := ordered.orderly
  have spare {nb : Nat} : nb < nb + minSize := Nat.lt_add_of_pos_right (by decide)
  cases action with
  | takeFast q nb maxFast =>
      cases asked
      obtain ⟨request, small, limit, tag, listed, cached, index⟩ := proper
      obtain ⟨taken, taking, kept, same⟩ :=
        orderly.take_fast listed cached small limit request index
      cases acted.symm.trans (congrArg (Option.map _) taking)
      obtain ⟨remalloced, _⟩ := (ordered.keep kept).new_block surrounded unheld held same (Nat.le_refl nb) spare
      exact ⟨remalloced, fun other => absurd rfl (other q maxFast)⟩
  | takeWhole q nb =>
      cases asked
      obtain ⟨tag, listed, binned, fits, exhausted⟩ := proper
      obtain ⟨taken, taking, kept, same, bordered⟩ :=
        orderly.take_whole listed binned fits exhausted
      cases acted.symm.trans (congrArg (Option.map _) taking)
      obtain ⟨remalloced, malloced⟩ :=
        (ordered.keep kept).new_block surrounded unheld held same fits (by omega)
      exact ⟨remalloced, fun _ => malloced bordered⟩
  | carve q nb =>
      cases asked
      obtain ⟨request, tag, listed, binned, fits⟩ := proper
      obtain ⟨carved, carving, kept, same, bordered⟩ := orderly.carve listed binned request fits
      cases acted.symm.trans (congrArg (Option.map _) carving)
      obtain ⟨remalloced, malloced⟩ :=
        (ordered.keep kept).new_block surrounded unheld held same (Nat.le_refl nb) spare
      exact ⟨remalloced, fun _ => malloced bordered⟩
  | useTop nb =>
      cases asked
      obtain ⟨request, tag, listed, fits⟩ := proper
      obtain ⟨divided, using', kept, same, bordered⟩ :=
        orderly.use_top (congrArg (Option.map Tag.size) listed) request fits
      cases acted.symm.trans (congrArg (Option.map _) using')
      obtain ⟨remalloced, malloced⟩ :=
        (ordered.keep kept).new_block surrounded unheld held same (Nat.le_refl nb) spare
      exact ⟨remalloced, fun _ => malloced bordered⟩
  | sysmalloc nb topPad maxFast mprotect mapped =>
      cases (request_wanted nb topPad maxFast mprotect mapped).symm.trans asked
      obtain ⟨request, limit, answers, short⟩ := proper
      obtain ⟨result, grown, growing, inOrder, fresh, same, _⟩ := @InOrder.sysmalloc _ _ nb topPad
        maxFast state mprotect mapped ordered request (below_request short) limit answers
      cases acted.symm.trans (congrArg (Option.map Prod.snd) growing)
      cases result with
      | none =>
          rw [same] at held
          cases unheld.symm.trans held
      | some q =>
          obtain ⟨remalloced, malloced⟩ :=
            inOrder.new_block surrounded unheld held same (Nat.le_refl nb) spare
          exact ⟨remalloced, fun _ => malloced (fresh q rfl).2⟩
  | intFree => cases asked
  | consolidate => cases asked
  | shrink => cases asked
  | growIntoTop => cases asked
  | growForward => cases asked
  | growNextDoor => cases asked
  | giveBackLeader => cases asked
  | giveBackRemainder => cases asked
  | heapTrim => cases asked

theorem sample_new_block : ∃ after, sampleEnd.act (.carve (3 * heapMaxSize + 5216) 2048) =
      some after ∧
    after.arena.checkMallocedChunk (3 * heapMaxSize + 5216)
      ⟨sampleSystem.lookup, 2, sampleLinks (3 * heapMaxSize + 7264) 25472⟩ 2048 = some () := by
  have proper : Proper sampleEnd (.carve (3 * heapMaxSize + 5216) 2048) := by decide
  obtain ⟨after, acted, inOrder, _⟩ := sample_in_order.act proper
  have heaps : (sampleEnd.act (.carve (3 * heapMaxSize + 5216) 2048)).map (fun after =>
      after.heaps.map HeapInfo.addr) = some [7 * heapMaxSize, 3 * heapMaxSize] := by decide
  have binned : (sampleEnd.act (.carve (3 * heapMaxSize + 5216) 2048)).any (fun after =>
      allAlong after.arena.htbl (fun q tag => tag.place ≠ some .bin ||
        (q = 3 * heapMaxSize + 7264 && tag.size = 25472)) 10 (3 * heapMaxSize + 4128)) = true := by
    decide
  have held : (sampleEnd.act (.carve (3 * heapMaxSize + 5216) 2048)).bind (fun after =>
      after.arena.held (3 * heapMaxSize + 5216)) = some 2048 := by decide
  rw [acted] at heaps binned held
  have surrounded := sample_surrounded inOrder (Option.some.inj heaps) binned
  exact ⟨after, acted, (new_block_passes_check sample_reached proper acted rfl (by decide) held
    surrounded).2 fun _ _ same => by cases same⟩

/-- When all chunks are in bins, `heap_trim` gives back every heap but the one that the arena
started with, unless the padding is so large that a heap has to stay. -/
theorem idle_heaps_go_back {start after : ThreadArena} {actions : List Action}
    {pad trimThreshold : Nat} {mayShrink remapped : Bool} (begun : Begun form start)
    (permitted : Permitted ThreadArena.act Proper start actions)
    (ran : run ThreadArena.act start actions = some state) (idle : Idle state.arena)
    (fits : pad + minSize + pageSize + heapMinSize ≤ heapMaxSize)
    (trimmed : state.heapTrim pad trimThreshold mayShrink remapped = some after) :
    ∃ heap, after.heaps = [heap] ∧ start.heaps.map HeapInfo.addr = [heap.addr] ∧
      after.arena.mdTop = firstChunk form heap.addr ∧ after.arena.systemMem = heap.size ∧
      after.arena.chunksize after.arena.mdTop =
        some (heap.addr + heap.size - after.arena.mdTop) := by
  obtain ⟨first, beginning, _, oldest⟩ := begun.in_order
  have ordered := (beginning.run_serves permitted ran).1
  obtain ⟨after, trimming, inOrder, _, returned⟩ :=
    @InOrder.heap_trim _ _ pad trimThreshold _ mayShrink remapped ordered
  cases trimming.symm.trans trimmed
  obtain ⟨idle, shortened⟩ := returned idle
  obtain ⟨heap, heaps⟩ := List.length_eq_one_iff.mp (shortened fits)
  have total := inOrder.total
  have own := inOrder.heaps.first
  obtain ⟨arena, _⟩ := after
  dsimp only at heaps
  subst heaps
  obtain ⟨_, _, _, size, _, top⟩ := inOrder.at_top
  cases top.heaps
  have ends := top.ends
  have measured := top.layout.chunksize top_sized
  dsimp only at ends measured
  refine ⟨heap, rfl, ?_, inOrder.idle_top idle, total, ?_⟩
  · cases Option.some.inj own
    exact oldest
  · rw [measured, ← ends, Nat.add_sub_cancel_left]

/-- Every block is given back, and the fast chunk is consolidated. -/
def idleActions : List Action :=
  sampleActions ++ [.consolidate (3 * heapMaxSize + 4128), .intFree (3 * heapMaxSize + 4192) 128,
    .intFree (7 * heapMaxSize + 32) 128]

def idleEnd : ThreadArena := (run ThreadArena.act sampleStart idleActions).get (by decide)

theorem idle_end : Idle idleEnd.arena := by
  have ran : run ThreadArena.act sampleStart idleActions = some idleEnd := (Option.some_get _).symm
  have reached : Reached sampleForm idleEnd :=
    ⟨sampleStart, idleActions, sample_begun, by decide, ran⟩
  obtain ⟨first, ordered⟩ := reached.in_order
  have oldest : (idleEnd.heaps.map HeapInfo.addr).getLast? = some (3 * heapMaxSize) := by decide
  cases oldest.symm.trans ordered.heaps.first
  intro p tag listed
  by_cases placed : tag.place = none
  · exact Or.inl placed
  · have free : allAlong idleEnd.arena.htbl (fun _ tag => tag.place = none || tag.place = some .bin)
        10 (3 * heapMaxSize + 4128) = true := by decide
    simpa using ordered.all_along free listed placed

theorem sample_goes_back : idleEnd.heaps.length = 2 ∧
    ∃ after heap, idleEnd.heapTrim 0 0 false true = some after ∧ after.heaps = [heap] ∧
      heap.addr = 3 * heapMaxSize ∧ after.arena.mdTop = firstChunk sampleForm heap.addr := by
  have ran : run ThreadArena.act sampleStart idleActions = some idleEnd := (Option.some_get _).symm
  have goes : (idleEnd.heapTrim 0 0 false true).isSome = true := by decide
  obtain ⟨after, trimmed⟩ := Option.isSome_iff_exists.mp goes
  obtain ⟨heap, only, oldest, top, _⟩ :=
    idle_heaps_go_back sample_begun (by decide) ran idle_end (by decide) trimmed
  refine ⟨by decide, after, heap, trimmed, only, ?_, top⟩
  exact (List.singleton_inj.mp oldest).symm

end SriGlibcMalloc.Heaps
