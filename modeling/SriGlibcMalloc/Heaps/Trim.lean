import SriGlibcMalloc.Heaps.Growth

/-!
# An arena that gives memory back

A heap of which nothing but top is left is deleted, and top is then what was before the
fenceposts of the heap before. The newest heap is shortened. The assertions of `heap_trim`
hold, and no chunk that is held changes.
-/

namespace SriGlibcMalloc.Heaps

open BoundaryTags
open Chunks
open EntryPoints (minSize)
open MainArena (pageSize wrap wrapSub signed alignUp alignDown)

set_option autoImplicit false

variable {form : MallocState} {first pad trimThreshold : Nat}
variable {heap prevHeap : HeapInfo} {others : List HeapInfo} {arena : Arena}
variable {left : List Piece} {g gsize gprev t tsize tprev : Nat}

/-- Nothing but top is in the newest heap: what is before top. -/
structure Emptied (form : MallocState) (first : Nat) (arena : Arena) (heap prevHeap : HeapInfo)
    (others : List HeapInfo) (left : List Piece) (g gsize gprev t tsize tprev : Nat) : Prop where
  layout : Layout (initialRecords form first)
    (regionsOf form others ++
      [⟨chunksStart form prevHeap others, prevHeap.addr + prevHeap.size⟩] ++
      [⟨heap.addr + heapInfoSize, heap.addr + heap.size⟩])
    arena (left ++ [⟨g, gsize, gprev, .guard⟩, ⟨g + gsize, 16, gsize, .post⟩,
      ⟨t, tsize, tprev, .top⟩])
  top : arena.mdTop = t
  reaches : Reaches (regionsOf form others)
    ⟨chunksStart form prevHeap others, prevHeap.addr + prevHeap.size⟩ left g
  ends : g + gsize + 16 = prevHeap.addr + prevHeap.size
  low : prevHeap.addr + heapInfoSize ≤ g
  aligned : g % 16 = 0 ∧ gsize % 16 = 0 ∧ 16 ≤ gsize ∧ gsize ≤ 32

theorem InOrder.emptied (ordered : InOrder form first ⟨arena, heap :: prevHeap :: others⟩)
    (alone : arena.mdTop = heap.addr + heapInfoSize) :
    ∃ left g gsize gprev t tsize tprev,
      Emptied form first arena heap prevHeap others left g gsize gprev t tsize tprev := by
  obtain ⟨pieces, layout⟩ := ordered.orderly
  have room := ordered.heaps.room _ (List.mem_append_left _
    (List.mem_append_right _ List.mem_cons_self))
  obtain ⟨left, ⟨g, gsize, gprev, gkind⟩, ⟨q, qsize, qprev, qkind⟩, ⟨t, tsize, tprev, tkind⟩, shape,
    isGuard, isPost, isTop, reaches, place, ends⟩ := layout.before_post alone room
  dsimp only at isGuard isPost isTop place ends reaches
  subst shape isGuard isPost isTop place
  have guard := layout.sound_at
  have post := layout.sound ⟨g + gsize, qsize, qprev, .post⟩
    (List.mem_append_right _ (List.mem_cons_of_mem _ List.mem_cons_self))
  have size : qsize = 16 := post.post rfl
  have foot : qprev = gsize := layout.before.posted rfl
  subst size foot
  have low := Nat.le_trans (chunks_start_bounds form prevHeap others).1
    (walk_low (Nat.le_refl _) reaches)
  refine ⟨left, g, qprev, gprev, t, tsize, tprev, layout, ?_, reaches, ends, low, guard.aligned,
    guard.multiple, guard.positive, guard.guard rfl⟩
  exact (layout.top _ (List.mem_append_right _ (List.mem_cons_of_mem _
    (List.mem_cons_of_mem _ List.mem_cons_self))) rfl).symm

theorem Emptied.top_tag
    (emptied : Emptied form first arena heap prevHeap others left g gsize gprev t tsize tprev) :
    arena.htbl arena.mdTop =
      some (tag (some ⟨g + gsize, 16, gsize, .post⟩) ⟨t, tsize, tprev, .top⟩ none) := by
  have row := emptied.layout.row
  rw [List.append_cons] at row
  rw [emptied.top]
  exact row.next_at

theorem Emptied.last_fencepost {newSize : Nat}
    (emptied : Emptied form first arena heap prevHeap others left g gsize gprev t tsize tprev)
    (whole : newSize = if (lastOr none left).any Piece.isFree then gsize + 16 + gprev else gsize + 16)
    (short : newSize < heapMaxSize) :
    lastFencepost arena prevHeap
        (tag (some ⟨g + gsize, 16, gsize, .post⟩) ⟨t, tsize, tprev, .top⟩ none) =
      some (g + gsize, g, newSize) := by
  obtain ⟨place, multiple, positive, small⟩ := emptied.aligned
  have ends := emptied.ends
  have row := emptied.layout.row
  have low := emptied.low
  simp only [heapInfoSize] at low
  have straight : (prevHeap.addr + (prevHeap.size - 16)) % 16 = 0 := by omega
  have place : prevHeap.addr + (prevHeap.size - 16 - 0) = g + gsize := by omega
  have sane := row.prev_sane (Nat.add_sub_cancel g gsize).symm
  unfold lastFencepost
  dsimp only
  rw [straight, place]
  refine proceed row.next_at (asserted rfl (asserted (decide_eq_true rfl) (asserted sane
    (proceed rfl (proceed row.at (asserted ?_ ?_))))))
  · change decide (gsize + 16 + 0 < 2 * minSize) = true
    exact decide_eq_true (by simp only [minSize]; omega)
  · have same : (if (!(lastOr none left).any Piece.isFree) = true then gsize + 16 + 0
        else gsize + 16 + 0 + gprev) = newSize := by
      rw [whole]
      cases (lastOr none left).any Piece.isFree <;> rfl
    change (let size := if (!(lastOr none left).any Piece.isFree) = true then gsize + 16 + 0
        else gsize + 16 + 0 + gprev
      assert (decide (size < heapMaxSize)) >>= fun _ => some (g + gsize, g, size)) = _
    rw [same]
    exact asserted (decide_eq_true short) rfl

theorem Emptied.drop_heap {left' old : List Piece} {pulled htbl : Table} {q qsize foot newSize : Nat}
    (emptied : Emptied form first arena heap prevHeap others left g gsize gprev t tsize tprev)
    (ordered : InOrder form first ⟨arena, heap :: prevHeap :: others⟩)
    (pulling : pullFencepost arena.htbl (g + gsize) g arena.mdTop = some pulled)
    (consolidating : consolidateLast pulled g = some (htbl, q))
    (row : Row (initialRecords form first) (setNext htbl q none)
      (left' ++ [⟨q, qsize, foot, .taken⟩]))
    (before : (lastOr none left').any Piece.isFree = false)
    (unguarded : ∀ piece ∈ left'.getLast?, piece.kind ≠ .guard)
    (shape : left ++ [⟨g, gsize, gprev, .guard⟩, ⟨g + gsize, 16, gsize, .post⟩,
      ⟨t, tsize, tprev, .top⟩] = left' ++ old)
    (reaches : Reaches (regionsOf form others)
      ⟨chunksStart form prevHeap others, prevHeap.addr + prevHeap.size⟩ left' q)
    (ends : q + newSize = prevHeap.addr + prevHeap.size) (aligned : q % 16 = 0)
    (large : minSize ≤ newSize) (same : heldIn left' = heldIn left) :
    ∃ after, dropHeap arena heap prevHeap none (g + gsize) g newSize = some after ∧
      InOrder form first ⟨after, prevHeap :: others⟩ ∧ after.held = arena.held ∧
      (Idle arena → Idle after) := by
  have layout := emptied.layout
  have ok := ordered.heaps.tail
  have total : arena.systemMem - heap.size = totalSize (prevHeap :: others) := by
    rw [ordered.total]
    exact Nat.add_sub_cancel_left _ _
  have ground := ok.ground
  rw [← total, ← ordered.separate] at ground
  have paged : (q + newSize) % pageSize = 0 := by
    rw [ends]
    exact ground.paged _ List.getLast?_concat
  have multiple : newSize % 16 = 0 := by
    simp only [pageSize] at paged
    omega
  have row := row.set_head ⟨q, newSize, foot, .top⟩ rfl rfl rfl rfl before
  have sound : Sound ⟨q, newSize, foot, .top⟩ :=
    sound_chunk rfl aligned multiple large fun cached => by cases cached
  have closed := @Layout.close_region _ _ _ _ _ _ ⟨q, newSize, foot, .top⟩ _ old
    (shape ▸ layout) ground reaches rfl ends sound fun piece last =>
      before_of_used before last (unguarded piece last) rfl
  have result := closed.settle row
  refine ⟨{ arena with
      htbl := setHead (setNext htbl q none) q newSize
      mdTop := q
      systemMem := arena.systemMem - heap.size }, ?_,
    ⟨ok, total, ordered.separate, ⟨_, result⟩⟩, ?_, fun idle => ?_⟩
  · exact proceed pulling (proceed consolidating (asserted (decide_eq_true paged)
      (asserted (decide_eq_true ends) (proceed result.check_top rfl))))
  · refine result.held_eq.trans ?_
    have nodup := layout.row.nodup
    rw [layout.held_eq, held_unlent result.row.nodup rfl, List.append_nil, same,
      held_unlent nodup rfl, held_unlent (nodup_less nodup) rfl,
      held_unlent (nodup_less (nodup_less nodup)) rfl, List.append_nil]
  · refine result.idle_iff.mpr fun piece member => ?_
    rcases List.mem_append.mp member with inLeft | last
    · exact layout.idle_iff.mp idle piece (shape ▸ List.mem_append_left _ inLeft)
    · rw [List.mem_singleton.mp last]
      exact ⟨(fun same => by cases same), fun same => by cases same⟩

theorem last_short {form : MallocState} {q newSize : Nat} (ok : HeapOk prevHeap)
    (low : chunksStart form prevHeap others ≤ q)
    (ends : q + newSize = prevHeap.addr + prevHeap.size) : newSize < heapMaxSize := by
  have begins := (chunks_start_bounds form prevHeap others).1
  have fits := ok.fits
  simp only [heapInfoSize] at begins
  omega

/-- The heap goes away, and the fenceposts before it become top, with the chunk before them when
that is free. -/
theorem Emptied.drop
    (emptied : Emptied form first arena heap prevHeap others left g gsize gprev t tsize tprev)
    (ordered : InOrder form first ⟨arena, heap :: prevHeap :: others⟩) :
    ∃ newSize after,
      lastFencepost arena prevHeap
          (tag (some ⟨g + gsize, 16, gsize, .post⟩) ⟨t, tsize, tprev, .top⟩ none) =
        some (g + gsize, g, newSize) ∧
      dropHeap arena heap prevHeap none (g + gsize) g newSize = some after ∧
      (InOrder form first ⟨after, prevHeap :: others⟩ ∧ after.held = arena.held ∧
        (Idle arena → Idle after)) ∧
      (Idle arena →
        chunksStart form prevHeap others + newSize = prevHeap.addr + prevHeap.size) := by
  have layout := emptied.layout
  have ends := emptied.ends
  have ok := ordered.heaps.each prevHeap (List.mem_cons_of_mem _ List.mem_cons_self)
  obtain ⟨place, multiple, positive, small⟩ := emptied.aligned
  by_cases before : (lastOr none left).any Piece.isFree = false
  · obtain ⟨merged, pulling, apart, own, row⟩ := row_pull layout.row ⟨g, gsize, gprev, .taken⟩
      ⟨rfl, rfl, rfl, rfl⟩ rfl rfl rfl rfl
    rw [← emptied.top] at pulling own row apart
    have whole : g + (gsize + 16) = prevHeap.addr + prevHeap.size := by omega
    have short := last_short ok (walk_low (Nat.le_refl _) emptied.reaches) whole
    have consolidating : consolidateLast (unregisterChunk merged arena.mdTop) g =
        some (unregisterChunk merged arena.mdTop, g) := by
      refine proceed own ?_
      change (if (!(lastOr none left).any Piece.isFree) = true then _ else _) = _
      rw [before]
      rfl
    rw [setNext, unregister_retag apart] at row
    have unguarded : ∀ piece ∈ left.getLast?, piece.kind ≠ .guard :=
      fun piece last => (layout.before_last piece last).unguarded rfl
    obtain ⟨after, dropping, result⟩ := emptied.drop_heap ordered pulling consolidating row before
      unguarded rfl emptied.reaches whole place (by simp only [minSize]; omega) rfl
    refine ⟨gsize + 16, after, emptied.last_fencepost (by rw [before]; rfl) short, dropping, result,
      fun idle => ?_⟩
    have start := layout.at_start idle emptied.reaches rfl before
    dsimp only at start
    rw [← start]
    exact whole
  · obtain ⟨earlier, f, fsize, foot, shape⟩ := layout.free_before before
    subst shape
    obtain ⟨merged, pulling, apart, own, row⟩ := row_pull layout.row ⟨g, gsize, gprev, .guard⟩
      ⟨rfl, rfl, rfl, rfl⟩ rfl rfl rfl rfl
    rw [← List.append_cons earlier] at layout row
    have merging := layout.before.foot rfl
    have inner : Kind.inner .free := chunk_inner rfl free_below
    have adjacent := layout.adjacent inner
    dsimp only at merging adjacent
    subst merging adjacent
    have minimal : minSize ≤ gprev := layout.sound_at.minimal rfl
    have used := layout.used_before (Or.inl rfl)
    have reaches := reaches_before emptied.reaches inner
    rw [← emptied.top] at pulling own row apart
    have whole : f + (gsize + 16 + gprev) = prevHeap.addr + prevHeap.size := by omega
    have short := last_short ok (walk_low (Nat.le_refl _) reaches) whole
    obtain ⟨unlinked, unlinking, row'⟩ :=
      row.bin_unlink ⟨f, gprev, foot, .loose⟩ rfl rfl rfl rfl rfl rfl
    obtain ⟨whole', absorbing, row'⟩ :=
      row'.absorb ⟨f, gprev, foot, .taken⟩ ⟨rfl, rfl, rfl, rfl⟩ rfl
    have positive' := layout.sound_at.positive
    have apart' : f ≠ f + gprev := by
      dsimp only at positive'
      omega
    have apart'' : f ≠ arena.mdTop := fun same => free_below (layout.top_iff.mp same)
    have sane : mdPrevSanityCheck (unregisterChunk merged arena.mdTop) (f + gprev) = true := by
      have listed := row.at
      dsimp only at listed
      rw [setNext, unregister_retag apart, retag_of_ne apart'] at listed
      unfold mdPrevSanityCheck lookupChunk
      rw [own, last_or_append]
      change decide (some f = Option.map (fun _ => f + gprev - gprev)
        (unregisterChunk merged arena.mdTop (f + gprev - gprev))) = true
      rw [Nat.add_sub_cancel, listed]
      exact decide_eq_true rfl
    obtain ⟨htbl, consolidating, absorbing'⟩ := consolidate_last_eq own
      (by rw [last_or_append]; rfl) rfl (by rw [last_or_append]; rfl) sane apart apart'' apart'
      unlinking
    cases absorbing.symm.trans absorbing'
    have free : heldIn earlier = heldIn (earlier ++ [⟨f, gprev, foot, .free⟩]) := by
      have nodup := emptied.layout.row.nodup
      rw [addrs, List.map_append] at nodup
      rw [held_unlent (List.nodup_append.mp nodup).1 rfl, List.append_nil]
    have unguarded : ∀ piece ∈ earlier.getLast?, piece.kind ≠ .guard :=
      fun piece last => (layout.before_last piece last).unguarded rfl
    obtain ⟨after, dropping, result⟩ := emptied.drop_heap ordered pulling consolidating row' used
      unguarded (List.append_cons _ _ _).symm reaches whole layout.sound_at.aligned
      (Nat.le_trans minimal (Nat.le_add_left _ _)) free
    refine ⟨_, after, emptied.last_fencepost ?_ short, dropping, result, fun idle => ?_⟩
    · rw [last_or_append]
      rfl
    · have start := layout.at_start idle reaches rfl used
      dsimp only at start
      rw [← start]
      exact whole

/-- A turn of the loop does not end it when the heap before is all of a free chunk. -/
theorem enough_left {newSize : Nat}
    (start : chunksStart form prevHeap others + newSize = prevHeap.addr + prevHeap.size)
    (ok : HeapOk prevHeap) (fits : pad + minSize + pageSize + heapMinSize ≤ heapMaxSize) :
    ¬wrap (newSize + (heapMaxSize - prevHeap.size)) < wrap (pad + minSize + pageSize) := by
  have begins := (chunks_start_bounds form prevHeap others).2
  have within := ok.fits
  have max : heapMaxSize = 67108864 := rfl
  have min : heapMinSize = 32768 := rfl
  have low : pad + minSize + pageSize < 2 ^ 64 := by omega
  have high : newSize + (heapMaxSize - prevHeap.size) < 2 ^ 64 := by
    have bounds := (chunks_start_bounds form prevHeap others).1
    omega
  unfold wrap
  rw [Nat.mod_eq_of_lt low, Nat.mod_eq_of_lt high]
  omega

theorem InOrder.delete_heap (ordered : InOrder form first ⟨arena, heap :: prevHeap :: others⟩)
    (alone : arena.mdTop = heap.addr + heapInfoSize) :
    ∃ result, deleteHeap arena heap prevHeap pad = some result ∧
      (∀ after ∈ result, InOrder form first ⟨after, prevHeap :: others⟩ ∧
        after.held = arena.held ∧ (Idle arena → Idle after)) ∧
      (Idle arena → pad + minSize + pageSize + heapMinSize ≤ heapMaxSize → result ≠ none) := by
  obtain ⟨left, g, gsize, gprev, t, tsize, tprev, emptied⟩ := ordered.emptied alone
  obtain ⟨newSize, after, found, dropping, result, whole⟩ := emptied.drop ordered
  by_cases enough : wrap (newSize + (heapMaxSize - prevHeap.size)) < wrap (pad + minSize + pageSize)
  · refine ⟨none, ?_, (fun _ nothing => by cases nothing), fun idle fits => ?_⟩
    · refine proceed emptied.layout.check_top (proceed emptied.top_tag (proceed found ?_))
      exact if_pos enough
    · have ok := ordered.heaps.each prevHeap (List.mem_cons_of_mem _ List.mem_cons_self)
      exact absurd enough (enough_left (whole idle) ok fits)
  · refine ⟨some after, ?_, ?_, fun _ _ => Option.some_ne_none after⟩
    · refine proceed emptied.layout.check_top (proceed emptied.top_tag (proceed found ?_))
      refine (if_neg enough).trans ?_
      exact proceed dropping rfl
    · intro other same
      cases same
      exact result

theorem InOrder.not_alone (ordered : InOrder form first ⟨arena, [heap]⟩) :
    arena.mdTop ≠ heap.addr + heapInfoSize := by
  intro alone
  obtain ⟨_, _, _, _, _, top⟩ := ordered.at_top
  cases top.heaps
  have low := top.low
  have start := (first_chunk_spec form heap.addr).1
  have inside := form.inside
  dsimp only [chunksStart] at low
  omega

/-- The chunks of an idle arena are all of its regions, so that top is all of the last one. -/
theorem InOrder.idle_top {earlier : List HeapInfo}
    (ordered : InOrder form first ⟨arena, heap :: earlier⟩) (idle : Idle arena) :
    arena.mdTop = chunksStart form heap earlier := by
  obtain ⟨_, _, left, size, prevSize, top⟩ := ordered.at_top
  cases top.heaps
  have layout := top.layout
  obtain ⟨reaches, _, _⟩ := layout.fills.reaches
  exact layout.at_start idle reaches rfl (layout.used_before (Or.inr rfl))

/-- The loop of `heap_trim`. It leaves the first heap only of an idle arena. -/
theorem InOrder.trim_heaps {heaps : List HeapInfo} (ordered : InOrder form first ⟨arena, heaps⟩) :
    ∃ after rest, trimHeaps pad arena heaps = some (after, rest) ∧
      InOrder form first ⟨after, rest⟩ ∧ after.held = arena.held ∧
      (Idle arena → Idle after ∧
        (pad + minSize + pageSize + heapMinSize ≤ heapMaxSize → rest.length = 1)) := by
  induction heaps generalizing arena with
  | nil => cases ordered.heaps.first
  | cons heap earlier ih =>
      by_cases alone : arena.mdTop = heap.addr + heapInfoSize
      · cases earlier with
        | nil => exact absurd alone ordered.not_alone
        | cons prevHeap others =>
            obtain ⟨result, deleting, deleted, goesOn⟩ := ordered.delete_heap alone
            cases result with
            | none =>
                refine ⟨arena, heap :: prevHeap :: others, ?_, ordered, rfl,
                  fun idle => ⟨idle, fun fits => absurd rfl (goesOn idle fits)⟩⟩
                rw [trimHeaps, if_neg (not_not_intro alone)]
                exact proceed deleting rfl
            | some after =>
                obtain ⟨inOrder, same, stays⟩ := deleted after rfl
                obtain ⟨last, rest, trimming, result, held, returned⟩ := ih inOrder
                refine ⟨last, rest, ?_, result, held.trans same,
                  fun idle => returned (stays idle)⟩
                rw [trimHeaps, if_neg (not_not_intro alone)]
                exact proceed deleting trimming
      · refine ⟨arena, heap :: earlier, ?_, ordered, rfl, fun idle => ⟨idle, fun _ => ?_⟩⟩
        · unfold trimHeaps
          rw [if_pos alone]
        · cases earlier with
          | nil => rfl
          | cons prevHeap others => exact absurd (ordered.idle_top idle) alone

theorem shrink_heap_spec {shrunk : HeapInfo} {diff : Nat} {mayShrink remapped : Bool}
    (ok : HeapOk heap) (whole : diff % pageSize = 0)
    (result : shrinkHeap heap diff mayShrink remapped = some shrunk) :
    HeapOk shrunk ∧ shrunk.addr = heap.addr ∧ shrunk.size = heap.size - diff ∧
      diff + heapInfoSize ≤ heap.size := by
  have paged := ok.paged
  have fits := ok.fits
  have accessible := ok.accessible
  unfold shrinkHeap at result
  split_ifs at result with small remap answered
  · have paged' : (heap.size - diff) % pageSize = 0 := by
      simp only [pageSize] at paged whole ⊢
      omega
    rw [← Option.some.inj result]
    exact ⟨⟨ok.aligned, paged', by dsimp only; omega, ok.bounded,
      ⟨Nat.le_refl _, by dsimp only; omega⟩⟩, rfl, rfl, Nat.le_of_not_lt small⟩
  · have paged' : (heap.size - diff) % pageSize = 0 := by
      simp only [pageSize] at paged whole ⊢
      omega
    rw [← Option.some.inj result]
    exact ⟨⟨ok.aligned, paged', by dsimp only; omega, ok.bounded,
      ⟨by dsimp only; omega, accessible.2⟩⟩, rfl, rfl, Nat.le_of_not_lt small⟩

theorem InOrder.heap_trim {state : ThreadArena} {mayShrink remapped : Bool}
    (ordered : InOrder form first state) :
    ∃ after, state.heapTrim pad trimThreshold mayShrink remapped = some after ∧
      InOrder form first after ∧ after.arena.held = state.arena.held ∧
      (Idle state.arena → Idle after.arena ∧
        (pad + minSize + pageSize + heapMinSize ≤ heapMaxSize → after.heaps.length = 1)) := by
  obtain ⟨_, _, _, _, _, before⟩ := ordered.at_top
  have chain := before.chain.trans before.heaps.symm
  obtain ⟨arena, heaps, trimming, inOrder, result⟩ := @InOrder.trim_heaps _ _ pad _ _ ordered
  obtain ⟨heap, earlier, left, size, prevSize, top⟩ := inOrder.at_top
  cases top.heaps
  have measured := top.layout.chunksize top_sized
  have trimmed : trimHeaps pad state.arena (heapsFrom state.heaps state.arena.mdTop) =
      some (arena, heap :: earlier) := by
    rw [chain]
    exact trimming
  by_cases below : size < trimThreshold
  · exact ⟨⟨arena, heap :: earlier⟩,
      proceed trimmed (proceed rfl (proceed measured (if_pos below))), inOrder, result⟩
  by_cases padded : size < minSize + 1 ∨ size - minSize - 1 ≤ pad
  · exact ⟨⟨arena, heap :: earlier⟩, proceed trimmed (proceed rfl (proceed measured
      ((if_neg below).trans (if_pos padded)))), inOrder, result⟩
  have whole := @align_down_paged (size - minSize - 1 - pad) pageSize
  have within := @align_down_le (size - minSize - 1 - pad) pageSize
  generalize rounded : alignDown (size - minSize - 1 - pad) pageSize = extra at whole within
  by_cases nothing : extra = 0
  · refine ⟨⟨arena, heap :: earlier⟩, proceed trimmed (proceed rfl (proceed measured
      ((if_neg below).trans ((if_neg padded).trans ?_)))), inOrder, result⟩
    dsimp only
    rw [rounded, if_pos nothing]
    rfl
  cases shrinking : shrinkHeap heap extra mayShrink remapped with
  | none =>
      refine ⟨⟨arena, heap :: earlier⟩, proceed trimmed (proceed rfl (proceed measured
        ((if_neg below).trans ((if_neg padded).trans ?_)))), inOrder, result⟩
      dsimp only [List.head?]
      rw [rounded, if_neg nothing, shrinking]
      rfl
  | some shrunk =>
      obtain ⟨okShrunk, sameAddr, shorter, header⟩ := shrink_heap_spec
        (inOrder.heaps.each heap List.mem_cons_self) whole shrinking
      have ends := top.ends
      have low := top.low
      have multiple := top.multiple
      simp only [minSize, not_or, Nat.not_lt, Nat.not_le] at padded within
      simp only [pageSize] at whole
      simp only [heapInfoSize] at header
      dsimp only at ends low
      have ends' : arena.mdTop + (size - extra) = shrunk.addr + shrunk.size := by omega
      have large : minSize ≤ size - extra := by
        simp only [minSize]
        omega
      obtain ⟨ok, sameStart⟩ := inOrder.heaps.resize okShrunk sameAddr (by omega)
      have total : arena.systemMem - extra = totalSize (shrunk :: earlier) := by
        have before : arena.systemMem = heap.size + totalSize earlier := inOrder.total
        have after : totalSize (shrunk :: earlier) = shrunk.size + totalSize earlier := rfl
        omega
      obtain ⟨resized, same⟩ := top.resize inOrder ok sameStart total ends' large (by omega)
      obtain ⟨pieces, layout⟩ := resized.orderly
      refine ⟨_, proceed trimmed (proceed rfl (proceed measured
        ((if_neg below).trans ((if_neg ?_).trans ?_)))), resized, same.trans result.1,
        fun idle => ⟨((result.2 idle).1).set_head, (result.2 idle).2⟩⟩
      · simp only [minSize]
        omega
      · dsimp only [List.head?]
        rw [rounded, if_neg nothing, shrinking]
        exact proceed layout.check_top rfl

end SriGlibcMalloc.Heaps
