import SriGlibcMalloc.Heaps.Ground
import SriGlibcMalloc.Heaps.Records
import SriGlibcMalloc.Chunks.Grounds
import SriGlibcMalloc.Chunks.Resizing
import SriGlibcMalloc.MainArena.Regions

/-!
# An arena that gets more memory

When top is too small, the newest heap grows, or the arena moves to a new heap and what is
left of the old top is freed. The assertions of `sysmalloc` hold, and no chunk that is held
changes.
-/

namespace SriGlibcMalloc.Heaps

open BoundaryTags
open ArenaLookup (heapForPtr)
open Chunks
open EntryPoints (minSize)
open Bins (ChunkSize)
open MainArena (pageSize wrap wrapSub signed alignUp alignDown wrap_sub_exact)

set_option autoImplicit false

structure InOrder (form : MallocState) (first : Nat) (state : ThreadArena) : Prop where
  heaps : HeapsOk form first state.heaps
  total : state.arena.systemMem = totalSize state.heaps
  separate : state.arena.contiguous = false
  orderly : Orderly (initialRecords form first) (regionsOf form state.heaps) state.arena

/-- The area that the system answers with is aligned and not one of the arena's. -/
def Answers (state : ThreadArena) (mapped : Option Nat) : Prop :=
  ∀ addr ∈ mapped, addr % heapMaxSize = 0 ∧ addr + heapMaxSize < 2 ^ 63 ∧
    ∀ heap ∈ state.heaps, heap.addr ≠ addr

/-- The system answers with an area, and a heap can be large enough for the request. -/
def Provided (nb topPad : Nat) (mapped : Option Nat) : Prop :=
  mapped.isSome = true ∧ nb + (minSize + heapInfoSize) ≤ heapMaxSize ∧
    nb + (minSize + heapInfoSize) + topPad < 2 ^ 64

instance (nb topPad : Nat) (mapped : Option Nat) : Decidable (Provided nb topPad mapped) :=
  inferInstanceAs (Decidable (_ ∧ _))

variable {form : MallocState} {first addr size nb topPad maxFast diff : Nat}
variable {heap grown fresh : HeapInfo} {heaps earlier : List HeapInfo} {state : ThreadArena}
variable {mprotect : Bool} {mapped : Option Nat} {left : List Piece} {prevSize : Nat}

structure AtTop (form : MallocState) (first : Nat) (state : ThreadArena) (heap : HeapInfo)
    (earlier : List HeapInfo) (left : List Piece) (size prevSize : Nat) : Prop where
  heaps : state.heaps = heap :: earlier
  layout : Layout (initialRecords form first)
    (regionsOf form earlier ++ [⟨chunksStart form heap earlier, heap.addr + heap.size⟩])
    state.arena (left ++ [⟨state.arena.mdTop, size, prevSize, .top⟩])
  low : chunksStart form heap earlier ≤ state.arena.mdTop
  ends : state.arena.mdTop + size = heap.addr + heap.size
  large : minSize ≤ size
  multiple : size % 16 = 0
  chain : heapsFrom state.heaps state.arena.mdTop = heap :: earlier

theorem InOrder.at_top (ordered : InOrder form first state) :
    ∃ heap earlier left size prevSize, AtTop form first state heap earlier left size prevSize := by
  obtain ⟨pieces, layout⟩ := ordered.orderly
  obtain ⟨left, size, prevSize, shape⟩ := layout.at_top
  subst shape
  cases shape : state.heaps with
  | nil =>
      have last := ordered.heaps.first
      rw [shape] at last
      cases last
  | cons heap earlier =>
      have ok := ordered.heaps.each heap (shape ▸ List.mem_cons_self)
      rw [shape, regionsOf] at layout
      obtain ⟨reaches, _, ends⟩ := layout.fills.reaches
      have low : chunksStart form heap earlier ≤ state.arena.mdTop :=
        walk_low (Nat.le_refl _) reaches
      have sound := layout.sound_at
      have large := sound.minimal rfl
      have begins := (chunks_start_bounds form heap earlier).1
      have masked : heapForPtr heapMaxSize state.arena.mdTop = heap.addr := by
        dsimp only at ends large
        simp only [heapInfoSize, minSize] at begins large
        exact ok.heap_for (by omega) (by omega)
      refine ⟨heap, earlier, left, size, prevSize, shape, layout, low, ends, large,
        sound.multiple, ?_⟩
      unfold heapsFrom
      rw [shape, masked, List.dropWhile_cons_of_neg]
      simp

theorem grow_heap_spec (ok : HeapOk heap) (small : diff < 2 ^ 63)
    (result : growHeap heap diff mprotect = some grown) :
    HeapOk grown ∧ grown.addr = heap.addr ∧ heap.size + diff ≤ grown.size := by
  have word : diff + pageSize ≤ 2 ^ 64 := by simp only [pageSize]; omega
  obtain ⟨low, _, paged⟩ := align_up_spec word
  have paged' := ok.paged
  have whole : (heap.size + alignUp diff pageSize) % pageSize = 0 := by
    rw [Nat.add_mod, paged, paged', Nat.add_zero, Nat.zero_mod]
  have accessible := ok.accessible
  unfold growHeap at result
  dsimp only at result
  split_ifs at result with large within
  · rw [← Option.some.inj result]
    exact ⟨⟨ok.aligned, whole, Nat.le_of_not_lt large, ok.bounded, within, accessible.2⟩, rfl,
      Nat.add_le_add_left low _⟩
  · rw [← Option.some.inj result]
    exact ⟨⟨ok.aligned, whole, Nat.le_of_not_lt large, ok.bounded, Nat.le_refl _,
      Nat.le_of_not_lt large⟩, rfl, Nat.add_le_add_left low _⟩

theorem HeapsOk.resize (ok : HeapsOk form first (heap :: earlier)) (okGrown : HeapOk grown)
    (sameAddr : grown.addr = heap.addr)
    (room : chunksStart form heap earlier + minSize ≤ grown.addr + grown.size) :
    HeapsOk form first (grown :: earlier) ∧
      chunksStart form grown earlier = chunksStart form heap earlier := by
  have sameStart : chunksStart form grown earlier = chunksStart form heap earlier := by
    cases earlier with
    | nil => exact congrArg (firstChunk form) sameAddr
    | cons _ _ => exact congrArg (· + heapInfoSize) sameAddr
  refine ⟨⟨?_, ?_, ?_, ?_⟩, sameStart⟩
  · intro other member
    rcases List.mem_cons.mp member with same | member
    · rw [same]
      exact okGrown
    · exact ok.each other (List.mem_cons_of_mem _ member)
  · have distinct := ok.distinct
    rw [List.map_cons] at distinct ⊢
    rw [sameAddr]
    exact distinct
  · have last := ok.first
    rw [List.map_cons] at last ⊢
    rw [sameAddr]
    exact last
  · intro region listed
    rcases List.mem_append.mp listed with before | own
    · exact ok.room region (List.mem_append_left _ before)
    · rw [List.mem_singleton.mp own, sameStart]
      exact room

theorem AtTop.resize {systemMem newSize : Nat}
    (top : AtTop form first state heap earlier left size prevSize)
    (ordered : InOrder form first state) (ok : HeapsOk form first (grown :: earlier))
    (sameStart : chunksStart form grown earlier = chunksStart form heap earlier)
    (total : systemMem = totalSize (grown :: earlier))
    (ends : state.arena.mdTop + newSize = grown.addr + grown.size) (large : minSize ≤ newSize)
    (multiple : newSize % 16 = 0) :
    InOrder form first
        ⟨{ state.arena with
            htbl := setHead state.arena.htbl state.arena.mdTop newSize
            systemMem := systemMem }, grown :: earlier⟩ ∧
      Arena.held { state.arena with
          htbl := setHead state.arena.htbl state.arena.mdTop newSize
          systemMem := systemMem } = state.arena.held := by
  have layout := top.layout
  have ground := ok.ground
  rw [← total, ← ordered.separate] at ground
  have row := layout.row.set_head ⟨state.arena.mdTop, newSize, prevSize, .top⟩ rfl rfl rfl rfl
    (layout.used_before (Or.inr rfl))
  have result := (layout.resize_top ground sameStart ends large multiple).settle row
  refine ⟨⟨ok, total, ordered.separate, ⟨_, result⟩⟩, ?_⟩
  refine result.held_eq.trans ?_
  rw [layout.held_eq, held_unlent result.row.nodup rfl, held_unlent layout.row.nodup rfl]

theorem new_heap_spec (result : newHeap size topPad mapped = some fresh) :
    mapped = some fresh.addr ∧ fresh.mprotectSize = fresh.size ∧ heapMinSize ≤ fresh.size ∧
      fresh.size ≤ heapMaxSize ∧ fresh.size % pageSize = 0 := by
  obtain ⟨rounded, sized, result⟩ := Option.bind_eq_some_iff.mp result
  obtain ⟨addr, same, result⟩ := Option.bind_eq_some_iff.mp result
  rw [← Option.some.inj result]
  exact ⟨same, rfl, new_heap_size_spec sized⟩

theorem new_heap_provided (provided : Provided nb topPad mapped) :
    ∃ fresh, newHeap (wrap (nb + (minSize + heapInfoSize))) topPad mapped = some fresh ∧
      nb + (minSize + heapInfoSize) ≤ fresh.size := by
  obtain ⟨answered, fits, exact'⟩ := provided
  obtain ⟨addr, same⟩ := Option.isSome_iff_exists.mp answered
  obtain ⟨rounded, sized, enough⟩ := new_heap_size_enough fits exact'
  rw [wrap, Nat.mod_eq_of_lt (Nat.lt_of_le_of_lt (Nat.le_add_right _ _) exact'), same]
  exact ⟨⟨addr, rounded, rounded⟩, proceed sized rfl, enough⟩

theorem HeapsOk.add (ok : HeapsOk form first (heap :: earlier)) (okFresh : HeapOk fresh)
    (large : heapMinSize ≤ fresh.size) (elsewhere : ∀ heap' ∈ heap :: earlier, heap'.addr ≠ fresh.addr) :
    HeapsOk form first (fresh :: heap :: earlier) where
  each := by
    intro other member
    rcases List.mem_cons.mp member with same | member
    · rw [same]
      exact okFresh
    · exact ok.each other member
  distinct := by
    refine List.nodup_cons.mpr ⟨fun member => ?_, ok.distinct⟩
    obtain ⟨other, listed, same⟩ := List.mem_map.mp member
    exact elsewhere other listed same
  first := by
    have last := ok.first
    rw [List.map_cons, List.map_cons, List.getLast?_cons_cons]
    exact last
  room := by
    intro region listed
    rcases List.mem_append.mp listed with before | own
    · exact ok.room region before
    · rw [List.mem_singleton.mp own]
      have bounds := (chunks_start_bounds form fresh (heap :: earlier)).2
      dsimp only
      omega

theorem sound_guard {p foot : Nat} (aligned : p % 16 = 0) (multiple : size % 16 = 0)
    (positive : 16 ≤ size) (short : size ≤ 32) : Sound ⟨p, size, foot, .guard⟩ where
  aligned := aligned
  multiple := multiple
  positive := positive
  minimal := fun impossible => by cases impossible
  fast := fun impossible => by cases impossible
  guard := fun _ => short
  post := fun impossible => by cases impossible
  settled := ⟨(fun same => by cases same), fun same => by cases same⟩

theorem sound_post {p foot : Nat} (aligned : p % 16 = 0) : Sound ⟨p, 16, foot, .post⟩ where
  aligned := aligned
  multiple := Nat.mod_self 16
  positive := Nat.le_refl _
  minimal := fun impossible => by cases impossible
  fast := fun impossible => by cases impossible
  guard := fun impossible => by cases impossible
  post := fun _ => rfl
  settled := ⟨(fun same => by cases same), fun same => by cases same⟩

theorem post_used : Kind.post ≠ .free := by decide

theorem post_unguarded : Kind.post ≠ .guard := by decide

theorem guard_used : Kind.guard ≠ .free := by decide

theorem guard_inner : Kind.inner .guard := ⟨rfl, by decide⟩

theorem guard_before_post {p q foot : Nat} :
    Before ⟨p, size, foot, .guard⟩ ⟨q, 16, size, .post⟩ where
  foot := fun impossible => by cases impossible
  merged := fun impossible => by cases impossible
  guarded := fun _ => rfl
  fenced := fun _ => rfl
  posted := fun _ => rfl

theorem fresh_start {base : Table} {regions : List Region} {region : Region} {systemMem : Nat}
    {contiguous : Bool} {arena : Arena} {pieces : List Piece}
    (layout : Layout base regions arena pieces)
    (ground : Ground base (regions ++ [region]) systemMem contiguous)
    (occupied : region.start < region.stop) :
    region.start ∉ addrs pieces ∧ base region.start = none := by
  refine ⟨fun member => ?_, ground.unused region (List.mem_append_right _ List.mem_cons_self) _
    (Nat.le_refl _) occupied⟩
  obtain ⟨piece, listed, same⟩ := List.mem_map.mp member
  obtain ⟨other, inside, low, high⟩ := layout.fills.inside piece listed
  have positive := (layout.sound piece listed).positive
  have apart := (List.pairwise_append.mp ground.apart).2.2 other inside region List.mem_cons_self
  rcases apart with before | behind
  · omega
  · omega

/-- The post is behind all but 16 bytes of the old top. -/
theorem AtTop.rounded (top : AtTop form first state heap earlier left size prevSize) :
    alignDown (size - minSize) 16 = size - 32 := by
  have multiple := top.multiple
  have large := top.large
  have min : minSize = 32 := rfl
  unfold alignDown
  rw [min] at large ⊢
  omega

/-- The new top is not in the old one. -/
theorem AtTop.elsewhere {addr : Nat}
    (top : AtTop form first state heap earlier left size prevSize)
    (ok : HeapsOk form first (fresh :: heap :: earlier)) (low : state.arena.mdTop ≤ addr)
    (high : addr < state.arena.mdTop + size) : fresh.addr + heapInfoSize ≠ addr := by
  obtain ⟨region, listed, start, stop⟩ :=
    top.layout.fills.inside _ (List.mem_append_right _ List.mem_cons_self)
  have separate := (List.pairwise_append.mp ok.ground.apart).2.2 region listed _ List.mem_cons_self
  have room := ok.room _ (List.mem_append_right _ List.mem_cons_self)
  have begins : chunksStart form fresh (heap :: earlier) = fresh.addr + heapInfoSize := rfl
  dsimp only at start stop room
  rcases separate with before | behind
  · dsimp only at before
    omega
  · dsimp only at behind
    simp only [minSize] at room
    omega

theorem AtTop.link_fencepost (top : AtTop form first state heap earlier left size prevSize)
    (ok : HeapsOk form first (fresh :: heap :: earlier)) (large : heapMinSize ≤ fresh.size) :
    Row (initialRecords form first)
      (linkFencepost state.arena.htbl state.arena.mdTop (state.arena.mdTop + (size - 32) + 16)
        (fresh.addr + heapInfoSize) (fresh.size - heapInfoSize))
      (left ++ [⟨state.arena.mdTop, size, prevSize, .taken⟩,
        ⟨state.arena.mdTop + (size - 32) + 16, 16, 0, .post⟩,
        ⟨fresh.addr + heapInfoSize, fresh.size - heapInfoSize, 0, .top⟩]) := by
  have layout := top.layout
  have long := top.large
  have min : minSize = 32 := rfl
  have bounds := (chunks_start_bounds form fresh (heap :: earlier)).2
  have start : chunksStart form fresh (heap :: earlier) = fresh.addr + heapInfoSize := rfl
  obtain ⟨freshTop, unusedTop⟩ := fresh_start layout ok.ground
    (by dsimp only; omega)
  obtain ⟨freshPost, unusedPost⟩ := @Layout.vacant_at _ _ _ _ _ _ _ _ _
    (state.arena.mdTop + (size - 32) + 16) layout (by omega) (by omega)
  have apart : fresh.addr + heapInfoSize ≠ state.arena.mdTop + (size - 32) + 16 :=
    top.elsewhere ok (by omega) (by omega)
  exact row_link_fencepost layout.row ⟨state.arena.mdTop, size, prevSize, .taken⟩
    ⟨state.arena.mdTop + (size - 32) + 16, 16, 0, .post⟩
    ⟨fresh.addr + heapInfoSize, fresh.size - heapInfoSize, 0, .top⟩ freshPost freshTop apart
    unusedPost unusedTop ⟨rfl, rfl, rfl, rfl⟩ rfl rfl rfl rfl rfl rfl

theorem HeapsOk.new_top (ok : HeapsOk form first (fresh :: heap :: earlier))
    (large : heapMinSize ≤ fresh.size) :
    Sound ⟨fresh.addr + heapInfoSize, fresh.size - heapInfoSize, 0, .top⟩ := by
  have okFresh := ok.each fresh List.mem_cons_self
  have aligned := okFresh.aligned
  have paged := okFresh.paged
  have max : heapMaxSize = 67108864 := rfl
  have min : heapMinSize = 32768 := rfl
  have header : heapInfoSize = 32 := rfl
  rw [max] at aligned
  simp only [pageSize] at paged
  refine sound_chunk rfl ?_ ?_ ?_ fun cached => by cases cached
  · omega
  · omega
  · simp only [minSize]
    omega

theorem InOrder.total_add (ordered : InOrder form first state)
    (top : AtTop form first state heap earlier left size prevSize) (fresh : HeapInfo) :
    state.arena.systemMem + fresh.size = totalSize (fresh :: heap :: earlier) := by
  rw [ordered.total, top.heaps, Nat.add_comm]
  rfl

/-- The old top is all of a guard and a post when it is too small for a chunk. -/
theorem AtTop.move_small (top : AtTop form first state heap earlier left size prevSize)
    (ordered : InOrder form first state) (ok : HeapsOk form first (fresh :: heap :: earlier))
    (large : heapMinSize ≤ fresh.size) (small : size - 32 < minSize) :
    ∃ after, moveToHeap state.arena fresh size maxFast = some after ∧
      InOrder form first ⟨after, fresh :: heap :: earlier⟩ ∧ after.held = state.arena.held ∧
      after.mdTop = fresh.addr + heapInfoSize := by
  have layout := top.layout
  have row := top.link_fencepost ok large
  have long := top.large
  have min : minSize = 32 := rfl
  have multiple := top.multiple
  have aligned : state.arena.mdTop % 16 = 0 := layout.sound_at.aligned
  have row := row.set_head ⟨state.arena.mdTop, size - 32 + 16, prevSize, .guard⟩ rfl rfl rfl rfl
    (layout.used_before (Or.inr rfl))
  obtain ⟨footed, footing, row⟩ := row.set_foot
    ⟨state.arena.mdTop + (size - 32) + 16, 16, size - 32 + 16, .post⟩ (Nat.add_assoc _ _ _) rfl rfl
    rfl rfl rfl
  have total := ordered.total_add top fresh
  have ground := ok.ground
  rw [← total, ← ordered.separate] at ground
  have guard : Sound ⟨state.arena.mdTop, size - 32 + 16, prevSize, .guard⟩ :=
    sound_guard aligned (by omega) (by omega) (by omega)
  have post : Sound ⟨state.arena.mdTop + (size - 32) + 16, 16, size - 32 + 16, .post⟩ :=
    sound_post (by omega)
  have opened := @Layout.open_region _ _ _ _ _ left [⟨state.arena.mdTop, size - 32 + 16, prevSize,
    .guard⟩] _ ⟨fresh.addr + heapInfoSize, fresh.size - heapInfoSize, 0, .top⟩
    ⟨state.arena.mdTop + (size - 32) + 16, 16, size - 32 + 16, .post⟩ _ _ layout ground
    (tiles_singleton rfl guard_inner (Nat.add_assoc _ _ _).symm) rfl
    (by have ends := top.ends; dsimp only; omega) rfl rfl
    (by dsimp only [chunksStart]; simp only [heapMinSize, heapInfoSize] at large ⊢; omega)
    ?_ rfl ?_ ?_
  · have result := opened.settle row
    refine ⟨{ state.arena with
      htbl := footed
      mdTop := fresh.addr + heapInfoSize
      systemMem := state.arena.systemMem + fresh.size }, ?_,
      ⟨ok, total, ordered.separate, ⟨_, result⟩⟩, ?_, rfl⟩
    · unfold moveToHeap
      dsimp only
      rw [top.rounded, if_neg (Nat.not_le_of_lt small)]
      exact proceed footing (proceed result.check_top rfl)
    · refine result.held_eq.trans ?_
      have nodup := result.row.nodup
      rw [layout.held_eq, held_unlent layout.row.nodup rfl]
      refine (held_unlent nodup rfl).trans ?_
      refine (held_unlent (nodup_less nodup) rfl).trans ?_
      exact held_unlent (nodup_less (nodup_less nodup)) rfl
  · intro piece member
    rcases List.mem_cons.mp member with same | member
    · rw [same]
      exact guard
    rcases List.mem_cons.mp member with same | member
    · rw [same]
      exact post
    · rw [List.mem_singleton.mp member]
      exact ok.new_top large
  · exact List.isChain_cons_cons.mpr ⟨guard_before_post,
      List.isChain_cons_cons.mpr ⟨before_used post_used post_unguarded rfl, List.isChain_singleton _⟩⟩
  · exact fun piece _ related => related.ahead rfl rfl guard_used guard_inner

/-- What is left of the old top is freed when it is large enough. -/
theorem AtTop.move_large (top : AtTop form first state heap earlier left size prevSize)
    (ordered : InOrder form first state) (ok : HeapsOk form first (fresh :: heap :: earlier))
    (large : heapMinSize ≤ fresh.size) (rest : minSize ≤ size - 32)
    (limit : maxFast ≤ maxFastSize) :
    ∃ after, moveToHeap state.arena fresh size maxFast = some after ∧
      InOrder form first ⟨after, fresh :: heap :: earlier⟩ ∧ after.held = state.arena.held ∧
      after.mdTop = fresh.addr + heapInfoSize := by
  have layout := top.layout
  have row := top.link_fencepost ok large
  have long := top.large
  have min : minSize = 32 := rfl
  have multiple := top.multiple
  have aligned : state.arena.mdTop % 16 = 0 := layout.sound_at.aligned
  obtain ⟨absent, unused⟩ := @Layout.vacant_at _ _ _ _ _ _ _ _ _
    (state.arena.mdTop + (size - 32)) layout (by omega) (by omega)
  have notTop : fresh.addr + heapInfoSize ≠ state.arena.mdTop + (size - 32) :=
    top.elsewhere ok (by omega) (by omega)
  have freshGuard : state.arena.mdTop + (size - 32) ∉ addrs (left ++
      [⟨state.arena.mdTop, size, prevSize, .taken⟩,
        ⟨state.arena.mdTop + (size - 32) + 16, 16, 0, .post⟩,
        ⟨fresh.addr + heapInfoSize, fresh.size - heapInfoSize, 0, .top⟩]) := by
    intro member
    rw [addrs, List.map_append, List.mem_append] at member absent
    rcases member with member | member
    · exact absent (Or.inl member)
    · rcases List.mem_cons.mp member with same | member
      · exact absent (Or.inr (List.mem_cons.mpr (Or.inl same)))
      · rcases List.mem_cons.mp member with same | member
        · dsimp only at same
          omega
        · exact notTop (List.mem_singleton.mp member).symm
  obtain ⟨guarded, guarding, row⟩ := row_link_second row
    ⟨state.arena.mdTop + (size - 32), 16, 0, .guard⟩ freshGuard unused rfl rfl rfl rfl rfl
  have row := row.set_head ⟨state.arena.mdTop, size - 32, prevSize, .taken⟩ rfl rfl rfl rfl
    (layout.used_before (Or.inr rfl))
  have row := row.set_place ⟨state.arena.mdTop, size - 32, prevSize, .held⟩ rfl rfl rfl rfl
  have total := ordered.total_add top fresh
  have ground := ok.ground
  rw [← total, ← ordered.separate] at ground
  have held : Sound ⟨state.arena.mdTop, size - 32, prevSize, .held⟩ :=
    sound_chunk rfl aligned (by omega) rest held_uncached
  have guard : Sound ⟨state.arena.mdTop + (size - 32), 16, 0, .guard⟩ :=
    sound_guard (by omega) (Nat.mod_self 16) (Nat.le_refl _) (by omega)
  have post : Sound ⟨state.arena.mdTop + (size - 32) + 16, 16, 16, .post⟩ :=
    sound_post (by omega)
  have opened := @Layout.open_region _ _ _ _ _ left
    [⟨state.arena.mdTop, size - 32, prevSize, .held⟩,
      ⟨state.arena.mdTop + (size - 32), 16, 0, .guard⟩] _
    ⟨fresh.addr + heapInfoSize, fresh.size - heapInfoSize, 0, .top⟩
    ⟨state.arena.mdTop + (size - 32) + 16, 16, 16, .post⟩ _ _ layout ground
    (tiles_pair rfl held_inner rfl guard_inner rfl) rfl
    (by have ends := top.ends; dsimp only; omega) rfl rfl
    (by dsimp only [chunksStart]; simp only [heapMinSize, heapInfoSize] at large ⊢; omega)
    ?_ rfl ?_ ?_
  · have result := opened.settle row
    obtain ⟨after, freeing, kept, same⟩ :=
      Orderly.int_free ⟨_, result⟩ result.row.at rfl limit
    have apart : some (state.arena.mdTop + (size - 32)) ≠ some (fresh.addr + heapInfoSize) :=
      fun same => notTop (Option.some.inj same).symm
    refine ⟨after, ?_, ⟨ok, kept.systemMem.trans total, kept.contiguous.trans ordered.separate,
      kept.orderly⟩, ?_, int_free_keeps_top result.row.at apart freeing⟩
    · obtain ⟨pieces, layout'⟩ := kept.orderly
      unfold moveToHeap
      dsimp only
      rw [top.rounded, if_pos rest]
      exact proceed guarding (proceed freeing (proceed layout'.check_top rfl))
    · rw [same, result.held_eq]
      have nodup := result.row.nodup
      refine (held_without nodup).symm.trans ?_
      rw [layout.held_eq, held_unlent layout.row.nodup rfl]
      refine (held_unlent (nodup_less nodup) rfl).trans ?_
      refine (held_unlent (nodup_less (nodup_less nodup)) rfl).trans ?_
      exact held_unlent (nodup_less (nodup_less (nodup_less nodup))) rfl
  · intro piece member
    rcases List.mem_cons.mp member with same | member
    · rw [same]
      exact held
    rcases List.mem_cons.mp member with same | member
    · rw [same]
      exact guard
    rcases List.mem_cons.mp member with same | member
    · rw [same]
      exact post
    · rw [List.mem_singleton.mp member]
      exact ok.new_top large
  · exact List.isChain_cons_cons.mpr ⟨before_used held_used held_unguarded rfl,
      List.isChain_cons_cons.mpr ⟨guard_before_post,
        List.isChain_cons_cons.mpr ⟨before_used post_used post_unguarded rfl, List.isChain_singleton _⟩⟩⟩
  · exact fun piece _ related => related.ahead rfl rfl held_used held_inner

theorem signed_positive {word : Nat} (bound : word < 2 ^ 64) (positive : 0 < signed word) :
    word < 2 ^ 63 := by
  unfold signed at positive
  split_ifs at positive with small
  · exact small
  · omega

theorem AtTop.extend (top : AtTop form first state heap earlier left size prevSize)
    (ordered : InOrder form first state) (small : diff < 2 ^ 63)
    (result : growHeap heap diff mprotect = some grown) :
    InOrder form first ⟨extendTop state.arena heap grown, grown :: earlier⟩ ∧
      (extendTop state.arena heap grown).held = state.arena.held := by
  have heaps := ordered.heaps
  rw [top.heaps] at heaps
  obtain ⟨okGrown, sameAddr, longer⟩ := grow_heap_spec (heaps.each heap List.mem_cons_self) small
    result
  have room := heaps.room _ (List.mem_append_right _ List.mem_cons_self)
  have ends := top.ends
  have large := top.large
  have aligned : state.arena.mdTop % 16 = 0 := top.layout.sound_at.aligned
  have masked := okGrown.aligned
  have paged := okGrown.paged
  have max : heapMaxSize = 67108864 := rfl
  dsimp only at room
  rw [max] at masked
  simp only [pageSize] at paged
  obtain ⟨ok, sameStart⟩ := heaps.resize okGrown sameAddr (by omega)
  have total : state.arena.systemMem + (grown.size - heap.size) = totalSize (grown :: earlier) := by
    have before : state.arena.systemMem = heap.size + totalSize earlier := by
      rw [ordered.total, top.heaps]
      rfl
    have after : totalSize (grown :: earlier) = grown.size + totalSize earlier := rfl
    omega
  exact top.resize ordered ok sameStart total (by omega) (by omega) (by omega)

theorem ThreadArena.grow_eq {found : Tag} (listed : state.arena.htbl state.arena.mdTop = some found)
    (accepted : (minSize ≤ found.size && found.prevInuse &&
      (state.arena.mdTop + found.size) % pageSize = 0) = true)
    (needed : decide (found.size < wrap (nb + minSize)) = true)
    (chain : heapsFrom state.heaps state.arena.mdTop = heap :: earlier) :
    state.grow nb topPad maxFast mprotect mapped =
      match if 0 < signed (wrapSub (wrap (minSize + nb)) found.size) then
          growHeap heap (wrapSub (wrap (minSize + nb)) found.size) mprotect else none with
      | some grown => some ⟨extendTop state.arena heap grown, grown :: earlier⟩
      | none =>
          match newHeap (wrap (nb + (minSize + heapInfoSize))) topPad mapped with
          | some fresh => (moveToHeap state.arena fresh found.size maxFast).bind
              fun arena => some ⟨arena, fresh :: heap :: earlier⟩
          | none => some state := by
  unfold ThreadArena.grow
  cases growth : (if 0 < signed (wrapSub (wrap (minSize + nb)) found.size) then
      growHeap heap (wrapSub (wrap (minSize + nb)) found.size) mprotect else none) with
  | some grown =>
      simp only [listed, chain, accepted, needed, growth, assert_true, Option.bind_eq_bind,
        Option.bind_some, Option.pure_def]
  | none =>
      cases newHeap (wrap (nb + (minSize + heapInfoSize))) topPad mapped with
      | some fresh =>
          simp only [listed, chain, accepted, needed, growth, assert_true, Option.bind_eq_bind,
            Option.bind_some, Option.pure_def]
      | none =>
          simp only [listed, chain, accepted, needed, growth, assert_true, Option.bind_eq_bind,
            Option.bind_some, Option.pure_def]

theorem InOrder.grow (ordered : InOrder form first state) (request : ChunkSize nb)
    (short : ∀ size, state.arena.chunksize state.arena.mdTop = some size → size < nb + minSize)
    (limit : maxFast ≤ maxFastSize) (answers : Answers state mapped) :
    ∃ after, state.grow nb topPad maxFast mprotect mapped = some after ∧
      InOrder form first after ∧ after.arena.held = state.arena.held ∧
      (Provided nb topPad mapped → ∃ heap ∈ after.heaps.head?,
        after.arena.mdTop + (nb + minSize) ≤ heap.addr + heap.size) := by
  obtain ⟨heap, earlier, left, size, prevSize, top⟩ := ordered.at_top
  have layout := top.layout
  have measured := layout.chunksize top_sized
  have used := layout.used_before (Or.inr rfl)
  have room := request.room
  have exact' : wrap (nb + minSize) = nb + minSize := Nat.mod_eq_of_lt room
  have paged : (state.arena.mdTop + size) % pageSize = 0 := by
    have checked := layout.check_top
    obtain ⟨_, found, tested⟩ := Option.bind_eq_some_iff.mp checked
    cases measured.symm.trans found
    unfold assert at tested
    split_ifs at tested with holds
    exact of_decide_eq_true holds
  have accepted : (decide (minSize ≤ size) && !(lastOr none left).any Piece.isFree &&
      decide ((state.arena.mdTop + size) % pageSize = 0)) = true := by
    rw [used, decide_eq_true top.large, decide_eq_true paged]
    rfl
  have needed : decide (size < wrap (nb + minSize)) = true := by
    rw [exact']
    exact decide_eq_true (short size measured)
  have begun : state.grow nb topPad maxFast mprotect mapped = _ :=
    ThreadArena.grow_eq layout.row.at_last accepted needed top.chain
  change _ = (match if 0 < signed (wrapSub (wrap (minSize + nb)) size) then
      growHeap heap (wrapSub (wrap (minSize + nb)) size) mprotect else none with
    | some grown => _
    | none => _) at begun
  cases growth : (if 0 < signed (wrapSub (wrap (minSize + nb)) size) then
      growHeap heap (wrapSub (wrap (minSize + nb)) size) mprotect else none) with
  | some grown =>
      rw [growth] at begun
      split_ifs at growth with positive
      · have small := signed_positive (Nat.mod_lt _ (by decide)) positive
        obtain ⟨inOrder, held⟩ := top.extend ordered small growth
        refine ⟨_, begun, inOrder, held, fun _ => ⟨grown, rfl, ?_⟩⟩
        have heaps := ordered.heaps
        rw [top.heaps] at heaps
        have missing : wrapSub (wrap (minSize + nb)) size = nb + minSize - size := by
          rw [Nat.add_comm minSize, exact',
            wrap_sub_exact (Nat.le_of_lt (short size measured)) room]
        rw [missing] at growth
        obtain ⟨_, sameAddr, longer⟩ :=
          grow_heap_spec (heaps.each heap List.mem_cons_self) (missing ▸ small) growth
        have ends := top.ends
        change state.arena.mdTop + (nb + minSize) ≤ grown.addr + grown.size
        omega
  | none =>
      rw [growth] at begun
      cases made : newHeap (wrap (nb + (minSize + heapInfoSize))) topPad mapped with
      | none =>
          rw [made] at begun
          refine ⟨state, begun, ordered, rfl, fun provided => ?_⟩
          obtain ⟨fresh, found, _⟩ := new_heap_provided provided
          cases made.symm.trans found
      | some fresh =>
          rw [made] at begun
          obtain ⟨answered, accessible, large, fits, whole⟩ := new_heap_spec made
          obtain ⟨aligned, bounded, elsewhere⟩ := answers fresh.addr answered
          have okFresh : HeapOk fresh :=
            ⟨aligned, whole, fits, bounded, Nat.le_of_eq accessible.symm, accessible ▸ fits⟩
          have heaps := ordered.heaps
          rw [top.heaps] at heaps elsewhere
          have ok := heaps.add okFresh large elsewhere
          obtain ⟨after, moving, result, held, moved⟩ : ∃ after,
              moveToHeap state.arena fresh size maxFast = some after ∧
              InOrder form first ⟨after, fresh :: heap :: earlier⟩ ∧
              after.held = state.arena.held ∧ after.mdTop = fresh.addr + heapInfoSize := by
            by_cases rest : minSize ≤ size - 32
            · exact top.move_large ordered ok large rest limit
            · exact top.move_small ordered ok large (Nat.lt_of_not_le rest)
          refine ⟨_, begun.trans ?_, result, held, fun provided => ⟨fresh, rfl, ?_⟩⟩
          · change (moveToHeap state.arena fresh size maxFast).bind _ = _
            rw [moving]
            rfl
          · obtain ⟨other, found, enough⟩ := new_heap_provided provided
            cases made.symm.trans found
            change after.mdTop + (nb + minSize) ≤ fresh.addr + fresh.size
            omega

theorem InOrder.keep {after : Arena} (ordered : InOrder form first state)
    (kept : Kept (initialRecords form first) (regionsOf form state.heaps) state.arena after) :
    InOrder form first { state with arena := after } :=
  ⟨ordered.heaps, kept.systemMem.trans ordered.total, kept.contiguous.trans ordered.separate,
    kept.orderly⟩

/-- What is held after a routine that returns a chunk or NULL. -/
def lendTo (held : Nat → Option Nat) (result : Option Nat) (nb : Nat) : Nat → Option Nat :=
  match result with
  | none => held
  | some p => Function.update held p (some nb)

theorem InOrder.sysmalloc (ordered : InOrder form first state) (request : ChunkSize nb)
    (short : ∀ size, state.arena.chunksize state.arena.mdTop = some size → size < nb + minSize)
    (limit : maxFast ≤ maxFastSize) (answers : Answers state mapped) :
    ∃ result after, state.sysmalloc nb topPad maxFast mprotect mapped = some (result, after) ∧
      InOrder form first after ∧ (∀ p ∈ result, state.arena.held p = none ∧ Bordered after.arena p) ∧
      after.arena.held = lendTo state.arena.held result nb ∧
      (Provided nb topPad mapped → result ≠ none) := by
  obtain ⟨grown, growing, inOrder, held, roomy⟩ := ordered.grow request short limit answers
  obtain ⟨heap, earlier, left, size, prevSize, top⟩ := inOrder.at_top
  have measured := top.layout.chunksize top_sized
  have exact' : wrap (nb + minSize) = nb + minSize := Nat.mod_eq_of_lt request.room
  by_cases fits : nb + minSize ≤ size
  · obtain ⟨after, using', kept, same, bordered⟩ := inOrder.orderly.use_top measured request fits
    refine ⟨some grown.arena.mdTop, { grown with arena := after }, ?_, inOrder.keep kept, ?_, ?_,
      fun _ nothing => by cases nothing⟩
    · refine proceed growing (proceed measured ?_)
      rw [exact', if_pos fits]
      exact proceed using' rfl
    · intro p same
      cases same
      rw [← held]
      exact ⟨inOrder.orderly.top_unheld, bordered⟩
    · rw [same, held]
      rfl
  · refine ⟨none, grown, ?_, inOrder, (fun _ nothing => by cases nothing), held, ?_⟩
    · refine proceed growing (proceed measured ?_)
      rw [exact', if_neg fits]
      rfl
    · intro provided
      obtain ⟨newest, isNewest, enough⟩ := roomy provided
      rw [top.heaps] at isNewest
      cases isNewest
      have ends := top.ends
      omega

end SriGlibcMalloc.Heaps
