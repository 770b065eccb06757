import SriGlibcMalloc.Heaps.Model
import SriGlibcMalloc.Chunks.Layout
import Mathlib.Algebra.Order.BigOperators.Group.List
import Mathlib.Algebra.Order.Group.Nat

/-!
# Where the heaps of an arena are

Every heap lies in an aligned area of its own and consists of whole pages. Its chunks fill it
from the end of its header on; the regions of the heaps, the oldest first, are those of a row.
-/

namespace SriGlibcMalloc.Heaps

open BoundaryTags
open ArenaLookup (heapForPtr heap_for_ptr)
open Chunks
open EntryPoints (minSize)
open MainArena (pageSize wrap alignUp alignDown)

set_option autoImplicit false

def chunksStart (form : MallocState) (heap : HeapInfo) : List HeapInfo → Nat
  | [] => firstChunk form heap.addr
  | _ :: _ => heap.addr + heapInfoSize

def regionsOf (form : MallocState) : List HeapInfo → List Region
  | [] => []
  | heap :: earlier =>
      regionsOf form earlier ++ [⟨chunksStart form heap earlier, heap.addr + heap.size⟩]

structure HeapOk (heap : HeapInfo) : Prop where
  aligned : heap.addr % heapMaxSize = 0
  paged : heap.size % pageSize = 0
  fits : heap.size ≤ heapMaxSize
  bounded : heap.addr + heapMaxSize < 2 ^ 63
  accessible : heap.size ≤ heap.mprotectSize ∧ heap.mprotectSize ≤ heapMaxSize

structure HeapsOk (form : MallocState) (first : Nat) (heaps : List HeapInfo) : Prop where
  each : ∀ heap ∈ heaps, HeapOk heap
  distinct : (heaps.map HeapInfo.addr).Nodup
  first : (heaps.map HeapInfo.addr).getLast? = some first
  room : ∀ region ∈ regionsOf form heaps, region.start + minSize ≤ region.stop

def totalSize (heaps : List HeapInfo) : Nat := (heaps.map HeapInfo.size).sum

variable {form : MallocState} {first addr size topPad diff : Nat} {heap other grown : HeapInfo}
variable {heaps earlier : List HeapInfo} {region : Region}

theorem align_down_le {base unit : Nat} : alignDown base unit ≤ base := Nat.sub_le _ _

theorem align_down_paged {base unit : Nat} : alignDown base unit % unit = 0 := by
  unfold alignDown
  have parts := Nat.div_add_mod base unit
  rw [show base - base % unit = unit * (base / unit) by omega]
  exact Nat.mul_mod_right unit _

/-- The sizes that are rounded to pages are far from the end of the word. -/
theorem align_up_spec {base : Nat} (small : base + pageSize ≤ 2 ^ 64) :
    base ≤ alignUp base pageSize ∧ alignUp base pageSize < base + pageSize ∧
      alignUp base pageSize % pageSize = 0 := by
  have exact' : wrap (base + pageSize - 1) = base + pageSize - 1 :=
    Nat.mod_eq_of_lt (by simp only [pageSize] at small ⊢; omega)
  refine ⟨?_, ?_, align_down_paged⟩
  · rw [alignUp, exact', alignDown]
    simp only [pageSize]
    omega
  · rw [alignUp, exact', alignDown]
    simp only [pageSize]
    omega

theorem align_up_max {base : Nat} (small : base ≤ heapMaxSize) :
    base ≤ alignUp base pageSize ∧ alignUp base pageSize ≤ heapMaxSize ∧
      alignUp base pageSize % pageSize = 0 := by
  have max : heapMaxSize = 67108864 := by decide
  obtain ⟨low, high, paged⟩ := @align_up_spec base (by simp only [pageSize]; omega)
  simp only [pageSize] at low high paged ⊢
  omega

theorem new_heap_size_spec {result : Nat} (sized : newHeapSize size topPad = some result) :
    heapMinSize ≤ result ∧ result ≤ heapMaxSize ∧ result % pageSize = 0 := by
  unfold newHeapSize at sized
  dsimp only at sized
  split_ifs at sized with small fits large
  · have bound : heapMinSize ≤ heapMaxSize := by simp only [heapMinSize, heapMaxSize]; omega
    rw [← Option.some.inj sized]
    exact @align_up_max heapMinSize bound
  · rw [← Option.some.inj sized]
    obtain ⟨low, high, paged⟩ := align_up_max fits
    exact ⟨Nat.le_trans (Nat.le_of_not_lt small) low, high, paged⟩
  · rw [← Option.some.inj sized]
    obtain ⟨low, high, paged⟩ := align_up_max (Nat.le_refl heapMaxSize)
    have bound : heapMinSize ≤ heapMaxSize := by simp only [heapMinSize, heapMaxSize]; omega
    exact ⟨Nat.le_trans bound low, high, paged⟩

/-- A heap is as large as is asked for, unless the padding makes the sum wrap around. -/
theorem new_heap_size_enough (fits : size ≤ heapMaxSize) (exact' : size + topPad < 2 ^ 64) :
    ∃ result, newHeapSize size topPad = some result ∧ size ≤ result := by
  unfold newHeapSize
  rw [wrap, Nat.mod_eq_of_lt exact']
  dsimp only
  split_ifs with small padded large
  · have bound : heapMinSize ≤ heapMaxSize := by simp only [heapMinSize, heapMaxSize]; omega
    have low := (align_up_max bound).1
    exact ⟨_, rfl, by omega⟩
  · have low := (align_up_max padded).1
    exact ⟨_, rfl, by omega⟩
  · omega
  · have low := (align_up_max (Nat.le_refl heapMaxSize)).1
    exact ⟨_, rfl, Nat.le_trans fits low⟩

theorem first_chunk_spec (form : MallocState) (addr : Nat) :
    addr + heapInfoSize + form.size ≤ firstChunk form addr ∧
      firstChunk form addr + minSize ≤ addr + heapMinSize ∧ firstChunk form addr % 16 = 0 := by
  have fits := form.fits
  unfold firstChunk
  dsimp only
  split_ifs with aligned
  · omega
  · omega

theorem chunks_start_bounds (form : MallocState) (heap : HeapInfo) (earlier : List HeapInfo) :
    heap.addr + heapInfoSize ≤ chunksStart form heap earlier ∧
      chunksStart form heap earlier + minSize ≤ heap.addr + heapMinSize := by
  cases earlier with
  | nil =>
      obtain ⟨low, high, _⟩ := first_chunk_spec form heap.addr
      exact ⟨Nat.le_trans (Nat.le_add_right _ _) low, high⟩
  | cons before others =>
      refine ⟨Nat.le_refl _, ?_⟩
      simp only [chunksStart, heapInfoSize, minSize, heapMinSize]
      omega

theorem HeapOk.heap_for (ok : HeapOk heap) {p : Nat} (low : heap.addr ≤ p)
    (high : p < heap.addr + heap.size) : heapForPtr heapMaxSize p = heap.addr := by
  have fits := ok.fits
  have bounded := ok.bounded
  exact heap_for_ptr (by decide) ok.aligned low (by simp only [heapMaxSize] at fits; omega)
    (by omega)

theorem heaps_apart (ok : HeapOk heap) (ok' : HeapOk other) (differs : heap.addr ≠ other.addr) :
    heap.addr + heap.size ≤ other.addr ∨ other.addr + other.size ≤ heap.addr := by
  have aligned := ok.aligned
  have aligned' := ok'.aligned
  have fits := ok.fits
  have fits' := ok'.fits
  simp only [heapMaxSize] at aligned aligned' fits fits'
  omega

theorem region_of_heap (listed : region ∈ regionsOf form heaps) :
    ∃ heap ∈ heaps, heap.addr + heapInfoSize ≤ region.start ∧
      region.stop = heap.addr + heap.size := by
  induction heaps with
  | nil => cases listed
  | cons heap earlier ih =>
      rcases List.mem_append.mp listed with before | own
      · obtain ⟨other, member, bounds⟩ := ih before
        exact ⟨other, List.mem_cons_of_mem _ member, bounds⟩
      · rw [List.mem_singleton.mp own]
        exact ⟨heap, List.mem_cons_self, (chunks_start_bounds form heap earlier).1, rfl⟩

theorem HeapsOk.tail (ok : HeapsOk form first (heap :: other :: earlier)) :
    HeapsOk form first (other :: earlier) where
  each := fun member listed => ok.each member (List.mem_cons_of_mem _ listed)
  distinct := (List.nodup_cons.mp ok.distinct).2
  first := by
    have last := ok.first
    rw [List.map_cons, List.map_cons, List.getLast?_cons_cons] at last
    exact last
  room := fun region listed => ok.room region (List.mem_append_left _ listed)

theorem regions_apart (each : ∀ heap ∈ heaps, HeapOk heap)
    (distinct : (heaps.map HeapInfo.addr).Nodup) :
    (regionsOf form heaps).Pairwise Region.Apart := by
  induction heaps with
  | nil => exact List.Pairwise.nil
  | cons heap earlier ih =>
      obtain ⟨fresh, distinct⟩ := List.nodup_cons.mp distinct
      refine List.pairwise_append.mpr ⟨ih (fun other listed =>
        each other (List.mem_cons_of_mem _ listed)) distinct, List.pairwise_singleton _ _, ?_⟩
      intro region listed last own
      rw [List.mem_singleton.mp own]
      obtain ⟨other, member, low, high⟩ := region_of_heap listed
      have differs : other.addr ≠ heap.addr := fun same =>
        fresh (List.mem_map.mpr ⟨other, member, same⟩)
      have start := (chunks_start_bounds form heap earlier).1
      have apart := heaps_apart (each other (List.mem_cons_of_mem _ member))
        (each heap List.mem_cons_self) differs
      simp only [heapInfoSize] at start low
      rcases apart with before | behind
      · exact Or.inl (by dsimp only; omega)
      · exact Or.inr (by dsimp only; omega)

theorem size_le_total (member : heap ∈ heaps) : heap.size ≤ totalSize heaps :=
  List.single_le_sum (fun _ _ => Nat.zero_le _) _ (List.mem_map_of_mem member)

theorem header_outside (ok : HeapsOk form first heaps) (listed : region ∈ regionsOf form heaps) :
    region.stop ≤ first ∨ first + heapInfoSize + form.size ≤ region.start := by
  induction heaps with
  | nil => cases listed
  | cons heap earlier ih =>
      cases earlier with
      | nil =>
          have own : heap.addr = first := Option.some.inj ok.first
          rw [List.mem_singleton.mp listed]
          have start := (first_chunk_spec form heap.addr).1
          rw [own] at start
          exact Or.inr (own ▸ start)
      | cons before others =>
          rcases List.mem_append.mp listed with before' | own
          · exact ih ok.tail before'
          · have last := ok.tail.first
            obtain ⟨oldest, member, place⟩ := List.mem_map.mp (List.mem_of_getLast? last)
            have differs : heap.addr ≠ oldest.addr := fun same =>
              (List.nodup_cons.mp ok.distinct).1 (List.mem_map.mpr ⟨oldest, member, same.symm⟩)
            have aligned := (ok.each heap List.mem_cons_self).aligned
            have aligned' := (ok.each oldest (List.mem_cons_of_mem _ member)).aligned
            have fits := (ok.each heap List.mem_cons_self).fits
            have small := form.fits
            rw [List.mem_singleton.mp own]
            simp only [chunksStart]
            simp only [heapMaxSize, heapMinSize] at aligned aligned' fits small
            omega

theorem initial_records_outside (ok : HeapsOk form first heaps)
    (listed : region ∈ regionsOf form heaps) (low : region.start ≤ addr)
    (high : addr < region.stop) : initialRecords form first addr = none := by
  unfold initialRecords registerChunk
  refine Function.update_of_ne (fun same : addr = _ => ?_) _ _
  have inside := form.inside
  rcases header_outside ok listed with behind | before
  · omega
  · omega

/-- Heaps make a ground for chunks. -/
theorem HeapsOk.ground (ok : HeapsOk form first heaps) :
    Ground (initialRecords form first) (regionsOf form heaps) (totalSize heaps) false where
  apart := regions_apart ok.each ok.distinct
  bounded := by
    intro region listed
    obtain ⟨heap, member, low, high⟩ := region_of_heap listed
    have ok := ok.each heap member
    have fits := ok.fits
    have bounded := ok.bounded
    have total := size_le_total member
    have max : heapMaxSize = 67108864 := by decide
    simp only [heapInfoSize] at low
    omega
  paged := by
    intro region last
    cases heaps with
    | nil => cases last
    | cons heap earlier =>
        rw [regionsOf, List.getLast?_concat] at last
        cases last
        have aligned := (ok.each heap List.mem_cons_self).aligned
        have paged := (ok.each heap List.mem_cons_self).paged
        simp only [heapMaxSize, pageSize] at aligned paged ⊢
        omega
  upward := fun impossible => by cases impossible
  unused := fun region listed addr low high => initial_records_outside ok listed low high
  unlisted := by
    intro addr
    unfold initialRecords registerChunk
    rw [Function.update_apply]
    split_ifs
    · rfl
    · rfl

end SriGlibcMalloc.Heaps
