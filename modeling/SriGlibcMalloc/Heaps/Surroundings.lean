import SriGlibcMalloc.Heaps.Growth
import SriGlibcMalloc.Chunks.Checks
import SriGlibcMalloc.Lookup.HeapRegistration

/-!
# An arena in its surroundings

The heaps of an arena are registered in the lookup under its index, so that every chunk on
record is attributed to it. What holds of all chunks can be tested along `md_next`.
-/

namespace SriGlibcMalloc.Heaps

open ArenaLookup (System Attributed tombstone lookupArenaIndex)
open Bins (Links)
open BoundaryTags
open Chunks

set_option autoImplicit false

/-- The lookup has the heaps of an arena under its index, and no other part of the lookup claims
them; the free chunks are on lists that the pointers of the bins read. -/
structure Surrounded (state : ThreadArena) (system : System) (index : Nat) (links : Links) :
    Prop where
  attributed : Attributed system
  registered : system.heaps index = state.heaps.map HeapInfo.addr
  reserved : system.lookup.heapMax = heapMaxSize
  unclaimed : ∀ heap ∈ state.heaps, ∀ p, heap.addr ≤ p → p < heap.addr + heapMaxSize →
    system.lookup.inSbrkRegion p = false ∧ system.lookup.mmapTbl p = tombstone
  linked : ∀ p tag, state.arena.htbl p = some tag → tag.place = some .bin →
    ∃ list, links.On list ⟨p, tag.size⟩

variable {form : MallocState} {first p fuel : Nat} {state : ThreadArena} {system : System}
variable {index : Nat} {links : Links} {tag : Tag} {heaps : List HeapInfo}
variable {base : Table} {regions : List Region} {arena : Arena} {left right : List Piece}
variable {piece : Piece} {test : Nat → Tag → Bool}

theorem HeapsOk.first_heap (ok : HeapsOk form first heaps) :
    ∃ heap ∈ heaps, heap.addr = first := List.mem_map.mp (List.mem_of_getLast? ok.first)

/-- Every record is that of a chunk in a heap, or in the header of the first heap. -/
theorem InOrder.record_in_heap (ordered : InOrder form first state)
    (listed : state.arena.htbl p = some tag) :
    ∃ heap ∈ state.heaps, heap.addr ≤ p ∧ p < heap.addr + heapMaxSize := by
  obtain ⟨pieces, layout⟩ := ordered.orderly
  rcases layout.record listed with ⟨left, piece, right, shape, own, _⟩ | header
  · have member : piece ∈ pieces := shape ▸ List.mem_append_right _ List.mem_cons_self
    obtain ⟨region, inRegions, low, high⟩ := layout.fills.inside piece member
    obtain ⟨heap, inHeaps, start, stop⟩ := region_of_heap inRegions
    have fits := (ordered.heaps.each heap inHeaps).fits
    have positive := (layout.sound piece member).positive
    refine ⟨heap, inHeaps, ?_, ?_⟩
    · omega
    · omega
  · obtain ⟨heap, inHeaps, oldest⟩ := ordered.heaps.first_heap
    have inside := form.inside
    have fits := form.fits
    have bound : heapMinSize ≤ heapMaxSize := by decide
    unfold initialRecords registerChunk at header
    rw [Function.update_apply] at header
    split_ifs at header with place
    refine ⟨heap, inHeaps, ?_, ?_⟩
    · omega
    · omega

theorem InOrder.within (ordered : InOrder form first state)
    (surrounded : Surrounded state system index links) :
    state.arena.Within ⟨system.lookup, index, links⟩ where
  named := by
    intro p tag listed
    obtain ⟨heap, member, low, high⟩ := ordered.record_in_heap listed
    obtain ⟨outside, unmapped⟩ := surrounded.unclaimed heap member p low high
    have registered : heap.addr ∈ system.heaps index := by
      rw [surrounded.registered]
      exact List.mem_map_of_mem member
    have reserved := surrounded.reserved
    exact (surrounded.attributed index heap.addr registered).2 p low (by rw [reserved]; exact high)
      outside unmapped
  linked := surrounded.linked

def allAlong (tags : Table) (test : Nat → Tag → Bool) : Nat → Nat → Bool
  | 0, _ => false
  | fuel + 1, p =>
      (tags p).any fun tag => test p tag && tag.next.all fun next => allAlong tags test fuel next

theorem all_along_from (layout : Layout base regions arena (left ++ piece :: right))
    (passed : allAlong arena.htbl test fuel piece.addr = true) :
    ∀ other ∈ piece :: right, (arena.htbl other.addr).all (test other.addr) = true := by
  induction right generalizing left piece fuel with
  | nil =>
      cases fuel with
      | zero => cases passed
      | succ fuel =>
          rw [allAlong, layout.row.at, Option.any_some, Bool.and_eq_true] at passed
          intro other member
          rw [List.mem_singleton.mp member, layout.row.at]
          exact passed.1
  | cons next rest ih =>
      cases fuel with
      | zero => cases passed
      | succ fuel =>
          rw [allAlong, layout.row.at, Option.any_some, Bool.and_eq_true] at passed
          intro other member
          rcases List.mem_cons.mp member with own | later
          · rw [own, layout.row.at]
            exact passed.1
          · rw [List.append_cons] at layout
            exact ih layout passed.2 other later

theorem first_start_of_heaps (ok : HeapsOk form first heaps) :
    firstStart (regionsOf form heaps) = firstChunk form first := by
  induction heaps with
  | nil => cases ok.first
  | cons heap earlier ih =>
      cases earlier with
      | nil =>
          have own : heap.addr = first := Option.some.inj ok.first
          rw [← own]
          rfl
      | cons before others =>
          have occupied : regionsOf form (before :: others) ≠ [] :=
            List.append_ne_nil_of_right_ne_nil _ (List.cons_ne_nil _ _)
          exact (first_start_append occupied).trans (ih ok.tail)

/-- A test that all records from the first chunk on pass is passed by all that are on a list or
handed out. -/
theorem InOrder.all_along (ordered : InOrder form first state)
    (passed : allAlong state.arena.htbl test fuel (firstChunk form first) = true)
    (listed : state.arena.htbl p = some tag) (placed : tag.place ≠ none) : test p tag = true := by
  obtain ⟨pieces, layout⟩ := ordered.orderly
  obtain ⟨left, piece, right, shape, own, _⟩ := layout.locate listed placed
  have member : piece ∈ pieces := shape ▸ List.mem_append_right _ List.mem_cons_self
  cases pieces with
  | nil => cases member
  | cons start rest =>
      have begins : start.addr = firstChunk form first :=
        layout.fills.begins.trans (first_start_of_heaps ordered.heaps)
      rw [← begins] at passed
      have along := @all_along_from _ _ _ _ [] _ _ _ layout passed piece member
      rw [own, listed] at along
      exact along

end SriGlibcMalloc.Heaps
