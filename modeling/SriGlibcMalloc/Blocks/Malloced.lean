import SriGlibcMalloc.Bins.Run

/-!
# The blocks that `_int_malloc` hands out

Every way in which `_int_malloc` satisfies a request, from any state that the bins of an
arena reach: a fast chunk, a chunk of a small bin, an unsorted chunk, the best fit, what the
scan finds, a part of top, and a mapping of its own. `sysmalloc` ends as `use_top` does,
with the top that it has grown.
-/

namespace SriGlibcMalloc.Blocks

open Bins Transition
open EntryPoints (minSize checkedRequest2size request2size mallocAlignMask)
open MainArena (wrap wrapSub alignUp alignDown pageSize sizeSz chunksize wrap_sub_exact)

set_option autoImplicit false

/-- A chunk that is handed out, with what its record and that of the next chunk say. -/
structure Block where
  addr : Nat
  size : Nat
  prevSize : Nat
  mmapped : Bool
  inuse : Bool
  deriving DecidableEq, Repr

/-- A chunk of an arena; the bit of the next chunk is set, or was never cleared. -/
def heapBlock (chunk : FreeChunk) : Block := ⟨chunk.addr, chunk.size, 0, false, true⟩

/-- The first part of `sysmalloc`: a mapping, unless its size wraps around. -/
def sysmallocMmap (nb : Nat) (mm : Option Nat) : Option Block :=
  let size := alignUp (wrap (nb + sizeSz)) pageSize
  if nb < size then mm.map fun mm => ⟨mm, chunksize size, 0, true, false⟩ else none

def Reached (arena : Arena) : Prop :=
  ∃ initialTop actions, Permitted step Proper (Arena.initial initialTop) actions ∧
    run step (Arena.initial initialTop) actions = some arena

theorem Reached.binned {arena : Arena} (reached : Reached arena) : Binned arena := by
  obtain ⟨initialTop, actions, proper, ran⟩ := reached
  exact run_binned initialTop actions arena proper ran

/-- What a block is made of: a mapping that ends at an address, or a free block of some
size, of which at most so many bytes more than requested are kept. -/
inductive Source
  | mapping (stop : Nat)
  | free (found keeps : Nat)

/-- A remainder that is smaller than `MINSIZE` is not split off. -/
def Source.carved (found : Nat) : Source := .free found (minSize - 1)

inductive IntMalloc (nb : Nat) : Source → Block → Prop
  | fast {arena next : Arena} {chunk : FreeChunk} {maxFast : Nat} (reached : Reached arena)
      (limit : maxFast ≤ maxFastSize)
      (taken : arena.takeFast maxFast nb = some (some chunk, next)) :
      IntMalloc nb (.carved nb) (heapBlock chunk)
  | small {arena next : Arena} {chunk : FreeChunk} (reached : Reached arena)
      (taken : arena.takeSmall nb = (some chunk, next)) :
      IntMalloc nb (.carved nb) (heapBlock chunk)
  | unsorted {arena next : Arena} {chunk : FreeChunk} (reached : Reached arena)
      (sorted : arena.sortUnsorted nb maxIters = some (some chunk, next)) :
      IntMalloc nb (.carved nb) (heapBlock chunk)
  | bestFit {arena next : Arena} {chunk victim : FreeChunk} (reached : Reached arena)
      (found : bestFitVictim (arena.bins (largebinIndex64 nb)) nb = some victim)
      (taken : arena.takeBestFit nb = (some chunk, next)) :
      IntMalloc nb (.carved victim.size) (heapBlock chunk)
  | scanned {arena next : Arena} {chunk victim : FreeChunk} {index : Nat}
      {binmap : Nat → BitVec 32} (reached : Reached arena)
      (found : arena.search scanFuel nb = some ⟨binmap, some (index, victim)⟩)
      (taken : arena.takeScanned scanFuel nb = some (some chunk, next)) :
      IntMalloc nb (.carved victim.size) (heapBlock chunk)
  | top {arena next : Arena} {chunk : FreeChunk} (reached : Reached arena)
      (split : arena.useTop nb = (some chunk, next)) :
      IntMalloc nb (.carved nb) (heapBlock chunk)
  | mapped {mm : Nat} {block : Block} (positive : 0 < mm) (page : mm % pageSize = 0)
      (inside : mm + alignUp (wrap (nb + sizeSz)) pageSize < 2 ^ 63)
      (mapping : sysmallocMmap nb (some mm) = some block) :
      IntMalloc nb (.mapping (mm + alignUp (wrap (nb + sizeSz)) pageSize)) block

def Malloced (bytes : Nat) (source : Source) (block : Block) : Prop :=
  ∃ nb, checkedRequest2size bytes = some nb ∧ IntMalloc nb source block

structure Block.Valid (block : Block) : Prop where
  positive : 0 < block.addr
  aligned : block.addr % 16 = 0
  whole : block.size % 16 = 0
  inside : block.addr + block.size < 2 ^ 63

def Cut (nb : Nat) (block : Block) : Source → Prop
  | .mapping stop => block.mmapped = true ∧ block.addr + block.size = stop ∧ nb + 16 ≤ block.size
  | .free found keeps => block.mmapped = false ∧ block.inuse = true ∧ nb ≤ found ∧
      found % 16 = 0 ∧ block.size = if found ≤ nb + keeps then found else nb

variable {arena next : Arena} {chunk victim : FreeChunk} {nb : Nat} {source : Source}
variable {block : Block}

theorem request_accepted {bytes : Nat} (room : bytes + 2 * minSize < 2 ^ 64) :
    checkedRequest2size bytes = some (request2size bytes) := by
  unfold checkedRequest2size
  rw [if_neg]
  intro refused
  have large : 2 ^ 64 - 2 * minSize ≤ bytes := of_decide_eq_true refused
  omega

theorem request_checked {bytes nb : Nat} (requested : checkedRequest2size bytes = some nb) :
    bytes + 2 * minSize < 2 ^ 64 ∧ nb = request2size bytes := by
  unfold checkedRequest2size at requested
  split at requested
  case isTrue => cases requested
  case isFalse accepted =>
    have small : ¬2 ^ 64 - 2 * minSize ≤ bytes := fun large =>
      accepted (decide_eq_true large)
    simp only [minSize] at small ⊢
    exact ⟨by omega, (Option.some.inj requested).symm⟩

theorem request_padded (bytes : Nat) : bytes ≤ request2size bytes := by
  unfold request2size
  by_cases tiny : bytes + mallocAlignMask < minSize
  · rw [if_pos tiny]
    omega
  · rw [if_neg tiny]
    simp only [mallocAlignMask]
    omega

theorem heap_block_valid (valid : chunk.Valid) : (heapBlock chunk).Valid :=
  ⟨valid.positive, valid.aligned, valid.size.aligned, valid.inside⟩

theorem cut_exact (request : ChunkSize nb) (same : chunk.size = nb) :
    Cut nb (heapBlock chunk) (.carved nb) := by
  refine ⟨rfl, rfl, Nat.le_refl nb, request.aligned, ?_⟩
  rw [if_pos (Nat.le_add_right nb _)]
  exact same

theorem take_fast_exact {maxFast : Nat} (binned : Binned arena) (request : ChunkSize nb)
    (limit : maxFast ≤ maxFastSize)
    (taken : arena.takeFast maxFast nb = some (some chunk, next)) :
    chunk.Valid ∧ chunk.size = nb := by
  unfold Arena.takeFast at taken
  dsimp only at taken
  split_ifs at taken with small
  · split at taken
    case h_1 => cases taken
    case h_2 victim rest shape =>
      split_ifs at taken with same
      cases taken
      have member : chunk ∈ arena.fastbins (fastbinIndex nb) := by
        rw [shape]
        exact List.mem_cons_self
      obtain ⟨valid, index, fits⟩ := binned.fast _ _ member
      refine ⟨valid, ?_⟩
      have whole := valid.size.aligned
      have minimal := valid.size.minimal
      have requested := request.aligned
      have least := request.minimal
      simp only [fastbinIndex, maxFastSize, minSize, Nat.shiftRight_eq_div_pow] at *
      omega
  · cases taken

theorem take_small_exact (binned : Binned arena) (request : ChunkSize nb)
    (taken : arena.takeSmall nb = (some chunk, next)) : chunk.Valid ∧ chunk.size = nb := by
  unfold Arena.takeSmall at taken
  dsimp only at taken
  split_ifs at taken with small
  · split at taken
    case h_1 => cases taken
    case h_2 victim last =>
      cases taken
      obtain ⟨valid, index⟩ := binned.placed _ _ (List.mem_of_getLast? last)
      exact ⟨valid, small_bin_size valid.size request small index⟩
  · cases taken

theorem front_valid (valid : victim.Valid) (request : ChunkSize nb) (fits : nb ≤ victim.size) :
    FreeChunk.Valid ⟨victim.addr, nb⟩ := by
  have inside := valid.inside
  refine ⟨request, valid.positive, valid.aligned, ?_⟩
  dsimp only
  omega

theorem sort_unsorted_exact {left : Nat} (binned : Binned arena) (request : ChunkSize nb)
    (sorted : arena.sortUnsorted nb left = some (some chunk, next)) :
    chunk.Valid ∧ chunk.size = nb := by
  induction left generalizing arena with
  | zero => cases sorted
  | succ left ih =>
      rw [Arena.sortUnsorted] at sorted
      split at sorted
      case h_1 => cases sorted
      case h_2 victim last =>
        have valid := binned.waiting victim (List.mem_of_getLast? last)
        have rest := binned.drop_unsorted (List.dropLast_sublist _).subset
        dsimp only at sorted
        split_ifs at sorted with corrupted splits fits
        · cases sorted
          have room : nb + minSize < victim.size := by
            simp only [Arena.splitsRemainder, Bool.and_eq_true, decide_eq_true_eq] at splits
            exact splits.2
          exact ⟨front_valid valid request (by omega), rfl⟩
        · cases sorted
          exact ⟨valid, fits⟩
        · exact ih (rest.bin_chunk valid) sorted

theorem carve_cut (arena : Arena) (valid : victim.Valid) (request : ChunkSize nb)
    (fits : nb ≤ victim.size) (advertise : Bool) :
    (arena.carve victim nb advertise).1.Valid ∧
      Cut nb (heapBlock (arena.carve victim nb advertise).1) (.carved victim.size) := by
  have word := valid.size.word
  unfold Arena.carve
  dsimp only
  rw [wrap_sub_exact fits (by omega)]
  by_cases exhausted : victim.size - nb < minSize
  · have kept : victim.size ≤ nb + (minSize - 1) := by
      simp only [minSize] at exhausted ⊢
      omega
    rw [if_pos exhausted]
    exact ⟨valid, rfl, rfl, fits, valid.size.aligned, (if_pos kept).symm⟩
  · have split' : ¬victim.size ≤ nb + (minSize - 1) := by
      simp only [minSize] at exhausted ⊢
      omega
    rw [if_neg exhausted]
    exact ⟨front_valid valid request fits, rfl, rfl, fits, valid.size.aligned,
      (if_neg split').symm⟩

theorem take_best_fit_cut (binned : Binned arena) (request : ChunkSize nb)
    (found : bestFitVictim (arena.bins (largebinIndex64 nb)) nb = some victim)
    (taken : arena.takeBestFit nb = (some chunk, next)) :
    chunk.Valid ∧ Cut nb (heapBlock chunk) (.carved victim.size) := by
  unfold Arena.takeBestFit at taken
  dsimp only at taken
  split_ifs at taken
  · cases taken
  · rw [found] at taken
    obtain ⟨member, fits⟩ := best_fit_victim_spec found
    have valid := (binned.placed _ victim member).1
    cases taken
    exact carve_cut _ valid request fits false

theorem take_scanned_cut {index : Nat} {binmap : Nat → BitVec 32} (binned : Binned arena)
    (request : ChunkSize nb)
    (found : arena.search scanFuel nb = some ⟨binmap, some (index, victim)⟩)
    (taken : arena.takeScanned scanFuel nb = some (some chunk, next)) :
    chunk.Valid ∧ Cut nb (heapBlock chunk) (.carved victim.size) := by
  obtain ⟨_, searched, lowest⟩ := binned.search request
  cases found.symm.trans searched
  obtain ⟨above, _, last, _⟩ := lowest.something index victim rfl
  have member := List.mem_of_getLast? last
  have fits := binned.larger request member above
  have valid := (binned.placed index victim member).1
  unfold Arena.takeScanned at taken
  rw [found] at taken
  cases taken
  exact carve_cut _ valid request (Nat.le_of_lt fits) true

theorem use_top_exact (binned : Binned arena) (request : ChunkSize nb)
    (split' : arena.useTop nb = (some chunk, next)) : chunk.Valid ∧ chunk.size = nb := by
  unfold Arena.useTop at split'
  split_ifs at split' with room
  · obtain ⟨valid, fits⟩ := use_top_fits binned request room
    have inside := valid.inside
    cases split'
    refine ⟨⟨request, valid.positive, valid.aligned, ?_⟩, rfl⟩
    dsimp only
    omega
  · cases split'

theorem sysmalloc_mmap_cut {mm : Nat} (request : ChunkSize nb) (positive : 0 < mm)
    (page : mm % pageSize = 0)
    (inside : mm + alignUp (wrap (nb + sizeSz)) pageSize < 2 ^ 63)
    (mapping : sysmallocMmap nb (some mm) = some block) :
    block.Valid ∧ Cut nb block (.mapping (mm + alignUp (wrap (nb + sizeSz)) pageSize)) := by
  have whole := request.aligned
  have room := request.room
  unfold sysmallocMmap at mapping
  dsimp only at mapping
  split_ifs at mapping with larger
  cases mapping
  have sum : wrap (nb + sizeSz) = nb + sizeSz :=
    Nat.mod_eq_of_lt (Nat.lt_of_le_of_lt (Nat.add_le_add_left (by decide) nb) room)
  rw [sum] at inside larger ⊢
  have pages : alignUp (nb + sizeSz) pageSize % pageSize = 0 ∧
      nb + sizeSz ≤ alignUp (nb + sizeSz) pageSize := by
    unfold alignUp alignDown wrap at inside larger ⊢
    simp only [pageSize, sizeSz, minSize] at *
    omega
  obtain ⟨pages, above⟩ := pages
  generalize alignUp (nb + sizeSz) pageSize = size at *
  have exact' : chunksize size = size := by
    simp only [chunksize, pageSize] at pages ⊢
    omega
  rw [exact']
  simp only [pageSize, sizeSz] at *
  refine ⟨⟨positive, ?_, ?_, inside⟩, rfl, rfl, ?_⟩
  · dsimp only
    omega
  · dsimp only
    omega
  · dsimp only
    omega

/-- Every block that `_int_malloc` hands out. -/
theorem IntMalloc.cut (request : ChunkSize nb) (malloced : IntMalloc nb source block) :
    block.Valid ∧ Cut nb block source := by
  cases malloced with
  | fast reached limit taken =>
      obtain ⟨valid, same⟩ := take_fast_exact reached.binned request limit taken
      exact ⟨heap_block_valid valid, cut_exact request same⟩
  | small reached taken =>
      obtain ⟨valid, same⟩ := take_small_exact reached.binned request taken
      exact ⟨heap_block_valid valid, cut_exact request same⟩
  | unsorted reached sorted =>
      obtain ⟨valid, same⟩ := sort_unsorted_exact reached.binned request sorted
      exact ⟨heap_block_valid valid, cut_exact request same⟩
  | bestFit reached found taken =>
      obtain ⟨valid, cut⟩ := take_best_fit_cut reached.binned request found taken
      exact ⟨heap_block_valid valid, cut⟩
  | scanned reached found taken =>
      obtain ⟨valid, cut⟩ := take_scanned_cut reached.binned request found taken
      exact ⟨heap_block_valid valid, cut⟩
  | top reached split' =>
      obtain ⟨valid, same⟩ := use_top_exact reached.binned request split'
      exact ⟨heap_block_valid valid, cut_exact request same⟩
  | mapped positive page inside mapping =>
      exact sysmalloc_mmap_cut request positive page inside mapping

theorem Cut.large (cut : Cut nb block source) : nb ≤ block.size := by
  cases source with
  | mapping stop => exact Nat.le_of_add_right_le cut.2.2
  | free found keeps =>
      obtain ⟨_, _, fits, _, size⟩ := cut
      rw [size]
      split_ifs
      · exact fits
      · exact Nat.le_refl nb

theorem Cut.small {found keeps : Nat} (cut : Cut nb block (.free found keeps)) :
    block.size ≤ found := by
  obtain ⟨_, _, fits, _, size⟩ := cut
  rw [size]
  split_ifs
  · exact Nat.le_refl found
  · exact fits

end SriGlibcMalloc.Blocks
