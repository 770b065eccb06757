import SriGlibcMalloc.Bins.Scan
import SriGlibcMalloc.MainArena.Regions
import SriGlibcMalloc.Transition.Run

/-!
# The bins over whole runs

A run is any sequence of the parts of `_int_malloc` with any chunks that other routines
put on the unsorted list or in a fastbin, and any that they unlink to merge them.
-/

namespace SriGlibcMalloc.Bins

open BitMask EntryPoints Transition
open MainArena (wrapSub wrap_sub_exact)

set_option autoImplicit false

inductive Action
  | free (chunk : FreeChunk)
  | freeFast (maxFast : Nat) (chunk : FreeChunk)
  | unlink (index : Nat) (chunk : FreeChunk)
  | unlinkUnsorted (chunk : FreeChunk)
  | consolidateFast (index : Nat)
  | setTop (top : FreeChunk) (systemMem : Nat)
  | reuseRecord (lastRemainder : Option Nat)
  | takeFast (maxFast nb : Nat)
  | takeSmall (nb : Nat)
  | sortUnsorted (nb : Nat)
  | takeBestFit (nb : Nat)
  | takeScanned (nb : Nat)
  | useTop (nb : Nat)

/-- `last_remainder` keeps pointing to a record when its chunk is gone, so that the record
can come to belong to any other chunk. -/
def step (arena : Arena) : Action → Option Arena
  | .free chunk => some { arena with unsorted := chunk :: arena.unsorted }
  | .freeFast maxFast chunk =>
      if chunk.size ≤ maxFast then
        let index := fastbinIndex chunk.size
        some { arena with
          fastbins := Function.update arena.fastbins index (chunk :: arena.fastbins index) }
      else none
  | .unlink index chunk => some (arena.setBin index ((arena.bins index).erase chunk))
  | .unlinkUnsorted chunk => some { arena with unsorted := arena.unsorted.erase chunk }
  | .consolidateFast index =>
      some { arena with fastbins := Function.update arena.fastbins index [] }
  | .setTop top systemMem => some { arena with top := top, systemMem := systemMem }
  | .reuseRecord lastRemainder => some { arena with lastRemainder := lastRemainder }
  | .takeFast maxFast nb => (arena.takeFast maxFast nb).map Prod.snd
  | .takeSmall nb => some (arena.takeSmall nb).2
  | .sortUnsorted nb => (arena.sortUnsorted nb maxIters).map Prod.snd
  | .takeBestFit nb => some (arena.takeBestFit nb).2
  | .takeScanned nb => (arena.takeScanned scanFuel nb).map Prod.snd
  | .useTop nb => some (arena.useTop nb).2

def maxFastSize : Nat := 160

structure FreeChunk.Valid (chunk : FreeChunk) : Prop where
  size : ChunkSize chunk.size
  positive : 0 < chunk.addr
  aligned : chunk.addr % 16 = 0
  inside : chunk.addr + chunk.size < 2 ^ 63

/-- What top has to be for chunks to be split off it. -/
structure FreeChunk.TopValid (top : FreeChunk) : Prop where
  positive : 0 < top.addr
  aligned : top.addr % 16 = 0
  inside : top.addr + top.size < 2 ^ 63

/-- Chunks are valid, requests come from `checked_request2size`, and fast chunks are
small: `mallopt` does not accept more. -/
def Proper (_ : Arena) : Action → Prop
  | .free chunk => chunk.Valid
  | .freeFast maxFast chunk => chunk.Valid ∧ maxFast ≤ maxFastSize
  | .setTop top _ => top.TopValid
  | .takeFast _ nb => ∃ bytes, checkedRequest2size bytes = some nb
  | .takeSmall nb => ∃ bytes, checkedRequest2size bytes = some nb
  | .sortUnsorted nb => ∃ bytes, checkedRequest2size bytes = some nb
  | .takeBestFit nb => ∃ bytes, checkedRequest2size bytes = some nb
  | .takeScanned nb => ∃ bytes, checkedRequest2size bytes = some nb
  | .useTop nb => ∃ bytes, checkedRequest2size bytes = some nb
  | _ => True

/-- Every chunk is where its size puts it, and bins that are not empty are marked. -/
structure Binned (arena : Arena) : Prop where
  indicated : Indicated arena.bins arena.binmap
  placed : ∀ i, ∀ chunk ∈ arena.bins i, chunk.Valid ∧ binIndex chunk.size = i
  waiting : ∀ chunk ∈ arena.unsorted, chunk.Valid
  fast : ∀ i, ∀ chunk ∈ arena.fastbins i,
    chunk.Valid ∧ fastbinIndex chunk.size = i ∧ chunk.size ≤ maxFastSize
  top : arena.top.size = 0 ∨ arena.top.TopValid

variable {arena next : Arena} {chunk victim : FreeChunk} {index nb : Nat}
variable {chunks : List FreeChunk}

theorem initial_binned (initialTop : Nat) : Binned (Arena.initial initialTop) where
  indicated := fun _ occupied => absurd rfl occupied
  placed := fun _ _ member => nomatch member
  waiting := fun _ member => nomatch member
  fast := fun _ _ member => nomatch member
  top := Or.inl rfl

theorem Binned.narrow (binned : Binned arena) (fewer : chunks ⊆ arena.bins index) :
    Binned (arena.setBin index chunks) where
  indicated := by
    intro i occupied
    apply binned.indicated i
    by_cases same : i = index
    · subst same
      rw [set_bin_bins, Function.update_self] at occupied
      intro empty
      rw [empty] at fewer
      exact occupied (List.subset_nil.mp fewer)
    · rw [set_bin_bins, Function.update_of_ne same] at occupied
      exact occupied
  placed := by
    intro i chunk member
    by_cases same : i = index
    · subst same
      rw [set_bin_bins, Function.update_self] at member
      exact binned.placed i chunk (fewer member)
    · rw [set_bin_bins, Function.update_of_ne same] at member
      exact binned.placed i chunk member
  waiting := binned.waiting
  fast := binned.fast
  top := binned.top

theorem insert_sorted_members (victim : FreeChunk) (bin : List FreeChunk) :
    ∀ chunk ∈ insertSorted victim bin, chunk = victim ∨ chunk ∈ bin := by
  induction bin with
  | nil =>
      intro chunk member
      exact Or.inl (List.mem_singleton.mp member)
  | cons fwd rest ih =>
      intro chunk member
      rw [insertSorted] at member
      split_ifs at member
      · rcases List.mem_cons.mp member with same | later
        · exact Or.inr (List.mem_cons.mpr (Or.inl same))
        · rcases ih chunk later with same | old
          · exact Or.inl same
          · exact Or.inr (List.mem_cons_of_mem _ old)
      · simp only [List.mem_cons] at member ⊢
        tauto
      · simp only [List.mem_cons] at member ⊢
        tauto

theorem insert_large_members (victim : FreeChunk) (bin : List FreeChunk) :
    ∀ chunk ∈ insertLarge victim bin, chunk = victim ∨ chunk ∈ bin := by
  intro chunk member
  unfold insertLarge at member
  split at member
  · exact Or.inl (List.mem_singleton.mp member)
  · split at member
    · rcases List.mem_append.mp member with old | new
      · exact Or.inr old
      · exact Or.inl (List.mem_singleton.mp new)
    · exact insert_sorted_members victim bin chunk member

theorem Binned.bin_chunk (binned : Binned arena) (valid : victim.Valid) :
    Binned (arena.binChunk victim) where
  indicated := by
    intro i occupied
    unfold Arena.binChunk at occupied ⊢
    dsimp only [Arena.setBin] at occupied ⊢
    rw [mark_bin_eq, marked_mark (by decide)]
    by_cases same : i = binIndex victim.size
    · rw [decide_eq_true same, Bool.true_or]
    · rw [Function.update_of_ne same] at occupied
      rw [binned.indicated i occupied, Bool.or_true]
  placed := by
    intro i chunk member
    unfold Arena.binChunk at member
    dsimp only [Arena.setBin] at member
    by_cases same : i = binIndex victim.size
    · rw [same, Function.update_self] at member
      have origin : chunk = victim ∨ chunk ∈ arena.bins (binIndex victim.size) := by
        split_ifs at member
        · exact List.mem_cons.mp member
        · exact insert_large_members victim _ chunk member
      rw [same]
      rcases origin with new | old
      · rw [new]
        exact ⟨valid, rfl⟩
      · exact binned.placed _ chunk old
    · rw [Function.update_of_ne same] at member
      exact binned.placed i chunk member
  waiting := binned.waiting
  fast := binned.fast
  top := binned.top

theorem remainder_valid (valid : victim.Valid) (request : ChunkSize nb)
    (room : nb + minSize ≤ victim.size) :
    FreeChunk.Valid ⟨victim.addr + nb, wrapSub victim.size nb⟩ := by
  have word := valid.size.word
  have whole := valid.size.aligned
  have aligned := valid.aligned
  have inside := valid.inside
  have requested := request.aligned
  rw [wrap_sub_exact (by omega) (by omega)]
  refine ⟨?_, ?_, ?_, ?_⟩
  · have room := valid.size.room
    constructor <;> dsimp only <;> omega
  · exact Nat.add_pos_left valid.positive nb
  · dsimp only
    omega
  · dsimp only
    omega

theorem Binned.add_unsorted (binned : Binned arena)
    (valid : ∀ chunk ∈ chunks, chunk.Valid) (lastRemainder : Option Nat) :
    Binned { arena with unsorted := chunks, lastRemainder := lastRemainder } where
  indicated := binned.indicated
  placed := binned.placed
  waiting := valid
  fast := binned.fast
  top := binned.top

theorem Binned.carve (binned : Binned arena) (valid : victim.Valid)
    (request : ChunkSize nb) (fits : nb ≤ victim.size) (advertise : Bool) :
    Binned (arena.carve victim nb advertise).2 := by
  have word := valid.size.word
  unfold Arena.carve
  dsimp only
  rw [wrap_sub_exact fits (by omega)]
  by_cases exhausted : victim.size - nb < minSize
  · rw [if_pos exhausted]
    exact binned
  · rw [if_neg exhausted]
    apply binned.add_unsorted
    intro chunk member
    rcases List.mem_cons.mp member with same | old
    · have remainder := remainder_valid valid request (by omega)
      rw [wrap_sub_exact fits (by omega)] at remainder
      rw [same]
      exact remainder
    · exact binned.waiting chunk old

theorem size_heads_members (bin : List FreeChunk) : ∀ chunk ∈ sizeHeads bin, chunk ∈ bin := by
  induction bin with
  | nil => exact fun _ member => member
  | cons first rest ih =>
      intro chunk member
      rw [sizeHeads] at member
      rcases List.mem_cons.mp member with same | later
      · exact List.mem_cons.mpr (Or.inl same)
      · exact List.mem_cons_of_mem _ (ih chunk (List.mem_filter.mp later).1)

theorem second_of_size_spec {bin : List FreeChunk} (member : victim ∈ bin) :
    secondOfSize victim bin ∈ bin ∧ (secondOfSize victim bin).size = victim.size := by
  unfold secondOfSize
  split
  case h_1 next found =>
    by_cases same : next.size = victim.size
    · rw [if_pos same]
      have inTail := List.mem_of_mem_head? (Option.mem_def.mpr found)
      exact ⟨(List.dropWhile_sublist _).subset (List.mem_of_mem_tail inTail), same⟩
    · rw [if_neg same]
      exact ⟨member, rfl⟩
  case h_2 => exact ⟨member, rfl⟩

theorem best_fit_victim_spec {bin : List FreeChunk} (found : bestFitVictim bin nb = some victim) :
    victim ∈ bin ∧ nb ≤ victim.size := by
  unfold bestFitVictim at found
  cases bin with
  | nil => cases found
  | cons first rest =>
      dsimp only at found
      by_cases large : nb ≤ first.size
      · rw [if_pos large] at found
        obtain ⟨head, searched, same⟩ := Option.map_eq_some_iff.mp found
        have member := List.mem_of_find?_eq_some searched
        have fits := List.find?_some searched
        have inside := size_heads_members _ head (List.mem_reverse.mp member)
        obtain ⟨second, size⟩ := second_of_size_spec inside
        rw [same] at second size
        refine ⟨second, ?_⟩
        rw [size]
        exact of_decide_eq_true fits
      · rw [if_neg large] at found
        cases found

theorem Binned.take_fast {maxFast : Nat} {answer : Option FreeChunk} (binned : Binned arena)
    (taken : arena.takeFast maxFast nb = some (answer, next)) : Binned next := by
  unfold Arena.takeFast at taken
  dsimp only at taken
  split at taken
  · split at taken
    case h_1 => cases taken; exact binned
    case h_2 victim rest shape =>
      split at taken
      · cases taken
        refine ⟨binned.indicated, binned.placed, binned.waiting, ?_, binned.top⟩
        intro i chunk member
        by_cases same : i = fastbinIndex nb
        · subst same
          dsimp only at member
          rw [Function.update_self] at member
          apply binned.fast
          rw [shape]
          exact List.mem_cons_of_mem _ member
        · dsimp only at member
          rw [Function.update_of_ne same] at member
          exact binned.fast i chunk member
      · cases taken
  · cases taken
    exact binned

theorem take_fast_same {maxFast : Nat} {answer : Option FreeChunk}
    (taken : arena.takeFast maxFast nb = some (answer, next)) :
    next.bins = arena.bins ∧ next.unsorted = arena.unsorted := by
  unfold Arena.takeFast at taken
  dsimp only at taken
  split_ifs at taken
  · split at taken
    · cases taken
      exact ⟨rfl, rfl⟩
    · split_ifs at taken
      cases taken
      exact ⟨rfl, rfl⟩
  · cases taken
    exact ⟨rfl, rfl⟩

theorem Binned.take_small (binned : Binned arena) : Binned (arena.takeSmall nb).2 := by
  unfold Arena.takeSmall
  dsimp only
  split
  · split
    · exact binned
    · exact binned.narrow (List.dropLast_sublist _).subset
  · exact binned

theorem Binned.drop_unsorted (binned : Binned arena) (fewer : chunks ⊆ arena.unsorted) :
    Binned { arena with unsorted := chunks } where
  indicated := binned.indicated
  placed := binned.placed
  waiting := fun chunk member => binned.waiting chunk (fewer member)
  fast := binned.fast
  top := binned.top

theorem Binned.sort_unsorted {left : Nat} {answer : Option FreeChunk} (binned : Binned arena)
    (request : ChunkSize nb) (sorted : arena.sortUnsorted nb left = some (answer, next)) :
    Binned next := by
  induction left generalizing arena with
  | zero =>
      cases sorted
      exact binned
  | succ left ih =>
      rw [Arena.sortUnsorted] at sorted
      split at sorted
      case h_1 =>
        cases sorted
        exact binned
      case h_2 victim last =>
        have valid := binned.waiting victim (List.mem_of_getLast? last)
        have rest := binned.drop_unsorted (List.dropLast_sublist _).subset
        dsimp only at sorted
        split_ifs at sorted with corrupted splits fits
        · cases sorted
          apply binned.add_unsorted
          intro chunk member
          have room : nb + minSize < victim.size := by
            simp only [Arena.splitsRemainder, Bool.and_eq_true, decide_eq_true_eq] at splits
            exact splits.2
          rw [List.mem_singleton.mp member]
          exact remainder_valid valid request (Nat.le_of_lt room)
        · cases sorted
          exact rest
        · exact ih (rest.bin_chunk valid) sorted

theorem Binned.take_best_fit (binned : Binned arena) (request : ChunkSize nb) :
    Binned (arena.takeBestFit nb).2 := by
  unfold Arena.takeBestFit
  dsimp only
  split
  · exact binned
  · split
    case h_1 => exact binned
    case h_2 victim found =>
      obtain ⟨member, fits⟩ := best_fit_victim_spec found
      apply (binned.narrow List.erase_subset).carve _ request fits
      exact (binned.placed _ victim member).1

theorem bin_index_word (request : ChunkSize nb) : binIndex nb + 1 < binmapSize * 32 := by
  have bounds := bin_index_bounds request
  simp only [binmapSize]
  omega

theorem Binned.search (binned : Binned arena) (request : ChunkSize nb) :
    ∃ found, arena.search scanFuel nb = some found ∧
      Lowest arena.bins (binIndex nb + 1) found := by
  apply scan_loop_spec (start_located binned.indicated _ (bin_index_word request))
  exact Nat.le_add_left _ _

theorem Binned.set_binmap {binmap : Nat → BitVec 32} (binned : Binned arena)
    (indicated : Indicated arena.bins binmap) : Binned { arena with binmap := binmap } where
  indicated := indicated
  placed := binned.placed
  waiting := binned.waiting
  fast := binned.fast
  top := binned.top

theorem Binned.larger (binned : Binned arena) (request : ChunkSize nb)
    (member : victim ∈ arena.bins index) (above : binIndex nb < index) : nb < victim.size := by
  apply larger_of_bin_lt request.word
  rw [(binned.placed index victim member).2]
  exact above

theorem Binned.take_scanned {answer : Option FreeChunk} (binned : Binned arena)
    (request : ChunkSize nb) (taken : arena.takeScanned scanFuel nb = some (answer, next)) :
    Binned next := by
  obtain ⟨found, searched, lowest⟩ := binned.search request
  unfold Arena.takeScanned at taken
  rw [searched] at taken
  obtain ⟨binmap, place⟩ := found
  have rest := binned.set_binmap lowest.indicated
  cases place with
  | none =>
      cases taken
      exact rest
  | some place =>
      obtain ⟨index, victim⟩ := place
      obtain ⟨above, _, last, _⟩ := lowest.something index victim rfl
      have member := List.mem_of_getLast? last
      have fits := binned.larger request member above
      cases taken
      apply (rest.narrow (List.dropLast_sublist _).subset).carve _ request (Nat.le_of_lt fits)
      exact (binned.placed index victim member).1

theorem Binned.set_top {top : FreeChunk} (binned : Binned arena) (valid : top.TopValid)
    (systemMem : Nat) : Binned { arena with top := top, systemMem := systemMem } where
  indicated := binned.indicated
  placed := binned.placed
  waiting := binned.waiting
  fast := binned.fast
  top := Or.inr valid

theorem use_top_fits (binned : Binned arena) (request : ChunkSize nb)
    (room : (nb + minSize) % 2 ^ 64 ≤ arena.top.size) :
    arena.top.TopValid ∧ nb + minSize ≤ arena.top.size := by
  have minimal := request.minimal
  rw [Nat.mod_eq_of_lt request.room] at room
  refine ⟨binned.top.resolve_left ?_, room⟩
  simp only [minSize] at minimal room
  omega

theorem Binned.use_top (binned : Binned arena) (request : ChunkSize nb) :
    Binned (arena.useTop nb).2 := by
  unfold Arena.useTop
  by_cases room : (nb + minSize) % 2 ^ 64 ≤ arena.top.size
  · rw [if_pos room]
    obtain ⟨valid, fits⟩ := use_top_fits binned request room
    have aligned := valid.aligned
    have inside := valid.inside
    have whole := request.aligned
    have positive := valid.positive
    apply binned.set_top
    constructor <;> dsimp only <;> omega
  · rw [if_neg room]
    exact binned

theorem step_binned (arena : Arena) (action : Action) (next : Arena) (binned : Binned arena)
    (proper : Proper arena action) (stepped : step arena action = some next) : Binned next := by
  cases action with
  | free chunk =>
      cases stepped
      refine ⟨binned.indicated, binned.placed, ?_, binned.fast, binned.top⟩
      intro other member
      rcases List.mem_cons.mp member with same | old
      · rw [same]
        exact proper
      · exact binned.waiting other old
  | freeFast maxFast chunk =>
      rw [step] at stepped
      split at stepped
      case isTrue small =>
        cases stepped
        refine ⟨binned.indicated, binned.placed, binned.waiting, ?_, binned.top⟩
        intro i other member
        by_cases same : i = fastbinIndex chunk.size
        · dsimp only at member
          rw [same, Function.update_self] at member
          rcases List.mem_cons.mp member with new | old
          · rw [new, same]
            exact ⟨proper.1, rfl, Nat.le_trans small proper.2⟩
          · rw [same]
            exact binned.fast _ other old
        · dsimp only at member
          rw [Function.update_of_ne same] at member
          exact binned.fast i other member
      case isFalse => cases stepped
  | unlink index chunk =>
      cases stepped
      exact binned.narrow List.erase_subset
  | unlinkUnsorted chunk =>
      cases stepped
      exact binned.drop_unsorted List.erase_subset
  | consolidateFast index =>
      cases stepped
      refine ⟨binned.indicated, binned.placed, binned.waiting, ?_, binned.top⟩
      intro i other member
      by_cases same : i = index
      · dsimp only at member
        rw [same, Function.update_self] at member
        cases member
      · dsimp only at member
        rw [Function.update_of_ne same] at member
        exact binned.fast i other member
  | setTop top systemMem =>
      cases stepped
      exact binned.set_top proper systemMem
  | reuseRecord lastRemainder =>
      cases stepped
      exact ⟨binned.indicated, binned.placed, binned.waiting, binned.fast, binned.top⟩
  | takeFast maxFast nb =>
      obtain ⟨⟨answer, after⟩, taken, same⟩ := Option.map_eq_some_iff.mp stepped
      cases same
      exact binned.take_fast taken
  | takeSmall nb =>
      cases stepped
      exact binned.take_small
  | sortUnsorted nb =>
      obtain ⟨⟨answer, after⟩, sorted, same⟩ := Option.map_eq_some_iff.mp stepped
      obtain ⟨bytes, requested⟩ := proper
      cases same
      exact binned.sort_unsorted (request_chunk_size requested) sorted
  | takeBestFit nb =>
      obtain ⟨bytes, requested⟩ := proper
      cases stepped
      exact binned.take_best_fit (request_chunk_size requested)
  | takeScanned nb =>
      obtain ⟨⟨answer, after⟩, taken, same⟩ := Option.map_eq_some_iff.mp stepped
      obtain ⟨bytes, requested⟩ := proper
      cases same
      exact binned.take_scanned (request_chunk_size requested) taken
  | useTop nb =>
      obtain ⟨bytes, requested⟩ := proper
      cases stepped
      exact binned.use_top (request_chunk_size requested)

/-- The invariant of every run. -/
theorem run_binned (initialTop : Nat) (actions : List Action) (arena : Arena)
    (proper : Permitted step Proper (Arena.initial initialTop) actions)
    (ran : run step (Arena.initial initialTop) actions = some arena) : Binned arena :=
  run_invariant step_binned actions (Arena.initial initialTop) arena (initial_binned initialTop)
    proper ran

theorem get_binmap_iff (binmap : Nat → BitVec 32) (i : Nat) :
    getBinmap binmap i ≠ 0 ↔ marked binmap i = true := by
  have inside : i % 32 < 32 := Nat.mod_lt i (by decide)
  have zero := @unit_and_eq_zero 32 (binmap (i / 32)) (i % 32) inside
  rw [getBinmap, idx2block, idx2bit, Nat.shiftRight_eq_div_pow, BitVec.and_comm]
  rw [marked, ← Bool.not_eq_false]
  exact zero.not

theorem Binned.empty_above (binned : Binned arena)
    (empty : Empty arena.bins (binIndex nb + 1) (binmapSize * 32)) :
    ∀ i, binIndex nb < i → arena.bins i = [] := by
  intro i above
  by_cases inside : i < binmapSize * 32
  · exact empty i above inside
  · by_contra occupied
    obtain ⟨chunk, member⟩ := List.exists_mem_of_ne_nil _ occupied
    obtain ⟨valid, index⟩ := binned.placed i chunk member
    have bounds := bin_index_bounds valid.size
    simp only [binmapSize] at inside
    omega

theorem Binned.take_scanned_ends (binned : Binned arena) (request : ChunkSize nb) :
    ∃ answer next, arena.takeScanned scanFuel nb = some (answer, next) := by
  obtain ⟨found, searched, _⟩ := binned.search request
  unfold Arena.takeScanned
  rw [searched]
  exact ⟨_, _, rfl⟩

end SriGlibcMalloc.Bins
