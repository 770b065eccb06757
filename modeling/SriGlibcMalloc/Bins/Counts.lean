import SriGlibcMalloc.Bins.SkipRing
import Mathlib.Data.List.Count
import Mathlib.Data.List.Perm.Basic

/-!
# How often a chunk is on the lists

The parts of `_int_malloc` that look for a free chunk move chunks from one list to another. No
chunk gets lost or doubled: only the chunk that is found goes, and a remainder is all that comes.
-/

namespace SriGlibcMalloc.Bins

open EntryPoints
open MainArena (wrapSub wrap_sub_exact)

set_option autoImplicit false

def binnedCount (arena : Arena) (chunk : FreeChunk) : Nat :=
  arena.unsorted.count chunk + (arena.bins (binIndex chunk.size)).count chunk

variable {arena next final : Arena} {chunk victim : FreeChunk} {index nb : Nat}
variable {bin front : List FreeChunk}

theorem insert_sorted_perm (victim : FreeChunk) (bin : List FreeChunk) :
    (insertSorted victim bin).Perm (victim :: bin) := by
  induction bin with
  | nil => exact .refl _
  | cons fwd rest ih =>
      rw [insertSorted]
      split_ifs
      · exact (ih.cons fwd).trans (.swap victim fwd rest)
      · exact .swap victim fwd rest
      · exact .refl _

theorem insert_large_perm (victim : FreeChunk) (bin : List FreeChunk) :
    (insertLarge victim bin).Perm (victim :: bin) := by
  unfold insertLarge
  split
  case h_1 empty =>
    rw [List.getLast?_eq_none_iff.mp empty]
  case h_2 =>
    split_ifs
    · exact List.perm_append_singleton victim bin
    · exact insert_sorted_perm victim bin

theorem Descending.insert_sorted (ordered : Descending bin) :
    Descending (insertSorted victim bin) := by
  induction bin with
  | nil => exact List.pairwise_singleton _ _
  | cons fwd rest ih =>
      obtain ⟨lower, others⟩ := List.pairwise_cons.mp ordered
      rw [insertSorted]
      split_ifs with smaller same
      · refine List.pairwise_cons.mpr ⟨fun other member => ?_, ih others⟩
        rcases insert_sorted_members victim rest other member with new | old
        · rw [new]
          exact Nat.le_of_lt smaller
        · exact lower other old
      · refine List.pairwise_cons.mpr ⟨fun other member => ?_, List.pairwise_cons.mpr
          ⟨fun other member => ?_, others⟩⟩
        · rcases List.mem_cons.mp member with new | old
          · rw [new, same]
          · exact lower other old
        · rw [same]
          exact lower other member
      · refine List.pairwise_cons.mpr ⟨fun other member => ?_, ordered⟩
        rcases List.mem_cons.mp member with new | old
        · rw [new]
          exact Nat.not_lt.mp smaller
        · exact Nat.le_trans (lower other old) (Nat.not_lt.mp smaller)

theorem Descending.insert_large (ordered : Descending bin) :
    Descending (insertLarge victim bin) := by
  unfold insertLarge
  split
  case h_1 => exact List.pairwise_singleton _ _
  case h_2 smallest last =>
    split_ifs with smaller
    · obtain ⟨front, shape⟩ := List.getLast?_eq_some_iff.mp last
      subst shape
      refine List.pairwise_append.mpr ⟨ordered, List.pairwise_singleton _ _, ?_⟩
      intro other member added isVictim
      rw [List.mem_singleton.mp isVictim]
      rcases List.mem_append.mp member with before | same
      · exact Nat.le_trans (Nat.le_of_lt smaller) (ordered.before other before)
      · rw [List.mem_singleton.mp same]
        exact Nat.le_of_lt smaller
    · exact ordered.insert_sorted

def Ordered (arena : Arena) : Prop := ∀ index, firstLarge ≤ index → Descending (arena.bins index)

theorem count_first (chunk : FreeChunk) :
    (victim :: bin).count chunk = bin.count chunk + if chunk = victim then 1 else 0 := by
  rw [List.count_cons]
  refine congrArg (bin.count chunk + ·) (if_congr ?_ rfl rfl)
  rw [beq_iff_eq, eq_comm]

theorem count_last (chunk : FreeChunk) :
    (front ++ [victim]).count chunk = front.count chunk + if chunk = victim then 1 else 0 := by
  rw [List.count_append, List.count_singleton]
  refine congrArg (front.count chunk + ·) (if_congr ?_ rfl rfl)
  rw [beq_iff_eq, eq_comm]

theorem binned_count_bin (arena : Arena) (victim chunk : FreeChunk) :
    binnedCount (arena.binChunk victim) chunk =
      binnedCount arena chunk + if chunk = victim then 1 else 0 := by
  unfold binnedCount Arena.binChunk
  dsimp only [Arena.setBin]
  rw [Function.update_apply, Nat.add_assoc]
  refine congrArg (arena.unsorted.count chunk + ·) ?_
  have counted : ∀ bin : List FreeChunk,
      (if inSmallbinRange victim.size = true then victim :: bin
        else insertLarge victim bin).count chunk =
        bin.count chunk + if chunk = victim then 1 else 0 := by
    intro bin
    by_cases small : inSmallbinRange victim.size = true
    · rw [if_pos small, count_first]
    · rw [if_neg small, (insert_large_perm victim bin).count_eq, count_first]
  by_cases same : binIndex chunk.size = binIndex victim.size
  · rw [if_pos same, counted, same]
  · rw [if_neg same, if_neg fun own : chunk = victim => same (own ▸ rfl), Nat.add_zero]

theorem Ordered.bin_chunk (ordered : Ordered arena) (valid : ChunkSize victim.size) :
    Ordered (arena.binChunk victim) := by
  intro i large
  unfold Arena.binChunk
  dsimp only [Arena.setBin]
  rw [Function.update_apply]
  split_ifs with same small
  · unfold binIndex at same
    rw [if_pos small, smallbin_index_eq ((small_iff valid.word).mp small)] at same
    have few := (small_iff valid.word).mp small
    simp only [firstLarge] at large
    omega
  · exact (ordered _ (same ▸ large)).insert_large
  · exact ordered i large

/-- A search takes a victim off the lists and answers with the chunk that is found: all of it,
or the front of it, with the remainder put on the lists. -/
structure Takes (nb : Nat) (before after : FreeChunk → Nat) (victim found : FreeChunk) : Prop where
  listed : 0 < before victim
  fits : nb ≤ victim.size
  taken : found = victim ∧ victim.size < nb + minSize ∧
      (∀ chunk, after chunk + (if chunk = victim then 1 else 0) = before chunk) ∨
    found = ⟨victim.addr, nb⟩ ∧ nb + minSize ≤ victim.size ∧
      ∀ chunk, after chunk + (if chunk = victim then 1 else 0) =
        before chunk + if chunk = ⟨victim.addr + nb, victim.size - nb⟩ then 1 else 0

def Delivers (nb : Nat) (before after : FreeChunk → Nat) : Option FreeChunk → Prop
  | none => after = before
  | some found => ∃ victim, Takes nb before after victim found

theorem delivers_of {before after : FreeChunk → Nat} {answer : Option FreeChunk}
    (nothing : answer = none → after = before)
    (something : ∀ found, answer = some found → ∃ victim, Takes nb before after victim found) :
    Delivers nb before after answer := by
  cases answer with
  | none => exact nothing rfl
  | some found => exact something found rfl

theorem carve_takes {advertise : Bool} (valid : ChunkSize victim.size) (fits : nb ≤ victim.size)
    (listed : 0 < binnedCount arena victim)
    (removed : ∀ chunk, binnedCount next chunk + (if chunk = victim then 1 else 0) =
      binnedCount arena chunk) :
    Takes nb (binnedCount arena) (binnedCount (next.carve victim nb advertise).2) victim
      (next.carve victim nb advertise).1 := by
  have word := valid.word
  unfold Arena.carve
  dsimp only
  rw [wrap_sub_exact fits (by omega)]
  by_cases exhausted : victim.size - nb < minSize
  · rw [if_pos exhausted]
    exact ⟨listed, fits, Or.inl ⟨rfl, by omega, removed⟩⟩
  · rw [if_neg exhausted]
    refine ⟨listed, fits, Or.inr ⟨rfl, by omega, fun chunk => ?_⟩⟩
    rw [← removed chunk]
    unfold binnedCount
    dsimp only
    rw [count_first]
    omega

theorem binned_count_pos (member : victim ∈ arena.bins (binIndex victim.size)) :
    0 < binnedCount arena victim :=
  Nat.lt_of_lt_of_le (List.count_pos_iff.mpr member) (Nat.le_add_left _ _)

theorem set_bin_removes (placed : binIndex victim.size = index)
    (without : ∀ chunk, bin.count chunk + (if chunk = victim then 1 else 0) =
      (arena.bins index).count chunk) (chunk : FreeChunk) :
    binnedCount (arena.setBin index bin) chunk + (if chunk = victim then 1 else 0) =
      binnedCount arena chunk := by
  unfold binnedCount
  rw [set_bin_bins, Function.update_apply]
  dsimp only [Arena.setBin]
  by_cases same : binIndex chunk.size = index
  · rw [if_pos same, Nat.add_assoc, without, same]
  · rw [if_neg same, if_neg fun own : chunk = victim => same (own ▸ placed), Nat.add_zero]

theorem count_erase_member (member : victim ∈ bin) (chunk : FreeChunk) :
    (bin.erase victim).count chunk + (if chunk = victim then 1 else 0) = bin.count chunk := by
  by_cases own : chunk = victim
  · subst own
    rw [if_pos rfl, List.count_erase_self]
    have positive := List.count_pos_iff.mpr member
    omega
  · rw [if_neg own, List.count_erase_of_ne own, Nat.add_zero]

theorem take_small_spec {answer : Option FreeChunk} (binned : Binned arena)
    (request : ChunkSize nb) (taken : arena.takeSmall nb = (answer, next)) :
    (answer = none → next = arena ∧
      (inSmallbinRange nb = true → arena.bins (binIndex nb) = [])) ∧
    ∀ found, answer = some found →
      found.size = nb ∧ Takes nb (binnedCount arena) (binnedCount next) found found := by
  unfold Arena.takeSmall at taken
  dsimp only at taken
  by_cases small : inSmallbinRange nb = true
  · have place : binIndex nb = smallbinIndex nb := if_pos small
    rw [if_pos small] at taken
    split at taken
    case h_1 nothing =>
      cases taken
      rw [place]
      have empty := List.getLast?_eq_none_iff.mp nothing
      exact ⟨fun _ => ⟨rfl, fun _ => empty⟩, fun _ absent => nomatch absent⟩
    case h_2 victim last =>
      cases taken
      refine ⟨(fun absent => nomatch absent), fun found same => ?_⟩
      cases same
      obtain ⟨front, shape⟩ := List.getLast?_eq_some_iff.mp last
      have member := List.mem_of_getLast? last
      obtain ⟨valid, placed⟩ := binned.placed _ _ member
      have whole := small_bin_size valid.size request small placed
      refine ⟨whole, binned_count_pos (placed.symm ▸ member), Nat.le_of_eq whole.symm,
        Or.inl ⟨rfl, ?_, set_bin_removes placed fun chunk => ?_⟩⟩
      · rw [whole]
        exact Nat.lt_add_of_pos_right (by decide)
      · rw [shape, List.dropLast_concat, count_last]
  · rw [if_neg small] at taken
    cases taken
    exact ⟨fun _ => ⟨rfl, fun inside => absurd inside small⟩, fun _ absent => nomatch absent⟩

/-- Unsorted chunks have been put in bins, up to a number of them, and none of the size of the
request. -/
structure Sorts (nb count : Nat) (arena next : Arena) : Prop where
  counts : binnedCount next = binnedCount arena
  waiting : next.unsorted = arena.unsorted.take (arena.unsorted.length - count)
  exact : inSmallbinRange nb = true → arena.bins (binIndex nb) = [] →
    next.bins (binIndex nb) = []
  lastRemainder : next.lastRemainder = arena.lastRemainder
  binned : Binned next
  ordered : Ordered next

theorem Sorts.start (binned : Binned arena) (ordered : Ordered arena) :
    Sorts nb 0 arena arena where
  counts := rfl
  waiting := List.take_length.symm
  exact := fun _ empty => empty
  lastRemainder := rfl
  binned := binned
  ordered := ordered

theorem Sorts.onward {count : Nat} (first : Sorts nb 1 arena next)
    (rest : Sorts nb count next final) : Sorts nb (count + 1) arena final where
  counts := rest.counts.trans first.counts
  waiting := by
    rw [rest.waiting, first.waiting, List.take_take, List.length_take]
    refine congrArg (List.take · arena.unsorted) ?_
    omega
  exact := fun small empty => rest.exact small (first.exact small empty)
  lastRemainder := rest.lastRemainder.trans first.lastRemainder
  binned := rest.binned
  ordered := rest.ordered

theorem Sorts.stop {count : Nat} (sorts : Sorts nb 0 arena next) (empty : arena.unsorted = []) :
    Sorts nb count arena next where
  counts := sorts.counts
  waiting := by rw [sorts.waiting, empty, List.take_nil, List.take_nil]
  exact := sorts.exact
  lastRemainder := sorts.lastRemainder
  binned := sorts.binned
  ordered := sorts.ordered

theorem drop_last_removes (shape : arena.unsorted = front ++ [victim]) (chunk : FreeChunk) :
    binnedCount { arena with unsorted := arena.unsorted.dropLast } chunk +
      (if chunk = victim then 1 else 0) = binnedCount arena chunk := by
  unfold binnedCount
  dsimp only
  rw [shape, List.dropLast_concat, count_last]
  omega

theorem sorts_one (binned : Binned arena) (ordered : Ordered arena) (request : ChunkSize nb)
    (shape : arena.unsorted = front ++ [victim]) (differs : victim.size ≠ nb) :
    Sorts nb 1 arena (Arena.binChunk { arena with unsorted := arena.unsorted.dropLast } victim) := by
  have member : victim ∈ arena.unsorted := by
    rw [shape]
    exact List.mem_append_right _ List.mem_cons_self
  have valid := binned.waiting victim member
  have rest := binned.drop_unsorted (List.dropLast_sublist arena.unsorted).subset
  constructor
  case counts =>
    funext chunk
    rw [binned_count_bin, drop_last_removes shape]
  case waiting =>
    change arena.unsorted.dropLast = _
    rw [List.dropLast_eq_take]
  case exact =>
    intro small empty
    have place : binIndex nb = smallbinIndex nb := if_pos small
    unfold Arena.binChunk
    dsimp only [Arena.setBin]
    rw [Function.update_of_ne, empty]
    intro same
    exact differs (small_bin_size valid.size request small (same.symm.trans place))
  case lastRemainder => rfl
  case binned => exact rest.bin_chunk valid
  case ordered =>
    have unchanged : Ordered { arena with unsorted := arena.unsorted.dropLast } := ordered
    exact unchanged.bin_chunk valid.size

theorem sort_unsorted_sorts {count : Nat} (binned : Binned arena) (ordered : Ordered arena)
    (request : ChunkSize nb) (sorted : arena.sortUnsorted nb count = some (none, next)) :
    Sorts nb count arena next := by
  induction count generalizing arena with
  | zero =>
      cases sorted
      exact .start binned ordered
  | succ count ih =>
      rw [Arena.sortUnsorted] at sorted
      split at sorted
      case h_1 nothing =>
        cases sorted
        exact (Sorts.start binned ordered).stop (List.getLast?_eq_none_iff.mp nothing)
      case h_2 victim last =>
        obtain ⟨front, shape⟩ := List.getLast?_eq_some_iff.mp last
        dsimp only at sorted
        split_ifs at sorted with corrupted splits fits
        · cases sorted
        · cases sorted
        · have first := sorts_one binned ordered request shape fits
          exact first.onward (ih first.binned first.ordered sorted)

/-- The remainder of the last split, which a small request may take. -/
structure LastRemainder (nb : Nat) (arena : Arena) (victim : FreeChunk) : Prop where
  small : inSmallbinRange nb = true
  waiting : arena.unsorted.head? = some victim
  advertised : arena.lastRemainder = some victim.addr

theorem sort_unsorted_takes {count : Nat} {found : FreeChunk} (binned : Binned arena)
    (ordered : Ordered arena) (request : ChunkSize nb)
    (sorted : arena.sortUnsorted nb count = some (some found, next)) :
    ∃ victim, Takes nb (binnedCount arena) (binnedCount next) victim found ∧
      (victim.size = nb ∨ LastRemainder nb arena victim ∧
        (arena.bins (binIndex nb) = [] →
          ∀ chunk, 0 < binnedCount arena chunk → chunk.size ≠ nb)) := by
  induction count generalizing arena with
  | zero => cases sorted
  | succ count ih =>
      rw [Arena.sortUnsorted] at sorted
      split at sorted
      case h_1 => cases sorted
      case h_2 victim last =>
        obtain ⟨front, shape⟩ := List.getLast?_eq_some_iff.mp last
        have member := List.mem_of_getLast? last
        have valid := binned.waiting victim member
        have listed : 0 < binnedCount arena victim :=
          Nat.lt_of_lt_of_le (List.count_pos_iff.mpr member) (Nat.le_add_right _ _)
        dsimp only at sorted
        split_ifs at sorted with corrupted splits fits
        · simp only [Arena.splitsRemainder, Bool.and_eq_true, decide_eq_true_eq] at splits
          obtain ⟨⟨⟨small, single⟩, advertised⟩, room⟩ := splits
          have word := valid.size.word
          rw [wrap_sub_exact (by omega) (by omega)] at sorted
          cases sorted
          have alone : front = [] := by
            rw [shape, List.length_append, List.length_singleton] at single
            exact List.length_eq_zero_iff.mp (by omega)
          rw [alone, List.nil_append] at shape
          refine ⟨victim, ⟨listed, by omega, Or.inr ⟨rfl, Nat.le_of_lt room, fun chunk => ?_⟩⟩,
            Or.inr ⟨⟨small, by rw [shape]; rfl, advertised⟩, fun empty other listed same => ?_⟩⟩
          · unfold binnedCount
            dsimp only
            rw [shape, count_first, count_first, List.count_nil]
            omega
          · unfold binnedCount at listed
            rw [same, empty, List.count_nil, Nat.add_zero, shape] at listed
            rw [List.mem_singleton.mp (List.count_pos_iff.mp listed)] at same
            omega
        · cases sorted
          refine ⟨found, ⟨listed, Nat.le_of_eq fits.symm,
            Or.inl ⟨rfl, ?_, drop_last_removes shape⟩⟩, Or.inl fits⟩
          rw [fits]
          exact Nat.lt_add_of_pos_right (by decide)
        · have first := sorts_one binned ordered request shape fits
          obtain ⟨taken, takes, choice⟩ := ih first.binned first.ordered sorted
          rw [first.counts] at takes
          refine ⟨taken, takes, ?_⟩
          rcases choice with whole | ⟨remainder, inexact⟩
          · exact Or.inl whole
          · refine Or.inr ⟨⟨remainder.small, ?_, remainder.advertised⟩, ?_⟩
            · have waiting := remainder.waiting
              change arena.unsorted.dropLast.head? = some taken at waiting
              rw [shape, List.dropLast_concat] at waiting
              rw [shape, List.head?_append, waiting, Option.some_or]
            · rw [first.counts] at inexact
              exact fun empty => inexact (first.exact remainder.small empty)

end SriGlibcMalloc.Bins
