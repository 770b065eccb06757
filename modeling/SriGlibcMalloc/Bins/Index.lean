import SriGlibcMalloc.BitMask.Masks
import SriGlibcMalloc.EntryPoints.Internal

/-!
# The index of a bin

Small bins hold one size each, large bins a range of sizes. The index is computed
from a size that is 16 bytes larger than that of the chunk, which has no header.
-/

namespace SriGlibcMalloc.Bins

open BitMask EntryPoints

set_option autoImplicit false

def smallbinIndex (sz : Nat) : Nat := ((sz + 16) % 2 ^ 64 % 2 ^ 32) >>> 4

def largebinIndex64 (sz : Nat) : Nat :=
  let sz := (sz + 16) % 2 ^ 64
  if sz >>> 6 ≤ 48 then 48 + sz >>> 6
  else if sz >>> 9 ≤ 20 then 91 + sz >>> 9
  else if sz >>> 12 ≤ 10 then 110 + sz >>> 12
  else if sz >>> 15 ≤ 4 then 119 + sz >>> 15
  else if sz >>> 18 ≤ 2 then 124 + sz >>> 18
  else 126

def binIndex (sz : Nat) : Nat :=
  if inSmallbinRange sz then smallbinIndex sz else largebinIndex64 sz

def fastbinIndex (sz : Nat) : Nat := ((sz + 16) % 2 ^ 64 % 2 ^ 32) >>> 4 - 2

/-- The size of a chunk. Chunks lie in memory, so that neither the correction nor the
addition of the minimal size wraps. -/
structure ChunkSize (sz : Nat) : Prop where
  minimal : minSize ≤ sz
  aligned : sz % 16 = 0
  room : sz + minSize < 2 ^ 64

variable {sz other bytes nb : Nat}

theorem ChunkSize.word (chunk : ChunkSize sz) : sz + 16 < 2 ^ 64 :=
  Nat.lt_of_le_of_lt (Nat.add_le_add_left (by decide) sz) chunk.room

/-- What `checked_request2size` accepts is the size of a chunk. -/
theorem request_chunk_size (requested : checkedRequest2size bytes = some nb) : ChunkSize nb := by
  unfold checkedRequest2size at requested
  split at requested
  case isTrue => cases requested
  case isFalse small =>
    cases requested
    have bound : bytes < 2 ^ 64 - 2 * minSize :=
      Nat.lt_of_not_le fun large => small (decide_eq_true large)
    clear small
    unfold request2size
    split
    · constructor <;> decide
    · constructor <;> simp only [minSize, mallocAlignMask] at * <;> omega

theorem small_iff (word : sz + 16 < 2 ^ 64) : inSmallbinRange sz = true ↔ sz + 16 < 1024 := by
  rw [inSmallbinRange, Nat.mod_eq_of_lt word, decide_eq_true_eq, minLargeSize]

theorem smallbin_index_eq (small : sz + 16 < 1024) : smallbinIndex sz = (sz + 16) / 16 := by
  rw [smallbinIndex, Nat.mod_eq_of_lt (by omega), Nat.mod_eq_of_lt (by omega),
    Nat.shiftRight_eq_div_pow]

theorem largebin_index_mono (ordered : sz ≤ other) (word : other + 16 < 2 ^ 64) :
    largebinIndex64 sz ≤ largebinIndex64 other := by
  unfold largebinIndex64
  rw [Nat.mod_eq_of_lt word, Nat.mod_eq_of_lt (by omega : sz + 16 < 2 ^ 64)]
  simp only [Nat.shiftRight_eq_div_pow]
  split_ifs <;> omega

theorem largebin_index_bounds (large : 1024 ≤ sz + 16) (word : sz + 16 < 2 ^ 64) :
    64 ≤ largebinIndex64 sz ∧ largebinIndex64 sz ≤ 126 := by
  unfold largebinIndex64
  rw [Nat.mod_eq_of_lt word]
  simp only [Nat.shiftRight_eq_div_pow]
  split_ifs <;> omega

theorem bin_index_mono (ordered : sz ≤ other) (word : other + 16 < 2 ^ 64) :
    binIndex sz ≤ binIndex other := by
  have lower : sz + 16 < 2 ^ 64 := by omega
  unfold binIndex
  by_cases small : other + 16 < 1024
  · rw [if_pos ((small_iff word).mpr small), if_pos ((small_iff lower).mpr (by omega)),
      smallbin_index_eq small, smallbin_index_eq (by omega)]
    omega
  · rw [if_neg ((small_iff word).not.mpr small)]
    by_cases smaller : sz + 16 < 1024
    · have bounds := largebin_index_bounds (Nat.not_lt.mp small) word
      rw [if_pos ((small_iff lower).mpr smaller), smallbin_index_eq smaller]
      omega
    · rw [if_neg ((small_iff lower).not.mpr smaller)]
      exact largebin_index_mono ordered word

theorem bin_index_bounds (chunk : ChunkSize sz) : 2 ≤ binIndex sz ∧ binIndex sz ≤ 126 := by
  have minimal := chunk.minimal
  unfold binIndex
  by_cases small : sz + 16 < 1024
  · rw [if_pos ((small_iff chunk.word).mpr small), smallbin_index_eq small]
    simp only [minSize] at minimal
    omega
  · have bounds := largebin_index_bounds (Nat.not_lt.mp small) chunk.word
    rw [if_neg ((small_iff chunk.word).not.mpr small)]
    omega

theorem small_bin_size (chunk : ChunkSize sz) (request : ChunkSize nb)
    (small : inSmallbinRange nb = true) (same : binIndex sz = smallbinIndex nb) : sz = nb := by
  have aligned := chunk.aligned
  have whole := request.aligned
  rw [small_iff request.word] at small
  rw [smallbin_index_eq small] at same
  unfold binIndex at same
  by_cases inside : sz + 16 < 1024
  · rw [if_pos ((small_iff chunk.word).mpr inside), smallbin_index_eq inside] at same
    omega
  · have bounds := largebin_index_bounds (Nat.not_lt.mp inside) chunk.word
    rw [if_neg ((small_iff chunk.word).not.mpr inside)] at same
    omega

theorem larger_of_bin_lt (word : nb + 16 < 2 ^ 64) (higher : binIndex nb < binIndex sz) :
    nb < sz := by
  by_contra smaller
  have mono := bin_index_mono (Nat.not_lt.mp smaller) word
  omega

end SriGlibcMalloc.Bins
