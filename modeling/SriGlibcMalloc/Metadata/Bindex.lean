import Mathlib.Algebra.Order.Ring.Nat
import Mathlib.Tactic.Linarith
import Mathlib.Tactic.NormNum
import Mathlib.Tactic.Ring
import SriGlibcMalloc.Metadata.Model

/-!
# The address function and the split pointer

`bindexAt` is Larson's address function on numbers. One forward step of
`(maxp, p)` moves only the hashes of bin `p`, to `p` or to the new bin; the
backward step merges the last bin into the bin it was split from. Both are
stated once for every `maxp` that is a power of two below the saturated size
and at it, where `2 * maxp` is no longer below `bincount_max`.
-/

namespace SriGlibcMalloc.MetadataTable

set_option autoImplicit false

def bindexAt (hash maxp p : Nat) : Nat :=
  if hash % maxp < p then
    if 2 * maxp < cfg.bincountMax then hash % (2 * maxp) else hash % maxp
  else hash % maxp

/-- `(maxp, p)` after one expansion. -/
def splitAfter (maxp p : Nat) : Nat × Nat :=
  if p + 1 = maxp then (2 * maxp, 0) else (maxp, p + 1)

theorem add_size_exact (left right : Nat) (fits : left + right < 2 ^ 64) :
    addSize left right = some (left + right) := by
  have same : (left + right) % 2 ^ 64 = left + right := Nat.mod_eq_of_lt fits
  simp only [addSize, same]
  simp

theorem mul_size_exact (left right : Nat) (fits : left * right < 2 ^ 64) :
    mulSize left right = some (left * right) := by
  have same : (left * right) % 2 ^ 64 = left * right := Nat.mod_eq_of_lt fits
  simp only [mulSize, same]
  by_cases leftZero : left = 0
  · simp [leftZero]
  by_cases rightZero : right = 0
  · simp [rightZero]
  have quotient : left * right / right = left := Nat.mul_div_cancel _ (by omega)
  simp [leftZero, rightZero, quotient]

theorem is_power_of_two_pow (exponent : Nat) : isPowerOfTwo (2 ^ exponent) = true := by
  by_cases small : exponent < 32
  · have word : 2 ^ exponent % 2 ^ 32 = 2 ^ exponent :=
      Nat.mod_eq_of_lt (Nat.pow_lt_pow_right (by omega) small)
    have positive : 0 < 2 ^ exponent := Nat.two_pow_pos exponent
    have bound : 2 ^ exponent < 2 ^ 32 := Nat.pow_lt_pow_right (by omega) small
    have before : (2 ^ exponent + (2 ^ 32 - 1)) % 2 ^ 32 = 2 ^ exponent - 1 := by
      have shifted : 2 ^ exponent + (2 ^ 32 - 1) = (2 ^ exponent - 1) + 2 ^ 32 := by omega
      rw [shifted, Nat.add_mod_right]
      exact Nat.mod_eq_of_lt (by omega)
    simp only [isPowerOfTwo, word, before, Nat.and_two_pow_sub_one_eq_mod, Nat.mod_self,
      decide_true]
  · have word : 2 ^ exponent % 2 ^ 32 = 0 :=
      Nat.mod_eq_zero_of_dvd (Nat.pow_dvd_pow 2 (by omega))
    simp only [isPowerOfTwo, word, Nat.zero_and, decide_true]

theorem mod_power_of_two_pow (build : Build) (x exponent : Nat) :
    modPowerOfTwo build x (2 ^ exponent) = .ok (x % 2 ^ exponent) := by
  simp [modPowerOfTwo, assert, is_power_of_two_pow, Nat.and_two_pow_sub_one_eq_mod]

theorem mod_segment_length (build : Build) (x : Nat) :
    modPowerOfTwo build x cfg.segmentLength = .ok (x % 256) :=
  mod_power_of_two_pow build x 8

theorem mod_double (hash width : Nat) :
    hash % (2 * width) = hash % width ∨ hash % (2 * width) = hash % width + width := by
  have reduced : hash % (2 * width) % width = hash % width :=
    Nat.mod_mod_of_dvd hash ⟨2, by ring⟩
  rcases Nat.eq_zero_or_pos width with zero | positive
  · subst zero
    simp
  · have bound : hash % (2 * width) < 2 * width := Nat.mod_lt _ (by omega)
    by_cases low : hash % (2 * width) < width
    · rw [Nat.mod_eq_of_lt low] at reduced
      exact Or.inl reduced
    · have shifted : hash % (2 * width) % width = hash % (2 * width) - width := by
        rw [Nat.mod_eq_sub_mod (by omega)]
        exact Nat.mod_eq_of_lt (by omega)
      omega

theorem bindex_at_lt (hash maxp p : Nat) (positive : 0 < maxp) :
    bindexAt hash maxp p < maxp + p := by
  have bound : hash % maxp < maxp := Nat.mod_lt _ positive
  rcases mod_double hash maxp with low | high
  · unfold bindexAt
    split_ifs <;> omega
  · unfold bindexAt
    split_ifs <;> omega

theorem bindex_at_split_other (hash maxp p : Nat) (positive : 0 < maxp) (bound : p < maxp)
    (room : maxp + p < cfg.bincountMax) (other : bindexAt hash maxp p ≠ p) :
    bindexAt hash (splitAfter maxp p).1 (splitAfter maxp p).2 = bindexAt hash maxp p := by
  have small : hash % maxp < maxp := Nat.mod_lt _ positive
  have max : cfg.bincountMax = 4294967295 := rfl
  unfold splitAfter
  by_cases wrap : p + 1 = maxp
  · have double : 2 * maxp < cfg.bincountMax := by omega
    simp only [if_pos wrap]
    unfold bindexAt at other ⊢
    rw [if_neg (Nat.not_lt_zero _), if_pos double]
    rw [if_pos double] at other
    by_cases low : hash % maxp < p
    · rw [if_pos low]
    · rw [if_neg low] at other
      omega
  · simp only [if_neg wrap]
    unfold bindexAt at other ⊢
    by_cases low : hash % maxp < p
    · rw [if_pos low, if_pos (by omega)]
    · rw [if_neg low] at other ⊢
      rw [if_neg (by omega)]

theorem bindex_at_split_same (hash maxp p : Nat) (positive : 0 < maxp) (bound : p < maxp)
    (same : bindexAt hash maxp p = p) :
    bindexAt hash (splitAfter maxp p).1 (splitAfter maxp p).2 = p ∨
      bindexAt hash (splitAfter maxp p).1 (splitAfter maxp p).2 = maxp + p := by
  have small : hash % maxp < maxp := Nat.mod_lt _ positive
  have atSplit : hash % maxp = p := by
    unfold bindexAt at same
    by_cases low : hash % maxp < p
    · rw [if_pos low] at same
      split_ifs at same with double
      · rcases mod_double hash maxp with lower | upper <;> omega
      · omega
    · rw [if_neg low] at same
      exact same
  unfold splitAfter
  by_cases wrap : p + 1 = maxp
  · simp only [if_pos wrap]
    unfold bindexAt
    rw [if_neg (Nat.not_lt_zero _)]
    rcases mod_double hash maxp with lower | upper <;> omega
  · simp only [if_neg wrap]
    unfold bindexAt
    rw [if_pos (by omega)]
    split_ifs
    · rcases mod_double hash maxp with lower | upper <;> omega
    · omega

/-- Once `2 * maxp` is no longer below `bincount_max` a forward step moves no hash. -/
theorem bindex_at_split_saturated (hash maxp p : Nat) (bound : p + 1 < maxp)
    (saturated : ¬2 * maxp < cfg.bincountMax) :
    bindexAt hash (splitAfter maxp p).1 (splitAfter maxp p).2 = bindexAt hash maxp p := by
  unfold splitAfter
  rw [if_neg (by omega)]
  simp only [bindexAt, if_neg saturated, ite_self]

/-- A backward step, read as the inverse of the forward step that it undoes:
hashes of the two merged bins land in `p`, every other hash stays. -/
theorem bindex_at_merge (hash maxp p : Nat) (positive : 0 < maxp) (bound : p < maxp)
    (room : maxp + p < cfg.bincountMax) :
    bindexAt hash maxp p =
      if bindexAt hash (splitAfter maxp p).1 (splitAfter maxp p).2 = maxp + p then p
      else bindexAt hash (splitAfter maxp p).1 (splitAfter maxp p).2 := by
  have below := bindex_at_lt hash maxp p positive
  by_cases same : bindexAt hash maxp p = p
  · rcases bindex_at_split_same hash maxp p positive bound same with old | new
    · rw [old, if_neg (by omega)]
      exact same
    · rw [if_pos new]
      exact same
  · have stays := bindex_at_split_other hash maxp p positive bound room same
    rw [stays, if_neg (by omega)]

end SriGlibcMalloc.MetadataTable
