import SriGlibcMalloc.OpenAddressing.Probe

/-!
# Sets of numbers as arrays of bit masks

A number belongs to the set when its bit is one in its word. Marking a clear
number and clearing a marked one changes how many are clear by one.
-/

namespace BitMask

open OpenAddressing

set_option autoImplicit false

variable {width : Nat}

/-- Whether the bit of a number is one. -/
def marked (masks : Nat → BitVec width) (index : Nat) : Bool :=
  (masks (index / width)).getLsbD (index % width)

def mark (masks : Nat → BitVec width) (index : Nat) : Nat → BitVec width :=
  Function.update masks (index / width)
    (masks (index / width) ||| BitVec.ofNat width 1 <<< (index % width))

def clear (masks : Nat → BitVec width) (index : Nat) : Nat → BitVec width :=
  Function.update masks (index / width)
    (masks (index / width) &&& ~~~(BitVec.ofNat width 1 <<< (index % width)))

def vacant (masks : Nat → BitVec width) (limit : Nat) : Nat :=
  tally limit fun index => !marked masks index

def lowest (word : BitVec width) : Nat := (List.range width).findIdx fun i => word.getLsbD i

variable {masks : Nat → BitVec width} {index other limit : Nat}

theorem unit_bit (bit : Nat) (inside : bit < width) (place : Nat) :
    (BitVec.ofNat width 1 <<< place).getLsbD bit = decide (bit = place) := by
  rw [BitVec.getLsbD_shiftLeft, BitVec.getLsbD_one]
  by_cases below : bit < place
  · simp [below, Nat.ne_of_lt below]
  · have positive : 0 < width := Nat.zero_lt_of_lt inside
    by_cases same : bit = place
    · simp [same, positive]
      omega
    · have apart : bit - place ≠ 0 := by omega
      simp [same, apart]

theorem unit_to_nat {place : Nat} (inside : place < width) :
    (BitVec.ofNat width 1 <<< place).toNat = 2 ^ place := by
  have positive : 1 < 2 ^ width := Nat.one_lt_two_pow (by omega)
  rw [BitVec.toNat_shiftLeft, BitVec.toNat_ofNat, Nat.mod_eq_of_lt positive, Nat.one_shiftLeft,
    Nat.mod_eq_of_lt (Nat.pow_lt_pow_right Nat.one_lt_two inside)]

theorem unit_and_eq_zero {word : BitVec width} {place : Nat} (inside : place < width) :
    BitVec.ofNat width 1 <<< place &&& word = BitVec.ofNat width 0 ↔
      word.getLsbD place = false := by
  constructor
  · intro zero
    have bit := congrArg (fun both => both.getLsbD place) zero
    rw [BitVec.getLsbD_and, unit_bit place inside, decide_eq_true rfl, Bool.true_and,
      BitVec.getLsbD_zero] at bit
    exact bit
  · intro unset
    apply BitVec.eq_of_getLsbD_eq
    intro i within
    rw [BitVec.getLsbD_and, unit_bit i within, BitVec.getLsbD_zero]
    by_cases same : i = place
    · rw [same, unset, Bool.and_false]
    · rw [decide_eq_false same, Bool.false_and]

theorem unset_of_lt_unit {word : BitVec width} {place i : Nat} (inside : place < width)
    (below : word < BitVec.ofNat width 1 <<< place) (above : place ≤ i) :
    word.getLsbD i = false := by
  rw [BitVec.lt_def, unit_to_nat inside] at below
  apply Nat.testBit_lt_two_pow
  exact Nat.lt_of_lt_of_le below (Nat.pow_le_pow_right Nat.two_pos above)

theorem set_of_unit_le {word : BitVec width} {place : Nat} (inside : place < width)
    (reaches : ¬word < BitVec.ofNat width 1 <<< place) :
    ∃ i, place ≤ i ∧ i < width ∧ word.getLsbD i = true := by
  rw [BitVec.lt_def, unit_to_nat inside, Nat.not_lt] at reaches
  obtain ⟨i, above, one⟩ := Nat.exists_ge_and_testBit_of_ge_two_pow reaches
  refine ⟨i, above, ?_, one⟩
  by_contra outside
  have unset := BitVec.getLsbD_of_ge word i (Nat.not_lt.mp outside)
  exact Bool.false_ne_true (unset.symm.trans one)

theorem same_bit (word : other / width = index / width) :
    other % width = index % width ↔ other = index := by
  constructor
  · intro remainder
    rw [← Nat.div_add_mod other width, ← Nat.div_add_mod index width, word, remainder]
  · intro equal
    rw [equal]

theorem ne_of_word (word : other / width ≠ index / width) : other ≠ index := by
  intro equal
  exact word (congrArg (· / width) equal)

theorem marked_mark (positive : 0 < width) :
    marked (mark masks index) other = (decide (other = index) || marked masks other) := by
  by_cases word : other / width = index / width
  · rw [marked, mark, word, Function.update_self, BitVec.getLsbD_or,
      unit_bit _ (Nat.mod_lt other positive), Bool.or_comm, marked, word]
    simp only [same_bit word]
  · rw [marked, mark, Function.update_of_ne word]
    simp [ne_of_word word, marked]

theorem marked_clear (positive : 0 < width) :
    marked (clear masks index) other = (!decide (other = index) && marked masks other) := by
  have inside := Nat.mod_lt other positive
  by_cases word : other / width = index / width
  · rw [marked, clear, word, Function.update_self, BitVec.getLsbD_and, BitVec.getLsbD_not,
      unit_bit _ inside, Bool.and_comm, marked, word]
    simp [same_bit word, inside]
  · rw [marked, clear, Function.update_of_ne word]
    simp [ne_of_word word, marked]

theorem lowest_set {word : BitVec width} (nonzero : word ≠ BitVec.ofNat width 0) :
    lowest word < width ∧ word.getLsbD (lowest word) = true := by
  have found : ∃ i ∈ List.range width, word.getLsbD i = true := by
    by_contra absent
    apply nonzero
    apply BitVec.eq_of_getLsbD_eq
    intro i inside
    rw [BitVec.getLsbD_zero]
    by_contra one
    exact absent ⟨i, List.mem_range.mpr inside, by simpa using one⟩
  have inside := List.findIdx_lt_length_of_exists found
  have one := List.findIdx_getElem (w := inside)
  rw [List.length_range] at inside
  rw [List.getElem_range] at one
  exact ⟨inside, one⟩

theorem lowest_clear {mask : BitVec width} (room : mask ≠ BitVec.allOnes width) :
    lowest (~~~mask) < width ∧ mask.getLsbD (lowest (~~~mask)) = false := by
  have nonzero : ~~~mask ≠ BitVec.ofNat width 0 := by
    intro zero
    apply room
    rw [← BitVec.not_not (b := mask), zero, BitVec.not_zero]
  obtain ⟨inside, one⟩ := lowest_set nonzero
  rw [BitVec.getLsbD_not, decide_eq_true inside, Bool.true_and] at one
  exact ⟨inside, by simpa using one⟩

theorem marked_at {word place : Nat} (inside : place < width) :
    marked masks (word * width + place) = (masks word).getLsbD place := by
  have positive : 0 < width := Nat.zero_lt_of_lt inside
  have quotient : (word * width + place) / width = word := by
    rw [Nat.add_comm, Nat.add_mul_div_right _ _ positive, Nat.div_eq_of_lt inside, Nat.zero_add]
  rw [marked, quotient, Nat.mul_add_mod', Nat.mod_eq_of_lt inside]

theorem vacant_mark (positive : 0 < width) (inside : index < limit)
    (free : marked masks index = false) : vacant masks limit = vacant (mark masks index) limit + 1 := by
  apply tally_gain inside
  · rw [marked_mark positive, decide_eq_true rfl]
    rfl
  · rw [free]
    rfl
  · intro other different
    rw [marked_mark positive, decide_eq_false different, Bool.false_or]

theorem vacant_clear (positive : 0 < width) (inside : index < limit)
    (used : marked masks index = true) : vacant (clear masks index) limit = vacant masks limit + 1 := by
  apply tally_gain inside
  · rw [used]
    rfl
  · rw [marked_clear positive, decide_eq_true rfl]
    rfl
  · intro other different
    rw [marked_clear positive, decide_eq_false different, Bool.not_false, Bool.true_and]

theorem vacant_empty (empty : ∀ index, index < limit → marked masks index = false) :
    vacant masks limit = limit := by
  have everywhere : tally limit (fun index => !marked masks index) = tally limit fun _ => true := by
    apply tally_congr
    intro index inside
    rw [empty index inside]
    rfl
  rw [vacant, everywhere]
  simp [tally]

theorem vacant_zero_iff : vacant masks limit = 0 ↔
    ∀ index, index < limit → marked masks index = true := by
  constructor
  · intro none index inside
    simpa using none_of_tally_zero none inside
  · intro all
    apply tally_zero
    intro index inside
    rw [all index inside]
    rfl

theorem vacant_le (masks : Nat → BitVec width) (limit : Nat) : vacant masks limit ≤ limit := by
  rw [vacant, tally]
  exact (Finset.card_filter_le ..).trans (Finset.card_range limit).le

end BitMask
