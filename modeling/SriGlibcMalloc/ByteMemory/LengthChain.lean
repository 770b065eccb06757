import Mathlib.Data.Finset.Card

/-!
# A marker at the end of a chain of length bytes

From the last offset of an area down to a marker every block ends in its own length, so
that a reader who knows the last offset comes to the marker. A length is never the marker
byte, and the marker byte is never one.
-/

namespace SriGlibcMalloc.ByteMemory

set_option autoImplicit false

/-- A marker byte. A block of length one can only be shortened if this is not its length. -/
abbrev Marker := { byte : UInt8 // byte ≠ 1 }

variable {magic : Marker} {mark last offset floor : Nat}

/-- The length of the block that ends `left` bytes above the marker. -/
def blockLength (magic : Marker) (left : Nat) : Nat :=
  let block := min left 255
  if block = magic.val.toNat then block - 1 else block

theorem block_length_spec (magic : Marker) {left : Nat} (positive : 0 < left) :
    0 < blockLength magic left ∧ blockLength magic left ≤ left ∧ blockLength magic left < 256 ∧
      blockLength magic left ≠ magic.val.toNat := by
  have notOne : magic.val.toNat ≠ 1 := by
    intro same
    exact magic.property (UInt8.toNat_inj.mp same)
  unfold blockLength
  dsimp only
  split_ifs <;> omega

/-- What is written from `last` down to the marker, as offsets with their bytes. -/
def chain (magic : Marker) (mark last : Nat) : List (Nat × UInt8) :=
  if mark < last then
    let block := blockLength magic (last - mark)
    (last, UInt8.ofNat block) :: chain magic mark (last - block)
  else [(mark, magic)]
termination_by last
decreasing_by
  rename_i above
  have block := block_length_spec magic (Nat.sub_pos_of_lt above)
  omega

theorem chain_step (above : mark < last) :
    chain magic mark last = (last, UInt8.ofNat (blockLength magic (last - mark))) ::
      chain magic mark (last - blockLength magic (last - mark)) := by
  rw [chain, if_pos above]

theorem chain_end (magic : Marker) (mark : Nat) :
    chain magic mark mark = [(mark, magic.val)] := by
  rw [chain, if_neg (Nat.lt_irrefl mark)]

theorem chain_induction (magic : Marker) {motive : Nat → Prop} (atMark : motive mark)
    (step : ∀ last, mark < last → motive (last - blockLength magic (last - mark)) → motive last)
    (last : Nat) (reaches : mark ≤ last) : motive last := by
  induction last using Nat.strong_induction_on with
  | _ last ih =>
      rcases Nat.eq_or_lt_of_le reaches with same | above
      · exact same ▸ atMark
      · have block := block_length_spec magic (Nat.sub_pos_of_lt above)
        apply step last above
        apply ih <;> omega

theorem chain_within (magic : Marker) (reaches : mark ≤ last) :
    ∀ write ∈ chain magic mark last, mark ≤ write.1 ∧ write.1 ≤ last := by
  refine chain_induction magic
    (motive := fun last => ∀ write ∈ chain magic mark last, mark ≤ write.1 ∧ write.1 ≤ last)
    ?_ ?_ last reaches
  · intro write member
    rw [chain_end, List.mem_singleton] at member
    rw [member]
    exact ⟨Nat.le_refl mark, Nat.le_refl mark⟩
  · intro last above ih write member
    rw [chain_step above] at member
    rcases List.mem_cons.mp member with first | later
    · rw [first]
      exact ⟨Nat.le_of_lt above, Nat.le_refl last⟩
    · have bounds := ih write later
      omega

/-- No offset is written twice, also when the marker is above the last offset. -/
theorem chain_distinct (magic : Marker) (mark last : Nat) :
    (chain magic mark last).Pairwise fun write other => write.1 ≠ other.1 := by
  by_cases reaches : mark ≤ last
  · refine chain_induction magic (motive := fun last =>
      (chain magic mark last).Pairwise fun write other => write.1 ≠ other.1) ?_ ?_ last reaches
    · rw [chain_end]
      exact List.pairwise_singleton _ _
    · intro last above ih
      have block := block_length_spec magic (Nat.sub_pos_of_lt above)
      rw [chain_step above, List.pairwise_cons]
      refine ⟨?_, ih⟩
      intro other member
      have bounds := chain_within magic (by omega) other member
      dsimp only
      omega
  · rw [chain, if_neg (by omega)]
    exact List.pairwise_singleton _ _

def store (base : Nat) : List (Nat × UInt8) → (Nat → UInt8) → Nat → UInt8
  | [], memory => memory
  | write :: writes, memory =>
      store base writes (Function.update memory (base + write.1) write.2)

variable {base address : Nat} {writes : List (Nat × UInt8)} {memory : Nat → UInt8}

theorem store_elsewhere (untouched : ∀ write ∈ writes, base + write.1 ≠ address) :
    store base writes memory address = memory address := by
  induction writes generalizing memory with
  | nil => rfl
  | cons write writes ih =>
      rw [store, ih (fun other member => untouched other (by simp [member]))]
      exact Function.update_of_ne (Ne.symm (untouched write (by simp))) _ _

theorem store_written {write : Nat × UInt8} (member : write ∈ writes)
    (distinct : writes.Pairwise fun write other => write.1 ≠ other.1) :
    store base writes memory (base + write.1) = write.2 := by
  induction writes generalizing memory with
  | nil => cases member
  | cons first writes ih =>
      obtain ⟨apart, rest⟩ := List.pairwise_cons.mp distinct
      rcases List.mem_cons.mp member with same | later
      · rw [same, store, store_elsewhere]
        · exact Function.update_self _ _ _
        · intro other member
          have different := apart other member
          omega
      · exact ih later rest

/-- The walk from `offset` down, with the offsets it reads and the one it stops at. A
length that is zero, or leads below `floor`, ends it without a result. -/
def follow (read : Nat → UInt8) (magic : UInt8) (floor offset : Nat) : List Nat × Option Nat :=
  if read offset = magic then ([offset], some offset)
  else if read offset = 0 ∨ offset < (read offset).toNat + floor then ([offset], none)
  else
    let (visited, stop) := follow read magic floor (offset - (read offset).toNat)
    (offset :: visited, stop)
termination_by offset
decreasing_by
  rename_i _ proper
  have positive : 0 < (read offset).toNat := by
    rw [Nat.pos_iff_ne_zero]
    intro zero
    exact proper (Or.inl (UInt8.toNat_inj.mp zero))
  omega

theorem follow_reads_first (read : Nat → UInt8) (magic : UInt8) (floor offset : Nat) :
    offset ∈ (follow read magic floor offset).1 := by
  rw [follow]
  split_ifs <;> simp

theorem length_positive {byte : UInt8} (nonzero : byte ≠ 0) : 0 < byte.toNat := by
  rw [Nat.pos_iff_ne_zero]
  intro zero
  exact nonzero (UInt8.toNat_inj.mp zero)

theorem follow_below (read : Nat → UInt8) (byte : UInt8) (floor offset : Nat) :
    ∀ place ∈ (follow read byte floor offset).1, place ≤ offset := by
  induction offset using Nat.strong_induction_on with
  | _ offset ih =>
      intro place visited
      rw [follow] at visited
      split_ifs at visited with found improper
      · exact Nat.le_of_eq (List.mem_singleton.mp visited)
      · exact Nat.le_of_eq (List.mem_singleton.mp visited)
      · have positive := length_positive (fun zero => improper (Or.inl zero))
        rcases List.mem_cons.mp visited with first | later
        · exact Nat.le_of_eq first
        · have lower := ih (offset - (read offset).toNat) (by omega) place later
          omega

theorem follow_stops {read : Nat → UInt8} {byte : UInt8} {stop : Nat}
    (stopped : (follow read byte floor offset).2 = some stop) :
    stop ∈ (follow read byte floor offset).1 ∧ read stop = byte := by
  induction offset using Nat.strong_induction_on with
  | _ offset ih =>
      rw [follow] at stopped ⊢
      split_ifs at stopped ⊢ with found improper
      · cases stopped
        exact ⟨List.mem_singleton_self _, found⟩
      · have positive := length_positive (fun zero => improper (Or.inl zero))
        obtain ⟨visited, marker⟩ := ih (offset - (read offset).toNat) (by omega) stopped
        exact ⟨List.mem_cons_of_mem offset visited, marker⟩

theorem follow_congr {read other : Nat → UInt8} {byte : UInt8}
    (same : ∀ place ∈ (follow read byte floor offset).1, other place = read place) :
    follow other byte floor offset = follow read byte floor offset := by
  induction offset using Nat.strong_induction_on with
  | _ offset ih =>
      have here := same offset (follow_reads_first read byte floor offset)
      rw [follow] at same
      rw [follow, here]
      conv_rhs => rw [follow]
      split_ifs at same ⊢ with found improper
      · rfl
      · rfl
      · have positive := length_positive (fun zero => improper (Or.inl zero))
        have onward := ih (offset - (read offset).toNat) (by omega)
          (fun place visited => same place (List.mem_cons_of_mem offset visited))
        rw [onward]

/-- A reader who sees the chain reads just its offsets and comes to the marker. -/
theorem follow_chain {read : Nat → UInt8} (reaches : mark ≤ last)
    (written : ∀ write ∈ chain magic mark last, read (write.1 + floor) = write.2) :
    follow read magic.val floor (last + floor) =
      ((chain magic mark last).map fun write => write.1 + floor, some (mark + floor)) := by
  revert written
  refine chain_induction magic (motive := fun last =>
      (∀ write ∈ chain magic mark last, read (write.1 + floor) = write.2) →
      follow read magic.val floor (last + floor) =
        ((chain magic mark last).map fun write => write.1 + floor, some (mark + floor)))
    ?_ ?_ last reaches
  · intro written
    have atMark := written (mark, magic.val) (by rw [chain_end]; simp)
    rw [follow, if_pos atMark, chain_end]
    rfl
  · intro last above ih written
    obtain ⟨positive, short, small, different⟩ :=
      block_length_spec magic (Nat.sub_pos_of_lt above)
    rw [chain_step above] at written ⊢
    have length := written (last, UInt8.ofNat (blockLength magic (last - mark))) (by simp)
    have exact' : (UInt8.ofNat (blockLength magic (last - mark))).toNat =
        blockLength magic (last - mark) := UInt8.toNat_ofNat_of_lt' small
    have onward := ih (fun write member => written write (by simp [member]))
    have notMarker : read (last + floor) ≠ magic.val := by
      rw [length]
      intro same
      exact different (exact'.symm.trans (congrArg UInt8.toNat same))
    have proper : ¬(read (last + floor) = 0 ∨
        last + floor < (read (last + floor)).toNat + floor) := by
      rw [length, exact']
      rintro (zero | below)
      · have none := congrArg UInt8.toNat zero
        rw [exact'] at none
        exact absurd none (Nat.ne_of_gt positive)
      · omega
    have place : last + floor - blockLength magic (last - mark) =
        last - blockLength magic (last - mark) + floor := by omega
    rw [follow, if_neg notMarker, if_neg proper, length, exact', place, onward]
    rfl

end SriGlibcMalloc.ByteMemory
