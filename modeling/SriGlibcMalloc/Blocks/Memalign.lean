import SriGlibcMalloc.Blocks.Malloced

/-!
# Aligned blocks

`_mid_memalign` tests that nothing overflows before it rounds the alignment up to a power
of two. `_int_memalign` cuts the block out of a chunk with room for the worst case and
gives back what lies before and after it.
-/

namespace SriGlibcMalloc.Blocks

open Bins Transition
open EntryPoints (minSize checkedRequest2size request2size requestOutOfRange mallocAlignMask)
open MainArena (wrap wrapSub alignUp alignDown pageSize sizeSz chunksize wrap_sub_exact)

set_option autoImplicit false

def mallocAlignment : Nat := 16

def powerof2 (x : Nat) : Bool := wrapSub x 1 &&& x = 0

/-- `while (a < alignment) a <<= 1`. -/
def doubleUntil (alignment : Nat) : Nat → Nat → Option Nat
  | 0, _ => none
  | fuel + 1, a => if a < alignment then doubleUntil alignment fuel (wrap (a <<< 1)) else some a

/-- What `_mid_memalign` makes of the alignment. -/
inductive Alignment
  | relayed
  | refused
  | power (alignment : Option Nat)
  deriving DecidableEq, Repr

def checkAlignment (alignment bytes : Nat) : Alignment :=
  if alignment ≤ mallocAlignment then .relayed
  else
    let alignment := if alignment < minSize then minSize else alignment
    if (2 ^ 64 - 1) / 2 + 1 < alignment then .refused
    else if wrapSub (wrapSub (2 ^ 64 - 1) alignment) minSize < bytes then .refused
    else if powerof2 alignment then .power (some alignment)
    else .power (doubleUntil alignment 64 (mallocAlignment * 2))

/-- A block, the chunk it is cut from, and what is given back. -/
structure Aligned where
  chunk : Block
  block : Block
  leader : Option FreeChunk
  tail : Option FreeChunk

/-- The spot in the chunk, far enough from its start for a leader. -/
def alignSpot (m alignment : Nat) : Nat :=
  let brk := wrap (wrap (m + alignment) + (2 ^ 64 - 1)) &&& wrapSub 0 alignment
  if wrapSub brk m < minSize then wrap (brk + alignment) else brk

def giveBackTail (chunk block : Block) (leader : Option FreeChunk) (nb : Nat) : Aligned :=
  if !block.mmapped && wrap (nb + minSize) < block.size then
    ⟨chunk, { block with size := nb }, leader,
      some ⟨wrap (block.addr + nb), wrapSub block.size nb⟩⟩
  else ⟨chunk, block, leader, none⟩

/-- A misaligned chunk; a mapped one needs a record of the main arena. The leader of another
one goes to `_int_free`, of which the checks that end the process are left out. -/
def moveBlock (chunk : Block) (alignment nb : Nat) (metadata : Bool) : Option Aligned :=
  let brk := alignSpot chunk.addr alignment
  let leadsize := wrapSub brk chunk.addr
  let newsize := chunksize (wrapSub chunk.size leadsize)
  if chunk.mmapped then
    if metadata then
      some ⟨chunk, ⟨brk, newsize, wrap (chunk.prevSize + leadsize), true, false⟩, none, none⟩
    else none
  else
    some (giveBackTail chunk ⟨brk, newsize, 0, false, true⟩ (some ⟨chunk.addr, leadsize⟩) nb)

def intMemalign (alignment bytes : Nat) (malloced : Nat → Option Block) (metadata : Bool) :
    Option Aligned :=
  match checkedRequest2size bytes with
  | none => none
  | some nb =>
      match malloced (wrap (wrap (nb + alignment) + minSize)) with
      | none => none
      | some chunk =>
          if chunk.addr % alignment = 0 then some (giveBackTail chunk chunk none nb)
          else moveBlock chunk alignment nb metadata

/-- What the routine gets from the arenas: a chunk for a request, and whether the main
arena has a record for it. -/
structure Supply where
  malloced : Nat → Option Block
  metadata : Bool

/-- `_mid_memalign` without a hook; when the first arena fails another one is tried. -/
def midMemalign (alignment bytes : Nat) (first retry : Supply) : Option Aligned :=
  match checkAlignment alignment bytes with
  | .relayed => (first.malloced bytes).map fun block => ⟨block, block, none, none⟩
  | .refused => none
  | .power none => none
  | .power (some alignment) =>
      match intMemalign alignment bytes first.malloced first.metadata with
      | some aligned => some aligned
      | none => intMemalign alignment bytes retry.malloced retry.metadata

def Supply.Sound (supply : Supply) : Prop :=
  ∀ bytes block, supply.malloced bytes = some block → ∃ source, Malloced bytes source block

/-- The block is aligned and large enough, and it and what is given back share the chunk. -/
structure WellAligned (alignment bytes : Nat) (aligned : Aligned) : Prop where
  multiple : aligned.block.addr % alignment = 0
  usable : bytes ≤ aligned.block.size
  after : aligned.chunk.addr ≤ aligned.block.addr
  before : aligned.block.addr + aligned.block.size ≤ aligned.chunk.addr + aligned.chunk.size
  leader : ∀ leader, aligned.leader = some leader → minSize ≤ leader.size ∧
    leader.addr = aligned.chunk.addr ∧ leader.addr + leader.size = aligned.block.addr
  tail : ∀ tail, aligned.tail = some tail → minSize ≤ tail.size ∧
    tail.addr = aligned.block.addr + aligned.block.size ∧
    tail.addr + tail.size = aligned.chunk.addr + aligned.chunk.size

/-- No sum on the way to a block in a chunk exceeds a word, and no difference is negative. -/
structure Exact (alignment nb : Nat) (malloced : Nat → Option Block) : Prop where
  request : nb + alignment + minSize < 2 ^ 64
  spot : ∀ chunk, malloced (nb + alignment + minSize) = some chunk →
    chunk.addr + alignment < 2 ^ 64 ∧ (chunk.addr % alignment ≠ 0 →
      chunk.addr + minSize ≤ alignSpot chunk.addr alignment ∧
        alignSpot chunk.addr alignment + nb ≤ chunk.addr + chunk.size)

/-- What holds of one call: the alignment is rounded up to a power of two, every sum is
exact, and a block that is returned is right. -/
def NeverWraps (alignment bytes : Nat) (first retry : Supply) : Prop :=
  match checkAlignment alignment bytes with
  | .relayed => ∀ aligned, midMemalign alignment bytes first retry = some aligned →
      WellAligned mallocAlignment bytes aligned
  | .refused => midMemalign alignment bytes first retry = none
  | .power none => False
  | .power (some rounded) => alignment ≤ rounded ∧ (∃ k, k < 64 ∧ rounded = 2 ^ k) ∧
      (∃ nb, checkedRequest2size bytes = some nb ∧ Exact rounded nb first.malloced ∧
        Exact rounded nb retry.malloced) ∧
      ∀ aligned, midMemalign alignment bytes first retry = some aligned →
        WellAligned rounded bytes aligned

def Fits (alignment bytes : Nat) : Prop :=
  ∀ rounded, checkAlignment alignment bytes = .power (some rounded) →
    request2size bytes + rounded + minSize < 2 ^ 64

variable {alignment bytes nb rounded x k : Nat} {first retry supply : Supply}
variable {source : Source} {chunk block : Block} {aligned : Aligned}

theorem and_neg_power (word : x < 2 ^ 64) (below : k < 64) :
    x &&& wrapSub 0 (2 ^ k) = x - x % 2 ^ k := by
  have power : 2 ^ k ≤ 2 ^ 63 := Nat.pow_le_pow_right Nat.two_pos (Nat.le_of_lt_succ below)
  have positive : 0 < 2 ^ k := Nat.two_pow_pos k
  have mask : wrapSub 0 (2 ^ k) = (2 ^ (64 - k) - 1) <<< k := by
    have product : 2 ^ (64 - k) * 2 ^ k = 2 ^ 64 := by
      rw [← Nat.pow_add, Nat.sub_add_cancel (Nat.le_of_lt below)]
    rw [Nat.shiftLeft_eq, Nat.sub_mul, product, Nat.one_mul, wrapSub, wrap, wrap]
    omega
  have down : x - x % 2 ^ k = (x >>> k) <<< k := by
    have split' := Nat.div_add_mod x (2 ^ k)
    rw [Nat.shiftLeft_eq, Nat.shiftRight_eq_div_pow, Nat.mul_comm]
    omega
  rw [mask, down]
  apply Nat.eq_of_testBit_eq
  intro i
  rw [Nat.testBit_and, Nat.testBit_shiftLeft, Nat.testBit_shiftLeft, Nat.testBit_shiftRight,
    Nat.testBit_two_pow_sub_one]
  by_cases low : i < k
  · simp [Nat.not_le.mpr low]
  · have reached := Nat.not_lt.mp low
    rw [Nat.add_sub_cancel' reached]
    by_cases inside : i < 64
    · have bit : i - k < 64 - k := by omega
      simp [reached, bit]
    · have unset : x.testBit i = false := by
        apply Nat.testBit_lt_two_pow
        exact Nat.lt_of_lt_of_le word (Nat.pow_le_pow_right Nat.two_pos (Nat.not_lt.mp inside))
      simp [unset]

theorem powerof2_spec (low : 0 < x) (high : x ≤ 2 ^ 63) (power : powerof2 x = true) :
    ∃ k, k < 64 ∧ x = 2 ^ k := by
  have zero : x &&& x - 1 = 0 := by
    have masked := of_decide_eq_true power
    rw [wrap_sub_exact (by omega) (by omega), Nat.and_comm] at masked
    exact masked
  obtain ⟨k, same⟩ := (Nat.and_sub_one_eq_zero_iff_isPowerOfTwo (Nat.ne_of_gt low)).mp zero
  refine ⟨k, ?_, same⟩
  by_contra large
  have above : 2 ^ 64 ≤ 2 ^ k := Nat.pow_le_pow_right Nat.two_pos (Nat.not_lt.mp large)
  omega

theorem double_until_spec (fuel : Nat) (high : alignment ≤ 2 ^ 63) (below : k < 64)
    (enough : 64 ≤ k + fuel) :
    ∃ j, j < 64 ∧ alignment ≤ 2 ^ j ∧ doubleUntil alignment fuel (2 ^ k) = some (2 ^ j) := by
  induction fuel generalizing k with
  | zero => omega
  | succ fuel ih =>
      rw [doubleUntil]
      by_cases small : 2 ^ k < alignment
      · rw [if_pos small]
        have next : k + 1 < 64 := by
          by_contra last
          have same : k = 63 := by omega
          rw [same] at small
          exact absurd high (Nat.not_le.mpr small)
        have doubled : wrap (2 ^ k <<< 1) = 2 ^ (k + 1) := by
          rw [Nat.shiftLeft_eq, ← Nat.pow_succ, wrap]
          exact Nat.mod_eq_of_lt (Nat.pow_lt_pow_right Nat.one_lt_two next)
        rw [doubled]
        exact ih next (by omega)
      · rw [if_neg small]
        exact ⟨k, below, Nat.not_lt.mp small, rfl⟩

theorem rounded_power {answer : Option Nat} (least : minSize ≤ alignment)
    (high : alignment ≤ 2 ^ 63)
    (checked : (if powerof2 alignment then Alignment.power (some alignment)
      else .power (doubleUntil alignment 64 (mallocAlignment * 2))) = .power answer) :
    ∃ k, 5 ≤ k ∧ k < 64 ∧ answer = some (2 ^ k) ∧ alignment ≤ 2 ^ k := by
  have found : ∃ k, k < 64 ∧ answer = some (2 ^ k) ∧ alignment ≤ 2 ^ k := by
    by_cases power : powerof2 alignment = true
    · rw [if_pos power] at checked
      obtain ⟨k, below, same⟩ :=
        powerof2_spec (Nat.lt_of_lt_of_le (by decide) least) high power
      cases checked
      exact ⟨k, below, congrArg some same, Nat.le_of_eq same⟩
    · rw [if_neg power] at checked
      obtain ⟨k, below, above, found⟩ :=
        double_until_spec 64 high (by decide : 5 < 64) (by decide)
      cases checked
      exact ⟨k, below, found, above⟩
  obtain ⟨k, below, same, above⟩ := found
  refine ⟨k, ?_, below, same, above⟩
  by_contra small
  have less : 2 ^ k ≤ 2 ^ 4 := Nat.pow_le_pow_right Nat.two_pos (by omega)
  simp only [minSize] at least
  omega

theorem check_alignment_power {answer : Option Nat}
    (checked : checkAlignment alignment bytes = .power answer) :
    bytes + 2 * minSize < 2 ^ 64 ∧ ∃ k, 5 ≤ k ∧ k < 64 ∧ answer = some (2 ^ k) ∧ alignment ≤ 2 ^ k := by
  unfold checkAlignment at checked
  by_cases relayed : alignment ≤ mallocAlignment
  · rw [if_pos relayed] at checked
    cases checked
  · rw [if_neg relayed] at checked
    dsimp only at checked
    have least : alignment ≤ (if alignment < minSize then minSize else alignment) ∧
        minSize ≤ (if alignment < minSize then minSize else alignment) := by
      split <;> omega
    generalize (if alignment < minSize then minSize else alignment) = raised at checked least
    by_cases invalid : (2 ^ 64 - 1) / 2 + 1 < raised
    · rw [if_pos invalid] at checked
      cases checked
    · rw [if_neg invalid] at checked
      have high : raised ≤ 2 ^ 63 := Nat.not_lt.mp invalid
      by_cases overflow : wrapSub (wrapSub (2 ^ 64 - 1) raised) minSize < bytes
      · rw [if_pos overflow] at checked
        cases checked
      · rw [if_neg overflow] at checked
        have least' := least.2
        have inner : wrapSub (2 ^ 64 - 1) raised = 2 ^ 64 - 1 - raised :=
          wrap_sub_exact (by omega) (by decide)
        have outer : wrapSub (2 ^ 64 - 1 - raised) minSize = 2 ^ 64 - 1 - raised - minSize :=
          wrap_sub_exact (by simp only [minSize]; omega) (by omega)
        rw [inner, outer] at overflow
        obtain ⟨k, low, below, same, above⟩ := rounded_power least' high checked
        refine ⟨?_, k, low, below, same, Nat.le_trans least.1 above⟩
        simp only [minSize] at least' overflow ⊢
        omega

theorem Malloced.cut (malloced : Malloced bytes source block) :
    block.Valid ∧ bytes ≤ block.size := by
  obtain ⟨nb, requested, taken⟩ := malloced
  obtain ⟨valid, cut⟩ := taken.cut (request_chunk_size requested)
  refine ⟨valid, Nat.le_trans ?_ cut.large⟩
  rw [(request_checked requested).2]
  exact request_padded bytes

/-- The first aligned spot of a misaligned chunk that leaves room for a leader. -/
theorem align_spot_spec {m : Nat} (low : 5 ≤ k) (below : k < 64) (whole : m % 16 = 0)
    (room : m + 2 ^ k < 2 ^ 63) (misaligned : m % 2 ^ k ≠ 0) :
    ∃ lead, alignSpot m (2 ^ k) = m + lead ∧ minSize ≤ lead ∧ lead ≤ 2 ^ k + 16 ∧
      (m + lead) % 2 ^ k = 0 ∧ lead % 16 = 0 := by
  have sixteen : 16 ∣ 2 ^ k := Nat.pow_dvd_pow 2 (Nat.le_trans (by decide : 4 ≤ 5) low)
  have large : 2 ^ 5 ≤ 2 ^ k := Nat.pow_le_pow_right Nat.two_pos low
  have rest := Nat.mod_lt m (Nat.two_pow_pos k)
  have split' := Nat.div_add_mod m (2 ^ k)
  have masked : wrap (wrap (m + 2 ^ k) + (2 ^ 64 - 1)) &&& wrapSub 0 (2 ^ k) =
      2 ^ k * (m / 2 ^ k + 1) := by
    have sum : wrap (wrap (m + 2 ^ k) + (2 ^ 64 - 1)) = m + 2 ^ k - 1 := by
      unfold wrap
      omega
    have offset : m + 2 ^ k - 1 = 2 ^ k * (m / 2 ^ k + 1) + (m % 2 ^ k - 1) := by
      rw [Nat.mul_add, Nat.mul_one]
      omega
    have small : m % 2 ^ k - 1 < 2 ^ k := by omega
    rw [sum, and_neg_power (by omega) below, offset, Nat.mul_add_mod, Nat.mod_eq_of_lt small,
      Nat.add_sub_cancel]
  have spot : 2 ^ k * (m / 2 ^ k + 1) = m + (2 ^ k - m % 2 ^ k) := by
    rw [Nat.mul_add, Nat.mul_one]
    omega
  have multiple : (m + (2 ^ k - m % 2 ^ k)) % 2 ^ k = 0 := by
    rw [← spot]
    exact Nat.mul_mod_right _ _
  have aligned : (m + (2 ^ k - m % 2 ^ k)) % 16 = 0 :=
    Nat.mod_eq_zero_of_dvd (Nat.dvd_trans sixteen (Nat.dvd_of_mod_eq_zero multiple))
  have whole' : 2 ^ k % 16 = 0 := Nat.mod_eq_zero_of_dvd sixteen
  unfold alignSpot
  rw [masked, spot]
  dsimp only
  rw [wrap_sub_exact (Nat.le_add_right m _) (by omega), Nat.add_sub_cancel_left]
  by_cases short : 2 ^ k - m % 2 ^ k < minSize
  · rw [if_pos short]
    refine ⟨2 ^ k - m % 2 ^ k + 2 ^ k, ?_, ?_, ?_, ?_, ?_⟩
    · rw [wrap, Nat.mod_eq_of_lt (by omega), Nat.add_assoc]
    · simp only [minSize] at *
      omega
    · simp only [minSize] at short
      omega
    · rw [← Nat.add_assoc, Nat.add_mod_right]
      exact multiple
    · omega
  · rw [if_neg short]
    refine ⟨2 ^ k - m % 2 ^ k, rfl, Nat.not_lt.mp short, ?_, multiple, ?_⟩
    · omega
    · omega

def LeaderFits (chunk block : Block) (leader : Option FreeChunk) : Prop :=
  ∀ front, leader = some front → minSize ≤ front.size ∧ front.addr = chunk.addr ∧
    front.addr + front.size = block.addr

theorem give_back_tail_well {leader : Option FreeChunk} (request : ChunkSize nb)
    (padded : bytes ≤ nb) (inside : block.addr + block.size < 2 ^ 63)
    (multiple : block.addr % alignment = 0) (after : chunk.addr ≤ block.addr)
    (ends : block.addr + block.size = chunk.addr + chunk.size) (fits : nb ≤ block.size)
    (leads : LeaderFits chunk block leader) :
    WellAligned alignment bytes (giveBackTail chunk block leader nb) := by
  unfold giveBackTail
  by_cases spare : (!block.mmapped && decide (wrap (nb + minSize) < block.size)) = true
  · rw [if_pos spare]
    have room : nb + minSize < block.size := by
      have small := of_decide_eq_true (Bool.and_eq_true_iff.mp spare).2
      rw [wrap, Nat.mod_eq_of_lt request.room] at small
      exact small
    have sum : wrap (block.addr + nb) = block.addr + nb := Nat.mod_eq_of_lt (by omega)
    refine ⟨multiple, padded, after, ?_, leads, ?_⟩
    · dsimp only
      omega
    · intro tail same
      cases same
      rw [sum, wrap_sub_exact fits (by omega)]
      refine ⟨?_, rfl, ?_⟩
      · dsimp only
        omega
      · dsimp only
        omega
  · rw [if_neg spare]
    refine ⟨multiple, Nat.le_trans padded fits, after, Nat.le_of_eq ends, leads, ?_⟩
    intro tail impossible
    cases impossible

theorem move_block_well {metadata : Bool} (low : 5 ≤ k) (below : k < 64)
    (request : ChunkSize nb) (padded : bytes ≤ nb) (valid : chunk.Valid)
    (room : nb + 2 ^ k + minSize ≤ chunk.size) (misaligned : chunk.addr % 2 ^ k ≠ 0)
    (moved : moveBlock chunk (2 ^ k) nb metadata = some aligned) :
    WellAligned (2 ^ k) bytes aligned := by
  have inside := valid.inside
  have whole := valid.whole
  have sixteen : minSize = 32 := rfl
  obtain ⟨lead, spot, least, most, multiple, sixteenth⟩ :=
    align_spot_spec low below valid.aligned (by omega) misaligned
  have leadsize : wrapSub (chunk.addr + lead) chunk.addr = lead := by
    rw [wrap_sub_exact (Nat.le_add_right _ _) (by omega), Nat.add_sub_cancel_left]
  have newsize : chunksize (wrapSub chunk.size lead) = chunk.size - lead := by
    rw [wrap_sub_exact (by omega) (by omega), chunksize]
    omega
  unfold moveBlock at moved
  rw [spot] at moved
  dsimp only at moved
  rw [leadsize, newsize] at moved
  split_ifs at moved with mapped metadata
  · cases moved
    refine ⟨multiple, ?_, ?_, ?_, ?_, ?_⟩
    · dsimp only
      omega
    · exact Nat.le_add_right _ _
    · dsimp only
      omega
    · intro front impossible
      cases impossible
    · intro tail impossible
      cases impossible
  · cases moved
    apply give_back_tail_well request padded
    · dsimp only
      omega
    · exact multiple
    · exact Nat.le_add_right _ _
    · dsimp only
      omega
    · dsimp only
      omega
    · intro front same
      cases same
      exact ⟨least, rfl, rfl⟩

theorem int_memalign_well (low : 5 ≤ k) (below : k < 64) (sound : supply.Sound)
    (requested : checkedRequest2size bytes = some nb)
    (room : nb + 2 ^ k + minSize < 2 ^ 64) (padded : bytes ≤ nb)
    (answered : intMemalign (2 ^ k) bytes supply.malloced supply.metadata = some aligned) :
    WellAligned (2 ^ k) bytes aligned := by
  have request := request_chunk_size requested
  have sum : wrap (wrap (nb + 2 ^ k) + minSize) = nb + 2 ^ k + minSize := by
    have inner : wrap (nb + 2 ^ k) = nb + 2 ^ k := Nat.mod_eq_of_lt (by omega)
    rw [inner]
    exact Nat.mod_eq_of_lt room
  unfold intMemalign at answered
  rw [requested] at answered
  dsimp only at answered
  rw [sum] at answered
  cases malloced : supply.malloced (nb + 2 ^ k + minSize) with
  | none =>
      rw [malloced] at answered
      cases answered
  | some chunk =>
      obtain ⟨source, taken⟩ := sound _ _ malloced
      obtain ⟨valid, large⟩ := taken.cut
      rw [malloced] at answered
      dsimp only at answered
      by_cases multiple : chunk.addr % 2 ^ k = 0
      · rw [if_pos multiple] at answered
        cases answered
        apply give_back_tail_well request padded valid.inside multiple (Nat.le_refl _) rfl
        · omega
        · exact fun _ impossible => nomatch impossible
      · rw [if_neg multiple] at answered
        exact move_block_well low below request padded valid large multiple answered

theorem exact_of_fits (low : 5 ≤ k) (below : k < 64) (sound : supply.Sound)
    (room : nb + 2 ^ k + minSize < 2 ^ 64) : Exact (2 ^ k) nb supply.malloced where
  request := room
  spot := by
    intro chunk malloced
    obtain ⟨source, taken⟩ := sound _ _ malloced
    obtain ⟨valid, large⟩ := taken.cut
    have inside := valid.inside
    have sixteen : minSize = 32 := rfl
    refine ⟨by omega, fun misaligned => ?_⟩
    obtain ⟨lead, spot, least, most, _⟩ :=
      align_spot_spec low below valid.aligned (by omega) misaligned
    rw [spot]
    omega

/-- `_mid_memalign` never wraps exactly when the sum of its request fits a word. -/
theorem memalign_never_wraps_iff (alignment bytes : Nat) (first retry : Supply)
    (sound : first.Sound) (soundRetry : retry.Sound) :
    NeverWraps alignment bytes first retry ↔ Fits alignment bytes := by
  unfold NeverWraps Fits
  cases checked : checkAlignment alignment bytes with
  | relayed =>
      refine iff_of_true ?_ fun _ impossible => nomatch impossible
      intro aligned answered
      unfold midMemalign at answered
      rw [checked] at answered
      obtain ⟨block, malloced, same⟩ := Option.map_eq_some_iff.mp answered
      obtain ⟨source, taken⟩ := sound _ _ malloced
      obtain ⟨valid, large⟩ := taken.cut
      rw [← same]
      exact ⟨valid.aligned, large, Nat.le_refl _, Nat.le_refl _,
        (fun _ impossible => nomatch impossible), fun _ impossible => nomatch impossible⟩
  | refused =>
      refine iff_of_true ?_ fun _ impossible => nomatch impossible
      unfold midMemalign
      rw [checked]
  | power answer =>
      obtain ⟨accepted, k, low, below, same, above⟩ := check_alignment_power checked
      subst same
      have requested := request_accepted accepted
      constructor
      · rintro ⟨_, _, ⟨nb, padded, exact', _⟩, _⟩ rounded same
        cases same
        cases requested.symm.trans padded
        exact exact'.request
      · intro fits
        have room := fits (2 ^ k) rfl
        refine ⟨above, ⟨k, below, rfl⟩, ⟨request2size bytes, requested,
          exact_of_fits low below sound room, exact_of_fits low below soundRetry room⟩, ?_⟩
        intro aligned answered
        have padded := request_padded bytes
        unfold midMemalign at answered
        rw [checked] at answered
        dsimp only at answered
        split at answered
        case h_1 result =>
          cases answered
          exact int_memalign_well low below sound requested room padded result
        case h_2 =>
          exact int_memalign_well low below soundRetry requested room padded answered

/-- Arenas without any memory: every request gets a mapping at the same address. -/
def mappingSupply : Supply where
  malloced := fun bytes => (checkedRequest2size bytes).bind fun nb =>
    if 0x7f0000000000 + alignUp (wrap (nb + sizeSz)) pageSize < 2 ^ 63 then
      sysmallocMmap nb (some 0x7f0000000000)
    else none
  metadata := true

theorem mapping_supply_sound : mappingSupply.Sound := by
  intro bytes block malloced
  obtain ⟨nb, requested, mapping⟩ := Option.bind_eq_some_iff.mp malloced
  split_ifs at mapping with inside
  exact ⟨_, nb, requested, .mapped (by decide) (by decide) inside mapping⟩

theorem page_alignment_never_wraps :
    NeverWraps 4096 100 mappingSupply mappingSupply ↔ Fits 4096 100 :=
  memalign_never_wraps_iff 4096 100 mappingSupply mappingSupply mapping_supply_sound
    mapping_supply_sound

/-- An alignment just above 2 ^ 62 is tested, but twice as much is added: the request wraps
to 32 bytes, and a block at 2 ^ 63 is returned. -/
theorem rounded_alignment_wraps :
    ¬∀ (alignment bytes : Nat) (first retry : Supply), first.Sound → retry.Sound →
      NeverWraps alignment bytes first retry := by
  intro claimed
  have never := claimed (2 ^ 62 + 1) (2 ^ 63) mappingSupply mappingSupply mapping_supply_sound
    mapping_supply_sound
  have checked : checkAlignment (2 ^ 62 + 1) (2 ^ 63) = .power (some (2 ^ 63)) := by
    decide +kernel
  have result : (midMemalign (2 ^ 62 + 1) (2 ^ 63) mappingSupply mappingSupply).map
      (fun aligned => (aligned.block.addr, aligned.chunk.addr + aligned.chunk.size)) =
        some (2 ^ 63, 0x7f0000001000) := by
    decide +kernel
  obtain ⟨aligned, answered, places⟩ := Option.map_eq_some_iff.mp result
  unfold NeverWraps at never
  rw [checked] at never
  have before := (never.2.2.2 aligned answered).before
  obtain ⟨addr, stop⟩ := Prod.mk.inj places
  omega

end SriGlibcMalloc.Blocks
