import SriGlibcMalloc.Blocks.Memalign
import SriGlibcMalloc.Blocks.Realloc
import SriGlibcMalloc.MappedChunks.Remap

/-!
# The usable size of a block

A padded request has no overhead, but `musable` still subtracts a word from the size of a
chunk. `sysmalloc` and `mremap_chunk` add a word for a mapped chunk, of which two are
subtracted.
-/

namespace SriGlibcMalloc.Blocks

open Bins MappedChunks
open EntryPoints (minSize checkedRequest2size request2size mallocAlignMask)
open MainArena (wrap wrapSub alignUp pageSize sizeSz chunksize wrap_sub_exact)

set_option autoImplicit false

/-- `musable`, without the checking mode. -/
def musable (block : Block) : Nat :=
  if block.mmapped then wrapSub block.size (2 * sizeSz)
  else if block.inuse then wrapSub block.size sizeSz
  else 0

def Aligned.source (aligned : Aligned) : Source :=
  let stop := aligned.chunk.addr + aligned.chunk.size
  if aligned.block.mmapped then .mapping stop
  else .free (stop - aligned.block.addr) minSize

def Source.stop (block : Block) : Source → Nat
  | .mapping stop => stop
  | .free _ _ => block.addr + block.size

/-- How a request is satisfied, with what its size depends on. -/
inductive Origin
  | malloced (source : Source)
  | aligned (alignment : Nat) (source : Source)
  | remapped (offset : Nat)

def mappedBlock (p : Nat) (record : Record) : Block :=
  ⟨p, record.size, record.prevSize, true, false⟩

/-- Every way to satisfy a request, with the end of the memory in which the block lies. -/
inductive Satisfied (bytes : Nat) : Origin → Nat → Block → Prop
  | malloced {source : Source} {block : Block} (taken : Malloced bytes source block) :
      Satisfied bytes (.malloced source) (source.stop block) block
  | placed {old block : Block} {next : Following} {systemMem nb newsize : Nat}
      {malloced : Option Block} {remainder : Option FreeChunk} (valid : old.Valid)
      (heap : old.mmapped = false) (after : next.After old)
      (requested : checkedRequest2size bytes = some nb) (answers : Answers nb malloced)
      (resized : intRealloc old next systemMem nb malloced =
        some (.placed block newsize remainder)) :
      Satisfied bytes (.malloced (.carved newsize)) (block.addr + block.size) block
  | copied {nb : Nat} {source : Source} {block : Block}
      (requested : checkedRequest2size bytes = some nb)
      (taken : Malloced (nb - mallocAlignMask) source block) :
      Satisfied bytes (.malloced source) (source.stop block) block
  | aligned {alignment : Nat} {first retry : Supply} {aligned : Aligned} (sound : first.Sound)
      (soundRetry : retry.Sound)
      (answered : midMemalign alignment bytes first retry = some aligned) :
      Satisfied bytes (.aligned alignment aligned.source)
        (aligned.chunk.addr + aligned.chunk.size) aligned.block
  | remapped {registry after : Registry} {p nb q : Nat} {record resized : Record}
      {answer : Option Nat} (live : Live registry p record)
      (grants : Grants record nb answer) (requested : checkedRequest2size bytes = some nb)
      (moved : registry.mremapChunk p nb answer = some (some q, after))
      (found : after.lookupChunk q = some resized) :
      Satisfied bytes (.remapped record.prevSize)
        (q - resized.prevSize + newLength record nb) (mappedBlock q resized)
  | unmoved {registry : Registry} {p nb : Nat} {record : Record}
      (live : Live registry p record) (minimal : minSize ≤ record.size)
      (requested : checkedRequest2size bytes = some nb)
      (enough : nb ≤ wrapSub record.size sizeSz) :
      Satisfied bytes (.malloced (.mapping (p + record.size))) (p + record.size)
        (mappedBlock p record)

/-- The usable bytes cover the request, and lie in the chunk and in its memory. -/
structure Covers (bytes stop : Nat) (block : Block) : Prop where
  usable : bytes ≤ musable block
  chunk : musable block ≤ block.size
  before : block.addr + musable block ≤ stop

/-- The padding has a word to spare, or the block is larger than the padded request. -/
def Spare (bytes : Nat) : Source → Prop
  | .mapping _ => True
  | .free found keeps => bytes ≤ 24 ∨ (1 ≤ bytes % 16 ∧ bytes % 16 ≤ 8) ∨
      (request2size bytes < found ∧ found ≤ request2size bytes + keeps)

def Origin.Spare (bytes : Nat) : Origin → Prop
  | .malloced source => Blocks.Spare bytes source
  | .aligned alignment source => Fits alignment bytes ∧ Blocks.Spare bytes source
  | .remapped offset => request2size bytes + offset + sizeSz + pageSize ≤ 2 ^ 64

variable {bytes stop nb k : Nat} {source : Source} {block chunk : Block} {origin : Origin}
variable {supply : Supply} {aligned : Aligned}

theorem mapped_usable (mapped : block.mmapped = true) (large : 16 ≤ block.size)
    (word : block.size < 2 ^ 64) : musable block = block.size - 16 := by
  unfold musable
  rw [if_pos mapped]
  exact wrap_sub_exact large word

theorem heap_usable (heap : block.mmapped = false) (inuse : block.inuse = true)
    (large : 8 ≤ block.size) (word : block.size < 2 ^ 64) :
    musable block = block.size - 8 := by
  unfold musable
  rw [if_neg (Bool.eq_false_iff.mp heap), if_pos inuse]
  exact wrap_sub_exact large word

theorem request2size_cases (bytes : Nat) :
    (bytes ≤ 32 ∧ request2size bytes = 32) ∨
      (32 < bytes ∧ request2size bytes = (bytes + 15) / 16 * 16) := by
  unfold request2size
  by_cases tiny : bytes + mallocAlignMask < minSize
  · rw [if_pos tiny]
    simp only [mallocAlignMask, minSize] at tiny
    exact Or.inl ⟨by omega, rfl⟩
  · rw [if_neg tiny]
    simp only [mallocAlignMask, minSize] at tiny
    have same : (bytes + mallocAlignMask) / 16 * 16 = (bytes + 15) / 16 * 16 := rfl
    rw [same]
    omega

theorem cut_covers_iff (cut : Cut nb block source) (padded : nb = request2size bytes)
    (word : block.size < 2 ^ 64) (ends : block.addr + block.size ≤ stop) :
    Covers bytes stop block ↔ Spare bytes source := by
  have large := cut.large
  have covered := request_padded bytes
  have cases' := request2size_cases bytes
  cases source with
  | mapping mappingStop =>
      obtain ⟨mapped, _, room⟩ := cut
      have usable := mapped_usable mapped (Nat.le_of_add_left_le room) word
      refine iff_of_true ⟨?_, ?_, ?_⟩ trivial <;> rw [usable] <;> omega
  | free found keeps =>
      obtain ⟨heap, inuse, fits, whole, size⟩ := cut
      have usable := heap_usable heap inuse (by omega) word
      unfold Spare
      rw [← padded] at cases' covered ⊢
      constructor
      · intro covers
        have enough := covers.usable
        rw [usable, size] at enough
        split_ifs at enough <;> omega
      · intro spare
        refine ⟨?_, ?_, ?_⟩ <;> rw [usable]
        · rw [size]
          split_ifs <;> omega
        · omega
        · omega

theorem give_back_tail_cut {leader : Option FreeChunk} (request : ChunkSize nb)
    (heap : block.mmapped = false) (inuse : block.inuse = true) (fits : nb ≤ block.size)
    (whole : block.size % 16 = 0)
    (ends : block.addr + block.size = chunk.addr + chunk.size) :
    Cut nb (giveBackTail chunk block leader nb).block
      (giveBackTail chunk block leader nb).source := by
  have room : wrap (nb + minSize) = nb + minSize := Nat.mod_eq_of_lt request.room
  have found : chunk.addr + chunk.size - block.addr = block.size := by omega
  unfold giveBackTail
  rw [heap, room]
  by_cases spare : nb + minSize < block.size
  · rw [if_pos (by simp [spare])]
    unfold Aligned.source
    dsimp only
    rw [if_neg Bool.false_ne_true, found]
    exact ⟨rfl, inuse, fits, whole, (if_neg (Nat.not_le.mpr spare)).symm⟩
  · rw [if_neg (by simp [spare])]
    unfold Aligned.source
    dsimp only
    rw [heap, if_neg Bool.false_ne_true, found]
    exact ⟨heap, inuse, fits, whole, (if_pos (Nat.not_lt.mp spare)).symm⟩

theorem mapped_source_cut {leader tail : Option FreeChunk} (mapped : block.mmapped = true)
    (ends : block.addr + block.size = chunk.addr + chunk.size) (room : nb + 16 ≤ block.size) :
    Cut nb block (Aligned.source ⟨chunk, block, leader, tail⟩) := by
  unfold Aligned.source
  dsimp only
  rw [mapped, if_pos rfl]
  exact ⟨mapped, ends, room⟩

theorem give_back_tail_mapped {leader : Option FreeChunk} (mapped : block.mmapped = true) :
    giveBackTail chunk block leader nb = ⟨chunk, block, leader, none⟩ := by
  unfold giveBackTail
  rw [mapped]
  rfl

/-- A chunk of an arena is in use, a mapped one has its overhead. -/
def Fresh (nb : Nat) (chunk : Block) : Prop :=
  (chunk.mmapped = true ∧ nb + 16 ≤ chunk.size) ∨
    (chunk.mmapped = false ∧ chunk.inuse = true ∧ nb ≤ chunk.size)

theorem Cut.fresh (cut : Cut nb block source) : Fresh nb block := by
  cases source with
  | mapping stop => exact Or.inl ⟨cut.1, cut.2.2⟩
  | free found keeps => exact Or.inr ⟨cut.1, cut.2.1, cut.large⟩

theorem move_block_cut {metadata : Bool} (low : 5 ≤ k) (below : k < 64)
    (request : ChunkSize nb) (valid : chunk.Valid) (fresh : Fresh (nb + 2 ^ k + minSize) chunk)
    (misaligned : chunk.addr % 2 ^ k ≠ 0)
    (moved : moveBlock chunk (2 ^ k) nb metadata = some aligned) :
    Cut nb aligned.block aligned.source := by
  have inside := valid.inside
  have whole := valid.whole
  have sixteen : minSize = 32 := rfl
  have large : nb + 2 ^ k + minSize ≤ chunk.size := by
    rcases fresh with ⟨_, room⟩ | ⟨_, _, room⟩
    · exact Nat.le_of_add_right_le room
    · exact room
  obtain ⟨lead, spot, least, most, _, sixteenth⟩ :=
    align_spot_spec low below valid.aligned (by omega) misaligned
  have leadsize : wrapSub (chunk.addr + lead) chunk.addr = lead := by
    rw [wrap_sub_exact (Nat.le_add_right _ _) (by omega), Nat.add_sub_cancel_left]
  have newsize : chunksize (wrapSub chunk.size lead) = chunk.size - lead := by
    rw [wrap_sub_exact (by omega) (by omega), chunksize]
    omega
  unfold moveBlock at moved
  rw [spot] at moved
  dsimp only at moved
  rw [leadsize, newsize] at moved
  split_ifs at moved with mapped metadata
  · cases moved
    apply mapped_source_cut rfl
    · dsimp only
      omega
    · dsimp only
      omega
  · cases moved
    apply give_back_tail_cut request rfl rfl
    · dsimp only
      omega
    · dsimp only
      omega
    · dsimp only
      omega

theorem int_memalign_cut (low : 5 ≤ k) (below : k < 64) (sound : supply.Sound)
    (requested : checkedRequest2size bytes = some nb)
    (room : nb + 2 ^ k + minSize < 2 ^ 64)
    (answered : intMemalign (2 ^ k) bytes supply.malloced supply.metadata = some aligned) :
    Cut nb aligned.block aligned.source := by
  have request := request_chunk_size requested
  have sum : wrap (wrap (nb + 2 ^ k) + minSize) = nb + 2 ^ k + minSize := by
    have inner : wrap (nb + 2 ^ k) = nb + 2 ^ k := Nat.mod_eq_of_lt (by omega)
    rw [inner]
    exact Nat.mod_eq_of_lt room
  unfold intMemalign at answered
  rw [requested] at answered
  dsimp only at answered
  rw [sum] at answered
  cases malloced : supply.malloced (nb + 2 ^ k + minSize) with
  | none =>
      rw [malloced] at answered
      cases answered
  | some chunk =>
      obtain ⟨source, padded, again, taken⟩ := sound _ _ malloced
      obtain ⟨valid, cut⟩ := taken.cut (request_chunk_size again)
      have fresh : Fresh (nb + 2 ^ k + minSize) chunk := by
        have covered := request_padded (nb + 2 ^ k + minSize)
        rw [← (request_checked again).2] at covered
        rcases cut.fresh with ⟨mapped, large⟩ | ⟨heap, inuse, large⟩
        · exact Or.inl ⟨mapped, Nat.le_trans (Nat.add_le_add_right covered 16) large⟩
        · exact Or.inr ⟨heap, inuse, Nat.le_trans covered large⟩
      rw [malloced] at answered
      dsimp only at answered
      by_cases multiple : chunk.addr % 2 ^ k = 0
      · rw [if_pos multiple] at answered
        cases answered
        rcases fresh with ⟨mapped, large⟩ | ⟨heap, inuse, large⟩
        · rw [give_back_tail_mapped mapped]
          apply mapped_source_cut mapped rfl
          omega
        · exact give_back_tail_cut request heap inuse (by omega) valid.whole rfl
      · rw [if_neg multiple] at answered
        exact move_block_cut low below request valid fresh multiple answered

theorem give_back_tail_addr {leader : Option FreeChunk} :
    (giveBackTail chunk block leader nb).block.addr = block.addr ∧
      (giveBackTail chunk block leader nb).chunk = chunk := by
  unfold giveBackTail
  split
  · exact ⟨rfl, rfl⟩
  · exact ⟨rfl, rfl⟩

theorem move_block_addr {metadata : Bool} {alignment : Nat}
    (moved : moveBlock chunk alignment nb metadata = some aligned) :
    aligned.block.addr = alignSpot chunk.addr alignment ∧ aligned.chunk = chunk := by
  unfold moveBlock at moved
  dsimp only at moved
  split_ifs at moved
  · cases moved
    exact ⟨rfl, rfl⟩
  · cases moved
    exact give_back_tail_addr

/-- The only multiple of the largest alignment that is near a chunk lies after it. -/
theorem align_spot_largest {m : Nat} (positive : 0 < m) (room : m + minSize ≤ 2 ^ 63) :
    alignSpot m (2 ^ 63) = 2 ^ 63 := by
  have masked : wrap (wrap (m + 2 ^ 63) + (2 ^ 64 - 1)) &&& wrapSub 0 (2 ^ 63) = 2 ^ 63 := by
    have sum : wrap (wrap (m + 2 ^ 63) + (2 ^ 64 - 1)) = m + 2 ^ 63 - 1 := by
      unfold wrap
      omega
    rw [sum, and_neg_power (by omega) (by decide)]
    omega
  unfold alignSpot
  rw [masked]
  dsimp only
  rw [wrap_sub_exact (Nat.le_of_add_right_le room) (by decide), if_neg]
  omega

theorem int_memalign_place {alignment : Nat} (sound : supply.Sound)
    (answered : intMemalign alignment bytes supply.malloced supply.metadata = some aligned) :
    aligned.chunk.Valid ∧ minSize ≤ aligned.chunk.size ∧
      (aligned.block.addr = aligned.chunk.addr ∧ aligned.chunk.addr % alignment = 0 ∨
        aligned.block.addr = alignSpot aligned.chunk.addr alignment) := by
  unfold intMemalign at answered
  split at answered
  case h_1 => cases answered
  case h_2 nb requested =>
    cases malloced : supply.malloced (wrap (wrap (nb + alignment) + minSize)) with
    | none =>
        rw [malloced] at answered
        cases answered
    | some chunk =>
        obtain ⟨source, padded, again, taken⟩ := sound _ _ malloced
        obtain ⟨valid, cut⟩ := taken.cut (request_chunk_size again)
        have minimal := Nat.le_trans (request_chunk_size again).minimal cut.large
        rw [malloced] at answered
        dsimp only at answered
        by_cases multiple : chunk.addr % alignment = 0
        · rw [if_pos multiple] at answered
          cases answered
          rw [give_back_tail_addr.1, give_back_tail_addr.2]
          exact ⟨valid, minimal, Or.inl ⟨rfl, multiple⟩⟩
        · rw [if_neg multiple] at answered
          rw [(move_block_addr answered).1, (move_block_addr answered).2]
          exact ⟨valid, minimal, Or.inr rfl⟩

/-- A request that wraps around with its alignment is too large, or its block is far. -/
theorem wrapped_far (below : k < 64) (sound : supply.Sound)
    (requested : checkedRequest2size bytes = some nb)
    (wraps : ¬nb + 2 ^ k + minSize < 2 ^ 64)
    (answered : intMemalign (2 ^ k) bytes supply.malloced supply.metadata = some aligned) :
    2 ^ 63 ≤ aligned.block.addr + bytes := by
  obtain ⟨valid, minimal, place⟩ := int_memalign_place sound answered
  have inside := valid.inside
  have positive := valid.positive
  by_contra near
  have largest : k = 63 := by
    have covered := request2size_cases bytes
    rw [← (request_checked requested).2] at covered
    by_contra smaller
    have power : 2 ^ k ≤ 2 ^ 62 := Nat.pow_le_pow_right Nat.two_pos (by omega)
    simp only [minSize] at wraps
    omega
  subst largest
  rcases place with ⟨_, multiple⟩ | spot
  · omega
  · rw [align_spot_largest positive (by omega)] at spot
    omega

theorem wrapped_misses (below : k < 64) (sound : supply.Sound)
    (requested : checkedRequest2size bytes = some nb)
    (wraps : ¬nb + 2 ^ k + minSize < 2 ^ 64)
    (answered : intMemalign (2 ^ k) bytes supply.malloced supply.metadata = some aligned) :
    ¬Covers bytes (aligned.chunk.addr + aligned.chunk.size) aligned.block := by
  intro covers
  have far := wrapped_far below sound requested wraps answered
  have inside := (int_memalign_place sound answered).1.inside
  have usable := covers.usable
  have before := covers.before
  omega

theorem mid_memalign_cases {alignment : Nat} {first retry : Supply} (sound : first.Sound)
    (soundRetry : retry.Sound)
    (answered : midMemalign alignment bytes first retry = some aligned) :
    (checkAlignment alignment bytes = .relayed ∧ ∃ (nb : Nat) (source : Source) (block : Block),
      checkedRequest2size bytes = some nb ∧ IntMalloc nb source block ∧
        aligned = ⟨block, block, none, none⟩) ∨
    (∃ (k : Nat) (supply : Supply), 5 ≤ k ∧ k < 64 ∧ checkAlignment alignment bytes = .power (some (2 ^ k)) ∧
      supply.Sound ∧ checkedRequest2size bytes = some (request2size bytes) ∧
        intMemalign (2 ^ k) bytes supply.malloced supply.metadata = some aligned) := by
  unfold midMemalign at answered
  cases checked : checkAlignment alignment bytes with
  | relayed =>
      rw [checked] at answered
      obtain ⟨block, malloced, same⟩ := Option.map_eq_some_iff.mp answered
      obtain ⟨source, nb, requested, taken⟩ := sound _ _ malloced
      exact Or.inl ⟨rfl, nb, source, block, requested, taken, same.symm⟩
  | refused =>
      rw [checked] at answered
      cases answered
  | power answer =>
      obtain ⟨accepted, k, low, below, same, _⟩ := check_alignment_power checked
      subst same
      have requested := request_accepted accepted
      rw [checked] at answered
      dsimp only at answered
      split at answered
      case h_1 result =>
        cases answered
        exact Or.inr ⟨k, first, low, below, rfl, sound, requested, result⟩
      case h_2 => exact Or.inr ⟨k, retry, low, below, rfl, soundRetry, requested, answered⟩

theorem IntMalloc.keeps {found keeps : Nat} (taken : IntMalloc nb (.free found keeps) block) :
    keeps = minSize - 1 := by
  generalize same : Source.free found keeps = source at taken
  cases taken <;> cases same <;> rfl

theorem relayed_cut (request : ChunkSize nb) (taken : IntMalloc nb source block) :
    Cut nb block (Aligned.source ⟨block, block, none, none⟩) := by
  obtain ⟨valid, cut⟩ := taken.cut request
  have whole := valid.whole
  unfold Aligned.source
  dsimp only
  cases source with
  | mapping stop =>
      obtain ⟨mapped, _, room⟩ := cut
      rw [mapped, if_pos rfl]
      exact ⟨mapped, rfl, room⟩
  | free found keeps =>
      have fits := cut.large
      obtain ⟨heap, inuse, _, _, size⟩ := cut
      have short : block.size ≤ nb + minSize := by
        rw [size, taken.keeps]
        split_ifs <;> omega
      rw [heap, if_neg Bool.false_ne_true, Nat.add_sub_cancel_left]
      exact ⟨heap, inuse, fits, whole, (if_pos short).symm⟩

theorem cut_source_covers_iff (cut : Cut nb block source)
    (requested : checkedRequest2size bytes = some nb) (valid : block.Valid) :
    Covers bytes (source.stop block) block ↔ Spare bytes source := by
  have inside := valid.inside
  apply cut_covers_iff cut (request_checked requested).2 (by omega)
  cases source with
  | mapping stop => exact Nat.le_of_eq cut.2.1
  | free found keeps => exact Nat.le_refl _

theorem aligned_covers_iff {alignment : Nat} {first retry : Supply} (sound : first.Sound)
    (soundRetry : retry.Sound)
    (answered : midMemalign alignment bytes first retry = some aligned) :
    Covers bytes (aligned.chunk.addr + aligned.chunk.size) aligned.block ↔
      Fits alignment bytes ∧ Spare bytes aligned.source := by
  rcases mid_memalign_cases sound soundRetry answered with
    ⟨checked, nb, source, block, requested, taken, same⟩ |
    ⟨k, supply, low, below, checked, sound, requested, result⟩
  · have request := request_chunk_size requested
    have inside := (taken.cut request).1.inside
    have word : block.size < 2 ^ 64 := by omega
    have fits : Fits alignment bytes := fun _ impossible =>
      nomatch checked.symm.trans impossible
    rw [same, and_iff_right fits]
    exact cut_covers_iff (relayed_cut request taken) (request_checked requested).2 word
      (Nat.le_refl _)
  · by_cases room : request2size bytes + 2 ^ k + minSize < 2 ^ 64
    · have fits : Fits alignment bytes := by
        intro rounded same
        cases checked.symm.trans same
        exact room
      have cut := int_memalign_cut low below sound requested room result
      have before := (int_memalign_well low below sound requested room
        (request_padded bytes) result).before
      have inside := (int_memalign_place sound result).1.inside
      rw [and_iff_right fits]
      exact cut_covers_iff cut rfl (by omega) before
    · have unfit : ¬Fits alignment bytes := fun fits => room (fits _ checked)
      exact iff_of_false (wrapped_misses below sound requested room result)
        fun either => unfit either.1

theorem mremap_offset {registry after : Registry} {p q : Nat} {record resized : Record}
    {answer : Option Nat} (live : Live registry p record)
    (moved : registry.mremapChunk p nb answer = some (some q, after))
    (found : after.lookupChunk q = some resized) : resized.prevSize = record.prevSize := by
  unfold Registry.mremapChunk at moved
  rw [live.found] at moved
  dsimp only at moved
  split_ifs at moved
  · cases moved
    cases found.symm.trans live.found
    rfl
  · split at moved
    case h_1 => cases moved
    case h_2 cp =>
      split_ifs at moved with still
      · cases moved
        have same := resize_lookup ((registry.munmap (wrapSub p record.prevSize)
          (wrap (record.size + record.prevSize))).map cp (newLength record nb))
          (newLength record nb) record live.found
        cases found.symm.trans same
        rfl
      · obtain ⟨before, move, same⟩ := Option.map_eq_some_iff.mp moved
        cases same
        obtain ⟨_, move', present, _⟩ := move_spec
          ((registry.munmap (wrapSub p record.prevSize)
            (wrap (record.size + record.prevSize))).map cp (newLength record nb))
          p (wrap (cp + record.prevSize)) (newLength record nb) record live.bound
        cases move.symm.trans move'
        rw [resize_lookup _ _ record present] at found
        cases found
        rfl

theorem remapped_cut {registry after : Registry} {p q : Nat} {record resized : Record}
    {answer : Option Nat} (live : Live registry p record) (grants : Grants record nb answer)
    (requested : checkedRequest2size bytes = some nb)
    (moved : registry.mremapChunk p nb answer = some (some q, after))
    (found : after.lookupChunk q = some resized)
    (fits : nb + record.prevSize + sizeSz + pageSize ≤ 2 ^ 64) :
    Cut nb (mappedBlock q resized) (.mapping (q - resized.prevSize + newLength record nb)) ∧
      resized.size < 2 ^ 64 := by
  have well := (mremap_resizes_iff registry p bytes nb record answer requested live grants).mpr
    (Or.inl fits)
  have offset := mremap_offset live moved found
  rw [moved] at well
  obtain ⟨start, same, _, well⟩ := well
  cases found.symm.trans well.found
  have total := well.total
  have word := well.word
  have place := well.place
  have whole := (request_chunk_size requested).aligned
  have sixteenth := live.offset
  obtain ⟨large, pages, _⟩ := new_length_exact fits
  refine ⟨⟨rfl, ?_, ?_⟩, by omega⟩
  · change q + resized.size = _
    omega
  · change nb + 16 ≤ resized.size
    simp only [pageSize, sizeSz] at *
    omega

theorem remapped_covers_iff {registry after : Registry} {p q : Nat} {record resized : Record}
    {answer : Option Nat} (live : Live registry p record) (grants : Grants record nb answer)
    (requested : checkedRequest2size bytes = some nb)
    (moved : registry.mremapChunk p nb answer = some (some q, after))
    (found : after.lookupChunk q = some resized) :
    Covers bytes (q - resized.prevSize + newLength record nb) (mappedBlock q resized) ↔
      request2size bytes + record.prevSize + sizeSz + pageSize ≤ 2 ^ 64 := by
  have padded := (request_checked requested).2
  have room := (request_chunk_size requested).room
  rw [← padded]
  constructor
  · intro covers
    by_contra wraps
    have start := live.start
    have inside := live.inside
    have short := new_length_wrapped (by omega) (by omega) wraps
    have usable := covers.usable
    have before := covers.before
    have covered := request2size_cases bytes
    rw [← padded] at covered
    simp only [mappedBlock, pageSize, sizeSz] at *
    omega
  · intro fits
    obtain ⟨cut, word⟩ := remapped_cut live grants requested moved found fits
    exact (cut_covers_iff cut padded word (Nat.le_of_eq cut.2.1)).mpr trivial

theorem unmoved_cut {registry : Registry} {p : Nat} {record : Record}
    (live : Live registry p record) (minimal : minSize ≤ record.size)
    (requested : checkedRequest2size bytes = some nb)
    (enough : nb ≤ wrapSub record.size sizeSz) :
    Cut nb (mappedBlock p record) (.mapping (p + record.size)) := by
  have whole := (request_chunk_size requested).aligned
  have inside := live.inside
  have pages := live.pages
  have sixteenth := live.offset
  simp only [minSize, pageSize, sizeSz] at *
  rw [wrap_sub_exact (by omega) (by omega)] at enough
  refine ⟨rfl, rfl, ?_⟩
  dsimp only [mappedBlock]
  omega

/-- The usable size covers the request exactly when there is a word to spare and no sum
wraps around. -/
theorem usable_covers_iff (bytes : Nat) (origin : Origin) (stop : Nat) (block : Block)
    (satisfied : Satisfied bytes origin stop block) :
    Covers bytes stop block ↔ origin.Spare bytes := by
  cases satisfied with
  | malloced taken =>
      obtain ⟨nb, requested, taken⟩ := taken
      obtain ⟨valid, cut⟩ := taken.cut (request_chunk_size requested)
      exact cut_source_covers_iff cut requested valid
  | placed valid heap after requested answers resized =>
      have placed := placed_of_resized requested valid heap after answers resized
      have inside := placed.inside
      have fits := placed.cut.small
      exact cut_covers_iff placed.cut (request_checked requested).2 (by omega) (Nat.le_refl _)
  | copied requested taken =>
      obtain ⟨nb, again, taken⟩ := taken
      cases (request_again requested).symm.trans again
      obtain ⟨valid, cut⟩ := taken.cut (request_chunk_size requested)
      exact cut_source_covers_iff cut requested valid
  | aligned sound soundRetry answered => exact aligned_covers_iff sound soundRetry answered
  | remapped live grants requested moved found =>
      exact remapped_covers_iff live grants requested moved found
  | unmoved live minimal requested enough =>
      have inside := live.inside
      have cut := unmoved_cut live minimal requested enough
      exact cut_covers_iff cut (request_checked requested).2
        (Nat.lt_of_le_of_lt (Nat.le_add_left _ _) (Nat.lt_trans inside (by decide)))
        (Nat.le_refl _)

theorem new_top_reached {top : FreeChunk} (valid : top.TopValid) :
    Reached { Arena.initial 0 with top := top, systemMem := top.size } :=
  ⟨0, [.setTop top top.size], ⟨valid, fun _ _ => trivial⟩, rfl⟩

theorem front_malloced {top : FreeChunk} (valid : top.TopValid)
    (requested : checkedRequest2size bytes = some nb) (room : nb + minSize ≤ top.size) :
    Malloced bytes (.carved nb) (heapBlock ⟨top.addr, nb⟩) := by
  have inside := valid.inside
  have enough : (nb + minSize) % 2 ^ 64 ≤ top.size := by
    rw [Nat.mod_eq_of_lt (by omega)]
    exact room
  exact ⟨nb, requested, .top (new_top_reached valid) (if_pos enough)⟩

def firstTop : FreeChunk := ⟨0x7f0000001000, 0x21000⟩

theorem first_top_valid : firstTop.TopValid := ⟨by decide, by decide, by decide⟩

theorem word_to_spare_covers :
    Covers 248 (0x7f0000001000 + 256) (heapBlock ⟨0x7f0000001000, 256⟩) ↔
      (Origin.malloced (.carved 256)).Spare 248 :=
  usable_covers_iff 248 _ _ _ (.malloced (front_malloced first_top_valid (by decide) (by decide)))

/-- The block of `malloc (256)` has 248 usable bytes. -/
theorem quarter_kilobyte_misses :
    ¬∀ (bytes : Nat) (origin : Origin) (stop : Nat) (block : Block),
      Satisfied bytes origin stop block → Covers bytes stop block := by
  intro claimed
  have covers := claimed 256 _ _ _ (.malloced (front_malloced first_top_valid
    (by decide : checkedRequest2size 256 = some 256) (by decide)))
  exact absurd covers.usable (by decide)

end SriGlibcMalloc.Blocks
