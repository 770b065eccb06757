import SriGlibcMalloc.Blocks.Usable
import SriGlibcMalloc.ByteMemory.Ranges

/-!
# The contents of a block that is resized

`__libc_realloc` leaves the bytes where they are, lets the system move them, or copies
them: `_int_realloc` copies the whole chunk, the path of a mapped chunk all but two words,
and the path after a failure of `_int_realloc` all but one. The allocator writes nowhere
else, since its records lie outside of the chunks.
-/

namespace SriGlibcMalloc.Blocks

open Bins MappedChunks
open ByteMemory (copyRange unmapRange moveRange In)
open EntryPoints (minSize checkedRequest2size request2size)
open MainArena (wrap wrapSub alignUp pageSize sizeSz chunksize wrap_sub_exact)

set_option autoImplicit false

abbrev Memory := ByteMemory.Memory UInt8

/-- The next chunk, and what the routine is answered: whether the cache of records is
replenished, what `_int_malloc`, `__libc_malloc` and `mremap` return, and whether the
compiler leaves out the read of a record that is NULL and whose value is not used. -/
structure Surroundings where
  replenished : Bool
  next : Following
  systemMem : Nat
  inner : Option Block
  outer : Option Block
  mremap : Option Nat
  unread : Bool

/-- The pointer that is returned, the record of the old chunk, and the bytes. -/
structure Outcome where
  mem : Option Nat
  record : Option Block
  memory : Memory

def unchanged (old : Block) (memory : Memory) : Outcome := ⟨none, some old, memory⟩

def Block.record (block : Block) : Record := ⟨block.prevSize, block.size, block.mmapped⟩

def recordedBlock (registry : Registry) (p : Nat) : Option Block :=
  (registry.lookupChunk p).map (mappedBlock p)

/-- The bytes after `mremap_chunk`; what a mapping grows by is zero. -/
def mremapBytes (old : Block) (nb : Nat) (answer : Option Nat) (memory : Memory) : Memory :=
  let newSize := newLength old.record nb
  let length := wrap (old.size + old.prevSize)
  if length = newSize then memory
  else
    match answer with
    | none => memory
    | some cp => moveRange memory (wrapSub old.addr old.prevSize) cp length newSize 0

def reallocMapped (registry : Registry) (old : Block) (nb : Nat) (around : Surroundings)
    (memory : Memory) : Option Outcome :=
  match registry.mremapChunk old.addr nb around.mremap with
  | none => none
  | some (some newp, after) =>
      some ⟨some newp, recordedBlock after old.addr, mremapBytes old nb around.mremap memory⟩
  | some (none, after) =>
      if nb ≤ wrapSub old.size sizeSz then
        some ⟨some old.addr, recordedBlock after old.addr, memory⟩
      else
        match around.outer with
        | none => some ⟨none, recordedBlock after old.addr, memory⟩
        | some new =>
            (after.munmapChunk old.addr).map fun released =>
              ⟨some new.addr, recordedBlock (released.unregisterChunk old.addr) old.addr,
                unmapRange (copyRange memory old.addr new.addr (wrapSub old.size (2 * sizeSz)))
                  (wrapSub old.addr old.prevSize) (wrap (old.prevSize + old.size))⟩

def reallocHeap (old : Block) (nb : Nat) (around : Surroundings) (memory : Memory) :
    Option Outcome :=
  match intRealloc old around.next around.systemMem nb around.inner with
  | none => none
  | some (.placed block _ _) => some ⟨some block.addr, some block, memory⟩
  | some (.copied new amount) =>
      some ⟨some new.addr, none, copyRange memory old.addr new.addr amount⟩
  | some .failed =>
      if around.unread then
        match around.outer with
        | none => some (unchanged old memory)
        | some new =>
            some ⟨some new.addr, none,
              copyRange memory old.addr new.addr (wrapSub old.size sizeSz)⟩
      else none

def misplaced (old : Block) : Bool :=
  wrapSub 0 old.size < old.addr || old.addr % 16 ≠ 0

/-- `__libc_realloc` of a block to a size that is not zero. There is no outcome when the
process aborts. -/
def libcRealloc (registry : Registry) (old : Block) (bytes : Nat) (around : Surroundings)
    (memory : Memory) : Option Outcome :=
  if !around.replenished then some (unchanged old memory)
  else if misplaced old then none
  else
    match checkedRequest2size bytes with
    | none => some (unchanged old memory)
    | some nb =>
        if old.mmapped then reallocMapped registry old nb around memory
        else reallocHeap old nb around memory

/-- A block of `n` bytes in the user's half of the addresses, in a state of the arena or
of the table of mapped chunks. -/
structure LiveBlock (registry : Registry) (around : Surroundings) (n : Nat) (old : Block) :
    Prop where
  obtained : ∃ origin stop, Satisfied n origin stop old
  user : old.addr + n < 2 ^ 63
  follows : old.mmapped = false → around.next.After old
  registered : old.mmapped = true →
    Live registry old.addr old.record ∧ recordedBlock registry old.addr = some old

/-- A new block lies outside of the old one and of its mapping. -/
def Apart (new old : Block) : Prop :=
  new.addr + new.size ≤ old.addr - old.prevSize ∨ old.addr + old.size ≤ new.addr

/-- The answers are blocks for the request, and mappings of the length asked for. -/
structure Sound (old : Block) (bytes : Nat) (around : Surroundings) : Prop where
  inner : ∀ nb, checkedRequest2size bytes = some nb → Answers nb around.inner
  outer : ∀ new, around.outer = some new → (∃ source, Malloced bytes source new) ∧ Apart new old
  grants : ∀ nb, checkedRequest2size bytes = some nb → Grants old.record nb around.mremap

/-- A result has the first bytes of the old block; a failure leaves the block as it is. -/
def Preserves (n bytes : Nat) (old : Block) (memory : Memory) : Option Outcome → Prop
  | none => True
  | some ⟨some mem, _, after⟩ => ∀ i, i < min n bytes → after (mem + i) = memory (old.addr + i)
  | some ⟨none, record, after⟩ => record = some old ∧
      ∀ i, i < old.size → after (old.addr + i) = memory (old.addr + i)

def Backed (n : Nat) (old : Block) (memory : Memory) : Prop :=
  ∀ i, i < n → (memory (old.addr + i)).isSome = true

/-- The last word of a chunk is not copied after a failure. -/
def FallbackLoses (n bytes nb : Nat) (old : Block) (around : Surroundings) : Prop :=
  old.mmapped = false ∧
    intRealloc old around.next around.systemMem nb around.inner = some .failed ∧
    around.unread = true ∧ around.outer.isSome = true ∧ old.size - sizeSz < min n bytes

/-- The new length of a mapping has wrapped around and is too short. -/
def MremapLoses (n bytes nb : Nat) (old : Block) (around : Surroundings) : Prop :=
  old.mmapped = true ∧ around.mremap.isSome = true ∧
    old.prevSize + old.size ≠ newLength old.record nb ∧
    newLength old.record nb - old.prevSize < min n bytes

def Loses (n bytes : Nat) (old : Block) (around : Surroundings) : Prop :=
  around.replenished = true ∧ misplaced old = false ∧
    ∃ nb, checkedRequest2size bytes = some nb ∧
      (FallbackLoses n bytes nb old around ∨ MremapLoses n bytes nb old around)

variable {registry after : Registry} {around : Surroundings} {memory : Memory}
variable {n bytes nb stop p q k : Nat} {old new block : Block} {origin : Origin}
variable {source : Source}

/-- A mapped chunk has two words more than the request, a chunk of an arena is valid. -/
structure Held (n : Nat) (block : Block) : Prop where
  mapped : block.mmapped = true → n + 16 ≤ block.size
  heap : block.mmapped = false → block.Valid ∧ n ≤ block.size

theorem Cut.held (cut : Cut nb block source) (covered : n ≤ nb)
    (valid : block.mmapped = false → block.Valid) : Held n block where
  mapped := by
    intro mapped
    cases source with
    | mapping stop => exact Nat.le_trans (Nat.add_le_add_right covered 16) cut.2.2
    | free found keeps => exact absurd (cut.1.symm.trans mapped) Bool.false_ne_true
  heap := fun heap => ⟨valid heap, Nat.le_trans covered cut.large⟩

theorem Cut.whole (cut : Cut nb block source) (request : ChunkSize nb)
    (heap : block.mmapped = false) : block.size % 16 = 0 := by
  cases source with
  | mapping stop => exact absurd (heap.symm.trans cut.1) Bool.false_ne_true
  | free found keeps =>
      obtain ⟨_, _, _, whole, size⟩ := cut
      rw [size]
      split_ifs
      · exact whole
      · exact request.aligned

theorem Placed.valid {newsize : Nat} (placed : Placed old block newsize nb)
    (request : ChunkSize nb) (valid : old.Valid) : block.Valid := by
  have fits := placed.cut.small
  have inside := placed.inside
  refine ⟨?_, ?_, placed.cut.whole request placed.cut.1, by omega⟩
  · rw [placed.addr]
    exact valid.positive
  · rw [placed.addr]
    exact valid.aligned

theorem mremap_start {record : Record} {answer : Option Nat} (live : Live registry p record)
    (grants : Grants record nb answer)
    (moved : registry.mremapChunk p nb answer = some (some q, after)) :
    record.prevSize ≤ q := by
  have start := live.start
  have inside := live.inside
  unfold Registry.mremapChunk at moved
  rw [live.found] at moved
  dsimp only at moved
  split_ifs at moved
  · cases moved
    exact start
  · split at moved
    case h_1 => cases moved
    case h_2 cp =>
      obtain ⟨_, _, word⟩ := grants cp rfl
      split_ifs at moved with still
      · cases moved
        exact start
      · obtain ⟨before, _, same⟩ := Option.map_eq_some_iff.mp moved
        cases same
        rw [wrap, Nat.mod_eq_of_lt (by omega)]
        exact Nat.le_add_left _ _

theorem aligned_held {alignment : Nat} {first retry : Supply} {aligned : Aligned}
    (sound : first.Sound) (soundRetry : retry.Sound)
    (answered : midMemalign alignment n first retry = some aligned)
    (user : aligned.block.addr + n < 2 ^ 63) : Held n aligned.block := by
  have covered := request_padded n
  rcases mid_memalign_cases sound soundRetry answered with
    ⟨_, nb, source, block, requested, taken, same⟩ |
    ⟨k, supply, low, below, _, sound, requested, result⟩
  · obtain ⟨valid, cut⟩ := taken.cut (request_chunk_size requested)
    rw [← (request_checked requested).2] at covered
    rw [same]
    exact cut.held covered fun _ => valid
  · have request := request_chunk_size requested
    have room : request2size n + 2 ^ k + minSize < 2 ^ 64 := by
      by_contra wraps
      have far := wrapped_far below sound requested wraps result
      omega
    have cut := int_memalign_cut low below sound requested room result
    have well := int_memalign_well low below sound requested room covered result
    obtain ⟨chunk, _, _⟩ := int_memalign_place sound result
    have sixteen : 16 ∣ 2 ^ k := Nat.pow_dvd_pow 2 (Nat.le_trans (by decide : 4 ≤ 5) low)
    apply cut.held covered
    intro heap
    refine ⟨Nat.lt_of_lt_of_le chunk.positive well.after, ?_, ?_, ?_⟩
    · exact Nat.mod_eq_zero_of_dvd
        (Nat.dvd_trans sixteen (Nat.dvd_of_mod_eq_zero well.multiple))
    · exact cut.whole request heap
    · exact Nat.lt_of_le_of_lt well.before chunk.inside

theorem remapped_held {record resized : Record} {answer : Option Nat}
    (live : Live registry p record) (grants : Grants record nb answer)
    (requested : checkedRequest2size n = some nb)
    (moved : registry.mremapChunk p nb answer = some (some q, after))
    (found : after.lookupChunk q = some resized) (user : q + n < 2 ^ 63) :
    Held n (mappedBlock q resized) := by
  have padded := (request_checked requested).2
  have start := mremap_start live grants moved
  have covered := request_padded n
  rw [← padded] at covered
  have fits : nb + record.prevSize + sizeSz + pageSize ≤ 2 ^ 64 := by
    have most := request2size_cases n
    rw [← padded] at most
    simp only [sizeSz, pageSize]
    omega
  obtain ⟨cut, _⟩ := remapped_cut live grants requested moved found fits
  apply cut.held covered
  intro heap
  cases heap

theorem Satisfied.held (satisfied : Satisfied n origin stop old)
    (user : old.addr + n < 2 ^ 63) : Held n old := by
  have covered := request_padded n
  cases satisfied with
  | malloced taken =>
      obtain ⟨nb, requested, taken⟩ := taken
      obtain ⟨valid, cut⟩ := taken.cut (request_chunk_size requested)
      rw [← (request_checked requested).2] at covered
      exact cut.held covered fun _ => valid
  | placed valid heap follows requested answers resized =>
      have placed := placed_of_resized requested valid heap follows answers resized
      rw [← (request_checked requested).2] at covered
      exact placed.cut.held covered fun _ => placed.valid (request_chunk_size requested) valid
  | copied requested taken =>
      obtain ⟨nb, again, taken⟩ := taken
      cases (request_again requested).symm.trans again
      obtain ⟨valid, cut⟩ := taken.cut (request_chunk_size requested)
      rw [← (request_checked requested).2] at covered
      exact cut.held covered fun _ => valid
  | aligned sound soundRetry answered => exact aligned_held sound soundRetry answered user
  | remapped live grants requested moved found =>
      exact remapped_held live grants requested moved found user
  | unmoved live minimal requested enough =>
      rw [← (request_checked requested).2] at covered
      exact (unmoved_cut live minimal requested enough).held covered
        fun (heap : true = false) => nomatch heap

theorem heap_preserves (requested : checkedRequest2size bytes = some nb)
    (held : Held n old) (heap : old.mmapped = false) (follows : around.next.After old)
    (sound : Sound old bytes around) (safe : ¬FallbackLoses n bytes nb old around) :
    Preserves n bytes old memory (reallocHeap old nb around memory) := by
  obtain ⟨valid, large⟩ := held.heap heap
  have inside := valid.inside
  have whole := valid.whole
  unfold reallocHeap
  cases resized : intRealloc old around.next around.systemMem nb around.inner with
  | none => trivial
  | some resizing =>
      rcases int_realloc_spec requested valid heap follows (sound.inner nb requested) resized with
        ⟨block, newsize, remainder, same, placed⟩ | ⟨new, _, same, _⟩ | ⟨_, same, _⟩
      · subst same
        intro i small
        rw [placed.addr]
      · subst same
        intro i small
        exact ByteMemory.copy_range_inside (by omega)
      · subst same
        dsimp only
        by_cases unread : around.unread = true
        · rw [if_pos unread]
          cases outer : around.outer with
          | none => exact ⟨rfl, fun _ _ => rfl⟩
          | some new =>
              have copied : min n bytes ≤ old.size - sizeSz := by
                by_contra short
                exact safe ⟨heap, resized, unread, by rw [outer]; rfl, Nat.lt_of_not_le short⟩
              intro i small
              apply ByteMemory.copy_range_inside
              rw [wrap_sub_exact (by simp only [sizeSz]; omega) (by omega)]
              exact Nat.lt_of_lt_of_le small copied
        · rw [if_neg unread]
          trivial

/-- A memory in which one byte of the block differs from all others. -/
def marked (address : Nat) : Memory := fun byte => some (if byte = address then 1 else 0)

theorem marked_backed (address : Nat) : Backed n old (marked address) := fun _ _ => rfl

theorem marked_other {address other : Nat} (differs : other ≠ address) :
    marked address other ≠ marked address address := by
  unfold marked
  rw [if_neg differs, if_pos rfl]
  decide

theorem heap_loses (held : Held n old) (sound : Sound old bytes around)
    (loses : FallbackLoses n bytes nb old around) :
    ∃ memory, Backed n old memory ∧
      ¬Preserves n bytes old memory (reallocHeap old nb around memory) := by
  obtain ⟨heap, resized, unread, answered, short⟩ := loses
  obtain ⟨valid, large⟩ := held.heap heap
  obtain ⟨new, outer⟩ := Option.isSome_iff_exists.mp answered
  obtain ⟨⟨source, taken⟩, apart⟩ := sound.outer new outer
  have whole := valid.whole
  have inside := valid.inside
  have room := taken.cut.2
  -- the first byte that is not copied
  refine ⟨marked (old.addr + (old.size - sizeSz)), marked_backed _, fun preserves => ?_⟩
  unfold reallocHeap at preserves
  rw [resized] at preserves
  dsimp only at preserves
  rw [if_pos unread, outer] at preserves
  have lost := preserves (old.size - sizeSz) short
  rw [wrap_sub_exact (by simp only [sizeSz]; omega) (by omega),
    ByteMemory.copy_range_outside (ByteMemory.not_in_of_offset (Nat.le_refl _))] at lost
  apply marked_other _ lost
  rcases apart with before | after
  · omega
  · simp only [sizeSz]
    omega

theorem mremap_success (memory : Memory) {answer : Option Nat} (live : Live registry old.addr old.record)
    (moved : registry.mremapChunk old.addr nb answer = some (some q, after)) :
    (q = old.addr ∧ mremapBytes old nb answer memory = memory) ∨
      (wrap (old.size + old.prevSize) ≠ newLength old.record nb ∧
        ∃ cp, answer = some cp ∧ q = wrap (cp + old.prevSize) ∧
          mremapBytes old nb answer memory = moveRange memory (wrapSub old.addr old.prevSize) cp
            (wrap (old.size + old.prevSize)) (newLength old.record nb) 0) := by
  unfold Registry.mremapChunk at moved
  rw [live.found] at moved
  dsimp only at moved
  by_cases same : wrap (old.size + old.prevSize) = newLength old.record nb
  · have kept : wrap (old.record.size + old.record.prevSize) = newLength old.record nb := same
    rw [if_pos kept] at moved
    cases moved
    exact Or.inl ⟨rfl, if_pos same⟩
  · have differs : ¬wrap (old.record.size + old.record.prevSize) = newLength old.record nb := same
    rw [if_neg differs] at moved
    cases answer with
    | none => cases moved
    | some cp =>
        refine Or.inr ⟨same, cp, rfl, ?_, if_neg same⟩
        dsimp only at moved
        split_ifs at moved with still
        · cases moved
          exact still.symm
        · obtain ⟨_, _, pair⟩ := Option.map_eq_some_iff.mp moved
          cases pair
          rfl

theorem moved_bytes {cp i : Nat} (live : Live registry old.addr old.record)
    (inside : cp + newLength old.record nb < 2 ^ 63) (small : i < old.size) :
    moveRange memory (wrapSub old.addr old.prevSize) cp (wrap (old.size + old.prevSize))
        (newLength old.record nb) 0 (wrap (cp + old.prevSize) + i) =
      if old.prevSize + i < newLength old.record nb then memory (old.addr + i)
      else unmapRange memory (old.addr - old.prevSize) (old.size + old.prevSize)
        (cp + (old.prevSize + i)) := by
  have start : old.prevSize ≤ old.addr := live.start
  have word : old.addr + old.size < 2 ^ 63 := live.inside
  have place : wrap (cp + old.prevSize) + i = cp + (old.prevSize + i) := by
    rw [wrap, Nat.mod_eq_of_lt (by omega), Nat.add_assoc]
  have length : wrap (old.size + old.prevSize) = old.size + old.prevSize :=
    Nat.mod_eq_of_lt (by omega)
  have source : old.addr - old.prevSize + (old.prevSize + i) = old.addr + i := by omega
  rw [place, length, wrap_sub_exact start (by omega)]
  by_cases reached : old.prevSize + i < newLength old.record nb
  · rw [if_pos reached, ByteMemory.move_range_inside reached (by omega), source]
  · rw [if_neg reached, ByteMemory.move_range_outside]
    exact ByteMemory.not_in_of_offset (Nat.not_lt.mp reached)

theorem mapped_preserves (requested : checkedRequest2size bytes = some nb)
    (held : Held n old) (mapped : old.mmapped = true)
    (live : Live registry old.addr old.record)
    (recorded : recordedBlock registry old.addr = some old) (sound : Sound old bytes around)
    (safe : ¬MremapLoses n bytes nb old around) :
    Preserves n bytes old memory (reallocMapped registry old nb around memory) := by
  have room := held.mapped mapped
  have start : old.prevSize ≤ old.addr := live.start
  have word : old.addr + old.size < 2 ^ 63 := live.inside
  have length : wrap (old.size + old.prevSize) = old.prevSize + old.size := by
    rw [Nat.add_comm]
    exact Nat.mod_eq_of_lt (by omega)
  unfold reallocMapped
  match result : registry.mremapChunk old.addr nb around.mremap with
  | none => trivial
  | some (some newp, after) =>
      intro i small
      rcases mremap_success memory live result with
        ⟨same, kept⟩ | ⟨differs, cp, answered, place, moved⟩
      · rw [kept, same]
      · obtain ⟨_, _, inside⟩ := sound.grants nb requested cp answered
        have reached : min n bytes ≤ newLength old.record nb - old.prevSize := by
          by_contra short
          rw [length] at differs
          exact safe ⟨mapped, by rw [answered]; rfl, differs, Nat.lt_of_not_le short⟩
        rw [moved, place, moved_bytes live inside (by omega), if_pos (by omega)]
  | some (none, after) =>
      obtain ⟨_, _, same⟩ := mremap_failure live.found result
      subst same
      dsimp only
      by_cases enough : nb ≤ wrapSub old.size sizeSz
      · rw [if_pos enough]
        exact fun _ _ => rfl
      · rw [if_neg enough]
        cases outer : around.outer with
        | none => exact ⟨recorded, fun _ _ => rfl⟩
        | some new =>
            obtain ⟨⟨source, taken⟩, apart⟩ := sound.outer new outer
            have large := taken.cut.2
            dsimp only
            cases after.munmapChunk old.addr with
            | none => trivial
            | some released =>
                intro i small
                rw [wrap_sub_exact start (by omega),
                  wrap_sub_exact (by simp only [sizeSz]; omega) (by omega),
                  ByteMemory.unmap_range_outside, ByteMemory.copy_range_inside]
                · simp only [sizeSz]
                  omega
                · rw [Nat.add_comm, length]
                  rintro ⟨lower, upper⟩
                  rcases apart with before | behind
                  · omega
                  · omega

theorem mremap_granted (cp : Nat) (live : Live registry old.addr old.record)
    (differs : wrap (old.size + old.prevSize) ≠ newLength old.record nb) :
    ∃ after, registry.mremapChunk old.addr nb (some cp) =
      some (some (wrap (cp + old.prevSize)), after) := by
  have differs' : ¬wrap (old.record.size + old.record.prevSize) = newLength old.record nb :=
    differs
  unfold Registry.mremapChunk
  rw [live.found]
  dsimp only
  rw [if_neg differs']
  by_cases still : wrap (cp + old.record.prevSize) = old.addr
  · have same : wrap (cp + old.prevSize) = old.addr := still
    rw [if_pos still, same]
    exact ⟨_, rfl⟩
  · rw [if_neg still]
    obtain ⟨moved, move, _⟩ := move_spec
      ((registry.munmap (wrapSub old.addr old.record.prevSize)
        (wrap (old.record.size + old.record.prevSize))).map cp (newLength old.record nb))
      old.addr (wrap (cp + old.record.prevSize)) (newLength old.record nb) old.record live.bound
    rw [move]
    exact ⟨_, rfl⟩

theorem mapped_loses (requested : checkedRequest2size bytes = some nb) (held : Held n old)
    (live : Live registry old.addr old.record) (sound : Sound old bytes around)
    (loses : MremapLoses n bytes nb old around) :
    ∃ memory, Backed n old memory ∧
      ¬Preserves n bytes old memory (reallocMapped registry old nb around memory) := by
  obtain ⟨mapped, answered, differs, short⟩ := loses
  obtain ⟨cp, answered⟩ := Option.isSome_iff_exists.mp answered
  obtain ⟨_, _, inside⟩ := sound.grants nb requested cp answered
  have room := held.mapped mapped
  have start : old.prevSize ≤ old.addr := live.start
  have word : old.addr + old.size < 2 ^ 63 := live.inside
  have length : wrap (old.size + old.prevSize) = old.prevSize + old.size := by
    rw [Nat.add_comm]
    exact Nat.mod_eq_of_lt (by omega)
  rw [← length] at differs
  obtain ⟨after, result⟩ := mremap_granted cp live differs
  -- the first byte behind the new end of the mapping
  generalize last : newLength old.record nb - old.prevSize = i at short
  refine ⟨marked (old.addr + i), marked_backed _, fun preserves => ?_⟩
  unfold reallocMapped at preserves
  rw [answered, result] at preserves
  have lost := preserves i short
  dsimp only [mremapBytes] at lost
  rw [if_neg differs, moved_bytes live inside (by omega), if_neg (by omega)] at lost
  by_cases gone : In (old.addr - old.prevSize) (old.size + old.prevSize)
      (cp + (old.prevSize + i))
  · rw [ByteMemory.unmap_range_inside gone] at lost
    cases lost
  · rw [ByteMemory.unmap_range_outside gone] at lost
    apply marked_other _ lost
    intro same
    exact gone ⟨by omega, by omega⟩

theorem heap_preserves_iff (requested : checkedRequest2size bytes = some nb)
    (held : Held n old) (heap : old.mmapped = false) (follows : around.next.After old)
    (sound : Sound old bytes around) :
    (∀ memory, Backed n old memory →
      Preserves n bytes old memory (reallocHeap old nb around memory)) ↔
        ¬FallbackLoses n bytes nb old around := by
  constructor
  · intro preserves loses
    obtain ⟨memory, backed, differs⟩ := heap_loses held sound loses
    exact differs (preserves memory backed)
  · intro safe memory _
    exact heap_preserves requested held heap follows sound safe

theorem mapped_preserves_iff (requested : checkedRequest2size bytes = some nb)
    (held : Held n old) (mapped : old.mmapped = true)
    (live : Live registry old.addr old.record)
    (recorded : recordedBlock registry old.addr = some old) (sound : Sound old bytes around) :
    (∀ memory, Backed n old memory →
      Preserves n bytes old memory (reallocMapped registry old nb around memory)) ↔
        ¬MremapLoses n bytes nb old around := by
  constructor
  · intro preserves loses
    obtain ⟨memory, backed, differs⟩ := mapped_loses requested held live sound loses
    exact differs (preserves memory backed)
  · intro safe memory _
    exact mapped_preserves requested held mapped live recorded sound safe

/-- A call that gets to its request loses bytes in one of the two ways. -/
theorem loses_iff (replenished : around.replenished = true) (placed : misplaced old = false)
    (requested : checkedRequest2size bytes = some nb) :
    Loses n bytes old around ↔
      FallbackLoses n bytes nb old around ∨ MremapLoses n bytes nb old around := by
  constructor
  · rintro ⟨_, _, again, same, either⟩
    cases requested.symm.trans same
    exact either
  · exact fun either => ⟨replenished, placed, nb, requested, either⟩

/-- The contents stay, or the call fails and leaves the block as it is, exactly when the
call comes neither to the fallback with a request that needs the last word of the chunk,
nor to a mapping that becomes too short for the bytes. -/
theorem realloc_preserves_iff (registry : Registry) (around : Surroundings) (n bytes : Nat)
    (old : Block) (live : LiveBlock registry around n old) (sound : Sound old bytes around) :
    (∀ memory, Backed n old memory →
      Preserves n bytes old memory (libcRealloc registry old bytes around memory)) ↔
        ¬Loses n bytes old around := by
  obtain ⟨origin, stop, satisfied⟩ := live.obtained
  have held := satisfied.held live.user
  unfold libcRealloc
  by_cases replenished : around.replenished = true
  · simp only [replenished, Bool.not_true, Bool.false_eq_true, if_false]
    by_cases placed : misplaced old = true
    · simp only [if_pos placed]
      refine iff_of_true (fun _ _ => trivial) fun loses => ?_
      exact Bool.false_ne_true (loses.2.1.symm.trans placed)
    · simp only [if_neg placed]
      have placed' := Bool.eq_false_iff.mpr placed
      cases requested : checkedRequest2size bytes with
      | none =>
          refine iff_of_true (fun _ _ => ⟨rfl, fun _ _ => rfl⟩) fun loses => ?_
          obtain ⟨nb, impossible, _⟩ := loses.2.2
          cases requested.symm.trans impossible
      | some nb =>
          dsimp only
          rw [loses_iff replenished placed' requested]
          by_cases mapped : old.mmapped = true
          · have elsewhere : ¬FallbackLoses n bytes nb old around := fun loses =>
              Bool.false_ne_true (loses.1.symm.trans mapped)
            obtain ⟨registered, recorded⟩ := live.registered mapped
            simp only [if_pos mapped, or_iff_right elsewhere]
            exact mapped_preserves_iff requested held mapped registered recorded sound
          · have heap := Bool.eq_false_iff.mpr mapped
            have elsewhere : ¬MremapLoses n bytes nb old around := fun loses => mapped loses.1
            simp only [if_neg mapped, or_iff_left elsewhere]
            exact heap_preserves_iff requested held heap (live.follows heap) sound
  · simp only [Bool.eq_false_iff.mpr replenished, Bool.not_false, if_true]
    exact iff_of_true (fun _ _ => ⟨rfl, fun _ _ => rfl⟩) fun loses => replenished loses.1

/-- A chunk of 256 bytes in front of a top that is too small. -/
def quarterBlock : Block := heapBlock ⟨0x7f0000001000, 256⟩

def otherTop : FreeChunk := ⟨0x7f1000001000, 0x21000⟩

/-- The arena gets no memory, another one has some. -/
def exhausted : Surroundings where
  replenished := true
  next := ⟨0x21, true, true⟩
  systemMem := 0x21000
  inner := none
  outer := some (heapBlock ⟨otherTop.addr, 400⟩)
  mremap := none
  unread := true

theorem quarter_block_live {n : Nat} (requested : checkedRequest2size n = some 256)
    (small : n ≤ 256) : LiveBlock offsetRegistry exhausted n quarterBlock where
  obtained := ⟨_, _, .malloced (front_malloced first_top_valid requested (by decide))⟩
  user := Nat.lt_of_le_of_lt (Nat.add_le_add_left small _) (by decide)
  follows := fun _ => ⟨by decide, by decide⟩
  registered := fun (mapped : false = true) => nomatch mapped

theorem exhausted_sound : Sound quarterBlock 400 exhausted where
  inner := fun _ _ _ impossible => nomatch impossible
  outer := by
    intro new same
    cases same
    have valid : otherTop.TopValid := ⟨by decide, by decide, by decide⟩
    exact ⟨⟨_, front_malloced valid (by decide) (by decide)⟩, Or.inr (by decide)⟩
  grants := fun _ _ _ impossible => nomatch impossible

theorem word_to_spare_preserved :
    (∀ memory, Backed 248 quarterBlock memory →
      Preserves 248 400 quarterBlock memory
        (libcRealloc offsetRegistry quarterBlock 400 exhausted memory)) ∧
      ¬Loses 248 400 quarterBlock exhausted := by
  have kept : ¬Loses 248 400 quarterBlock exhausted := by
    rintro ⟨_, _, nb, _, ⟨_, _, _, _, short⟩ | ⟨mapped, _⟩⟩
    · exact absurd short (by decide)
    · cases mapped
  have preserved := (realloc_preserves_iff offsetRegistry exhausted 248 400 quarterBlock
    (quarter_block_live (by decide) (by decide)) exhausted_sound).mpr kept
  exact ⟨preserved, kept⟩

/-- The last 8 of 256 bytes are lost when the block has to move to another arena. -/
theorem last_word_lost :
    ¬∀ (registry : Registry) (around : Surroundings) (n bytes : Nat) (old : Block)
      (memory : Memory), LiveBlock registry around n old → Sound old bytes around → 0 < bytes →
        Backed n old memory →
          Preserves n bytes old memory (libcRealloc registry old bytes around memory) := by
  intro claimed
  have live := quarter_block_live (n := 256) (by decide) (by decide)
  have held := live.obtained.choose_spec.choose_spec.held live.user
  have loses : FallbackLoses 256 400 400 quarterBlock exhausted :=
    ⟨rfl, by decide, rfl, rfl, by decide⟩
  obtain ⟨memory, backed, differs⟩ := heap_loses held exhausted_sound loses
  exact differs (claimed offsetRegistry exhausted 256 400 quarterBlock memory live
    exhausted_sound (by decide) backed)

end SriGlibcMalloc.Blocks
