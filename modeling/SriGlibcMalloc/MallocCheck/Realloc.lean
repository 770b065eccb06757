import SriGlibcMalloc.MallocCheck.Trailer
import SriGlibcMalloc.MappedChunks.Remap

/-!
# `realloc_check`

The check of the old pointer inverts its magic byte. The routine tracks the new block in
two variables, the address that says whether the byte is inverted back and the metadata
that says what is returned; a mapped block that is remapped or left where it is sets only
the first of them, and a request that is too large returns before either is looked at.
-/

namespace SriGlibcMalloc.MallocCheck

open ByteMemory
open EntryPoints (requestOutOfRange mallocAlignMask)
open MappedChunks (Record Registry newLength resize_lookup)
open MainArena (wrap wrapSub pageSize sizeSz chunksize)

set_option autoImplicit false

structure State where
  registry : Registry
  memory : Bytes

/-- What the routines do that `hooks.c` calls: whether `malloc_printerr` ends the process,
`top_check` with its success, the chunks of `_int_malloc` and `_int_realloc`, `_int_free`,
the answer of `mremap`, and the bytes once it has moved or resized a mapping. -/
structure Outcomes where
  aborts : Bool
  topCheck : State → Bool × State
  intMalloc : Nat → State → Option Nat × State
  intRealloc : Nat → Nat → Nat → State → Option Nat × State
  intFree : Nat → State → State
  mremap : Option Nat
  remapped : Bytes → Bytes

def checkedRequest2size (config : Config) (req : Nat) : Option Nat :=
  if requestOutOfRange req then none else some (request2size config req)

def memcpy (target source count : Nat) (memory : Bytes) : Bytes := fun address =>
  if target ≤ address ∧ address < target + count then memory (source + (address - target))
  else memory address

/-! ## The hooks

There is no result where the process ends.
-/

variable (config : Config) (outcomes : Outcomes) (around : Surroundings)

def instrument (q reqSz : Nat) (state : State) : Option (Option Nat × State) :=
  (state.registry.lookupChunk q).map fun record =>
    (some (chunk2mem config q),
      { state with memory := mem2memCheck config record q reqSz state.memory })

/-- Without a victim the address of its chunk is read through a null pointer. -/
def mallocCheck (sz : Nat) (state : State) : Option (Option Nat × State) :=
  if wrap (sz + 1) = 0 then some (none, state)
  else
    let (checked, state) := outcomes.topCheck state
    if checked then
      match outcomes.intMalloc (sz + 1) state with
      | (none, _) => none
      | (some q, state) => instrument config q sz state
    else none

def report {Result : Type} (result : Option Result) : Option Result :=
  if outcomes.aborts then none else result

def freeCheck (mem : Nat) (state : State) : Option State :=
  if mem = 0 then some state
  else
    let p := mem2chunk config mem
    match state.registry.lookupChunk p with
    | none => if mem &&& mallocAlignMask = 0 then none else report outcomes (some state)
    | some record =>
        match mem2chunkCheck around record p mem state.memory with
        | none => report outcomes (some state)
        | some (memory, _) =>
            let state := { state with memory := memory }
            if record.mmapped then
              (state.registry.munmapChunk p).map fun registry =>
                { state with registry := registry.unregisterChunk p }
            else some (outcomes.intFree p state)

/-- The chunk that is allocated, copied to and returned in place of a mapped one. -/
def copyMapped (p oldsize bytes : Nat) (state : State) : Option (Option Nat × State) :=
  let (checked, state) := outcomes.topCheck state
  if checked then
    match outcomes.intMalloc (bytes + 1) state with
    | (none, state) => some (none, state)
    | (some q, state) =>
        let memory := memcpy (chunk2mem config q) (chunk2mem config p)
          (wrapSub oldsize (2 * sizeSz)) state.memory
        (state.registry.munmapChunk p).map fun registry =>
          (some q, ⟨registry.unregisterChunk p, memory⟩)
  else some (none, state)

/-- `newmem` and the chunk of `_md_newmem`, for a mapped chunk. -/
def reallocMapped (p nb bytes : Nat) (record : Record) (state : State) :
    Option (Option Nat × Option Nat × State) :=
  match state.registry.mremapChunk p nb outcomes.mremap with
  | none => none
  | some (some q, registry) =>
      let memory := if wrap (record.size + record.prevSize) = newLength record nb then state.memory
        else outcomes.remapped state.memory
      some (some (chunk2mem config q), none, ⟨registry, memory⟩)
  | some (none, registry) =>
      let state := { state with registry := registry }
      if nb ≤ wrapSub record.size sizeSz then some (some (chunk2mem config p), none, state)
      else (copyMapped config outcomes p record.size bytes state).map fun (q, state) =>
        (q.map (chunk2mem config), q, state)

def reallocHeap (p nb : Nat) (record : Record) (state : State) :
    Option Nat × Option Nat × State :=
  let (checked, state) := outcomes.topCheck state
  if checked then
    let (q, state) := outcomes.intRealloc p record.size nb state
    (q.map (chunk2mem config), q, state)
  else (none, none, state)

def conclude (bytes magicP : Nat) :
    Option Nat × Option Nat × State → Option (Option Nat × State)
  | (newmem, mdNewmem, state) =>
      let state := if newmem = none then { state with memory := invert magicP state.memory }
        else state
      match mdNewmem with
      | none => some (none, state)
      | some q => instrument config q bytes state

def reallocCheck (oldmem bytes : Nat) (state : State) : Option (Option Nat × State) :=
  if wrap (bytes + 1) = 0 then some (none, state)
  else if oldmem = 0 then mallocCheck config outcomes bytes state
  else if bytes = 0 then
    (freeCheck config outcomes around oldmem state).map fun state => (none, state)
  else
    let p := mem2chunk config oldmem
    match state.registry.lookupChunk p with
    | none => some (none, state)
    | some record =>
        match mem2chunkCheck around record p oldmem state.memory with
        | none => report outcomes (mallocCheck config outcomes bytes state)
        | some (memory, magicP) =>
            let state := { state with memory := memory }
            match checkedRequest2size config (bytes + 1) with
            | none => some (none, state)
            | some nb =>
                (if record.mmapped then reallocMapped config outcomes p nb bytes record state
                  else some (reallocHeap config outcomes p nb record state)).bind
                  (conclude config bytes magicP)

/-! ## Telling the truth -/

structure Allocated (state : State) (q req : Nat) (record : Record) : Prop where
  found : state.registry.lookupChunk q = some record
  large : request2size config req ≤ record.size
  bound : record.mmapped = true → (state.registry.bound q).isSome = true

def Marks (memory : Bytes) (record : Record) (p reqSz : Nat) : Prop :=
  ∀ write ∈ checkBytes record p reqSz, memory (chunk2mem config p + write.1) = write.2

/-- The record of a chunk and the bytes that a reader of its trailer can look at are kept. -/
structure Kept (p : Nat) (record : Record) (before after : State) : Prop where
  found : after.registry.lookupChunk p = before.registry.lookupChunk p
  bound : after.registry.bound p = before.registry.bound p
  bytes : ∀ offset ≤ lastByte record, after.memory (p + offset) = before.memory (p + offset)

/-- The promises of the routines that are called: a failure leaves the old block as it is,
a success hands out a block that is large enough, and not one that is in use. -/
structure Sound (p : Nat) (record : Record) : Prop where
  topChecked : ∀ state, Kept p record state (outcomes.topCheck state).2
  refused : ∀ req state after, outcomes.intMalloc req state = (none, after) →
    Kept p record state after
  malloced : ∀ req state q after, outcomes.intMalloc req state = (some q, after) →
    ∃ new, Allocated config after q req new
  apart : ∀ req state q after, state.registry.lookupChunk p = some record →
    outcomes.intMalloc req state = (some q, after) → q ≠ p
  kept : ∀ nb state after, outcomes.intRealloc p record.size nb state = (none, after) →
    Kept p record state after
  realloced : ∀ req state q after,
    outcomes.intRealloc p record.size (request2size config req) state = (some q, after) →
      ∃ new, Allocated config after q req new

/-- A block of `req_sz` bytes that one of the hooks has handed out. -/
structure Live (state : State) (p reqSz : Nat) (record : Record) : Prop where
  allocated : Allocated config state p (reqSz + 1) record
  marked : Marks config state.memory record p reqSz
  address : chunk2mem config p ≠ 0

def Accepts (state : State) (p : Nat) (record : Record) : Prop :=
  (mem2chunkCheck around record p (chunk2mem config p) state.memory).isSome = true

/-- The old block is as it was, and `free_check` accepts it if it did. -/
structure FailureTold (p reqSz : Nat) (record : Record) (before after : State) : Prop where
  allocated : Allocated config after p (reqSz + 1) record
  marked : Marks config after.memory record p reqSz
  checked : ∀ offset ∈ (findMagic record p before.memory).1,
    after.memory (p + offset) = before.memory (p + offset)
  accepted : ∀ around, Accepts config around before p record →
    Accepts config around after p record

def Truthful (p reqSz bytes : Nat) (record : Record) (before : State) :
    Option (Option Nat × State) → Prop
  | none => True
  | some (none, after) => FailureTold config p reqSz record before after
  | some (some mem, after) => ∃ q new, mem = chunk2mem config q ∧
      Allocated config after q (bytes + 1) new ∧ Marks config after.memory new q bytes

/-- The old block is accepted and then the request is too large, or it is mapped and
`mremap` grants the new length, is not asked because the length is the same, or fails where
the block is large enough. -/
def Misleads (p bytes : Nat) (record : Record) (state : State) : Prop :=
  wrap (bytes + 1) ≠ 0 ∧ Accepts config around state p record ∧
    (requestOutOfRange (bytes + 1) = true ∨
      record.mmapped = true ∧
        (outcomes.mremap.isSome = true ∨
          wrap (record.size + record.prevSize) =
            newLength record (request2size config (bytes + 1)) ∨
          request2size config (bytes + 1) ≤ wrapSub record.size sizeSz))

variable {config : Config} {outcomes : Outcomes} {around : Surroundings}
variable {p q reqSz bytes nb address offset : Nat} {record : Record}
variable {memory : Bytes} {state before middle after : State}

/-! ## The inverted byte -/

theorem inverted_differs (byte : UInt8) : byte ^^^ 0xFF ≠ byte := by
  intro same
  have flipped : byte ^^^ (byte ^^^ 0xFF) = byte ^^^ byte := congrArg (byte ^^^ ·) same
  rw [← UInt8.xor_assoc, UInt8.xor_self, UInt8.zero_xor] at flipped
  exact absurd flipped (by decide)

theorem invert_invert (address : Nat) (memory : Bytes) :
    invert address (invert address memory) = memory := by
  unfold invert
  rw [Function.update_self, Function.update_idem, UInt8.xor_assoc, UInt8.xor_self,
    UInt8.xor_zero, Function.update_eq_self]

theorem accepted_spec {checked : Bytes × Nat} {mem : Nat}
    (accepted : mem2chunkCheck around record p mem memory = some checked) :
    ∃ stop ∈ (findMagic record p memory).1, stop ≤ lastByte record ∧
      checked = (invert (p + stop) memory, p + stop) := by
  unfold mem2chunkCheck at accepted
  split_ifs at accepted
  obtain ⟨stop, found, same⟩ := Option.map_eq_some_iff.mp accepted
  have visited := (follow_stops found).1
  exact ⟨stop, visited, follow_below _ _ _ _ stop visited, same.symm⟩

/-- An inverted byte gives the failure away. -/
theorem inverted_not_told (visited : offset ∈ (findMagic record p state.memory).1)
    (inverted : after.memory = invert (p + offset) state.memory) :
    ¬FailureTold config p reqSz record state after := by
  intro told
  have same := told.checked offset visited
  rw [inverted, invert, Function.update_self] at same
  exact inverted_differs _ same

/-! ## A block that is kept -/

theorem Kept.refl (p : Nat) (record : Record) (state : State) : Kept p record state state :=
  ⟨rfl, rfl, fun _ _ => rfl⟩

theorem Kept.trans (first : Kept p record before middle) (second : Kept p record middle after) :
    Kept p record before after where
  found := second.found.trans first.found
  bound := second.bound.trans first.bound
  bytes := fun offset small => (second.bytes offset small).trans (first.bytes offset small)

/-- The byte is inverted back on top of whatever kept the block. -/
theorem Kept.inverted_back (small : offset ≤ lastByte record)
    (kept : Kept p record { state with memory := invert (p + offset) state.memory } after) :
    Kept p record state { after with memory := invert (p + offset) after.memory } where
  found := kept.found
  bound := kept.bound
  bytes := by
    intro place below
    have same := kept.bytes place below
    by_cases here : place = offset
    · subst here
      dsimp only at same ⊢
      rw [invert, Function.update_self, same, ← Function.update_self (p + place)
        (invert (p + place) state.memory (p + place) ^^^ 0xFF) (invert (p + place) state.memory)]
      exact congrFun (invert_invert (p + place) state.memory) (p + place)
    · have elsewhere : p + place ≠ p + offset := by omega
      dsimp only at same ⊢
      rw [invert, Function.update_of_ne elsewhere, same, invert, Function.update_of_ne elsewhere]

theorem find_magic_kept (kept : Kept p record before after) :
    findMagic record p after.memory = findMagic record p before.memory := by
  apply follow_congr
  intro place visited
  exact kept.bytes place (follow_below _ _ _ _ place visited)

theorem accepts_iff (around : Surroundings) (state : State) (p : Nat) (record : Record) :
    Accepts config around state p record ↔
      credible around record p (chunk2mem config p) = true ∧
        (findMagic record p state.memory).2.isSome = true := by
  unfold Accepts mem2chunkCheck
  split_ifs with passes
  · rw [Option.isSome_map, and_iff_right passes]
  · exact iff_of_false (fun impossible => by cases impossible) (fun both => passes both.1)

theorem check_bytes_below (large : request2size config (reqSz + 1) ≤ record.size) :
    ∀ write ∈ checkBytes record p reqSz, config.headerSize + write.1 ≤ lastByte record := by
  obtain ⟨covers, minimal⟩ := request2size_covers config (reqSz + 1)
  have header : config.headerSize ≤ 16 := by
    unfold Config.headerSize
    split_ifs <;> omega
  have last : record.size - 1 ≤ lastByte record := Nat.le_add_right _ _
  have behind : maxSz record - 1 + 16 ≤ lastByte record := by
    simp only [maxSz, lastByte, sizeSz, EntryPoints.minSize] at *
    omega
  intro write member
  unfold checkBytes at member
  by_cases reaches : reqSz ≤ maxSz record - 1
  · have bounds := chain_within (magicbyte p) reaches write member
    omega
  · rw [chain, if_neg (by omega)] at member
    rw [List.mem_singleton.mp member]
    dsimp only
    omega

theorem Kept.told (kept : Kept p record before after) (live : Live config before p reqSz record) :
    FailureTold config p reqSz record before after where
  allocated :=
    { found := kept.found.trans live.allocated.found
      large := live.allocated.large
      bound := by
        rw [kept.bound]
        exact live.allocated.bound }
  marked := by
    intro write member
    have below := check_bytes_below live.allocated.large write member
    have same := kept.bytes _ below
    rw [← Nat.add_assoc] at same
    exact same.trans (live.marked write member)
  checked := fun place visited => kept.bytes place (follow_below _ _ _ _ place visited)
  accepted := by
    intro around accepted
    rw [accepts_iff] at accepted ⊢
    rw [find_magic_kept kept]
    exact accepted

/-! ## A block that is handed out -/

theorem instrument_truthful (allocated : ∃ new, Allocated config state q (bytes + 1) new) :
    Truthful config p reqSz bytes record before (instrument config q bytes state) := by
  obtain ⟨new, allocated⟩ := allocated
  rw [instrument, allocated.found]
  refine ⟨q, new, rfl, ⟨allocated.found, allocated.large, allocated.bound⟩, ?_⟩
  intro write member
  exact store_written member (chain_distinct (magicbyte q) bytes (maxSz new - 1))

theorem malloc_check_truthful (sound : Sound config outcomes p record)
    (word : wrap (bytes + 1) ≠ 0) :
    Truthful config p reqSz bytes record before (mallocCheck config outcomes bytes state) := by
  rw [mallocCheck, if_neg word]
  dsimp only
  split_ifs
  · cases ran : outcomes.intMalloc (bytes + 1) (outcomes.topCheck state).2 with
    | mk victim next =>
        cases victim with
        | none => trivial
        | some q => exact instrument_truthful (sound.malloced _ _ _ _ ran)
  · trivial

/-! ## The heap -/

variable {stop : Nat}

/-- A failure behind the check of the old pointer inverts the byte back. -/
theorem failed_truthful (live : Live config state p reqSz record) (small : stop ≤ lastByte record)
    (kept : Kept p record { state with memory := invert (p + stop) state.memory } after) :
    Truthful config p reqSz bytes record state
      (conclude config bytes (p + stop) (none, none, after)) :=
  (kept.inverted_back small).told live

theorem realloc_heap_truthful (sound : Sound config outcomes p record)
    (live : Live config state p reqSz record) (small : stop ≤ lastByte record) :
    Truthful config p reqSz bytes record state (conclude config bytes (p + stop)
      (reallocHeap config outcomes p (request2size config (bytes + 1)) record
        { state with memory := invert (p + stop) state.memory })) := by
  have checked := sound.topChecked { state with memory := invert (p + stop) state.memory }
  unfold reallocHeap
  split
  rename_i succeeds next top
  rw [top] at checked
  split_ifs
  · cases ran : outcomes.intRealloc p record.size (request2size config (bytes + 1)) next with
    | mk new next =>
        cases new with
        | none => exact failed_truthful live small (checked.trans (sound.kept _ _ _ ran))
        | some q => exact instrument_truthful (sound.realloced _ _ _ _ ran)
  · exact failed_truthful live small checked

/-! ## Mapped chunks -/

theorem delete_mmap_spec {registry next : Registry}
    (deleted : registry.lookupDeleteMmap p = some next) :
    next.records = registry.records ∧
      next.bound = Function.update registry.bound p none := by
  unfold Registry.lookupDeleteMmap at deleted
  split_ifs at deleted
  cases deleted
  exact ⟨rfl, rfl⟩

theorem unmapped_allocated {registry : Registry} {new : Record} (apart : q ≠ p)
    (allocated : Allocated config state q (bytes + 1) new)
    (unmapped : state.registry.munmapChunk p = some registry) (memory : Bytes) :
    Allocated config ⟨registry.unregisterChunk p, memory⟩ q (bytes + 1) new := by
  unfold Registry.munmapChunk at unmapped
  split at unmapped
  · cases unmapped
  · dsimp only at unmapped
    split_ifs at unmapped
    obtain ⟨next, deleted, same⟩ := Option.map_eq_some_iff.mp unmapped
    obtain ⟨records, bound⟩ := delete_mmap_spec deleted
    subst same
    constructor
    case found =>
        rw [← allocated.found]
        unfold Registry.lookupChunk Registry.unregisterChunk Registry.munmap
        dsimp only
        rw [Function.update_of_ne apart, records]
        rfl
    case large => exact allocated.large
    case bound =>
        intro isMapped
        unfold Registry.unregisterChunk Registry.munmap
        dsimp only
        rw [bound, Function.update_of_ne apart]
        exact allocated.bound isMapped

/-- The newer block is marked when the older one has been given back. -/
theorem copy_mapped_truthful (sound : Sound config outcomes p record)
    (live : Live config state p reqSz record) (small : stop ≤ lastByte record) :
    Truthful config p reqSz bytes record state
      (((copyMapped config outcomes p record.size bytes
        { state with memory := invert (p + stop) state.memory }).map fun (q, state) =>
          (q.map (chunk2mem config), q, state)).bind (conclude config bytes (p + stop))) := by
  have checked := sound.topChecked { state with memory := invert (p + stop) state.memory }
  unfold copyMapped
  dsimp only
  split_ifs
  · cases ran : outcomes.intMalloc (bytes + 1)
        (outcomes.topCheck { state with memory := invert (p + stop) state.memory }).2 with
    | mk new next =>
        cases new with
        | none => exact failed_truthful live small (checked.trans (sound.refused _ _ _ ran))
        | some q =>
            have apart := sound.apart _ _ _ _ (checked.found.trans live.allocated.found) ran
            obtain ⟨new, allocated⟩ := sound.malloced _ _ _ _ ran
            dsimp only
            cases unmapped : next.registry.munmapChunk p with
            | none => trivial
            | some registry =>
                apply instrument_truthful
                exact ⟨new, unmapped_allocated apart allocated unmapped _⟩
  · exact failed_truthful live small checked

theorem accepted_pages (isMapped : record.mmapped = true)
    (accepted : Accepts config around state p record) :
    (record.prevSize + record.size) % pageSize = 0 := by
  have passes := ((accepts_iff around state p record).mp accepted).1
  simp only [credible, isMapped, if_true, mapped, Bool.and_eq_true, decide_eq_true_eq] at passes
  exact passes.2.2

/-- A head of the old size would need a mapping of the old length. -/
theorem new_size_differs (pages : (record.prevSize + record.size) % pageSize = 0)
    (differs : wrap (record.size + record.prevSize) ≠ newLength record nb) :
    chunksize (wrapSub (newLength record nb) record.prevSize) ≠ record.size := by
  have length : newLength record nb % pageSize = 0 ∧ newLength record nb < 2 ^ 64 := by
    unfold newLength MainArena.alignUp MainArena.alignDown wrap
    simp only [pageSize]
    omega
  obtain ⟨whole, word⟩ := length
  unfold chunksize wrapSub wrap at *
  simp only [pageSize] at pages whole
  omega

/-- Once `mremap` has granted the length, the old block has another size or is gone. -/
theorem granted_spec {registry : Registry} (cp : Nat)
    (found : registry.lookupChunk p = some record) (bound : (registry.bound p).isSome = true)
    (pages : (record.prevSize + record.size) % pageSize = 0)
    (differs : wrap (record.size + record.prevSize) ≠ newLength record nb) :
    ∃ q after, registry.mremapChunk p nb (some cp) = some (some q, after) ∧
      ¬(after.lookupChunk p = some record ∧ (after.bound p).isSome = true) := by
  unfold Registry.mremapChunk
  rw [found]
  dsimp only
  rw [if_neg differs]
  generalize shape : (registry.munmap (wrapSub p record.prevSize)
    (wrap (record.size + record.prevSize))).map cp (newLength record nb) = remapped
  have present : remapped.lookupChunk p = some record := shape ▸ found
  have listed : (remapped.bound p).isSome = true := shape ▸ bound
  split_ifs with still
  · refine ⟨p, _, rfl, ?_⟩
    rintro ⟨same, _⟩
    rw [resize_lookup remapped (newLength record nb) record present] at same
    have equal := congrArg Record.size (Option.some.inj same)
    exact new_size_differs pages differs equal
  · unfold Registry.move Registry.lookupDeleteMmap Registry.unregisterChunk
    dsimp only
    rw [if_pos listed]
    refine ⟨_, _, rfl, ?_⟩
    rintro ⟨_, stays⟩
    unfold Registry.resize Registry.addMem Registry.setHead Registry.registerChunk
      Registry.lookupAddMmap at stays
    dsimp only at stays
    rw [Function.update_of_ne (Ne.symm still), Function.update_self] at stays
    cases stays

/-- A mapped block misleads unless it has to be copied. -/
theorem realloc_mapped_truthful_iff (sound : Sound config outcomes p record)
    (live : Live config state p reqSz record) (isMapped : record.mmapped = true)
    (pages : (record.prevSize + record.size) % pageSize = 0)
    (visited : stop ∈ (findMagic record p state.memory).1) :
    Truthful config p reqSz bytes record state
      ((reallocMapped config outcomes p nb bytes record
        { state with memory := invert (p + stop) state.memory }).bind
          (conclude config bytes (p + stop))) ↔
      ¬(outcomes.mremap.isSome = true ∨
        wrap (record.size + record.prevSize) = newLength record nb ∨
        nb ≤ wrapSub record.size sizeSz) := by
  have small := follow_below _ _ _ _ stop visited
  have found := live.allocated.found
  have bound := live.allocated.bound isMapped
  by_cases same : wrap (record.size + record.prevSize) = newLength record nb
  · have kept : state.registry.mremapChunk p nb outcomes.mremap = some (some p, state.registry) := by
      unfold Registry.mremapChunk
      rw [found]
      dsimp only
      rw [if_pos same]
    refine iff_of_false ?_ fun good => good (Or.inr (Or.inl same))
    rw [reallocMapped, kept]
    dsimp only
    rw [if_pos same]
    exact inverted_not_told visited rfl
  · cases answer : outcomes.mremap with
    | some cp =>
        refine iff_of_false ?_ fun good => good (Or.inl rfl)
        obtain ⟨q, after, granted, changed⟩ := granted_spec cp found bound pages same
        rw [reallocMapped, answer, granted]
        intro told
        have allocated := FailureTold.allocated told
        exact changed ⟨allocated.found, allocated.bound isMapped⟩
    | none =>
        have refused : state.registry.mremapChunk p nb none = some (none, state.registry) := by
          unfold Registry.mremapChunk
          rw [found]
          dsimp only
          rw [if_neg same]
        rw [reallocMapped, answer, refused]
        dsimp only
        split_ifs with enough
        · refine iff_of_false ?_ fun good => good (Or.inr (Or.inr enough))
          exact inverted_not_told visited rfl
        · refine iff_of_true (copy_mapped_truthful sound live small) ?_
          rintro (impossible | equal | large)
          · cases impossible
          · exact same equal
          · exact enough large

/-! ## Every call -/

theorem realloc_check_live (live : Live config state p reqSz record) (positive : 0 < bytes)
    (word : wrap (bytes + 1) ≠ 0) :
    reallocCheck config outcomes around (chunk2mem config p) bytes state =
      match mem2chunkCheck around record p (chunk2mem config p) state.memory with
      | none => report outcomes (mallocCheck config outcomes bytes state)
      | some (memory, magicP) =>
          match checkedRequest2size config (bytes + 1) with
          | none => some (none, { state with memory := memory })
          | some nb =>
              (if record.mmapped then
                reallocMapped config outcomes p nb bytes record { state with memory := memory }
              else
                some (reallocHeap config outcomes p nb record { state with memory := memory })).bind
                (conclude config bytes magicP) := by
  have old : mem2chunk config (chunk2mem config p) = p := Nat.add_sub_cancel p config.headerSize
  rw [reallocCheck, if_neg word, if_neg live.address, if_neg (Nat.ne_of_gt positive)]
  dsimp only
  rw [old, live.allocated.found]

theorem accepted_truthful_iff (sound : Sound config outcomes p record)
    (live : Live config state p reqSz record) (positive : 0 < bytes)
    (word : wrap (bytes + 1) ≠ 0) (accepted : Accepts config around state p record) :
    Truthful config p reqSz bytes record state
        (reallocCheck config outcomes around (chunk2mem config p) bytes state) ↔
      ¬Misleads config outcomes around p bytes record state := by
  unfold Misleads
  rw [and_iff_right word, and_iff_right accepted]
  obtain ⟨checked, found⟩ := Option.isSome_iff_exists.mp accepted
  obtain ⟨stop, visited, small, same⟩ := accepted_spec found
  rw [realloc_check_live live positive word, found, same]
  dsimp only
  unfold checkedRequest2size
  by_cases large : requestOutOfRange (bytes + 1) = true
  · rw [if_pos large]
    refine iff_of_false ?_ fun good => good (Or.inl large)
    exact inverted_not_told visited rfl
  · rw [if_neg large, or_iff_right large]
    dsimp only
    cases isMapped : record.mmapped with
    | true =>
        rw [if_pos rfl, and_iff_right rfl]
        exact realloc_mapped_truthful_iff sound live isMapped (accepted_pages isMapped accepted)
          visited
    | false =>
        refine iff_of_true (realloc_heap_truthful sound live small) ?_
        rintro ⟨impossible, _⟩
        cases impossible

theorem rejected_truthful (sound : Sound config outcomes p record)
    (live : Live config state p reqSz record) (positive : 0 < bytes)
    (rejected : wrap (bytes + 1) = 0 ∨ ¬Accepts config around state p record) :
    Truthful config p reqSz bytes record state
      (reallocCheck config outcomes around (chunk2mem config p) bytes state) := by
  by_cases word : wrap (bytes + 1) = 0
  · rw [reallocCheck, if_pos word]
    exact (Kept.refl p record state).told live
  · have refused := rejected.resolve_left word
    rw [Accepts, Option.not_isSome_iff_eq_none] at refused
    rw [realloc_check_live live positive word, refused]
    dsimp only
    unfold report
    split_ifs
    · trivial
    · exact malloc_check_truthful sound word

/-- The hook tells the truth unless an accepted block is refused a request that is too large
or is mapped and not copied. -/
theorem realloc_check_truthful_iff (config : Config) (outcomes : Outcomes)
    (around : Surroundings) (state : State) (p reqSz bytes : Nat) (record : Record)
    (sound : Sound config outcomes p record) (live : Live config state p reqSz record)
    (positive : 0 < bytes) :
    Truthful config p reqSz bytes record state
        (reallocCheck config outcomes around (chunk2mem config p) bytes state) ↔
      ¬Misleads config outcomes around p bytes record state := by
  by_cases accepted : wrap (bytes + 1) ≠ 0 ∧ Accepts config around state p record
  · exact accepted_truthful_iff sound live positive accepted.1 accepted.2
  · apply iff_of_true
    · apply rejected_truthful sound live positive
      exact (not_and_or.mp accepted).imp_left not_not.mp
    · exact fun misleads => accepted ⟨misleads.1, misleads.2.1⟩

/-- A process in which nothing more is granted. -/
def exhausted : Outcomes where
  aborts := false
  topCheck := fun state => (true, state)
  intMalloc := fun _ state => (none, state)
  intRealloc := fun _ _ _ state => (none, state)
  intFree := fun _ state => state
  mremap := none
  remapped := id

theorem exhausted_sound (config : Config) (p : Nat) (record : Record) :
    Sound config exhausted p record where
  topChecked := fun state => Kept.refl p record state
  refused := by
    rintro _ state _ ⟨rfl, rfl⟩
    exact Kept.refl p record state
  malloced := fun _ _ _ _ impossible => by cases impossible
  apart := fun _ _ _ _ _ impossible => by cases impossible
  kept := by
    rintro _ state _ ⟨rfl, rfl⟩
    exact Kept.refl p record state
  realloced := fun _ _ _ _ impossible => by cases impossible

/-- The block of `malloc (200000)`, 49 pages with a header. -/
def mappedRecord : Record := ⟨0, 0x31000, true⟩

def mappedBlock : Nat := 0x7f0000000000

def mappedState : State where
  registry :=
    { records := fun addr => if addr = mappedBlock then [mappedRecord] else []
      bound := fun addr => if addr = mappedBlock then some 0x31000 else none
      mapped := fun byte => decide (mappedBlock ≤ byte ∧ byte < mappedBlock + 0x31000)
      mmappedMem := 0x31000 }
  memory := mem2memCheck ⟨true⟩ mappedRecord mappedBlock 200000 fun _ => 0

def mappedAround : Surroundings := ⟨true, 0x602000, 0x21000, false, false, 0⟩

theorem mapped_state_live : Live ⟨true⟩ mappedState mappedBlock 200000 mappedRecord where
  allocated :=
    { found := rfl
      large := by decide
      bound := fun _ => rfl }
  marked := fun _ member => store_written member (chain_distinct _ _ _)
  address := by decide

theorem mapped_state_accepted :
    Accepts ⟨true⟩ mappedAround mappedState mappedBlock mappedRecord := by
  have trips : RoundTrips ⟨true⟩ mappedRecord mappedBlock 200000 :=
    mapped_round_trips (by decide) (by decide) rfl rfl
  rw [Accepts, trips.accepted (fun _ => 0) mappedState.memory mappedAround (fun _ _ => rfl)
    (by decide)]
  rfl

theorem refused_copy_told :
    Truthful ⟨true⟩ mappedBlock 200000 400000 mappedRecord mappedState
      (reallocCheck ⟨true⟩ exhausted mappedAround (chunk2mem ⟨true⟩ mappedBlock) 400000
        mappedState) := by
  apply (realloc_check_truthful_iff ⟨true⟩ exhausted mappedAround mappedState mappedBlock 200000
    400000 mappedRecord (exhausted_sound _ _ _) mapped_state_live (by decide)).mpr
  rintro ⟨_, _, large | ⟨_, granted | same | enough⟩⟩
  · exact absurd large (by decide)
  · exact absurd granted (by decide)
  · exact absurd same (by decide)
  · exact absurd enough (by decide)

/-- `realloc (p, 200100)` fits in the same 49 pages and returns NULL. -/
theorem same_pages_not_told :
    ¬∀ (config : Config) (outcomes : Outcomes) (around : Surroundings) (state : State)
      (p reqSz bytes : Nat) (record : Record), Sound config outcomes p record →
        Live config state p reqSz record → 0 < bytes →
          Truthful config p reqSz bytes record state
            (reallocCheck config outcomes around (chunk2mem config p) bytes state) := by
  intro claimed
  have told := claimed ⟨true⟩ exhausted mappedAround mappedState mappedBlock 200000 200100
    mappedRecord (exhausted_sound _ _ _) mapped_state_live (by decide)
  have honest := (accepted_truthful_iff (exhausted_sound _ _ _) mapped_state_live (by decide)
    (by decide) mapped_state_accepted).mp told
  apply honest
  exact ⟨by decide, mapped_state_accepted, Or.inr ⟨rfl, Or.inr (Or.inl (by decide))⟩⟩

end SriGlibcMalloc.MallocCheck
