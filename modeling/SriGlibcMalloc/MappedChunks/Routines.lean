import SriGlibcMalloc.Blocks.Memalign
import SriGlibcMalloc.MappedChunks.Consistency

/-!
# The routines that create, move and release mapped chunks

Each is the way that the routine goes for a mapped chunk. What the system answers, and how
a request that leads to `_int_malloc` is served, are parameters.
-/

namespace SriGlibcMalloc.MappedChunks

open Blocks (Block moveBlock sysmallocMmap align_spot_spec request_padded request_checked)
open Bins (ChunkSize request_chunk_size)
open ByteMemory (In)
open EntryPoints (minSize checkedRequest2size)
open MainArena (wrap wrapSub alignUp alignDown pageSize sizeSz chunksize wrap_sub_exact)

set_option autoImplicit false

/-- There is no memory, or an arena has a chunk, or `sysmalloc` gets a mapping. -/
inductive Served
  | refused
  | arena
  | mapped (mm : Nat)
  deriving DecidableEq, Repr

variable (registry : Registry)

/-! ## Creating -/

/-- `_int_malloc` with a padded request, and whether there is a chunk. -/
def Registry.serve (nb : Nat) : Served → Bool × Registry
  | .refused => (false, registry)
  | .arena => (true, registry)
  | .mapped mm => ((registry.create nb (some mm)).1.isSome, (registry.create nb (some mm)).2)

def Registry.intMalloc (bytes : Nat) (served : Served) : Registry :=
  match checkedRequest2size bytes with
  | none => registry
  | some nb => (registry.serve nb served).2

/-- `_int_memalign` moves a mapped chunk that is misaligned. -/
def Registry.alignChunk (p alignment nb : Nat) (metadata : Bool) (record : Record) :
    Option Registry :=
  if p % alignment = 0 then some registry
  else
    match moveBlock ⟨p, record.size, record.prevSize, true, false⟩ alignment nb metadata with
    | none => some registry
    | some aligned =>
        let newp := aligned.block.addr
        let registry := registry.registerChunk newp
          ⟨aligned.block.prevSize, aligned.block.size, true⟩
        ((registry.lookupAddMmap newp record.size).lookupDeleteMmap p).map fun registry =>
          registry.unregisterChunk p

/-- `_int_memalign`, as long as its chunk is a mapped one. -/
def Registry.intMemalign (alignment bytes : Nat) (served : Served) (metadata : Bool) :
    Option Registry :=
  match checkedRequest2size bytes with
  | none => some registry
  | some nb =>
      match checkedRequest2size (wrap (wrap (nb + alignment) + minSize)), served with
      | some padded, .mapped mm =>
          let (found, registry) := registry.create padded (some mm)
          match found, registry.lookupChunk mm with
          | none, _ => some registry
          | some _, none => none
          | some p, some record => registry.alignChunk p alignment nb metadata record
      | _, _ => some registry

/-! ## Releasing -/

/-- `munmap_chunk` and then `unregister_chunk`. -/
def Registry.release (p : Nat) : Option Registry :=
  (registry.munmapChunk p).map fun registry => registry.unregisterChunk p

/-- An address that is not in `mmap_tbl` belongs to an arena. -/
def Registry.libcFree (p : Nat) : Option Registry :=
  if (registry.bound p).isSome then registry.release p else some registry

/-- A chunk with a record that does not say so is not a mapped one. -/
def Registry.intFree (p : Nat) : Option Registry :=
  match registry.lookupChunk p with
  | none => none
  | some record => if record.mmapped then registry.release p else some registry

/-- The caller's pointer is valid if the byte at the end of the block is the right one. -/
def Registry.freeCheck (p : Nat) (valid : Bool) : Option Registry :=
  match valid, registry.lookupChunk p with
  | true, some record => if record.mmapped then registry.release p else some registry
  | _, _ => some registry

def Registry.freeAtfork (p : Nat) : Option Registry :=
  if (registry.bound p).isSome then registry.munmapChunk p else some registry

/-! ## Reallocating -/

/-- The chunk is remapped, or is large enough, or is released after its contents are copied. -/
def Registry.reallocMapped (p nb : Nat) (record : Record) (answer : Option Nat)
    (served : Served) : Option Registry :=
  (registry.mremapChunk p nb answer).bind fun (moved, registry) =>
    if moved.isSome ∨ nb ≤ wrapSub record.size sizeSz then some registry
    else
      match registry.serve nb served with
      | (false, registry) => some registry
      | (true, registry) => registry.release p

/-- The metadata cache of the main arena is replenished first, which may fail. -/
def Registry.libcRealloc (p bytes : Nat) (replenished : Bool) (answer : Option Nat)
    (served : Served) : Option Registry :=
  if bytes = 0 then registry.libcFree p
  else
    match replenished, registry.lookupChunk p, checkedRequest2size bytes with
    | true, some record, some nb =>
        if wrapSub 0 record.size < p ∨ p % 16 ≠ 0 then some registry
        else if record.mmapped then registry.reallocMapped p nb record answer served
        else some registry
    | _, _, _ => some registry

def Registry.reallocCheck (p bytes : Nat) (valid : Bool) (answer : Option Nat)
    (served : Served) : Option Registry :=
  if wrap (bytes + 1) = 0 then some registry
  else if bytes = 0 then registry.freeCheck p valid
  else
    match registry.lookupChunk p with
    | none => some registry
    | some record =>
        if valid then
          match checkedRequest2size (bytes + 1) with
          | none => some registry
          | some nb =>
              if record.mmapped then registry.reallocMapped p nb record answer served
              else some registry
        else some (registry.intMalloc (bytes + 1) served)

/-! ## What the system promises -/

/-- Whole pages of which none is mapped. -/
structure Registry.Fresh (start length : Nat) : Prop where
  page : start % pageSize = 0
  inside : start + length < 2 ^ 63
  unused : ∀ byte, In start length byte → registry.mapped byte = false

def Registry.Grants (nb : Nat) : Served → Prop
  | .mapped mm => registry.Fresh mm (alignUp (wrap (nb + sizeSz)) pageSize)
  | _ => True

/-- `mremap` extends the mapping of the chunk or returns other pages that are not mapped. -/
structure Registry.Remaps (p nb : Nat) (record : Record) (answer : Option Nat) : Prop where
  grants : MappedChunks.Grants record nb answer
  unused : ∀ cp byte, answer = some cp → In cp (newLength record nb) byte →
    ¬Region p record byte → registry.mapped byte = false

variable {registry} {p q nb mm alignment newSize : Nat} {record second : Record}
variable {answer : Option Nat}

/-! ## Creating keeps the tables -/

theorem Registry.Holds.lookup (holds : registry.Holds p record) :
    registry.lookupChunk p = some record := by
  unfold Registry.lookupChunk
  rw [holds.single]
  rfl

theorem Registry.Kept.unrecorded (kept : registry.Kept) (unused : registry.mapped p = false) :
    registry.records p = [] := by
  by_contra present
  rw [kept.recorded p present] at unused
  cases unused

/-- The length of a mapping for a chunk, unless it wraps around. -/
theorem sysmalloc_mmap_eq (mm : Nat)
    (larger : nb < alignUp (wrap (nb + sizeSz)) pageSize) :
    sysmallocMmap nb (some mm) =
        some ⟨mm, alignUp (wrap (nb + sizeSz)) pageSize, 0, true, false⟩ ∧
      alignUp (wrap (nb + sizeSz)) pageSize % pageSize = 0 := by
  have pages : alignUp (wrap (nb + sizeSz)) pageSize % pageSize = 0 := by
    unfold alignUp alignDown
    simp only [pageSize]
    omega
  refine ⟨?_, pages⟩
  have exact' : chunksize (alignUp (wrap (nb + sizeSz)) pageSize) =
      alignUp (wrap (nb + sizeSz)) pageSize := by
    generalize alignUp (wrap (nb + sizeSz)) pageSize = length at pages
    simp only [chunksize, pageSize] at pages ⊢
    omega
  unfold sysmallocMmap
  dsimp only
  rw [if_pos larger, exact']
  rfl

def mappedRecord (nb : Nat) : Record := ⟨0, alignUp (wrap (nb + sizeSz)) pageSize, true⟩

theorem create_eq (registry : Registry) (mm : Nat)
    (larger : nb < alignUp (wrap (nb + sizeSz)) pageSize) :
    registry.create nb (some mm) =
      (some mm, (((registry.map mm (mappedRecord nb).size).registerChunk mm
        (mappedRecord nb)).lookupAddMmap mm (mappedRecord nb).size).addMem
          (mappedRecord nb).size) := by
  unfold Registry.create
  rw [(sysmalloc_mmap_eq mm larger).1]
  rfl

theorem create_none (registry : Registry) (mm : Nat)
    (small : ¬nb < alignUp (wrap (nb + sizeSz)) pageSize) :
    registry.create nb (some mm) = (none, registry) := by
  unfold Registry.create sysmallocMmap
  dsimp only
  rw [if_neg small]

theorem Registry.Fresh.placed (fresh : registry.Fresh mm (mappedRecord nb).size)
    (larger : nb < alignUp (wrap (nb + sizeSz)) pageSize) : Placed mm (mappedRecord nb) where
  start := Nat.zero_le mm
  offset := rfl
  block := fresh.page
  pages := by
    unfold mappedRecord
    rw [Nat.zero_add]
    exact (sysmalloc_mmap_eq mm larger).2
  positive := Nat.zero_lt_of_lt larger
  inside := fresh.inside

theorem Registry.Fresh.free (fresh : registry.Fresh mm (mappedRecord nb).size)
    (placed : Placed mm (mappedRecord nb)) : registry.Free mm (mappedRecord nb) :=
  fun byte inside => fresh.unused byte (placed.region.mp inside)

theorem Registry.bound_add (registry : Registry) (p size q : Nat) :
    (registry.lookupAddMmap p size).Bound q ↔ q = p ∨ registry.Bound q := by
  unfold Registry.Bound Registry.lookupAddMmap
  dsimp only
  by_cases same : q = p
  · subst same
    rw [Function.update_self]
    exact iff_of_true rfl (Or.inl rfl)
  · rw [Function.update_of_ne same, or_iff_right same]

theorem create_same (kept : registry.Kept) (fresh : registry.Fresh mm (mappedRecord nb).size)
    (larger : nb < alignUp (wrap (nb + sizeSz)) pageSize) :
    (registry.enter mm (mappedRecord nb)).Same (registry.create nb (some mm)).2 := by
  have placed := fresh.placed larger
  have unrecorded := kept.unrecorded (fresh.free placed mm placed.own)
  rw [create_eq registry mm larger]
  constructor
  case records =>
    unfold Registry.enter Registry.addMem Registry.lookupAddMmap Registry.registerChunk
      Registry.map
    dsimp only
    rw [unrecorded]
  case bound =>
    intro q
    rw [Registry.bound_enter]
    exact (Registry.bound_add _ mm _ q).symm
  case mapped =>
    unfold Registry.enter Registry.addMem Registry.lookupAddMmap Registry.registerChunk
      Registry.map
    dsimp only
    funext byte
    rw [decide_eq_decide.mpr placed.region]
    rfl

theorem serve_kept {served : Served} (kept : registry.Kept) (grants : registry.Grants nb served) :
    (registry.serve nb served).2.Kept := by
  cases served with
  | refused => exact kept
  | arena => exact kept
  | mapped mm =>
      unfold Registry.serve
      dsimp only
      by_cases larger : nb < alignUp (wrap (nb + sizeSz)) pageSize
      · have placed := Registry.Fresh.placed grants larger
        exact (kept.enter placed rfl (Registry.Fresh.free grants placed)).same
          (create_same kept grants larger)
      · rw [create_none registry mm larger]
        exact kept

theorem serve_bound {served : Served} (kept : registry.Kept) (grants : registry.Grants nb served)
    (bound : registry.Bound p) : (registry.serve nb served).2.Bound p := by
  cases served with
  | refused => exact bound
  | arena => exact bound
  | mapped mm =>
      unfold Registry.serve
      dsimp only
      by_cases larger : nb < alignUp (wrap (nb + sizeSz)) pageSize
      · exact ((create_same kept grants larger).bound p).mp
          (Registry.bound_enter.mpr (Or.inr bound))
      · rw [create_none registry mm larger]
        exact bound

theorem int_malloc_kept {bytes : Nat} {served : Served} (kept : registry.Kept)
    (grants : ∀ nb, checkedRequest2size bytes = some nb → registry.Grants nb served) :
    (registry.intMalloc bytes served).Kept := by
  unfold Registry.intMalloc
  cases requested : checkedRequest2size bytes with
  | none => exact kept
  | some nb => exact serve_kept kept (grants nb requested)

/-! ## Releasing keeps the tables -/

theorem munmap_chunk_eq (kept : registry.Kept) (holds : registry.Holds p record) :
    registry.munmapChunk p = some
      (({ registry.addMem (wrapSub 0 (wrap (record.prevSize + record.size))) with
        bound := Function.update registry.bound p none }).munmap (wrapSub p record.prevSize)
          (wrap (record.prevSize + record.size))) := by
  have placed := kept.placed p record holds
  have first : wrapSub p record.prevSize % pageSize = 0 := by
    rw [placed.first]
    exact placed.block
  have total : wrap (record.prevSize + record.size) % pageSize = 0 := by
    rw [placed.total]
    exact placed.pages
  unfold Registry.munmapChunk
  rw [holds.lookup]
  dsimp only
  rw [if_neg (not_or.mpr ⟨not_not.mpr first, not_not.mpr total⟩)]
  unfold Registry.lookupDeleteMmap
  rw [if_pos (show ((registry.addMem _).bound p).isSome = true from holds.bound)]
  rfl

theorem release_eq (kept : registry.Kept) (holds : registry.Holds p record) :
    ∃ after, registry.release p = some after ∧ (registry.withdraw p record).Same after := by
  unfold Registry.release
  rw [munmap_chunk_eq kept holds]
  refine ⟨_, rfl, ?_, fun q => Iff.rfl, rfl⟩
  unfold Registry.withdraw Registry.unregisterChunk Registry.munmap Registry.addMem
  dsimp only
  rw [holds.single]
  rfl

theorem release_kept (kept : registry.Kept) (bound : registry.Bound p) :
    ∃ after, registry.release p = some after ∧ after.Kept := by
  obtain ⟨record, holds⟩ := kept.held p bound
  obtain ⟨after, released, same⟩ := release_eq kept holds
  exact ⟨after, released, (kept.withdraw holds).same same⟩

theorem libc_free_kept (kept : registry.Kept) (p : Nat) :
    ∃ after, registry.libcFree p = some after ∧ after.Kept := by
  unfold Registry.libcFree
  by_cases bound : (registry.bound p).isSome = true
  · rw [if_pos bound]
    exact release_kept kept bound
  · rw [if_neg bound]
    exact ⟨registry, rfl, kept⟩

theorem int_free_kept (kept : registry.Kept) (bound : registry.Bound p) :
    ∃ after, registry.intFree p = some after ∧ after.Kept := by
  obtain ⟨record, holds⟩ := kept.held p bound
  unfold Registry.intFree
  rw [holds.lookup]
  dsimp only
  rw [if_pos (kept.flagged p record holds)]
  exact release_kept kept bound

theorem free_check_kept (kept : registry.Kept) (bound : registry.Bound p) (valid : Bool) :
    ∃ after, registry.freeCheck p valid = some after ∧ after.Kept := by
  obtain ⟨record, holds⟩ := kept.held p bound
  unfold Registry.freeCheck
  rw [holds.lookup]
  cases valid with
  | false => exact ⟨registry, rfl, kept⟩
  | true =>
      dsimp only
      rw [if_pos (kept.flagged p record holds)]
      exact release_kept kept bound

/-! ## Remapping keeps the tables -/

def resizedRecord (record : Record) (newSize : Nat) : Record :=
  ⟨record.prevSize, newSize - record.prevSize, true⟩

def Registry.remap (registry : Registry) (p cp newSize : Nat) (record : Record) : Registry :=
  (registry.munmap (wrapSub p record.prevSize) (wrap (record.size + record.prevSize))).map cp
    newSize

theorem resized_placed {cp : Nat} (placed : Placed p record)
    (grants : MappedChunks.Grants record nb (some cp)) (request : ChunkSize nb)
    (fits : nb + record.prevSize + sizeSz + pageSize ≤ 2 ^ 64) :
    Placed (cp + record.prevSize) (resizedRecord record (newLength record nb)) := by
  obtain ⟨large, pages, _⟩ := new_length_exact fits
  obtain ⟨_, block, inside⟩ := grants cp rfl
  have minimal := request.minimal
  unfold resizedRecord
  constructor
  case start => exact Nat.le_add_left _ _
  case offset => exact placed.offset
  case block =>
    dsimp only
    rw [Nat.add_sub_cancel]
    exact block
  case pages =>
    dsimp only
    rw [Nat.add_sub_cancel' (by omega)]
    exact pages
  case positive =>
    simp only [minSize] at minimal
    dsimp only
    omega
  case inside =>
    dsimp only
    omega

theorem resized_region {cp newSize byte : Nat}
    (placed : Placed (cp + record.prevSize) (resizedRecord record newSize))
    (large : record.prevSize ≤ newSize) :
    Region (cp + record.prevSize) (resizedRecord record newSize) byte ↔ In cp newSize byte := by
  rw [placed.region]
  unfold resizedRecord In
  dsimp only
  omega

theorem resize_same {remapped : Registry} {q newSize : Nat} {found : Record}
    (single : remapped.records q = [found]) (offset : found.prevSize = record.prevSize)
    (large : record.prevSize ≤ newSize) (word : newSize < 2 ^ 64)
    (whole : (newSize - record.prevSize) % 4 = 0) :
    (remapped.resize q newSize record).records =
      Function.update remapped.records q [resizedRecord record newSize] := by
  unfold Registry.resize Registry.addMem Registry.setHead
  dsimp only
  rw [single]
  unfold MappedChunks.setHead resizedRecord
  rw [wrap_sub_exact large word, chunksize, whole]
  dsimp only
  rw [offset]
  rfl

theorem remap_mapped {cp : Nat}
    (region : ∀ byte, Region q second byte ↔ In cp newSize byte) :
    (registry.remap p cp newSize record).mapped =
      ((registry.withdraw p record).enter q second).mapped := by
  unfold Registry.remap Registry.map Registry.munmap Registry.enter Registry.withdraw
  dsimp only
  funext byte
  rw [decide_eq_decide.mpr (region byte), Nat.add_comm record.size]
  rfl

theorem remap_in_place {cp : Nat} (holds : registry.Holds p record)
    (region : ∀ byte, Region p (resizedRecord record newSize) byte ↔ In cp newSize byte)
    (large : record.prevSize ≤ newSize) (word : newSize < 2 ^ 64)
    (whole : (newSize - record.prevSize) % 4 = 0) :
    ((registry.withdraw p record).enter p (resizedRecord record newSize)).Same
      ((registry.remap p cp newSize record).resize p newSize record) where
  records := by
    have single : (registry.remap p cp newSize record).records p = [record] := holds.single
    rw [resize_same single rfl large word whole]
    exact Function.update_idem ..
  bound := by
    intro q
    rw [Registry.bound_enter, Registry.bound_withdraw]
    by_cases same : q = p
    · subst same
      exact iff_of_true (Or.inl rfl) holds.bound
    · rw [or_iff_right same, and_iff_right same]
      exact Iff.rfl
  mapped := (remap_mapped region).symm

theorem remap_elsewhere {cp : Nat} (holds : registry.Holds p record)
    (region : ∀ byte, Region q (resizedRecord record newSize) byte ↔ In cp newSize byte)
    (large : record.prevSize ≤ newSize) (word : newSize < 2 ^ 64)
    (whole : (newSize - record.prevSize) % 4 = 0)
    (differs : q ≠ p) (unrecorded : registry.records q = []) :
    ∃ moved, (registry.remap p cp newSize record).move p q newSize record = some moved ∧
      ((registry.withdraw p record).enter q (resizedRecord record newSize)).Same
        (moved.resize q newSize record) := by
  have bound : (((registry.remap p cp newSize record).unregisterChunk p).bound p).isSome = true :=
    holds.bound
  unfold Registry.move Registry.lookupDeleteMmap
  rw [if_pos bound]
  refine ⟨_, rfl, ?_, ?_, (remap_mapped region).symm⟩
  · have before : Function.update registry.records p (registry.records p).tail q = [] := by
      rw [Function.update_of_ne differs]
      exact unrecorded
    have single : Function.update (Function.update registry.records p (registry.records p).tail) q
        (⟨record.prevSize, 0, false⟩ ::
          Function.update registry.records p (registry.records p).tail q) q =
        [⟨record.prevSize, 0, false⟩] := by
      rw [Function.update_self, before]
    have offset : (⟨record.prevSize, 0, false⟩ : Record).prevSize = record.prevSize := rfl
    refine Eq.trans ?_ (resize_same single offset large word whole).symm
    have tail : (registry.records p).tail = [] := by
      rw [holds.single]
      rfl
    unfold Registry.enter Registry.withdraw Registry.registerChunk
    dsimp only
    rw [Function.update_idem, ← tail]
    rfl
  · intro other
    rw [Registry.bound_enter, Registry.bound_withdraw]
    refine Iff.trans ?_ (Registry.bound_add _ q newSize other).symm
    refine or_congr_right ?_
    unfold Registry.Bound
    dsimp only
    by_cases same : other = p
    · subst same
      rw [Function.update_self]
      exact iff_of_false (fun either => either.1 rfl) Bool.false_ne_true
    · rw [Function.update_of_ne same, and_iff_right same]
      exact Iff.rfl

theorem resized_free {cp : Nat} (remaps : registry.Remaps p nb record (some cp))
    (region : ∀ byte, Region q second byte ↔ In cp (newLength record nb) byte) :
    (registry.withdraw p record).Free q second := by
  intro byte inside
  by_cases old : Region p record byte
  · exact Registry.free_withdraw byte old
  · rw [Registry.mapped_withdraw old]
    exact remaps.unused cp byte rfl ((region byte).mp inside) old

/-- `mremap_chunk`, when its sum does not wrap around or `mremap` fails. -/
theorem mremap_kept (kept : registry.Kept) (holds : registry.Holds p record)
    (request : ChunkSize nb) (remaps : registry.Remaps p nb record answer)
    (fits : answer ≠ none → nb + record.prevSize + sizeSz + pageSize ≤ 2 ^ 64) :
    ∃ moved after, registry.mremapChunk p nb answer = some (moved, after) ∧ after.Kept ∧
      (moved = none → after = registry) := by
  unfold Registry.mremapChunk
  rw [holds.lookup]
  dsimp only
  by_cases same : wrap (record.size + record.prevSize) = newLength record nb
  · rw [if_pos same]
    exact ⟨some p, registry, rfl, kept, fun impossible => by cases impossible⟩
  · rw [if_neg same]
    cases answer with
    | none => exact ⟨none, registry, rfl, kept, fun _ => rfl⟩
    | some cp =>
        have sum := fits (Option.some_ne_none cp)
        obtain ⟨large, pages, word⟩ := new_length_exact sum
        have placed := resized_placed (kept.placed p record holds) remaps.grants request sum
        have before : record.prevSize ≤ newLength record nb := by omega
        have region : ∀ byte, Region _ _ byte ↔ In cp (newLength record nb) byte :=
          fun byte => resized_region placed before
        have entered := (kept.withdraw holds).enter placed rfl (resized_free remaps region)
        have whole : (newLength record nb - record.prevSize) % 4 = 0 := by
          have sixteenth := (kept.placed p record holds).offset
          simp only [pageSize] at pages
          omega
        have inside := placed.inside
        have new : wrap (cp + record.prevSize) = cp + record.prevSize :=
          Nat.mod_eq_of_lt (by omega)
        dsimp only
        rw [new]
        by_cases still : cp + record.prevSize = p
        · rw [if_pos still]
          rw [still] at region entered
          refine ⟨_, _, rfl, entered.same (remap_in_place holds region before word whole), ?_⟩
          intro impossible
          cases impossible
        · rw [if_neg still]
          have unrecorded : registry.records (cp + record.prevSize) = [] := by
            by_contra present
            refine still (kept.alone p record _ holds present ?_)
            by_contra old
            have unused := remaps.unused cp _ rfl ((region _).mp placed.own) old
            rw [kept.recorded _ present] at unused
            cases unused
          obtain ⟨moved, move, same⟩ :=
            remap_elsewhere holds region before word whole still unrecorded
          have move' : ((registry.munmap (wrapSub p record.prevSize)
              (wrap (record.size + record.prevSize))).map cp (newLength record nb)).move p
                (cp + record.prevSize) (newLength record nb) record = some moved := move
          rw [move']
          refine ⟨_, _, rfl, entered.same same, ?_⟩
          intro impossible
          cases impossible

theorem realloc_mapped_kept {served : Served} (kept : registry.Kept)
    (holds : registry.Holds p record) (request : ChunkSize nb)
    (remaps : registry.Remaps p nb record answer) (grants : registry.Grants nb served)
    (fits : answer ≠ none → nb + record.prevSize + sizeSz + pageSize ≤ 2 ^ 64) :
    ∃ after, registry.reallocMapped p nb record answer served = some after ∧ after.Kept := by
  obtain ⟨moved, after, remapped, still, failed⟩ := mremap_kept kept holds request remaps fits
  unfold Registry.reallocMapped
  rw [remapped]
  dsimp only [Option.bind_some]
  by_cases enough : moved.isSome ∨ nb ≤ wrapSub record.size sizeSz
  · rw [if_pos enough]
    exact ⟨after, rfl, still⟩
  · rw [if_neg enough]
    have same : after = registry := failed (by
      cases moved with
      | none => rfl
      | some _ => exact absurd (Or.inl rfl) enough)
    have kept' := serve_kept kept grants
    have bound := serve_bound kept grants holds.bound
    rw [same]
    generalize registry.serve nb served = result at kept' bound
    obtain ⟨found, later⟩ := result
    cases found with
    | false => exact ⟨later, rfl, kept'⟩
    | true => exact release_kept kept' bound

def Registry.Resizes (registry : Registry) (p bytes : Nat) (answer : Option Nat)
    (served : Served) : Prop :=
  ∀ record nb, registry.Holds p record → checkedRequest2size bytes = some nb →
    registry.Remaps p nb record answer ∧ registry.Grants nb served

/-- The sum of `mremap_chunk` does not wrap around, or `mremap` fails. -/
def Registry.LengthFits (registry : Registry) (p bytes : Nat) (answer : Option Nat) : Prop :=
  ∀ record nb, registry.Holds p record → checkedRequest2size bytes = some nb →
    answer ≠ none → nb + record.prevSize + sizeSz + pageSize ≤ 2 ^ 64

theorem libc_realloc_kept {bytes : Nat} {replenished : Bool} {served : Served}
    (kept : registry.Kept) (bound : registry.Bound p)
    (resizes : registry.Resizes p bytes answer served)
    (fits : registry.LengthFits p bytes answer) :
    ∃ after, registry.libcRealloc p bytes replenished answer served = some after ∧
      after.Kept := by
  obtain ⟨record, holds⟩ := kept.held p bound
  unfold Registry.libcRealloc
  rw [holds.lookup]
  by_cases zero : bytes = 0
  · rw [if_pos zero]
    exact libc_free_kept kept p
  · rw [if_neg zero]
    cases replenished with
    | false => exact ⟨registry, rfl, kept⟩
    | true =>
        cases requested : checkedRequest2size bytes with
        | none => exact ⟨registry, rfl, kept⟩
        | some nb =>
            obtain ⟨remaps, grants⟩ := resizes record nb holds requested
            dsimp only
            split_ifs with invalid
            · exact ⟨registry, rfl, kept⟩
            · exact realloc_mapped_kept kept holds (request_chunk_size requested) remaps grants
                (fits record nb holds requested)
            · exact ⟨registry, rfl, kept⟩

theorem realloc_check_kept {bytes : Nat} {valid : Bool} {served : Served}
    (kept : registry.Kept) (bound : registry.Bound p)
    (resizes : registry.Resizes p (bytes + 1) answer served)
    (fits : registry.LengthFits p (bytes + 1) answer) :
    ∃ after, registry.reallocCheck p bytes valid answer served = some after ∧ after.Kept := by
  obtain ⟨record, holds⟩ := kept.held p bound
  unfold Registry.reallocCheck
  rw [holds.lookup]
  by_cases maximal : wrap (bytes + 1) = 0
  · rw [if_pos maximal]
    exact ⟨registry, rfl, kept⟩
  · rw [if_neg maximal]
    by_cases zero : bytes = 0
    · rw [if_pos zero]
      exact free_check_kept kept bound valid
    · rw [if_neg zero]
      dsimp only
      by_cases accepted : valid = true
      · rw [if_pos accepted]
        cases requested : checkedRequest2size (bytes + 1) with
        | none => exact ⟨registry, rfl, kept⟩
        | some nb =>
            obtain ⟨remaps, grants⟩ := resizes record nb holds requested
            dsimp only
            rw [if_pos (kept.flagged p record holds)]
            exact realloc_mapped_kept kept holds (request_chunk_size requested) remaps grants
              (fits record nb holds requested)
      · rw [if_neg accepted]
        refine ⟨_, rfl, int_malloc_kept kept fun nb requested => ?_⟩
        exact (resizes record nb holds requested).2

/-! ## Aligning keeps the tables -/

def laterRecord (record : Record) (lead : Nat) : Record :=
  ⟨record.prevSize + lead, record.size - lead, true⟩

def Registry.relocate (registry : Registry) (p lead : Nat) (record : Record) :
    Option Registry :=
  (((registry.registerChunk (p + lead) (laterRecord record lead)).lookupAddMmap (p + lead)
    record.size).lookupDeleteMmap p).map fun registry => registry.unregisterChunk p

theorem later_placed {lead : Nat} (placed : Placed p record) (whole : lead % 16 = 0)
    (small : lead < record.size) : Placed (p + lead) (laterRecord record lead) := by
  have start := placed.start
  have offset := placed.offset
  have pages := placed.pages
  have inside := placed.inside
  unfold laterRecord
  constructor
  case start =>
    dsimp only
    omega
  case offset =>
    dsimp only
    omega
  case block =>
    dsimp only
    rw [Nat.add_sub_add_right]
    exact placed.block
  case pages =>
    have sum : record.prevSize + lead + (record.size - lead) = record.prevSize + record.size := by
      omega
    dsimp only
    rw [sum]
    exact pages
  case positive =>
    dsimp only
    omega
  case inside =>
    dsimp only
    omega

theorem later_region {lead byte : Nat} (placed : Placed p record)
    (later : Placed (p + lead) (laterRecord record lead)) (small : lead < record.size) :
    Region (p + lead) (laterRecord record lead) byte ↔ Region p record byte := by
  have start := placed.start
  rw [placed.region, later.region]
  unfold laterRecord
  dsimp only
  omega

theorem relocate_same {lead : Nat} (kept : registry.Kept) (holds : registry.Holds p record)
    (later : Placed (p + lead) (laterRecord record lead)) (small : lead < record.size)
    (positive : 0 < lead) :
    ∃ after, registry.relocate p lead record = some after ∧
      ((registry.withdraw p record).enter (p + lead) (laterRecord record lead)).Same after := by
  have placed := kept.placed p record holds
  have differs : p ≠ p + lead := by omega
  have unrecorded : registry.records (p + lead) = [] := by
    by_contra present
    have own := (later_region placed later small).mp later.own
    exact differs (kept.alone p record (p + lead) holds present own).symm
  have bound : (((registry.registerChunk (p + lead) (laterRecord record lead)).lookupAddMmap
      (p + lead) record.size).bound p).isSome = true :=
    (Registry.bound_add _ (p + lead) record.size p).mpr (Or.inr holds.bound)
  unfold Registry.relocate Registry.lookupDeleteMmap
  rw [if_pos bound]
  refine ⟨_, rfl, ?_, ?_, ?_⟩
  · unfold Registry.enter Registry.withdraw Registry.unregisterChunk Registry.lookupAddMmap
      Registry.registerChunk
    dsimp only
    rw [Function.update_of_ne differs, holds.single, unrecorded,
      Function.update_comm differs.symm]
    rfl
  · intro q
    rw [Registry.bound_enter, Registry.bound_withdraw]
    unfold Registry.Bound Registry.unregisterChunk Registry.lookupAddMmap Registry.registerChunk
    dsimp only
    by_cases same : q = p
    · subst same
      rw [Function.update_self, or_iff_right differs]
      exact iff_of_false (fun either => either.1 rfl) Bool.false_ne_true
    · rw [Function.update_of_ne same, and_iff_right same]
      exact (Registry.bound_add registry (p + lead) record.size q).symm
  · unfold Registry.enter Registry.withdraw Registry.unregisterChunk Registry.lookupAddMmap
      Registry.registerChunk
    dsimp only
    funext byte
    rw [decide_eq_decide.mpr (later_region placed later small)]
    by_cases inside : Region p record byte
    · rw [decide_eq_true inside, kept.backed p record holds byte inside]
      rfl
    · rw [decide_eq_false inside]
      rfl

theorem align_chunk_kept {k : Nat} (low : 5 ≤ k) (below : k < 64) (kept : registry.Kept)
    (holds : registry.Holds p record) (metadata : Bool)
    (room : nb + 2 ^ k + minSize ≤ record.size) :
    ∃ after, registry.alignChunk p (2 ^ k) nb metadata record = some after ∧ after.Kept := by
  have placed := kept.placed p record holds
  have start := placed.start
  have offset := placed.offset
  have block := placed.block
  have pages := placed.pages
  have inside := placed.inside
  have least : minSize = 32 := rfl
  have sixteenth : p % 16 = 0 ∧ record.size % 16 = 0 := by
    simp only [pageSize] at block pages
    omega
  unfold Registry.alignChunk
  by_cases aligned : p % 2 ^ k = 0
  · rw [if_pos aligned]
    exact ⟨registry, rfl, kept⟩
  · rw [if_neg aligned]
    obtain ⟨lead, spot, minimal, most, _, whole⟩ :=
      align_spot_spec low below sixteenth.1 (by omega) aligned
    have leadsize : wrapSub (p + lead) p = lead := by
      rw [wrap_sub_exact (Nat.le_add_right _ _) (by omega), Nat.add_sub_cancel_left]
    have newsize : chunksize (wrapSub record.size lead) = record.size - lead := by
      rw [wrap_sub_exact (by omega) (by omega), chunksize]
      omega
    have prevsize : wrap (record.prevSize + lead) = record.prevSize + lead :=
      Nat.mod_eq_of_lt (by omega)
    have later := later_placed placed whole (by omega)
    obtain ⟨after, relocated, same⟩ := relocate_same kept holds later (by omega) (by omega)
    have free : (registry.withdraw p record).Free (p + lead) (laterRecord record lead) :=
      fun byte inside => Registry.free_withdraw byte
        ((later_region placed later (by omega)).mp inside)
    have entered := (kept.withdraw holds).enter later rfl free
    unfold moveBlock
    dsimp only
    rw [spot, leadsize, newsize, prevsize, if_pos rfl]
    cases metadata with
    | false => exact ⟨registry, rfl, kept⟩
    | true => exact ⟨after, relocated, entered.same same⟩

/-- The sum of `_int_memalign` does not wrap around, or its chunk is not mapped. -/
def AlignmentFits (alignment bytes : Nat) (served : Served) : Prop :=
  ∀ nb mm, checkedRequest2size bytes = some nb → served = .mapped mm →
    nb + alignment + minSize < 2 ^ 64

theorem int_memalign_kept {k bytes : Nat} {served : Served} {metadata : Bool} (low : 5 ≤ k)
    (below : k < 64) (kept : registry.Kept)
    (grants : ∀ nb padded, checkedRequest2size bytes = some nb →
      checkedRequest2size (wrap (wrap (nb + 2 ^ k) + minSize)) = some padded →
        registry.Grants padded served)
    (fits : AlignmentFits (2 ^ k) bytes served) :
    ∃ after, registry.intMemalign (2 ^ k) bytes served metadata = some after ∧ after.Kept := by
  unfold Registry.intMemalign
  cases requested : checkedRequest2size bytes with
  | none => exact ⟨registry, rfl, kept⟩
  | some nb =>
      dsimp only
      cases padded' : checkedRequest2size (wrap (wrap (nb + 2 ^ k) + minSize)) with
      | none => exact ⟨registry, rfl, kept⟩
      | some padded =>
          have granted := grants nb padded requested padded'
          match served, granted with
          | .refused, _ => exact ⟨registry, rfl, kept⟩
          | .arena, _ => exact ⟨registry, rfl, kept⟩
          | .mapped mm, fresh =>
              dsimp only
              by_cases larger : padded < alignUp (wrap (padded + sizeSz)) pageSize
              · have placed := Registry.Fresh.placed fresh larger
                have same := create_same kept fresh larger
                have created := kept.enter placed rfl (Registry.Fresh.free fresh placed)
                have holds : (registry.create padded (some mm)).2.Holds mm (mappedRecord padded) :=
                  (Registry.holds_enter.mpr (Or.inl ⟨rfl, rfl⟩)).same same
                have room : nb + 2 ^ k + minSize ≤ (mappedRecord padded).size := by
                  have sum := fits nb mm requested rfl
                  have inner : wrap (nb + 2 ^ k) = nb + 2 ^ k := Nat.mod_eq_of_lt (by omega)
                  rw [inner, wrap, Nat.mod_eq_of_lt sum] at padded'
                  have large := request_padded (nb + 2 ^ k + minSize)
                  rw [← (request_checked padded').2] at large
                  unfold mappedRecord
                  dsimp only
                  omega
                rw [holds.lookup, create_eq registry mm larger]
                have aligned := align_chunk_kept low below (created.same same) holds metadata room
                rw [create_eq registry mm larger] at aligned
                exact aligned
              · rw [create_none registry mm larger]
                exact ⟨registry, rfl, kept⟩

end SriGlibcMalloc.MappedChunks
