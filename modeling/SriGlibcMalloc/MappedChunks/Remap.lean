import SriGlibcMalloc.MappedChunks.Model

/-!
# Resizing a mapped chunk

`mremap_chunk` adds the offset of the chunk and a word to the padded request and rounds
up to pages. `sysmalloc` tests that such a sum does not wrap around, this routine does not.
-/

namespace SriGlibcMalloc.MappedChunks

open EntryPoints (minSize checkedRequest2size)
open Bins (ChunkSize request_chunk_size)
open MainArena (wrap wrapSub alignUp alignDown pageSize sizeSz chunksize wrap_sub_exact)

set_option autoImplicit false

/-- A chunk in a mapping that is counted, with any offset that `memalign` produces. -/
structure Live (registry : Registry) (p : Nat) (record : Record) : Prop where
  found : registry.lookupChunk p = some record
  bound : (registry.bound p).isSome = true
  offset : record.prevSize % 16 = 0
  pages : (record.prevSize + record.size) % pageSize = 0
  start : record.prevSize ≤ p
  inside : p + record.size < 2 ^ 63
  counted : record.prevSize + record.size ≤ registry.mmappedMem
  memory : registry.mmappedMem < 2 ^ 63

/-- `mremap` fails, or returns a mapping of the length that was asked for, which is not zero. -/
def Grants (record : Record) (nb : Nat) (answer : Option Nat) : Prop :=
  ∀ cp, answer = some cp →
    0 < newLength record nb ∧ cp % pageSize = 0 ∧ cp + newLength record nb < 2 ^ 63

/-- The chunk lies in its mapping of the given start and length and is large enough, the
offset and the size add up to the length, and the change of the length is counted. -/
structure Resized (before after : Registry) (old : Record) (q nb start length : Nat)
    (record : Record) : Prop where
  found : after.lookupChunk q = some record
  bound : (after.bound q).isSome = true
  within : start ≤ q ∧ q < start + length
  place : q = start + record.prevSize
  large : nb ≤ record.size
  total : record.prevSize + record.size = length
  word : length < 2 ^ 64
  counted : after.mmappedMem + (old.prevSize + old.size) = before.mmappedMem + length

/-- What is promised of a call: it does not abort, a failure changes nothing, and a success
leaves the chunk in the old mapping or in the one that `mremap` returned. -/
def ResizedWell (registry : Registry) (p nb : Nat) (record : Record) (answer : Option Nat) :
    Option (Option Nat × Registry) → Prop
  | none => False
  | some (none, after) => after = registry
  | some (some q, after) => ∃ start resized,
      (start = p - record.prevSize ∨ answer = some start) ∧
        Resized registry after record q nb start (newLength record nb) resized

/-- The sum does not wrap around; or `mremap` fails, and is asked at all. -/
def SumFits (record : Record) (nb : Nat) (answer : Option Nat) : Prop :=
  nb + record.prevSize + sizeSz + pageSize ≤ 2 ^ 64 ∨
    (answer = none ∧ record.prevSize + record.size ≠ newLength record nb)

variable {registry after : Registry} {p nb q cp : Nat} {record : Record} {answer : Option Nat}

theorem new_length_exact (fits : nb + record.prevSize + sizeSz + pageSize ≤ 2 ^ 64) :
    nb + record.prevSize + sizeSz ≤ newLength record nb ∧
      newLength record nb % pageSize = 0 ∧ newLength record nb < 2 ^ 64 := by
  unfold newLength alignUp alignDown wrap
  simp only [pageSize, sizeSz] at *
  omega

/-- A sum that wraps gives a length that is far too small. -/
theorem new_length_wrapped (request : nb < 2 ^ 64) (offset : record.prevSize < 2 ^ 63)
    (wraps : ¬nb + record.prevSize + sizeSz + pageSize ≤ 2 ^ 64) :
    newLength record nb + 2 ^ 64 < nb + record.prevSize + sizeSz + pageSize := by
  unfold newLength alignUp alignDown wrap
  simp only [pageSize, sizeSz] at *
  omega

/-- No chunk is large enough in a length that has wrapped. -/
theorem not_resized_of_wrap {start : Nat} {resized : Record} (request : ChunkSize nb)
    (live : Live registry p record)
    (wraps : ¬nb + record.prevSize + sizeSz + pageSize ≤ 2 ^ 64) :
    ¬Resized registry after record q nb start (newLength record nb) resized := by
  intro well
  have room := request.room
  have small := live.start
  have inside := live.inside
  have large := well.large
  have total := well.total
  have short := new_length_wrapped (by omega) (by omega) wraps
  simp only [pageSize, sizeSz] at short
  omega

theorem resize_lookup (registry : Registry) (newSize : Nat) (record : Record) {found : Record}
    (present : registry.lookupChunk q = some found) :
    (registry.resize q newSize record).lookupChunk q = some
      { found with size := chunksize (wrapSub newSize record.prevSize), mmapped := true } := by
  unfold Registry.lookupChunk Registry.resize Registry.addMem Registry.setHead at *
  dsimp only
  rw [Function.update_self]
  cases shape : registry.records q with
  | nil =>
      rw [shape] at present
      cases present
  | cons first others =>
      rw [shape] at present
      cases present
      rfl

theorem resize_counted {newSize : Nat} (live : Live registry p record)
    (same : after.mmappedMem = registry.mmappedMem) (word : newSize < 2 ^ 63) :
    (after.resize q newSize record).mmappedMem + (record.prevSize + record.size) =
      registry.mmappedMem + newSize := by
  have counted := live.counted
  have memory := live.memory
  have inside := live.inside
  have start := live.start
  unfold Registry.resize Registry.addMem Registry.setHead
  dsimp only
  rw [same]
  unfold wrapSub wrap
  omega

theorem move_spec (registry : Registry) (p q newSize : Nat) (record : Record)
    (bound : (registry.bound p).isSome = true) :
    ∃ moved, registry.move p q newSize record = some moved ∧
      moved.lookupChunk q = some ⟨record.prevSize, 0, false⟩ ∧
      (moved.bound q).isSome = true ∧ moved.mmappedMem = registry.mmappedMem := by
  unfold Registry.move Registry.lookupDeleteMmap Registry.unregisterChunk
  dsimp only
  rw [if_pos bound]
  refine ⟨_, rfl, ?_, ?_, rfl⟩
  · unfold Registry.lookupChunk Registry.registerChunk
    dsimp only
    rw [Function.update_self]
    rfl
  · unfold Registry.registerChunk Registry.lookupAddMmap
    dsimp only
    rw [Function.update_self]
    rfl

theorem resized_spec (after : Registry) {start newSize : Nat} {found : Record} (live : Live registry p record)
    (fits : nb + record.prevSize + sizeSz + pageSize ≤ 2 ^ 64)
    (same : newSize = newLength record nb) (word : start + newSize < 2 ^ 63)
    (place : q = start + record.prevSize) (present : after.lookupChunk q = some found)
    (offset : found.prevSize = record.prevSize) (bound : (after.bound q).isSome = true)
    (memory : after.mmappedMem = registry.mmappedMem) (positive : 0 < nb) :
    ∃ resized, Resized registry (after.resize q newSize record) record q nb start
      (newLength record nb) resized := by
  have sixteenth := live.offset
  obtain ⟨large, pages, _⟩ := new_length_exact fits
  rw [← same] at large pages ⊢
  have exact' : wrapSub newSize record.prevSize = newSize - record.prevSize :=
    wrap_sub_exact (by omega) (by omega)
  have size : chunksize (newSize - record.prevSize) = newSize - record.prevSize := by
    simp only [chunksize, pageSize] at pages ⊢
    omega
  have resized := resize_lookup after newSize record present
  rw [exact', size] at resized
  constructor
  constructor
  case found => exact resized
  case bound => exact bound
  case within => omega
  case place => exact place.trans (congrArg (start + ·) offset.symm)
  case large =>
      dsimp only
      omega
  case total =>
      dsimp only
      omega
  case word => omega
  case counted => exact resize_counted live memory (Nat.lt_of_add_left_lt word)

theorem same_length_resized (live : Live registry p record)
    (fits : nb + record.prevSize + sizeSz + pageSize ≤ 2 ^ 64)
    (same : record.prevSize + record.size = newLength record nb) (positive : 0 < nb) :
    Resized registry registry record p nb (p - record.prevSize) (newLength record nb) record := by
  have start := live.start
  have inside := live.inside
  obtain ⟨large, _, _⟩ := new_length_exact fits
  refine ⟨live.found, live.bound, ?_, ?_, ?_, same, ?_, ?_⟩ <;> omega

theorem granted_resized (live : Live registry p record)
    (grants : Grants record nb (some cp))
    (fits : nb + record.prevSize + sizeSz + pageSize ≤ 2 ^ 64) (positive : 0 < nb)
    (differs : wrap (record.size + record.prevSize) ≠ newLength record nb) :
    ResizedWell registry p nb record (some cp) (registry.mremapChunk p nb (some cp)) := by
  obtain ⟨_, _, word⟩ := grants cp rfl
  have start := live.start
  have inside := live.inside
  have exact' := new_length_exact fits
  have new : wrap (cp + record.prevSize) = cp + record.prevSize := Nat.mod_eq_of_lt (by omega)
  unfold Registry.mremapChunk
  rw [live.found]
  dsimp only
  rw [if_neg differs, new]
  by_cases still : cp + record.prevSize = p
  · rw [if_pos still]
    subst still
    obtain ⟨resized, well⟩ := resized_spec
      ((registry.munmap (wrapSub (cp + record.prevSize) record.prevSize)
        (wrap (record.size + record.prevSize))).map cp (newLength record nb))
      live fits rfl word rfl live.found rfl live.bound rfl positive
    exact ⟨cp, resized, Or.inr rfl, well⟩
  · rw [if_neg still]
    obtain ⟨moved, move, present, bound, memory⟩ := move_spec
      ((registry.munmap (wrapSub p record.prevSize)
        (wrap (record.size + record.prevSize))).map cp (newLength record nb))
      p (cp + record.prevSize) (newLength record nb) record live.bound
    rw [move]
    obtain ⟨resized, well⟩ :=
      resized_spec moved live fits rfl word rfl present rfl bound memory positive
    exact ⟨cp, resized, Or.inr rfl, well⟩

theorem mremap_failure (found : registry.lookupChunk p = some record)
    (failed : registry.mremapChunk p nb answer = some (none, after)) :
    answer = none ∧ wrap (record.size + record.prevSize) ≠ newLength record nb ∧
      after = registry := by
  unfold Registry.mremapChunk at failed
  rw [found] at failed
  dsimp only at failed
  by_cases same : wrap (record.size + record.prevSize) = newLength record nb
  · rw [if_pos same] at failed
    cases failed
  · rw [if_neg same] at failed
    cases answer with
    | none =>
        cases failed
        exact ⟨rfl, same, rfl⟩
    | some cp =>
        dsimp only at failed
        split_ifs at failed
        · cases failed
        · obtain ⟨moved, _, impossible⟩ := Option.map_eq_some_iff.mp failed
          cases impossible

/-- When the sum wraps nothing is right but a failure. -/
theorem wrapped_fails {result : Option (Option Nat × Registry)} (request : ChunkSize nb)
    (live : Live registry p record)
    (wraps : ¬nb + record.prevSize + sizeSz + pageSize ≤ 2 ^ 64)
    (well : ResizedWell registry p nb record answer result) :
    ∃ after, result = some (none, after) := by
  match result, well with
  | some (none, after), _ => exact ⟨after, rfl⟩
  | some (some q, after), ⟨start, resized, _, fits⟩ =>
      exact absurd fits (not_resized_of_wrap request live wraps)

/-- A chunk is resized well exactly when the sum fits, or when the failure is reported. -/
theorem mremap_resizes_iff (registry : Registry) (p bytes nb : Nat) (record : Record)
    (answer : Option Nat) (requested : checkedRequest2size bytes = some nb)
    (live : Live registry p record) (grants : Grants record nb answer) :
    ResizedWell registry p nb record answer (registry.mremapChunk p nb answer) ↔
      SumFits record nb answer := by
  have request := request_chunk_size requested
  have positive : 0 < nb := Nat.lt_of_lt_of_le (by decide) request.minimal
  have start := live.start
  have inside := live.inside
  have old : wrap (record.size + record.prevSize) = record.prevSize + record.size := by
    rw [Nat.add_comm]
    exact Nat.mod_eq_of_lt (by omega)
  by_cases fits : nb + record.prevSize + sizeSz + pageSize ≤ 2 ^ 64
  · refine iff_of_true ?_ (Or.inl fits)
    by_cases same : record.prevSize + record.size = newLength record nb
    · unfold Registry.mremapChunk
      rw [live.found]
      dsimp only
      rw [old, if_pos same]
      exact ⟨_, record, Or.inl rfl, same_length_resized live fits same positive⟩
    · cases answer with
      | none =>
          unfold Registry.mremapChunk
          rw [live.found]
          dsimp only
          rw [old, if_neg same]
          exact rfl
      | some cp =>
          apply granted_resized live grants fits positive
          rw [old]
          exact same
  · constructor
    · intro well
      obtain ⟨after, result⟩ := wrapped_fails request live fits well
      obtain ⟨failed, differs, _⟩ := mremap_failure live.found result
      rw [old] at differs
      exact Or.inr ⟨failed, differs⟩
    · intro either
      obtain ⟨failed, differs⟩ := either.resolve_left fits
      rw [failed]
      unfold Registry.mremapChunk
      rw [live.found]
      dsimp only
      rw [old, if_neg differs]
      exact rfl

/-- A chunk that `memalign (8192, 200000)` has moved one page into its mapping. -/
def offsetRecord : Record := ⟨0x1000, 0x32000, true⟩

def offsetRegistry : Registry where
  records := fun addr => if addr = 0x7f0000002000 then [offsetRecord] else []
  bound := fun addr => if addr = 0x7f0000002000 then some 0x33000 else none
  mapped := fun byte => decide (0x7f0000001000 ≤ byte ∧ byte < 0x7f0000034000)
  mmappedMem := 0x33000

theorem offset_chunk_live : Live offsetRegistry 0x7f0000002000 offsetRecord := by
  constructor <;> decide

theorem larger_mapping_resizes :
    ResizedWell offsetRegistry 0x7f0000002000 300000 offsetRecord (some 0x7f1000000000)
        (offsetRegistry.mremapChunk 0x7f0000002000 300000 (some 0x7f1000000000)) ↔
      SumFits offsetRecord 300000 (some 0x7f1000000000) := by
  apply mremap_resizes_iff offsetRegistry 0x7f0000002000 300000 300000 offsetRecord
    (some 0x7f1000000000) (by decide) offset_chunk_live
  intro cp same
  cases same
  decide

def largestRequest : Nat := 2 ^ 64 - 65
def largestSize : Nat := 2 ^ 64 - 64

/-- The largest request shrinks the mapping to the page before the chunk, and succeeds. -/
theorem largest_request_shrinks :
    ¬∀ (registry : Registry) (p bytes nb : Nat) (record : Record) (answer : Option Nat),
      checkedRequest2size bytes = some nb → Live registry p record → Grants record nb answer →
        ResizedWell registry p nb record answer (registry.mremapChunk p nb answer) := by
  intro claimed
  have requested : checkedRequest2size largestRequest = some largestSize := by decide +kernel
  have grants : Grants offsetRecord largestSize (some 0x7f0000001000) := by
    intro cp same
    cases same
    decide +kernel
  have well := claimed offsetRegistry 0x7f0000002000 largestRequest largestSize offsetRecord
    (some 0x7f0000001000) requested offset_chunk_live grants
  obtain ⟨after, failed⟩ :=
    wrapped_fails (request_chunk_size requested) offset_chunk_live (by decide +kernel) well
  have answered : (offsetRegistry.mremapChunk 0x7f0000002000 largestSize
      (some 0x7f0000001000)).map Prod.fst = some (some 0x7f0000002000) := by decide +kernel
  rw [failed, Option.map_some] at answered
  exact Option.some_ne_none _ (Option.some.inj answered).symm

end SriGlibcMalloc.MappedChunks
