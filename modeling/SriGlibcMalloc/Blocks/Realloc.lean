import SriGlibcMalloc.Blocks.Malloced

/-!
# Resizing a chunk of an arena

`_int_realloc` keeps or splits the chunk, extends it into top or into a free chunk after
it, or allocates: when the new chunk happens to be the one after it the two are merged,
else the contents are copied. The tests of the sizes abort the process.
-/

namespace SriGlibcMalloc.Blocks

open Bins
open EntryPoints (minSize checkedRequest2size request2size mallocAlignMask)
open MainArena (wrap wrapSub sizeSz chunksize wrap_sub_exact)

set_option autoImplicit false

/-- The chunk after the one that is resized, with the head of its record. -/
structure Following where
  head : Nat
  top : Bool
  inuse : Bool
  deriving DecidableEq, Repr

/-- What becomes of the chunk: it stays, with what it could have had and what is given
back, or so many bytes are copied to another one. -/
inductive Resizing
  | placed (block : Block) (newsize : Nat) (remainder : Option FreeChunk)
  | copied (block : Block) (amount : Nat)
  | failed
  deriving DecidableEq, Repr

/-- The end of `_int_realloc`. -/
def keepOrSplit (old : Block) (newsize nb : Nat) : Resizing :=
  let remainderSize := wrapSub newsize nb
  if remainderSize < minSize then
    .placed { old with size := newsize, inuse := true } newsize none
  else
    .placed { old with size := nb, inuse := true } newsize
      (some ⟨wrap (old.addr + nb), remainderSize⟩)

def intoTop (old : Block) (newsize nb : Nat) : Resizing :=
  .placed { old with size := nb, inuse := true } nb
    (some ⟨wrap (old.addr + nb), wrapSub newsize nb⟩)

/-- `_int_realloc`, given what `_int_malloc` answers to `nb - MALLOC_ALIGN_MASK`. -/
def intRealloc (old : Block) (next : Following) (systemMem nb : Nat)
    (malloced : Option Block) : Option Resizing :=
  let nextsize := chunksize next.head
  let newsize := wrap (old.size + nextsize)
  if old.size < 2 * sizeSz ∨ systemMem ≤ old.size then none
  else if next.head ≤ 2 * sizeSz ∨ systemMem ≤ nextsize then none
  else if nb ≤ old.size then some (keepOrSplit old old.size nb)
  else if next.top ∧ wrap (nb + minSize) ≤ newsize then some (intoTop old newsize nb)
  else if ¬next.top ∧ ¬next.inuse ∧ nb ≤ newsize then some (keepOrSplit old newsize nb)
  else
    match malloced with
    | none => some .failed
    | some new =>
        if new.addr = wrap (old.addr + old.size) then
          some (keepOrSplit old (wrap (new.size + old.size)) nb)
        else some (.copied new old.size)

/-- The next chunk ends in memory, where the old one ends with it. -/
structure Following.After (next : Following) (old : Block) : Prop where
  whole : chunksize next.head % 16 = 0
  inside : old.addr + old.size + chunksize next.head < 2 ^ 63

def Answers (nb : Nat) (malloced : Option Block) : Prop :=
  ∀ new, malloced = some new → ∃ source, Malloced (nb - mallocAlignMask) source new

variable {old block new : Block} {next : Following} {systemMem newsize nb bytes amount : Nat}
variable {malloced : Option Block} {remainder : Option FreeChunk} {source : Source}
variable {resizing : Resizing}

/-- The padded size less the mask is padded to the same size. -/
theorem request_again (requested : checkedRequest2size bytes = some nb) :
    checkedRequest2size (nb - mallocAlignMask) = some nb := by
  obtain ⟨accepted, padded⟩ := request_checked requested
  have whole := (request_chunk_size requested).aligned
  have minimal := (request_chunk_size requested).minimal
  have small : nb ≤ bytes + mallocAlignMask ∨ nb = minSize := by
    rw [padded]
    unfold request2size
    split
    · exact Or.inr rfl
    · exact Or.inl (Nat.div_mul_le_self _ 16)
  have restored : nb - mallocAlignMask + mallocAlignMask = nb := by
    simp only [minSize, mallocAlignMask] at *
    omega
  have room : nb - mallocAlignMask + 2 * minSize < 2 ^ 64 := by
    simp only [minSize, mallocAlignMask] at *
    omega
  rw [request_accepted room, request2size, restored, if_neg (Nat.not_lt.mpr minimal)]
  congr 1
  omega

theorem Answers.taken (answers : Answers nb malloced)
    (requested : checkedRequest2size bytes = some nb) (found : malloced = some new) :
    ∃ source, Malloced bytes source new := by
  obtain ⟨source, again, padded, taken⟩ := answers new found
  cases (request_again requested).symm.trans padded
  exact ⟨source, nb, requested, taken⟩

structure Placed (old block : Block) (newsize nb : Nat) : Prop where
  addr : block.addr = old.addr
  cut : Cut nb block (.carved newsize)
  inside : block.addr + newsize < 2 ^ 63

theorem keep_or_split_placed (newsize : Nat) (heap : old.mmapped = false) (fits : nb ≤ newsize)
    (whole : newsize % 16 = 0) (inside : old.addr + newsize < 2 ^ 63) :
    ∃ block remainder, keepOrSplit old newsize nb = .placed block newsize remainder ∧
      Placed old block newsize nb := by
  unfold keepOrSplit
  dsimp only
  rw [wrap_sub_exact fits (by omega)]
  by_cases exhausted : newsize - nb < minSize
  · have kept : newsize ≤ nb + (minSize - 1) := by
      simp only [minSize] at exhausted ⊢
      omega
    rw [if_pos exhausted]
    exact ⟨_, _, rfl, rfl, ⟨heap, rfl, fits, whole, (if_pos kept).symm⟩, inside⟩
  · have split' : ¬newsize ≤ nb + (minSize - 1) := by
      simp only [minSize] at exhausted ⊢
      omega
    rw [if_neg exhausted]
    exact ⟨_, _, rfl, rfl, ⟨heap, rfl, fits, whole, (if_neg split').symm⟩, inside⟩

theorem into_top_placed (newsize : Nat) (heap : old.mmapped = false) (request : ChunkSize nb)
    (inside : old.addr + nb < 2 ^ 63) :
    ∃ block remainder, intoTop old newsize nb = .placed block nb remainder ∧
      Placed old block nb nb := by
  refine ⟨_, _, rfl, rfl, ⟨heap, rfl, Nat.le_refl nb, request.aligned, ?_⟩, inside⟩
  rw [if_pos (Nat.le_add_right nb _)]

/-- Every way to resize: in place, by a copy of the whole chunk into one that
`_int_malloc` hands out, or not at all. -/
theorem int_realloc_spec (requested : checkedRequest2size bytes = some nb) (valid : old.Valid)
    (heap : old.mmapped = false) (after : next.After old) (answers : Answers nb malloced)
    (resized : intRealloc old next systemMem nb malloced = some resizing) :
    (∃ block newsize remainder, resizing = .placed block newsize remainder ∧
      Placed old block newsize nb) ∨
    (∃ new, malloced = some new ∧ resizing = .copied new old.size ∧ old.size < nb) ∨
    (malloced = none ∧ resizing = .failed ∧ old.size < nb) := by
  have request := request_chunk_size requested
  have whole := valid.whole
  have inside := valid.inside
  have follows := after.inside
  have multiple := after.whole
  have room := request.room
  have sum : wrap (old.size + chunksize next.head) = old.size + chunksize next.head :=
    Nat.mod_eq_of_lt (by omega)
  have larger : wrap (nb + minSize) = nb + minSize := Nat.mod_eq_of_lt room
  unfold intRealloc at resized
  dsimp only at resized
  rw [sum, larger] at resized
  split_ifs at resized with _ _ enough top free
  · cases resized
    obtain ⟨block, remainder, same, placed⟩ := keep_or_split_placed old.size heap enough whole inside
    exact Or.inl ⟨block, _, remainder, same, placed⟩
  · cases resized
    obtain ⟨block, remainder, same, placed⟩ :=
      into_top_placed (old.size + chunksize next.head) heap request (by omega)
    exact Or.inl ⟨block, _, remainder, same, placed⟩
  · cases resized
    obtain ⟨block, remainder, same, placed⟩ :=
      keep_or_split_placed (old.size + chunksize next.head) heap free.2.2
        (by omega) (by omega)
    exact Or.inl ⟨block, _, remainder, same, placed⟩
  · have short : old.size < nb := Nat.lt_of_not_le enough
    split at resized
    case h_1 =>
      cases resized
      exact Or.inr (Or.inr ⟨rfl, rfl, short⟩)
    case h_2 new =>
      split_ifs at resized with adjacent
      · obtain ⟨source, again, padded, taken⟩ := answers.taken requested rfl
        cases requested.symm.trans padded
        obtain ⟨bounds, cut⟩ := taken.cut request
        have newWhole := bounds.whole
        have newInside := bounds.inside
        have place : wrap (old.addr + old.size) = old.addr + old.size :=
          Nat.mod_eq_of_lt (by omega)
        rw [place] at adjacent
        have merged : wrap (new.size + old.size) = new.size + old.size :=
          Nat.mod_eq_of_lt (by omega)
        rw [merged] at resized
        cases resized
        obtain ⟨block, remainder, same, placed⟩ :=
          keep_or_split_placed (new.size + old.size) heap
            (Nat.le_trans cut.large (Nat.le_add_right _ _)) (by omega) (by omega)
        exact Or.inl ⟨block, _, remainder, same, placed⟩
      · cases resized
        exact Or.inr (Or.inl ⟨new, rfl, rfl, short⟩)

theorem placed_of_resized (requested : checkedRequest2size bytes = some nb) (valid : old.Valid)
    (heap : old.mmapped = false) (after : next.After old) (answers : Answers nb malloced)
    (resized : intRealloc old next systemMem nb malloced =
      some (.placed block newsize remainder)) : Placed old block newsize nb := by
  rcases int_realloc_spec requested valid heap after answers resized with
    ⟨_, _, _, same, placed⟩ | ⟨_, _, impossible, _⟩ | ⟨_, impossible, _⟩
  · cases same
    exact placed
  · cases impossible
  · cases impossible

end SriGlibcMalloc.Blocks
