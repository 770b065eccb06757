import SriGlibcMalloc.Bins.LinkedRoutines

/-!
# The bins by their pointers alone

What a search reads and writes, when nothing is known of the order of a large bin: an exposed
chunk may have been unlinked, and the bin may be on its own skip list. A walk along a skip list
that goes round for ever has no result with any fuel.
-/

namespace SriGlibcMalloc.Bins

open CircularList EntryPoints
open MainArena (wrapSub)

set_option autoImplicit false

/-- The part of `malloc_state` that has to do with bins. -/
structure MallocState where
  links : Links
  fastbins : Nat → Node
  binmap : Nat → BitVec 32
  lastRemainder : Option Nat
  systemMem : Nat

def MallocState.initial : MallocState where
  links := Links.initial
  fastbins := fun _ => .null
  binmap := fun _ => 0
  lastRemainder := none
  systemMem := 0

def Links.lasts (links : Links) (index : Nat) : List FreeChunk :=
  if index < 2 then []
  else
    match links.bk (.header index) with
    | .chunk addr => [⟨addr, links.size (.chunk addr)⟩]
    | _ => []

variable (state : MallocState)

/-- There is no result when the chunk is on top of its fastbin. -/
def MallocState.freeFast (maxFast : Nat) (chunk : FreeChunk) : Option MallocState :=
  let index := fastbinIndex chunk.size
  let old := state.fastbins index
  if maxFast < chunk.size ∨ old = .chunk chunk.addr then none
  else some { state with
    links := state.links.setFd (.chunk chunk.addr) old
    fastbins := Function.update state.fastbins index (.chunk chunk.addr) }

def MallocState.takeFast (maxFast nb : Nat) : Option MallocState :=
  let index := fastbinIndex nb
  let victim := state.fastbins index
  if maxFast < nb ∨ victim = .null then some state
  else if fastbinIndex (state.links.size victim) ≠ index then none
  else some { state with
    fastbins := Function.update state.fastbins index (state.links.fd victim) }

def MallocState.sortUnsorted (fuel nb : Nat) : Option MallocState :=
  let links := state.links
  match links.bk unsortedChunks with
  | .header _ => some state
  | .null => none
  | .chunk addr =>
      let victim := Node.chunk addr
      let size := links.size victim
      if size + 1 ≤ 16 ∨ state.systemMem < size + 1 then none
      else if inSmallbinRange nb = true ∧ links.bk victim = unsortedChunks ∧
          state.lastRemainder = some addr ∧ nb + minSize < size then
        some { state with
          links := links.splitRemainder addr size nb
          lastRemainder := some (addr + nb) }
      else if size = nb then some { state with links := links.takeLast unsortedChunks }
      else
        ((links.takeLast unsortedChunks).place fuel victim size).map fun links =>
          { state with links := links, binmap := markBin state.binmap (binIndex size) }

def MallocState.takeScanned (nb : Nat) : Option (Option FreeChunk × MallocState) :=
  (scanLoop state.links.lasts scanFuel (startCursor state.binmap (binIndex nb + 1))).bind
    fun found =>
      let state := { state with binmap := found.binmap }
      match found.place with
      | none => some (none, state)
      | some (_, victim) =>
          (state.links.takeChunk (.chunk victim.addr) nb).map fun links =>
            if wrapSub victim.size nb < minSize then (some victim, { state with links := links })
            else
              (some ⟨victim.addr, nb⟩, { state with
                links := links
                lastRemainder :=
                  if inSmallbinRange nb then some (victim.addr + nb) else state.lastRemainder })

def MallocState.withLinks (links : Links) : MallocState := { state with links := links }

def MallocState.step (fuel : Nat) (state : MallocState) : Action → Option MallocState
  | .free chunk =>
      (state.links.linkUnsorted (.chunk chunk.addr) chunk.size).map state.withLinks
  | .freeFast maxFast chunk => state.freeFast maxFast chunk
  | .unlink _ chunk => (state.links.binUnlink (.chunk chunk.addr)).map state.withLinks
  | .unlinkUnsorted chunk => (state.links.binUnlink (.chunk chunk.addr)).map state.withLinks
  | .consolidateFast index =>
      some { state with fastbins := Function.update state.fastbins index .null }
  | .setTop _ systemMem => some { state with systemMem := systemMem }
  | .reuseRecord lastRemainder => some { state with lastRemainder := lastRemainder }
  | .takeFast maxFast nb => state.takeFast maxFast nb
  | .takeSmall nb => (state.links.takeSmall nb).map state.withLinks
  | .sortUnsorted nb => state.sortUnsorted fuel nb
  | .takeBestFit nb => (state.links.takeBestFit fuel nb).map state.withLinks
  | .takeScanned nb => (state.takeScanned nb).map Prod.snd
  | .useTop _ => some state

/-- The pointers of a bin lead along these chunks, from the first to the last. -/
structure Reads (links : Links) (index : Nat) (chunks : List FreeChunk) : Prop where
  ring : Ring links.fd links.bk (records index chunks)
  distinct : (records index chunks).Nodup
  sizes : ∀ chunk ∈ chunks, links.size chunk.node = chunk.size

def Links.On (links : Links) (index : Nat) (chunk : FreeChunk) : Prop :=
  ∃ chunks, Reads links index chunks ∧ chunk ∈ chunks

/-- Chunks are freed when they are on no list, and unlinked when they are on one. -/
def MallocState.Proper (state : MallocState) : Action → Prop
  | .free chunk =>
      chunk.Valid ∧ ∀ index other, state.links.On index other → chunk.Separate other
  | .freeFast _ chunk =>
      chunk.Valid ∧ ∀ index other, state.links.On index other → chunk.Separate other
  | .unlink index chunk => 1 < index ∧ state.links.On index chunk
  | .unlinkUnsorted chunk => state.links.On 1 chunk
  | .takeFast _ nb | .takeSmall nb | .sortUnsorted nb | .takeBestFit nb | .takeScanned nb
  | .useTop nb => ∃ bytes, checkedRequest2size bytes = some nb
  | _ => True

variable {links : Links} {index : Nat} {chunks others : List FreeChunk}

theorem Reads.unique (left : Reads links index chunks) (right : Reads links index others) :
    chunks = others := by
  have same : chunks.map FreeChunk.node = others.map FreeChunk.node :=
    left.ring.unique right.ring left.distinct right.distinct
  have sizes : ∀ chunks : List FreeChunk, (∀ chunk ∈ chunks, links.size chunk.node = chunk.size) →
      (chunks.map FreeChunk.node).map (fun node => (node, links.size node)) =
        chunks.map fun chunk => (chunk.node, chunk.size) := by
    intro chunks agree
    rw [List.map_map]
    exact List.map_congr_left fun chunk member => congrArg (Prod.mk _) (agree chunk member)
  have read := (sizes chunks left.sizes).symm.trans ((congrArg _ same).trans (sizes others right.sizes))
  refine List.map_injective_iff.mpr ?_ read
  intro first second equal
  obtain ⟨node, size⟩ := Prod.mk.inj equal
  cases first
  cases second
  cases Node.chunk.inj node
  cases size
  rfl

end SriGlibcMalloc.Bins
