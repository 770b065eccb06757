import SriGlibcMalloc.Chunks.Records
import SriGlibcMalloc.Bins.Index
import SriGlibcMalloc.MainArena.Growth

/-!
# The chunks of an arena

What `_int_malloc`, `_int_free`, `malloc_consolidate`, `_int_realloc` and `_int_memalign`
do with the chunks of an arena. Which chunk of a bin is taken is decided elsewhere; here it
is any that passes the tests of the routine, and a chunk is linked when it is on a list. A
record that is asked for is granted. A chunk that a routine splits off is held until it frees
it. A result is missing where a routine aborts or follows NULL.
-/

namespace SriGlibcMalloc.Chunks

open BoundaryTags
open EntryPoints (minSize)
open Bins (fastbinIndex)
open MainArena (pageSize)

set_option autoImplicit false

structure Arena where
  htbl : Table
  mdTop : Nat
  systemMem : Nat
  contiguous : Bool

variable (arena : Arena) (p nb : Nat)

def Arena.chunksize : Option Nat := (arena.htbl p).map Tag.size

def Arena.checkTop : Option Unit := do
  let size ← arena.chunksize arena.mdTop
  assert ((arena.mdTop + size) % pageSize = 0)

def Arena.takeFast (maxFast : Nat) : Option Arena := do
  let tag ← arena.htbl p
  assert (nb ≤ maxFast && tag.place = some .fast && fastbinIndex tag.size = fastbinIndex nb)
  return { arena with htbl := setPlace arena.htbl p (some .held) }

/-- A chunk of a bin, of which too little would be left. -/
def Arena.takeWhole : Option Arena := do
  let size ← arena.chunksize p
  assert (nb ≤ size && size - nb < minSize)
  let htbl ← binUnlink arena.htbl p
  let htbl ← setInuseBit htbl p
  return { arena with htbl := setPlace htbl p (some .held) }

/-- A part of a larger chunk of a bin; the remainder is put into the unsorted list. -/
def Arena.carve : Option Arena := do
  let size ← arena.chunksize p
  assert (nb + minSize ≤ size)
  let htbl ← binUnlink arena.htbl p
  let htbl := setHead htbl p nb
  let htbl ← linkRemainder htbl p (p + nb) (size - nb)
  let htbl ← setFoot htbl (p + nb)
  let htbl := setPlace htbl (p + nb) (some .bin)
  return { arena with htbl := setPlace htbl p (some .held) }

def Arena.useTop : Option Arena := do
  let size ← arena.chunksize arena.mdTop
  assert (nb + minSize ≤ size)
  let htbl ← splitChunk arena.htbl arena.mdTop nb
  let arena' := { arena with
    htbl := setPlace htbl arena.mdTop (some .held), mdTop := arena.mdTop + nb }
  arena'.checkTop
  return arena'

def Arena.checkFree : Option Unit := do
  let size ← arena.chunksize p
  assert (p + size ≤ 2 ^ 64 && p % 16 = 0)
  assert (minSize ≤ size && size % 16 = 0)
  assert (mdNextSanityCheck arena.htbl p)

def Arena.checkNext : Option Unit := do
  let next ← arena.htbl (← (← arena.htbl p).next)
  assert (16 < next.size + next.prevInuse.toNat && next.size < arena.systemMem)

/-- Consolidation with the chunk before; the result is the chunk and its size so far. -/
def Arena.mergeBackward : Option (Arena × Nat × Nat) := do
  let tag ← arena.htbl p
  if tag.prevInuse then return (arena, p, tag.size)
  else
    assert (mdPrevSanityCheck arena.htbl p)
    let prev ← tag.prev
    let htbl ← binUnlink arena.htbl prev
    let htbl ← absorb htbl prev p
    return ({ arena with htbl := htbl }, prev, tag.size + tag.prevSize)

/-- Consolidation with the chunk after, or else its bit is cleared. -/
def Arena.mergeForward (size next : Nat) : Option (Arena × Nat) := do
  let nextsize ← arena.chunksize next
  if ← inuseBit arena.htbl next then
    return ({ arena with htbl := clearInuseBit arena.htbl next }, size)
  else
    let htbl ← binUnlink arena.htbl next
    let htbl ← absorb htbl p next
    return ({ arena with htbl := htbl }, size + nextsize)

def Arena.placeUnsorted (size : Nat) : Option Arena := do
  let htbl ← setFoot (setHead arena.htbl p size) p
  return { arena with htbl := setPlace htbl p (some .bin) }

def Arena.mergeTop (size next : Nat) : Option Arena := do
  let nextsize ← arena.chunksize next
  let htbl := setHead arena.htbl p (size + nextsize)
  return { arena with htbl := unregisterChunk (setNext htbl p none) next, mdTop := p }

/-- What `_int_free` and `malloc_consolidate` do with a chunk that nobody holds any more. -/
def Arena.coalesce : Option Arena := do
  let next ← (← arena.htbl p).next
  let (arena, p, size) ← Arena.mergeBackward { arena with htbl := setPlace arena.htbl p none } p
  if next = arena.mdTop then arena.mergeTop p size next
  else
    let (arena, size) ← arena.mergeForward p size next
    arena.placeUnsorted p size

/-- `_int_free`, up to the consolidation of fast chunks and the trimming. -/
def Arena.intFree (maxFast : Nat) : Option Arena := do
  arena.checkTop
  arena.checkFree p
  let size ← arena.chunksize p
  let next ← (← arena.htbl p).next
  if size ≤ maxFast then
    arena.checkNext p
    return { arena with htbl := setPlace arena.htbl p (some .fast) }
  else
    let topsize ← arena.chunksize arena.mdTop
    assert (p ≠ arena.mdTop)
    assert (!(arena.contiguous && arena.mdTop + topsize ≤ next))
    assert (← arena.htbl next).prevInuse
    arena.checkNext p
    arena.coalesce p

/-- `malloc_consolidate`, for one of the fast chunks. -/
def Arena.consolidate : Option Arena := do
  assert ((← arena.htbl p).place = some .fast)
  assert (mdNextSanityCheck arena.htbl p)
  arena.coalesce p

def Arena.checkRealloc : Option Unit := do
  let tag ← arena.htbl p
  assert (16 ≤ tag.size + tag.prevInuse.toNat && tag.size < arena.systemMem)
  assert (mdNextSanityCheck arena.htbl p)
  arena.checkNext p

/-- The end of `_int_realloc`, where extra space is freed. -/
def Arena.finishRealloc (newsize maxFast : Nat) : Option Arena := do
  assert (nb ≤ newsize)
  if newsize - nb < minSize then
    let htbl ← setInuseBit (setHeadSize arena.htbl p newsize) p
    return { arena with htbl := setPlace htbl p (some .held) }
  else
    let htbl ← linkRemainder (setHeadSize arena.htbl p nb) p (p + nb) (newsize - nb)
    let htbl ← setInuseBit htbl (p + nb)
    let htbl := setPlace htbl (p + nb) (some .held)
    let arena := { arena with htbl := setPlace htbl p (some .held) }
    arena.intFree (p + nb) maxFast

def Arena.shrink (maxFast : Nat) : Option Arena := do
  arena.checkRealloc p
  let size ← arena.chunksize p
  Arena.finishRealloc { arena with htbl := setPlace arena.htbl p none } p nb size maxFast

def Arena.growIntoTop : Option Arena := do
  arena.checkRealloc p
  let size ← arena.chunksize p
  let next ← (← arena.htbl p).next
  let newsize := size + (← arena.chunksize next)
  assert (size < nb && next = arena.mdTop && nb + minSize ≤ newsize)
  let htbl := unregisterChunk arena.htbl next
  let htbl := setHeadSize htbl p nb
  let htbl := registerChunk htbl (p + nb)
  let htbl := setNext htbl p (some (p + nb))
  let htbl := setPrev htbl (p + nb) (some p)
  let htbl := setNext htbl (p + nb) none
  let arena' := { arena with htbl := setHead htbl (p + nb) (newsize - nb), mdTop := p + nb }
  arena'.checkTop
  return arena'

def Arena.growForward (maxFast : Nat) : Option Arena := do
  arena.checkRealloc p
  let size ← arena.chunksize p
  let next ← (← arena.htbl p).next
  let newsize := size + (← arena.chunksize next)
  assert (size < nb && next ≠ arena.mdTop && nb ≤ newsize)
  assert (!(← inuseBit arena.htbl next))
  let htbl ← binUnlink (setPlace arena.htbl p none) next
  let htbl ← absorb htbl p next
  Arena.finishRealloc { arena with htbl := htbl } p nb newsize maxFast

/-- The chunk that was allocated for the contents is the next one. -/
def Arena.growNextDoor (maxFast : Nat) : Option Arena := do
  let size ← arena.chunksize p
  let next ← (← arena.htbl p).next
  let newsize := (← arena.chunksize next) + size
  let htbl := setPlace (setPlace arena.htbl p none) next none
  let htbl ← absorb htbl p next
  Arena.finishRealloc { arena with htbl := htbl } p nb newsize maxFast

/-- `_int_memalign` gives back the space before the aligned spot. -/
def Arena.giveBackLeader (leadsize maxFast : Nat) : Option Arena := do
  let size ← arena.chunksize p
  let newp := p + leadsize
  let htbl ← linkRemainder arena.htbl p newp (size - leadsize)
  let htbl ← setInuseBit htbl newp
  let htbl := setPlace (setHeadSize htbl p leadsize) newp (some .held)
  Arena.intFree { arena with htbl := htbl } p maxFast

/-- It gives back the spare room at the end. -/
def Arena.giveBackRemainder (maxFast : Nat) : Option Arena := do
  let size ← arena.chunksize p
  if size ≤ nb + minSize then return arena
  else
    let htbl ← linkRemainder arena.htbl p (p + nb) (size - nb)
    let htbl := setPlace (setHeadSize htbl p nb) (p + nb) (some .held)
    Arena.intFree { arena with htbl := htbl } (p + nb) maxFast

end SriGlibcMalloc.Chunks
