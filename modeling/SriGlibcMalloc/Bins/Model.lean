import SriGlibcMalloc.Bins.Index
import SriGlibcMalloc.MainArena.Growth

/-!
# The free chunks of an arena

The parts of `_int_malloc` that look for a free chunk, in the order in which they are
tried, each run under the lock of the arena. A list of chunks is in the order of `fd`,
so that `first` is its head and `last` its last element. Chunks that are in a bin have
their bit `PREV_INUSE` set, so that comparing heads is comparing sizes.
-/

namespace SriGlibcMalloc.Bins

open BitMask EntryPoints
open MainArena (wrapSub)

set_option autoImplicit false

def binmapSize : Nat := 4
def maxIters : Nat := 10000

structure FreeChunk where
  addr : Nat
  size : Nat
  deriving DecidableEq, Repr

structure Arena where
  fastbins : Nat → List FreeChunk
  unsorted : List FreeChunk
  bins : Nat → List FreeChunk
  binmap : Nat → BitVec 32
  lastRemainder : Option Nat
  top : FreeChunk
  systemMem : Nat

/-- What `malloc_init_state` sets up. -/
def Arena.initial (initialTop : Nat) : Arena where
  fastbins := fun _ => []
  unsorted := []
  bins := fun _ => []
  binmap := fun _ => 0
  lastRemainder := none
  top := ⟨initialTop, 0⟩
  systemMem := 0

def idx2block (i : Nat) : Nat := i >>> 5

def idx2bit (i : Nat) : BitVec 32 := 1#32 <<< (i % 32)

def markBin (binmap : Nat → BitVec 32) (i : Nat) : Nat → BitVec 32 :=
  Function.update binmap (idx2block i) (binmap (idx2block i) ||| idx2bit i)

def getBinmap (binmap : Nat → BitVec 32) (i : Nat) : BitVec 32 :=
  binmap (idx2block i) &&& idx2bit i

def Arena.setBin (arena : Arena) (index : Nat) (chunks : List FreeChunk) : Arena :=
  { arena with bins := Function.update arena.bins index chunks }

@[simp] theorem set_bin_bins (arena : Arena) (index : Nat) (chunks : List FreeChunk) :
    (arena.setBin index chunks).bins = Function.update arena.bins index chunks := rfl

/-- The walk along `fd_nextsize` from the largest size; equal sizes go second. -/
def insertSorted (victim : FreeChunk) : List FreeChunk → List FreeChunk
  | [] => [victim]
  | fwd :: rest =>
      if victim.size < fwd.size then fwd :: insertSorted victim rest
      else if victim.size = fwd.size then fwd :: victim :: rest
      else victim :: fwd :: rest

/-- Large bins are kept in order; what is smaller than the smallest goes to the end. -/
def insertLarge (victim : FreeChunk) (bin : List FreeChunk) : List FreeChunk :=
  match bin.getLast? with
  | none => [victim]
  | some smallest =>
      if victim.size < smallest.size then bin ++ [victim] else insertSorted victim bin

def Arena.binChunk (arena : Arena) (victim : FreeChunk) : Arena :=
  let index := binIndex victim.size
  let bin :=
    if inSmallbinRange victim.size then victim :: arena.bins index
    else insertLarge victim (arena.bins index)
  { arena.setBin index bin with binmap := markBin arena.binmap index }

/-- A chunk that is large enough is taken: it is split, unless too little would be left. -/
def Arena.carve (arena : Arena) (victim : FreeChunk) (nb : Nat) (advertise : Bool) :
    FreeChunk × Arena :=
  let remainderSize := wrapSub victim.size nb
  if remainderSize < minSize then (victim, arena)
  else
    let remainder : FreeChunk := ⟨victim.addr + nb, remainderSize⟩
    (⟨victim.addr, nb⟩, { arena with
      unsorted := remainder :: arena.unsorted
      lastRemainder :=
        if advertise && inSmallbinRange nb then some remainder.addr else arena.lastRemainder })

/-- There is no result when the chunk is not of the size of its fastbin. -/
def Arena.takeFast (arena : Arena) (maxFast nb : Nat) : Option (Option FreeChunk × Arena) :=
  if nb ≤ maxFast then
    let index := fastbinIndex nb
    match arena.fastbins index with
    | [] => some (none, arena)
    | victim :: rest =>
        if fastbinIndex victim.size = index then
          some (some victim,
            { arena with fastbins := Function.update arena.fastbins index rest })
        else none
  else some (none, arena)

def Arena.takeSmall (arena : Arena) (nb : Nat) : Option FreeChunk × Arena :=
  if inSmallbinRange nb then
    let index := smallbinIndex nb
    match (arena.bins index).getLast? with
    | none => (none, arena)
    | some victim => (some victim, arena.setBin index (arena.bins index).dropLast)
  else (none, arena)

/-- The only unsorted chunk is the remainder of the last split, and it is split again. -/
def Arena.splitsRemainder (arena : Arena) (victim : FreeChunk) (nb : Nat) : Bool :=
  inSmallbinRange nb && arena.unsorted.length = 1 && arena.lastRemainder = some victim.addr &&
    nb + minSize < victim.size

/-- The test of the head, which has its bit `PREV_INUSE` set. -/
def Arena.corrupted (arena : Arena) (victim : FreeChunk) : Bool :=
  victim.size + 1 ≤ 16 || arena.systemMem < victim.size + 1

/-- The loop over the unsorted chunks, of which a limited number are put in bins; there is
no result when `malloc_printerr` aborts. -/
def Arena.sortUnsorted (nb : Nat) : Nat → Arena → Option (Option FreeChunk × Arena)
  | 0, arena => some (none, arena)
  | left + 1, arena =>
      match arena.unsorted.getLast? with
      | none => some (none, arena)
      | some victim =>
          let rest := { arena with unsorted := arena.unsorted.dropLast }
          if arena.corrupted victim then none
          else if arena.splitsRemainder victim nb then
            let remainder : FreeChunk := ⟨victim.addr + nb, wrapSub victim.size nb⟩
            some (some ⟨victim.addr, nb⟩, { rest with
              unsorted := [remainder]
              lastRemainder := some remainder.addr })
          else if victim.size = nb then some (some victim, rest)
          else (rest.binChunk victim).sortUnsorted nb left

/-- The chunks on the skip list: the first of each size. -/
def sizeHeads : List FreeChunk → List FreeChunk
  | [] => []
  | chunk :: rest =>
      chunk :: (sizeHeads rest).filter fun other => other.size ≠ chunk.size

/-- The second chunk of its size is taken, so that the skip list is not rerouted. -/
def secondOfSize (victim : FreeChunk) (bin : List FreeChunk) : FreeChunk :=
  match (bin.dropWhile fun chunk => chunk ≠ victim).tail.head? with
  | some next => if next.size = victim.size then next else victim
  | none => victim

def bestFitVictim (bin : List FreeChunk) (nb : Nat) : Option FreeChunk :=
  match bin with
  | [] => none
  | first :: _ =>
      if nb ≤ first.size then
        ((sizeHeads bin).reverse.find? fun chunk => nb ≤ chunk.size).map fun victim =>
          secondOfSize victim bin
      else none

def Arena.takeBestFit (arena : Arena) (nb : Nat) : Option FreeChunk × Arena :=
  if inSmallbinRange nb then (none, arena)
  else
    let index := largebinIndex64 nb
    match bestFitVictim (arena.bins index) nb with
    | none => (none, arena)
    | some victim =>
        let (chunk, arena) :=
          (arena.setBin index ((arena.bins index).erase victim)).carve victim nb false
        (some chunk, arena)

structure Cursor where
  bin : Nat
  block : Nat
  map : BitVec 32
  bit : BitVec 32
  binmap : Nat → BitVec 32

/-- `while ((map = binmap[block]) == 0)`; it ends with the next block or out of bins. -/
def skipBlocks (binmap : Nat → BitVec 32) : Nat → Nat → Option (Option Nat)
  | 0, _ => none
  | fuel + 1, block =>
      if binmapSize ≤ block + 1 then some none
      else if binmap (block + 1) = 0 then skipBlocks binmap fuel (block + 1)
      else some (some (block + 1))

def Cursor.skip (fuel : Nat) (cursor : Cursor) : Option (Option Cursor) :=
  if cursor.map < cursor.bit ∨ cursor.bit = 0 then
    (skipBlocks cursor.binmap fuel cursor.block).map fun next =>
      next.map fun block =>
        { bin := block <<< 5
          block := block
          map := cursor.binmap block
          bit := 1
          binmap := cursor.binmap }
  else some (some cursor)

/-- `while ((bit & map) == 0)`. -/
def Cursor.advance : Nat → Cursor → Option Cursor
  | 0, _ => none
  | fuel + 1, cursor =>
      if cursor.bit &&& cursor.map = 0 then
        Cursor.advance fuel { cursor with bin := cursor.bin + 1, bit := cursor.bit <<< 1 }
      else some cursor

/-- A false alarm: the bit is cleared, in the map and in the word that is looked at. -/
def Cursor.falseAlarm (cursor : Cursor) : Cursor :=
  let map := cursor.map &&& ~~~cursor.bit
  { bin := cursor.bin + 1
    block := cursor.block
    map := map
    bit := cursor.bit <<< 1
    binmap := Function.update cursor.binmap cursor.block map }

structure Found where
  binmap : Nat → BitVec 32
  place : Option (Nat × FreeChunk)

/-- The loop of the scan; there is no result when it has not ended. -/
def scanLoop (bins : Nat → List FreeChunk) : Nat → Cursor → Option Found
  | 0, _ => none
  | fuel + 1, cursor =>
      match cursor.skip fuel with
      | none => none
      | some none => some ⟨cursor.binmap, none⟩
      | some (some cursor) =>
          match cursor.advance fuel with
          | none => none
          | some cursor =>
              match (bins cursor.bin).getLast? with
              | none => scanLoop bins fuel cursor.falseAlarm
              | some victim => some ⟨cursor.binmap, some (cursor.bin, victim)⟩

def startCursor (binmap : Nat → BitVec 32) (idx : Nat) : Cursor where
  bin := idx
  block := idx2block idx
  map := binmap (idx2block idx)
  bit := idx2bit idx
  binmap := binmap

/-- The search that starts with the next largest bin. -/
def Arena.search (arena : Arena) (fuel nb : Nat) : Option Found :=
  scanLoop arena.bins fuel (startCursor arena.binmap (binIndex nb + 1))

def Arena.takeScanned (arena : Arena) (fuel nb : Nat) : Option (Option FreeChunk × Arena) :=
  (arena.search fuel nb).map fun found =>
    let arena := { arena with binmap := found.binmap }
    match found.place with
    | none => (none, arena)
    | some (index, victim) =>
        let (chunk, arena) :=
          (arena.setBin index (arena.bins index).dropLast).carve victim nb true
        (some chunk, arena)

def Arena.useTop (arena : Arena) (nb : Nat) : Option FreeChunk × Arena :=
  if (nb + minSize) % 2 ^ 64 ≤ arena.top.size then
    (some ⟨arena.top.addr, nb⟩,
      { arena with top := ⟨arena.top.addr + nb, arena.top.size - nb⟩ })
  else (none, arena)

end SriGlibcMalloc.Bins
