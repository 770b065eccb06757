import SriGlibcMalloc.Bins.Run
import SriGlibcMalloc.CircularList.Ring

/-!
# The pointers of the bins

A bin is a record like that of a chunk: it has the pointers `fd` and `bk` of its list, and
also `fd_nextsize` and `bk_nextsize`, which `malloc_init_state` leaves as they are, null. Bin
1 has the unsorted chunks. There is no result where a test of the pointers fails.
-/

namespace SriGlibcMalloc.Bins

open CircularList EntryPoints
open MainArena (wrapSub)

set_option autoImplicit false

/-- What a pointer to a record leads to: the record of a bin or that of a chunk. -/
inductive Node
  | null
  | header (index : Nat)
  | chunk (addr : Nat)
  deriving DecidableEq, Repr

structure Links where
  size : Node → Nat
  fd : Node → Node
  bk : Node → Node
  fdNextsize : Node → Node
  bkNextsize : Node → Node

def emptyBin : Node → Node
  | .header index => .header index
  | _ => .null

/-- What `malloc_init_state` sets up. -/
def Links.initial : Links where
  size := fun _ => 0
  fd := emptyBin
  bk := emptyBin
  fdNextsize := fun _ => .null
  bkNextsize := fun _ => .null

def unsortedChunks : Node := .header 1

variable (links : Links)

def Links.setSize (node : Node) (size : Nat) : Links :=
  { links with size := Function.update links.size node size }

def Links.setFd (node target : Node) : Links :=
  { links with fd := Function.update links.fd node target }

def Links.setBk (node target : Node) : Links :=
  { links with bk := Function.update links.bk node target }

def Links.setFdNextsize (node target : Node) : Links :=
  { links with fdNextsize := Function.update links.fdNextsize node target }

def Links.setBkNextsize (node target : Node) : Links :=
  { links with bkNextsize := Function.update links.bkNextsize node target }

def Links.link (victim bck fwd : Node) : Links :=
  (((links.setBk victim bck).setFd victim fwd).setBk fwd victim).setFd bck victim

/-- The unsorted chunks are not on a skip list. -/
def Links.clearNextsize (victim : Node) (size : Nat) : Links :=
  if inSmallbinRange size then links
  else (links.setFdNextsize victim .null).setBkNextsize victim .null

def Links.linkUnsorted (victim : Node) (size : Nat) : Option Links :=
  let bck := unsortedChunks
  let fwd := links.fd bck
  if links.bk fwd ≠ bck then none
  else some (((links.link victim bck fwd).setSize victim size).clearNextsize victim size)

def Links.takeLast (bin : Node) : Links :=
  let bck := links.bk (links.bk bin)
  (links.setBk bin bck).setFd bck bin

def Links.linkNextsize (victim fwd : Node) : Links :=
  let bck := links.bkNextsize fwd
  (((links.setFdNextsize victim fwd).setBkNextsize victim bck).setBkNextsize fwd
    victim).setFdNextsize bck victim

/-- The second part of `bin_unlink`, when the next record on the list is `fdp`. -/
def Links.unlinkNextsize (p fdp : Node) : Option Links :=
  let next := links.fdNextsize p
  let prev := links.bkNextsize p
  if inSmallbinRange (links.size p) ∨ next = .null then some links
  else if links.bkNextsize next ≠ p ∨ links.fdNextsize prev ≠ p then none
  else if links.fdNextsize fdp = .null then
    if next = p then some ((links.setFdNextsize fdp fdp).setBkNextsize fdp fdp)
    else
      some ((((links.setFdNextsize fdp next).setBkNextsize fdp prev).setBkNextsize next
        fdp).setFdNextsize prev fdp)
  else some ((links.setBkNextsize next prev).setFdNextsize prev next)

def Links.binUnlink (p : Node) : Option Links :=
  let fdp := links.fd p
  let bkp := links.bk p
  if links.bk fdp ≠ p ∨ links.fd bkp ≠ p then none
  else ((links.setBk fdp bkp).setFd bkp fdp).unlinkNextsize p fdp

def Links.placeLarge (fuel : Nat) (victim : Node) (size : Nat) (bin : Node) : Option Links :=
  let first := links.fd bin
  if first = bin then
    some (((links.setFdNextsize victim victim).setBkNextsize victim victim).link victim bin first)
  else if size < links.size (links.bk bin) then
    some ((links.linkNextsize victim first).link victim (links.bk bin) bin)
  else
    (seek links.fdNextsize (fun node => decide (links.size node ≤ size)) fuel first).bind fun fwd =>
      if fwd = .null then none
      else if size = links.size fwd then
        some (links.link victim (links.bk (links.fd fwd)) (links.fd fwd))
      else some ((links.linkNextsize victim fwd).link victim (links.bk fwd) fwd)

def Links.place (fuel : Nat) (victim : Node) (size : Nat) : Option Links :=
  let bin := Node.header (binIndex size)
  if inSmallbinRange size then some (links.link victim bin (links.fd bin))
  else links.placeLarge fuel victim size bin

/-- What is left of a chunk is put on the unsorted list, unless it is too small. -/
def Links.carve (addr size nb : Nat) : Option Links :=
  let remainderSize := wrapSub size nb
  if remainderSize < minSize then some links
  else (links.setSize (.chunk addr) nb).linkUnsorted (.chunk (addr + nb)) remainderSize

def Links.takeChunk (victim : Node) (nb : Nat) : Option Links :=
  match victim with
  | .chunk addr =>
      (links.binUnlink victim).bind fun unlinked => unlinked.carve addr (links.size victim) nb
  | _ => none

def Links.takeSmall (nb : Nat) : Option Links :=
  let bin := Node.header (smallbinIndex nb)
  let victim := links.bk bin
  if inSmallbinRange nb = false ∨ victim = bin then some links
  else if links.fd (links.bk victim) ≠ victim then none
  else some (links.takeLast bin)

/-- The walk along the skip list from the smallest size, and the second chunk of the size. -/
def Links.takeBestFit (fuel nb : Nat) : Option Links :=
  let bin := Node.header (largebinIndex64 nb)
  let first := links.fd bin
  if inSmallbinRange nb ∨ first = bin ∨ links.size first < nb then some links
  else
    (seek links.bkNextsize (fun node => decide (nb ≤ links.size node)) fuel
      (links.bkNextsize first)).bind fun victim =>
        if victim ≠ links.bk bin ∧ links.size victim = links.size (links.fd victim) then
          links.takeChunk (links.fd victim) nb
        else links.takeChunk victim nb

/-- The remainder of the last split is the only unsorted chunk and is split again. -/
def Links.splitRemainder (addr size nb : Nat) : Links :=
  let remainder := Node.chunk (addr + nb)
  let bin := unsortedChunks
  let links := (links.setSize (.chunk addr) nb).setSize remainder (wrapSub size nb)
  let links := (links.setBk bin remainder).setFd bin remainder
  let links := (links.setBk remainder bin).setFd remainder bin
  links.clearNextsize remainder (wrapSub size nb)

structure Linkage where
  arena : Arena
  links : Links

def Linkage.initial (initialTop : Nat) : Linkage := ⟨Arena.initial initialTop, Links.initial⟩

variable (linkage : Linkage)

def Linkage.fuel (index : Nat) : Nat := (linkage.arena.bins index).length

def Linkage.sortUnsorted (nb : Nat) : Option Links :=
  let links := linkage.links
  let arena := linkage.arena
  match links.bk unsortedChunks with
  | .header _ => some links
  | .null => none
  | .chunk addr =>
      let size := links.size (.chunk addr)
      if arena.corrupted ⟨addr, size⟩ then none
      else if inSmallbinRange nb && links.bk (.chunk addr) = unsortedChunks &&
          arena.lastRemainder = some addr && nb + minSize < size then
        some (links.splitRemainder addr size nb)
      else if size = nb then some (links.takeLast unsortedChunks)
      else
        (links.takeLast unsortedChunks).place (linkage.fuel (binIndex size)) (.chunk addr) size

/-- The bit map leads to a bin, of which the last chunk is taken. -/
def Linkage.takeScanned (nb : Nat) : Option Links :=
  (linkage.arena.search scanFuel nb).bind fun found =>
    match found.place with
    | none => some linkage.links
    | some (index, _) => linkage.links.takeChunk (linkage.links.bk (.header index)) nb

def firstFast : List FreeChunk → Node
  | [] => .null
  | chunk :: _ => .chunk chunk.addr

def Linkage.follow : Action → Option Links
  | .freeFast _ chunk =>
      some (linkage.links.setFd (.chunk chunk.addr)
        (firstFast (linkage.arena.fastbins (fastbinIndex chunk.size))))
  | .free chunk => linkage.links.linkUnsorted (.chunk chunk.addr) chunk.size
  | .unlink _ chunk => linkage.links.binUnlink (.chunk chunk.addr)
  | .unlinkUnsorted chunk => linkage.links.binUnlink (.chunk chunk.addr)
  | .takeSmall nb => linkage.links.takeSmall nb
  | .sortUnsorted nb => linkage.sortUnsorted nb
  | .takeBestFit nb =>
      linkage.links.takeBestFit (linkage.fuel (largebinIndex64 nb)) nb
  | .takeScanned nb => linkage.takeScanned nb
  | _ => some linkage.links

/-- The lists, where the loop over the unsorted chunks takes one turn. -/
def turn (arena : Arena) : Action → Option Arena
  | .sortUnsorted nb => (arena.sortUnsorted nb 1).map Prod.snd
  | action => Bins.step arena action

def Linkage.step (linkage : Linkage) (action : Action) : Option Linkage :=
  (turn linkage.arena action).bind fun arena =>
    (linkage.follow action).map fun links => ⟨arena, links⟩

end SriGlibcMalloc.Bins
