import SriGlibcMalloc.Chunks.Model

/-!
# The heaps of an arena

An arena of a thread has its chunks in heaps, which start at multiples of `HEAP_MAX_SIZE`.
Top is in the newest heap; the end of every other heap is closed by a fencepost. This is the
part of `arena.c`, and of `sysmalloc`, that grows, adds, deletes and shrinks heaps. What the
system answers is an input. A result is missing where an assertion fails or a routine aborts.
-/

namespace SriGlibcMalloc.Heaps

open BoundaryTags
open ArenaLookup (heapForPtr)
open Chunks
open EntryPoints (minSize)
open MainArena (pageSize wrap wrapSub signed alignUp alignDown)

set_option autoImplicit false

def heapMinSize : Nat := 32 * 1024
def heapMaxSize : Nat := 2 ^ 26

def heapInfoSize : Nat := 32

structure HeapInfo where
  addr : Nat
  size : Nat
  mprotectSize : Nat
  deriving DecidableEq, Repr

/-- What matters of `struct malloc_state`, which is behind `heap_info` in the first heap: its
size, and where `initial_top` is. -/
structure MallocState where
  size : Nat
  initialTop : Nat
  inside : initialTop + 16 ≤ size
  fits : heapInfoSize + size + 16 + minSize ≤ heapMinSize

/-- The heaps are listed along `prev`, the newest one first. -/
structure ThreadArena where
  arena : Arena
  heaps : List HeapInfo

def newHeapSize (size topPad : Nat) : Option Nat :=
  let padded := wrap (size + topPad)
  if padded < heapMinSize then some (alignUp heapMinSize pageSize)
  else if padded ≤ heapMaxSize then some (alignUp padded pageSize)
  else if heapMaxSize < size then none
  else some (alignUp heapMaxSize pageSize)

/-- `new_heap`; the address is that of the aligned mapping, if there is one. -/
def newHeap (size topPad : Nat) (mapped : Option Nat) : Option HeapInfo := do
  let size ← newHeapSize size topPad
  let addr ← mapped
  return ⟨addr, size, size⟩

def growHeap (heap : HeapInfo) (diff : Nat) (mprotect : Bool) : Option HeapInfo :=
  let newSize := heap.size + alignUp diff pageSize
  if heapMaxSize < newSize then none
  else if newSize ≤ heap.mprotectSize then some { heap with size := newSize }
  else if mprotect then some { heap with size := newSize, mprotectSize := newSize }
  else none

def shrinkHeap (heap : HeapInfo) (diff : Nat) (mayShrink remapped : Bool) : Option HeapInfo :=
  if heap.size < diff + heapInfoSize then none
  else if mayShrink then
    if remapped then some { heap with size := heap.size - diff, mprotectSize := heap.size - diff }
    else none
  else some { heap with size := heap.size - diff }

/-- The heap of an address, and those before it. -/
def heapsFrom (heaps : List HeapInfo) (p : Nat) : List HeapInfo :=
  heaps.dropWhile fun heap => heap.addr ≠ heapForPtr heapMaxSize p

def firstChunk (form : MallocState) (addr : Nat) : Nat :=
  let ptr := addr + heapInfoSize + form.size
  if ptr % 16 = 0 then ptr else ptr + (16 - ptr % 16)

/-- `malloc_init_state` registers `initial_top`. -/
def initialRecords (form : MallocState) (addr : Nat) : Table :=
  registerChunk (fun _ => none) (addr + heapInfoSize + form.initialTop)

/-- `_int_new_arena`, with the answers to both calls of `new_heap`; NULL is a result. -/
def intNewArena (form : MallocState) (size topPad : Nat) (first second : Option Nat) :
    Option ThreadArena := do
  let header := heapInfoSize + form.size + 16
  let heap ← newHeap (wrap (size + header)) topPad first <|> newHeap header topPad second
  let ptr := firstChunk form heap.addr
  let htbl := registerChunk (initialRecords form heap.addr) ptr
  let htbl := setHead htbl ptr (heap.addr + heap.size - ptr)
  return ⟨⟨htbl, ptr, heap.size, false⟩, [heap]⟩

/-- The current heap has been extended, and top with it. -/
def extendTop (arena : Arena) (heap grown : HeapInfo) : Arena :=
  { arena with
    htbl := setHead arena.htbl arena.mdTop (grown.addr + grown.size - arena.mdTop)
    systemMem := arena.systemMem + (grown.size - heap.size) }

/-- The records of a new top and of the fencepost that ends the heap of the old one. -/
def linkFencepost (tags : Table) (oldTop fencepost top topSize : Nat) : Table :=
  let tags := registerChunk tags top
  let tags := setNext tags top none
  let tags := setHead tags top topSize
  let tags := registerChunk tags fencepost
  let tags := setPrev tags fencepost (some oldTop)
  let tags := setNext tags fencepost (some top)
  let tags := setNext tags oldTop (some fencepost)
  let tags := setPrev tags top (some fencepost)
  setHead tags fencepost 0

/-- The record of a second fencepost, between the old top and the first one. -/
def linkSecondFencepost (tags : Table) (oldTop fencepost second : Nat) : Option Table := do
  let tags := registerChunk tags second
  let tags := setPrev tags fencepost (some second)
  let tags := setNext tags second (some fencepost)
  let tags := setPrev tags second (some oldTop)
  let tags := setNext tags oldTop (some second)
  let tags := setHead tags second 16
  setFoot tags second

/-- The arena moves to a new heap, and the old top is freed up to its fenceposts. -/
def moveToHeap (arena : Arena) (heap : HeapInfo) (oldSize maxFast : Nat) : Option Arena := do
  let oldTop := arena.mdTop
  let top := heap.addr + heapInfoSize
  let oldSize := alignDown (oldSize - minSize) 16
  let htbl := linkFencepost arena.htbl oldTop (oldTop + oldSize + 16) top
    (heap.size - heapInfoSize)
  let moved := { arena with
    htbl := htbl, mdTop := top, systemMem := arena.systemMem + heap.size }
  if minSize ≤ oldSize then
    let htbl ← linkSecondFencepost htbl oldTop (oldTop + oldSize + 16) (oldTop + oldSize)
    let htbl := setPlace (setHead htbl oldTop oldSize) oldTop (some .held)
    let arena ← Arena.intFree { moved with htbl := htbl } oldTop maxFast
    arena.checkTop
    return arena
  else
    let htbl ← setFoot (setHead htbl oldTop (oldSize + 16)) oldTop
    let arena := { moved with htbl := htbl }
    arena.checkTop
    return arena

/-- The part of `sysmalloc` for an arena that is not the main one. -/
def ThreadArena.grow (state : ThreadArena) (nb topPad maxFast : Nat) (mprotect : Bool)
    (mapped : Option Nat) : Option ThreadArena := do
  let arena := state.arena
  let top ← arena.htbl arena.mdTop
  assert (minSize ≤ top.size && top.prevInuse && (arena.mdTop + top.size) % pageSize = 0)
  assert (top.size < wrap (nb + minSize))
  let missing := wrapSub (wrap (minSize + nb)) top.size
  match heapsFrom state.heaps arena.mdTop with
  | [] => none
  | heap :: earlier =>
      match if 0 < signed missing then growHeap heap missing mprotect else none with
      | some grown => return ⟨extendTop arena heap grown, grown :: earlier⟩
      | none =>
          match newHeap (wrap (nb + (minSize + heapInfoSize))) topPad mapped with
          | some fresh =>
              let arena ← moveToHeap arena fresh top.size maxFast
              return ⟨arena, fresh :: heap :: earlier⟩
          | none => return state

/-- `sysmalloc` without its `mmap`; NULL when the memory that was got does not suffice. -/
def ThreadArena.sysmalloc (state : ThreadArena) (nb topPad maxFast : Nat) (mprotect : Bool)
    (mapped : Option Nat) : Option (Option Nat × ThreadArena) := do
  let state ← state.grow nb topPad maxFast mprotect mapped
  let size ← state.arena.chunksize state.arena.mdTop
  if wrap (nb + minSize) ≤ size then
    let arena ← state.arena.useTop nb
    return (some state.arena.mdTop, { state with arena := arena })
  else return (none, state)

/-- The fencepost before top is pulled out, and top goes away with its heap. -/
def pullFencepost (tags : Table) (fencepost md top : Nat) : Option Table := do
  let temp := (← tags fencepost).next
  let tags := unregisterChunk tags fencepost
  let tags := setNext tags md temp
  let tags := setPrevOf tags temp md
  return unregisterChunk tags top

/-- What was before the fencepost is consolidated with the free chunk before it. The record
that `md_next` still names is gone. -/
def consolidateLast (tags : Table) (md : Nat) : Option (Table × Nat) := do
  let tag ← tags md
  if tag.prevInuse then return (tags, md)
  else
    assert (mdPrevSanityCheck tags md)
    let prev ← tag.prev
    let tags := unregisterChunk tags md
    let tags ← binUnlink tags prev
    let tags := setNext tags prev tag.next
    return (setPrevOf tags tag.next prev, prev)

/-- The fencepost at the end of the heap before, what is before that, and the size of top when
both are part of it. -/
def lastFencepost (arena : Arena) (prevHeap : HeapInfo) (top : Tag) : Option (Nat × Nat × Nat) := do
  let prevSize := prevHeap.size - 16
  let misalign := (prevHeap.addr + prevSize) % 16
  let fencepost := prevHeap.addr + (prevSize - misalign)
  let post ← arena.htbl fencepost
  assert (post.size = 0 && post.prevInuse)
  assert (top.prev = some fencepost)
  assert (mdPrevSanityCheck arena.htbl fencepost)
  let md ← post.prev
  let last ← arena.htbl md
  let newSize := last.size + 16 + misalign
  assert (newSize < 2 * minSize)
  let newSize := if last.prevInuse then newSize else newSize + last.prevSize
  assert (newSize < heapMaxSize)
  return (fencepost, md, newSize)

/-- The heap of top is deleted, and top is at the end of the heap before. -/
def dropHeap (arena : Arena) (heap prevHeap : HeapInfo) (next : Option Nat)
    (fencepost md newSize : Nat) : Option Arena := do
  let htbl ← pullFencepost arena.htbl fencepost md arena.mdTop
  let (htbl, p) ← consolidateLast htbl md
  assert ((p + newSize) % pageSize = 0)
  assert (p + newSize = prevHeap.addr + prevHeap.size)
  let arena := { arena with
    htbl := setHead (setNext htbl p next) p newSize
    mdTop := p
    systemMem := arena.systemMem - heap.size }
  arena.checkTop
  return arena

/-- One turn of the loop of `heap_trim`; nothing when it ends with `break`. -/
def deleteHeap (arena : Arena) (heap prevHeap : HeapInfo) (pad : Nat) :
    Option (Option Arena) := do
  arena.checkTop
  let top ← arena.htbl arena.mdTop
  let (fencepost, md, newSize) ← lastFencepost arena prevHeap top
  if wrap (newSize + (heapMaxSize - prevHeap.size)) < wrap (pad + minSize + pageSize) then
    return none
  else
    let arena ← dropHeap arena heap prevHeap top.next fencepost md newSize
    return some arena

/-- The loop of `heap_trim`. The first heap does not start with a chunk. -/
def trimHeaps (pad : Nat) (arena : Arena) : List HeapInfo → Option (Arena × List HeapInfo)
  | [] => none
  | heap :: earlier =>
      if arena.mdTop ≠ heap.addr + heapInfoSize then some (arena, heap :: earlier)
      else
        match earlier with
        | [] => none
        | prevHeap :: others => do
            match ← deleteHeap arena heap prevHeap pad with
            | none => return (arena, heap :: prevHeap :: others)
            | some arena => trimHeaps pad arena (prevHeap :: others)

/-- The end of `heap_trim`, where the last heap is made smaller. -/
def ThreadArena.shrinkTop (state : ThreadArena) (pad trimThreshold : Nat)
    (mayShrink remapped : Bool) : Option ThreadArena := do
  let arena := state.arena
  let heap ← state.heaps.head?
  let topSize ← arena.chunksize arena.mdTop
  if topSize < trimThreshold then return state
  else if topSize < minSize + 1 ∨ topSize - minSize - 1 ≤ pad then return state
  else
    let extra := alignDown (topSize - minSize - 1 - pad) pageSize
    if extra = 0 then return state
    else
      match shrinkHeap heap extra mayShrink remapped with
      | none => return state
      | some shrunk =>
          let arena := { arena with
            htbl := setHead arena.htbl arena.mdTop (topSize - extra)
            systemMem := arena.systemMem - extra }
          arena.checkTop
          return ⟨arena, shrunk :: state.heaps.tail⟩

/-- `heap_trim`, for the heap of top. -/
def ThreadArena.heapTrim (state : ThreadArena) (pad trimThreshold : Nat)
    (mayShrink remapped : Bool) : Option ThreadArena := do
  let (arena, heaps) ← trimHeaps pad state.arena (heapsFrom state.heaps state.arena.mdTop)
  ThreadArena.shrinkTop ⟨arena, heaps⟩ pad trimThreshold mayShrink remapped

end SriGlibcMalloc.Heaps
