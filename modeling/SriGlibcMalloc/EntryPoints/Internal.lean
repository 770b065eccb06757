import SriGlibcMalloc.EntryPoints.World

/-!
# The internal routines

This is a transcription of the control flow of `_int_malloc`, `sysmalloc`,
`_int_free`, `_int_realloc`, `_int_memalign` and `mremap_chunk`: every branch that
takes a lock, a metadata record or the initialisation into account, in the order
of the source, with the early returns.
-/

namespace SriGlibcMalloc.EntryPoints

set_option autoImplicit false

def minSize : Nat := 32
def minLargeSize : Nat := 1024
def fastbinConsolidationThreshold : Nat := 65536
def mallocAlignMask : Nat := 15

def requestOutOfRange (req : Nat) : Bool := 2 ^ 64 - 2 * minSize ≤ req

/-- The header of a chunk is empty. -/
def request2size (req : Nat) : Nat :=
  if req + mallocAlignMask < minSize then minSize
  else (req + mallocAlignMask) / 16 * 16

def checkedRequest2size (req : Nat) : Option Nat :=
  if requestOutOfRange req then none else some (request2size req)

/-- A chunk without a header counts as 16 bytes larger. -/
def inSmallbinRange (sz : Nat) : Bool := (sz + 16) % 2 ^ 64 < minLargeSize

/-- What the routines return: a chunk and the `IS_MMAPPED` bit of its record. -/
structure Victim where
  chunk : Chunk
  mmapped : Bool
  deriving DecidableEq, Repr

variable (env : Env)

/-- `munmap_chunk`, which refuses a region that is not a number of pages. -/
def munmapChunk : M Unit := do
  if ← ask env .corruption then mallocPrinterr env none else pure ()

/-- The label `errout` of `_int_free`. -/
def freeErrout (a : ArenaId) (haveLock : Bool) : M Unit := do
  unlockUnless env haveLock a
  mallocPrinterr env (some a)

def freeFastbin (a : ArenaId) (haveLock : Bool) : M Unit := do
  if ← ask env .corruption then freeErrout env a haveLock
  else
    modifyArena a fun arena => { arena with fastchunksBit := false }
    if ← ask env .corruption then freeErrout env a haveLock
    else unlockUnless env haveLock a

/-- `if (have_fastchunks (av)) malloc_consolidate (av)` -/
def consolidateFastchunks (a : ArenaId) : M Unit := do
  if ← haveFastchunks a then mallocConsolidate env a else pure ()

def consolidateAbove (a : ArenaId) (size : Nat) : M Unit :=
  if fastbinConsolidationThreshold ≤ size then consolidateFastchunks env a else pure ()

/-- What follows the merging of a chunk: `systrim` and `heap_trim` take no lock and
no record. -/
def freeTrim (a : ArenaId) (size : Nat) : M Unit := do
  consolidateAbove env a size
  unregisterEach env a (← askNumber env)

def freeMerge (a : ArenaId) (haveLock : Bool) : M Unit := do
  if ← ask env .corruption then freeErrout env a haveLock
  else
    unregisterEach env a (← askNumber env)
    freeTrim env a (← askNumber env)
    unlockUnless env haveLock a

def freeMmapped (a : ArenaId) (p : Chunk) (haveLock : Bool) : M Unit := do
  if a = mainArena then
    munmapChunk env
    unregisterChunk mainArena p
    unlockUnless env haveLock mainArena
  else
    unlockUnless env haveLock a
    lockArena env .free mainArena
    munmapChunk env
    unregisterChunk mainArena p
    unlockArena env mainArena

def freeRecord (a : ArenaId) (p : Chunk) (mmapped haveLock : Bool) : M Unit := do
  let size ← askNumber env
  if (← ask env .corruption) ∨ size < minSize then freeErrout env a haveLock
  else if size ≤ (← getMaxFast).toNat then freeFastbin env a haveLock
  else if mmapped then freeMmapped env a p haveLock
  else freeMerge env a haveLock

/-- `_int_free`; the record is given by its `IS_MMAPPED` bit, or it is looked up. -/
def intFree (av : Option ArenaId) (record : Option Bool) (p : Chunk) (haveLock : Bool) :
    M Unit := do
  match av with
  | none => pure ()
  | some a =>
      requireTop a
      lockUnless env haveLock .free a
      match record with
      | some mmapped => freeRecord env a p mmapped haveLock
      | none =>
          match (← getArena a).record p with
          | none => halt .abort
          | some mmapped => freeRecord env a p mmapped haveLock

/-- `split_chunk`: the remainder becomes the top. -/
def splitChunk (a : ArenaId) : M Victim := do
  let _ ← registerNew env a
  return ⟨← askNumber env, false⟩

/-- The part of `sysmalloc` after the label `try_mmap`, up to the point where the
locks are restored: the result of `sysmalloc` when it returns there. -/
def tryMmap (av : Option ArenaId) : M (Option (Option Victim)) := do
  enterMain env (.sysmalloc av) av
  if av ≠ some mainArena ∧ (← getArena mainArena).metadataCacheCount = 0 then
    restoreLock env (.sysmalloc av) av
    return some none
  else if (← ask env .mmapSizeFits) ∧ (← ask env .mmap) then
    let p ← askNumber env
    registerChunk env mainArena p true
    restoreLock env (.sysmalloc av) av
    return some (some ⟨p, true⟩)
  else
    leaveMain env (.mmapRefused av) av
    return none

def newHeapTop (a : ArenaId) : M Unit := do
  let _ ← registerNew env a
  let _ ← registerNew env a
  if ← ask env .oldTopLeft then
    let _ ← registerNew env a
    intFree env (some a) (some false) (← askNumber env) true
  else pure ()

/-- An arena that is not `main_arena`: after both attempts to grow have failed, the
request is mapped if this was not tried. -/
def growArena (a : ArenaId) (triedMmap : Bool) : M (Option (Option Victim)) := do
  if ← ask env .growHeap then return none
  else if ← ask env .newHeap then
    newHeapTop env a
    return none
  else if triedMmap then return none
  else
    match ← tryMmap env (some a) with
    | some result => return some result
    | none =>
        if ← ask env .growHeap then return none
        else if ← ask env .newHeap then
          newHeapTop env a
          return none
        else return none

/-- An old top that is a fencepost only loses its record. -/
def dropOldTop : M Unit := do
  if ← ask env .oldTopLeft then pure () else unregisterSome env mainArena

/-- The new top of `main_arena` when it does not extend the old one. -/
def placeTop : M Unit := do
  if ← ask env .endOfMemoryKnown then
    let _ ← registerNew env mainArena
    if ← ask env .oldTop then
      dropOldTop env
      let _ ← registerNew env mainArena
      let _ ← registerNew env mainArena
      if ← ask env .oldTopLeft then
        intFree env (some mainArena) (some false) (← askNumber env) true
      else pure ()
    else pure ()
  else pure ()

/-- A break below the old top is reported with an action that aborts. -/
def growMain : M Unit := do
  if (← ask env .morecore) ∨ (← ask env .mmapAsMorecore) then
    if ← ask env .extendsTop then pure ()
    else if ← ask env .breakMovedDown then halt .abort
    else placeTop env
  else pure ()

/-- The last part of `sysmalloc`. -/
def takeFromTop (a : ArenaId) : M (Option Victim) := do
  if ← ask env .topLargeEnough then return some (← splitChunk env a) else return none

def sysmallocGrow (a : ArenaId) (triedMmap : Bool) : M (Option Victim) := do
  if a = mainArena then
    growMain env
    takeFromTop env a
  else
    match ← growArena env a triedMmap with
    | some result => return result
    | none => takeFromTop env a

def sysmalloc (av : Option ArenaId) : M (Option Victim) := do
  match av with
  | none =>
      match ← tryMmap env none with
      | some result => return result
      | none => return none
  | some a =>
      if ← ask env .aboveMmapThreshold then
        match ← tryMmap env (some a) with
        | some result => return result
        | none => sysmallocGrow env a true
      else sysmallocGrow env a false

/-- The label `errout` of `_int_malloc`. -/
def mallocErrout (a : ArenaId) : M (Option Victim) := do
  mallocPrinterr env (some a)
  return none

def handOut (a : ArenaId) : M (Option Victim) := do
  if ← ask env .corruption then mallocErrout env a
  else return some ⟨← askNumber env, false⟩

def handOutSplit (a : ArenaId) : M (Option Victim) := do
  if ← ask env .remainder then
    if ← ask env .corruption then mallocErrout env a
    else return some (← splitChunk env a)
  else return some ⟨← askNumber env, false⟩

/-- A chunk of the unsorted bin whose size is not plausible. -/
def reportCorruption (a : ArenaId) : M Unit := do
  if ← ask env .corruption then mallocPrinterr env (some a) else pure ()

/-- One round of the loop of `_int_malloc`; there is no result when the top is too
small. -/
def mallocRound (a : ArenaId) : M (Option (Option Victim)) := do
  reportCorruption env a
  if ← ask env .lastRemainder then return some (some (← splitChunk env a))
  else if ← ask env .exactFit then return some (some ⟨← askNumber env, false⟩)
  else if ← ask env .binnedChunk then return some (← handOutSplit env a)
  else if ← ask env .topLargeEnough then return some (some (← splitChunk env a))
  else return none

/-- The loop of `_int_malloc`. Consolidation leaves no fast chunks, so the second
round is the last. -/
def mallocLoop (a : ArenaId) : M (Option Victim) := do
  match ← mallocRound env a with
  | some result => return result
  | none =>
      if ← haveFastchunks a then
        mallocConsolidate env a
        match ← mallocRound env a with
        | some result => return result
        | none => sysmalloc env (some a)
      else sysmalloc env (some a)

/-- `_int_malloc` from the check of the regular bins on. -/
def mallocRegular (a : ArenaId) (nb : Nat) : M (Option Victim) := do
  if inSmallbinRange nb then
    if (← getArena a).binsLinked then
      if ← ask env .smallbinChunk then handOut env a else mallocLoop env a
    else
      mallocConsolidate env a
      mallocLoop env a
  else
    consolidateFastchunks env a
    mallocLoop env a

def intMallocSized (a : ArenaId) (nb : Nat) : M (Option Victim) := do
  if ← replenishMetadataCache env a then
    if nb ≤ (← getMaxFast).toNat ∧ (← ask env .fastbinChunk) then handOut env a
    else mallocRegular env a nb
  else return none

def intMalloc (av : Option ArenaId) (bytes : Nat) : M (Option Victim) := do
  match checkedRequest2size bytes with
  | none => return none
  | some nb =>
      match av with
      | none => sysmalloc env none
      | some a => intMallocSized env a nb

/-- The end of `_int_realloc`: what is too much is split off and freed. -/
def reallocSplit (a : ArenaId) (oldp : Chunk) : M (Option Victim) := do
  if ← ask env .remainder then
    let remainder ← registerNew env a
    intFree env (some a) (some false) remainder true
    return some ⟨oldp, false⟩
  else return some ⟨oldp, false⟩

def reallocMove (a : ArenaId) (oldp : Chunk) (nb : Nat) : M (Option Victim) := do
  match ← intMalloc env (some a) (nb - mallocAlignMask) with
  | none => return none
  | some newp =>
      if newp.mmapped = false ∧ (← ask env .nextIsNew) then
        unregisterChunk a newp.chunk
        reallocSplit env a oldp
      else
        intFree env (some a) (some false) oldp true
        return some newp

def intRealloc (a : ArenaId) (oldp : Chunk) (nb : Nat) : M (Option Victim) := do
  if ← ask env .corruption then mallocErrout env a
  else if ← ask env .oldLargeEnough then reallocSplit env a oldp
  else if ← ask env .nextIsTop then
    unregisterSome env a
    let _ ← registerNew env a
    return some ⟨oldp, false⟩
  else if ← ask env .nextIsFree then
    unregisterSome env a
    reallocSplit env a oldp
  else reallocMove env a oldp nb

/-- `mremap_chunk (&main_arena, p)`. -/
def mremapChunk (p : Chunk) : M (Option Chunk) := do
  if ← ask env .sameNumberOfPages then return some p
  else if ← ask env .mremap then
    if ← ask env .moved then
      unregisterChunk mainArena p
      let newp ← askNumber env
      registerChunk env mainArena newp true
      return some newp
    else return some p
  else return none

/-- A mapped chunk that is not aligned: the record moves within the mapping. -/
def memalignMmapped (av : Option ArenaId) (p : Chunk) : M (Option Victim) := do
  enterMain env .memalign av
  if av ≠ some mainArena ∧ (← getArena mainArena).metadataCacheCount = 0 then
    restoreLock env .memalign av
    return none
  else
    let newp ← askNumber env
    registerChunk env mainArena newp true
    unregisterChunk mainArena p
    restoreLock env .memalign av
    return some ⟨newp, true⟩

/-- The end of `_int_memalign`: spare room is given back. -/
def memalignTail (a : ArenaId) (p : Chunk) : M (Option Victim) := do
  if ← ask env .remainder then
    let remainder ← registerNew env a
    intFree env (some a) (some false) remainder true
    return some ⟨p, false⟩
  else return some ⟨p, false⟩

/-- A chunk of the heap that is not aligned: the leader is given back. -/
def memalignLeader (a : ArenaId) (p : Chunk) : M (Option Victim) := do
  let newp ← registerNew env a
  intFree env (some a) (some false) p true
  memalignTail env a newp

def intMemalign (av : Option ArenaId) (alignment bytes : Nat) : M (Option Victim) := do
  match checkedRequest2size bytes with
  | none => return none
  | some nb =>
      match ← intMalloc env av (nb + alignment + minSize) with
      | none => return none
      | some victim =>
          match victim.mmapped, av with
          | true, _ =>
              if ← ask env .misaligned then memalignMmapped env av victim.chunk
              else return some victim
          | false, some a =>
              if ← ask env .misaligned then memalignLeader env a victim.chunk
              else memalignTail env a victim.chunk
          -- without an arena, `_int_malloc` returns a mapped chunk
          | false, none => halt .segfault

end SriGlibcMalloc.EntryPoints
