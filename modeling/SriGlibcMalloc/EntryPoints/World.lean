import Mathlib.Data.Nat.Bitwise
import Mathlib.Logic.Function.Basic

/-!
# Arenas, their locks and their reserves

What the entry points of `malloc.c`, `arena.c` and `hooks.c` share: the arenas
with their mutexes, flags and metadata reserves, the tunable `global_max_fast`,
and the hooks. The contents of the bins and the sizes of chunks are left out;
a condition that the code takes from them, and an answer of the system, is a
question to the surroundings. While a thread waits for a lock, other threads run.
-/

namespace SriGlibcMalloc.EntryPoints

set_option autoImplicit false

abbrev Word := BitVec 64
abbrev ThreadId := Nat
abbrev Chunk := Nat

/-- Arenas by their place in the list that starts at `main_arena`. -/
abbrev ArenaId := Nat

abbrev mainArena : ArenaId := 0

def metadataCacheSize : Nat := 8

/-- `malloc_state`. The bins are linked once `malloc_init_state` has run; before,
they hold NULL. A record tells whether its chunk has `IS_MMAPPED`. -/
structure Arena where
  mutex : Option ThreadId
  corrupt : Bool
  fastchunksBit : Bool
  binsLinked : Bool
  mdTop : Bool
  arenaIndex : Nat
  metadataPoolReady : Bool
  metadataCacheCount : Nat
  record : Chunk → Option Bool
  /-- How often `malloc_init_state` has run on the arena. -/
  inits : Nat

def Arena.zero : Arena := ⟨none, false, false, false, false, 0, false, 0, fun _ => none, 0⟩

inductive Hook
  | null
  | ini
  | check
  | atfork
  deriving DecidableEq, Repr

structure World where
  arena : ArenaId → Arena
  arenaCount : Nat
  threadArena : ThreadId → Option ArenaId
  freeList : List ArenaId
  nextToUse : Option ArenaId
  globalMaxFast : Word
  mallocInitialized : Bool
  mallocHook : Hook
  freeHook : Hook
  reallocHook : Hook
  memalignHook : Hook
  /-- How often `lookup_init` has run. -/
  lookupInits : Nat

/-- Where a lock is taken. In `sysmalloc` the thread has given up the lock of `av`
before; it takes it again to go on when `mmap` has been refused. -/
inductive Site
  | malloc
  | free
  | realloc
  | calloc
  | memalign
  | sysmalloc (av : Option ArenaId)
  | mmapRefused (av : Option ArenaId)
  | arena
  | trim
  | mallinfo
  | mallopt
  | hooks
  deriving DecidableEq, Repr

/-- Conditions that are not decided by the state above. -/
inductive Question
  | initMetadata
  | replenishing
  | poolAllocation
  | metadataAdd
  | aborts
  | corruption
  | nullReadSurvives
  | fastbinChunk
  | smallbinChunk
  | lastRemainder
  | exactFit
  | binnedChunk
  | remainder
  | topLargeEnough
  | aboveMmapThreshold
  | mmapSizeFits
  | mmap
  | growHeap
  | newHeap
  | morecore
  | mmapAsMorecore
  | extendsTop
  | breakMovedDown
  | endOfMemoryKnown
  | oldTop
  | oldTopLeft
  | oldLargeEnough
  | nextIsTop
  | nextIsFree
  | nextIsNew
  | misaligned
  | sameNumberOfPages
  | mremap
  | moved
  | belowArenaLimit
  | topCheckFails
  deriving DecidableEq, Repr

/-- The `MALLOC_` settings that `ptmalloc_init` hands to `mallopt`. -/
inductive Tunable
  | topPad
  | perturb
  | mmapMax
  | arenaMax
  | arenaTest
  | trimThreshold
  | mmapThreshold
  deriving DecidableEq, Repr

def Tunable.parameter : Tunable → Int
  | .topPad => -2
  | .perturb => -6
  | .mmapMax => -4
  | .arenaMax => -8
  | .arenaTest => -7
  | .trimThreshold => -1
  | .mmapThreshold => -3

/-- The surroundings of one call: the calling thread, the answers to the questions
in the course of the call, and what other threads do while it waits for a lock. What
they may change for ever, the list of arenas and the hooks, is followed for `rounds`
turns. -/
structure Env where
  me : ThreadId
  answer : Question → Nat → Bool
  number : Nat → Nat
  others : Site → ArenaId → Nat → World → World
  rounds : Nat
  tunables : List (Tunable × Int)
  /-- The setting of `MALLOC_CHECK_`. -/
  checkAction : Option Int

inductive Halt
  | relock (arena : ArenaId)
  | notHeld (arena : ArenaId)
  | reserveEmpty (arena : ArenaId)
  | blocked
  | abort
  | segfault
  | absentRecord
  deriving DecidableEq, Repr

structure State where
  world : World
  clock : Nat

abbrev M := StateT State (Except Halt)

variable (env : Env)

def ask (question : Question) : M Bool := do
  let state ← get
  set { state with clock := state.clock + 1 }
  return env.answer question state.clock

/-- A number that the call works with: an address or a size. -/
def askNumber : M Nat := do
  let state ← get
  set { state with clock := state.clock + 1 }
  return env.number state.clock

def halt {Result : Type} (why : Halt) : M Result := throw why

def getWorld : M World := do
  return (← get).world

def modifyWorld (change : World → World) : M Unit := do
  let state ← get
  set { state with world := change state.world }

def getArena (a : ArenaId) : M Arena := do
  return (← get).world.arena a

def World.updateArena (world : World) (a : ArenaId) (change : Arena → Arena) : World :=
  { world with arena := Function.update world.arena a (change (world.arena a)) }

def modifyArena (a : ArenaId) (change : Arena → Arena) : M Unit :=
  modifyWorld fun world => world.updateArena a change

def wait (site : Site) (a : ArenaId) : M Unit := do
  let state ← get
  set (⟨env.others site a state.clock state.world, state.clock + 1⟩ : State)

/-- `mutex_lock`, once the thread has waited. -/
def acquire (a : ArenaId) : M Unit := do
  match (← getArena a).mutex with
  | none => modifyArena a fun arena => { arena with mutex := some env.me }
  | some owner => if owner = env.me then halt (.relock a) else halt .blocked

def lockArena (site : Site) (a : ArenaId) : M Unit := do
  wait env site a
  acquire env a

def unlockArena (a : ArenaId) : M Unit := do
  if (← getArena a).mutex = some env.me then
    modifyArena a fun arena => { arena with mutex := none }
  else halt (.notHeld a)

/-- `mutex_trylock`; the result tells whether the mutex was taken. -/
def trylock (a : ArenaId) : M Bool := do
  match (← getArena a).mutex with
  | none =>
      modifyArena a fun arena => { arena with mutex := some env.me }
      return true
  | some _ => return false

/-- `if (av != NULL) LOCK_ARENA (av, site)` and its counterpart. -/
def lockAv (site : Site) : Option ArenaId → M Unit
  | none => pure ()
  | some a => lockArena env site a

def unlockAv : Option ArenaId → M Unit
  | none => pure ()
  | some a => unlockArena env a

/-- `if (!have_lock) LOCK_ARENA (a, site)` and its counterpart. -/
def lockUnless (haveLock : Bool) (site : Site) (a : ArenaId) : M Unit :=
  if haveLock then pure () else lockArena env site a

def unlockUnless (haveLock : Bool) (a : ArenaId) : M Unit :=
  if haveLock then pure () else unlockArena env a

/-- The lock of `av` is given up for the lock of `main_arena`, unless `av` is
`main_arena`, and back. -/
def enterMain (site : Site) (av : Option ArenaId) : M Unit := do
  if av = some mainArena then pure ()
  else
    unlockAv env av
    lockArena env site mainArena

def leaveMain (site : Site) (av : Option ArenaId) : M Unit := do
  if av = some mainArena then pure ()
  else
    unlockArena env mainArena
    lockAv env site av

def restoreLock (site : Site) (av : Option ArenaId) : M Unit := do
  unlockArena env mainArena
  lockAv env site av

def replenishLoop (a : ArenaId) : Nat → M Bool
  | 0 => do
      modifyArena a fun arena => { arena with metadataCacheCount := metadataCacheSize }
      return true
  | missing + 1 => do
      if ← ask env .replenishing then replenishLoop a missing else return false

def replenishMetadataCache (a : ArenaId) : M Bool := do
  let arena ← getArena a
  if arena.metadataPoolReady then
    if arena.metadataCacheCount < metadataCacheSize then
      replenishLoop env a (metadataCacheSize - arena.metadataCacheCount)
    else return true
  else return true

/-- A record comes from the pool, and from the reserve when the pool fails. -/
def newChunkinfoptr (a : ArenaId) : M Unit := do
  let arena ← getArena a
  if arena.metadataCacheCount = 0 then halt (.reserveEmpty a)
  else if ← ask env .poolAllocation then pure ()
  else modifyArena a fun arena => { arena with metadataCacheCount := arena.metadataCacheCount - 1 }

/-- Every caller writes to the record that is returned. -/
def registerChunk (a : ArenaId) (p : Chunk) (isMmapped : Bool) : M Unit := do
  newChunkinfoptr env a
  if ← ask env .metadataAdd then
    modifyArena a fun arena => { arena with record := Function.update arena.record p (some isMmapped) }
  else halt .segfault

def unregisterChunk (a : ArenaId) (p : Chunk) : M Unit :=
  modifyArena a fun arena => { arena with record := Function.update arena.record p none }

/-- A new chunk at an address that the heap decides. -/
def registerNew (a : ArenaId) : M Chunk := do
  let p ← askNumber env
  registerChunk env a p false
  return p

/-- A chunk of the heap that is merged with a neighbour. -/
def unregisterSome (a : ArenaId) : M Unit := do
  let p ← askNumber env
  unregisterChunk a p

def unregisterEach (a : ArenaId) : Nat → M Unit
  | 0 => pure ()
  | count + 1 => do
      unregisterSome env a
      unregisterEach a count

def markCorrupt : Option ArenaId → M Unit
  | none => pure ()
  | some a => modifyArena a fun arena => { arena with corrupt := true }

/-- `malloc_printerr`: it may return. -/
def mallocPrinterr (a : Option ArenaId) : M Unit := do
  markCorrupt a
  if ← ask env .aborts then halt .abort else pure ()

/-- The arena has a top, else `chunkinfo2chunk (av->_md_top)` reads through NULL. -/
def requireTop (a : ArenaId) : M Unit := do
  if (← getArena a).mdTop then pure () else halt .segfault

/-- A field of a record is read that is not there. The read may survive, because its
value is not used. -/
def readNull : M Unit := do
  if ← ask env .nullReadSurvives then pure () else halt .absentRecord

/-- `chunkinfo2chunk`, of a record that is known to be there or of NULL. -/
def readUnless (known : Bool) : M Unit :=
  if known then pure () else readNull env

def smallbinWidth : Word := 16
def defaultMxfast : Word := 128
def maxFastSize : Int := 160

def maxFastFor (sz : Word) : Word :=
  if sz = 0 then smallbinWidth else (sz + 8) &&& ~~~15

def setMaxFast (sz : Word) : M Unit :=
  modifyWorld fun world => { world with globalMaxFast := maxFastFor sz }

def getMaxFast : M Word := do
  return (← getWorld).globalMaxFast

def haveFastchunks (a : ArenaId) : M Bool := do
  return !(← getArena a).fastchunksBit

/-- The assignments of `malloc_init_state` up to the metadata. -/
def World.linkBins (world : World) (a : ArenaId) (isMainArena : Bool) : World :=
  { world.updateArena a fun arena => { arena with
      binsLinked := true
      fastchunksBit := true
      arenaIndex := if isMainArena then 1 else 0
      record := fun _ => none
      inits := arena.inits + 1 } with
    lookupInits := if isMainArena then world.lookupInits + 1 else world.lookupInits
    globalMaxFast := if a = mainArena then maxFastFor defaultMxfast else world.globalMaxFast }

def mallocInitState (a : ArenaId) (isMainArena : Bool) : M Unit := do
  modifyWorld fun world => world.linkBins a isMainArena
  if ← ask env .initMetadata then
    modifyArena a fun arena => { arena with metadataPoolReady := true }
    if ← replenishMetadataCache env a then
      let _ ← registerNew env a
      modifyArena a fun arena => { arena with mdTop := true }
    else halt .abort
  else halt .abort

/-- Merging leaves the flags of the arena and gives it a top. -/
def mallocConsolidate (a : ArenaId) : M Unit := do
  if (← getMaxFast) ≠ 0 then
    modifyArena a fun arena => { arena with fastchunksBit := true }
    unregisterEach env a (← askNumber env)
  else mallocInitState env a true

end SriGlibcMalloc.EntryPoints
