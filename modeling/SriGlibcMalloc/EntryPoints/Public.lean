import SriGlibcMalloc.EntryPoints.Internal

/-!
# The entry points and the hooks

This is a transcription of the control flow of the public wrappers of `malloc.c`,
of the choice of an arena in `arena.c`, and of the checking hooks of `hooks.c`.
-/

namespace SriGlibcMalloc.EntryPoints

set_option autoImplicit false

variable (env : Env)

def setThreadArena (a : ArenaId) : M Unit :=
  modifyWorld fun world =>
    { world with threadArena := Function.update world.threadArena env.me (some a) }

def getFreeList : M (Option ArenaId) := do
  match (← getWorld).freeList with
  | [] => return none
  | result :: later =>
      modifyWorld fun world => { world with freeList := later }
      lockArena env .arena result
      setThreadArena env result
      return some result

/-- The arena behind the last one joins the list, as the arena of the thread. -/
def World.appendArena (world : World) (a : ArenaId) (me : ThreadId) : World :=
  { world.updateArena a fun arena => { arena with arenaIndex := a + 1 } with
    arenaCount := a + 1
    threadArena := Function.update world.threadArena me (some a) }

def intNewArena : M (Option ArenaId) := do
  if ← ask env .newHeap then
    let a := (← getWorld).arenaCount
    modifyArena a fun _ => Arena.zero
    mallocInitState env a false
    let _ ← registerNew env a
    modifyWorld fun world => world.appendArena a env.me
    lockArena env .arena a
    return some a
  else return none

/-- The first loop of `reused_arena`: an arena that is not corrupt and not locked. -/
def tryArenas : List ArenaId → M (Option ArenaId)
  | [] => return none
  | a :: later => do
      if (← getArena a).corrupt then tryArenas later
      else if ← trylock env a then return some a
      else tryArenas later

def arenasFrom (start count : Nat) : List ArenaId :=
  (List.range count).map fun step => (start + step) % count

def nextArena (a count : Nat) : ArenaId := (a + 1) % count

/-- The label `out` of `reused_arena`. -/
def reuse (result : ArenaId) : M (Option ArenaId) := do
  setThreadArena env result
  modifyWorld fun world => { world with nextToUse := some (nextArena result world.arenaCount) }
  return some result

/-- The second loop of `reused_arena`, from `begin` on. -/
def skipArenas (avoid : Option ArenaId) : List ArenaId → M (Option ArenaId)
  | [] => return none
  | a :: later => do
      if (← getArena a).corrupt ∨ avoid = some a then skipArenas avoid later
      else return some a

def reusedArena (avoid : Option ArenaId) : M (Option ArenaId) := do
  let world ← getWorld
  let start := world.nextToUse.getD mainArena
  match ← tryArenas env (arenasFrom start world.arenaCount) with
  | some result => reuse env result
  | none =>
      let begin' := if avoid = some start then nextArena start world.arenaCount else start
      match ← skipArenas avoid (arenasFrom begin' world.arenaCount) with
      | none => return none
      | some result =>
          if result = begin' then return none
          else
            lockArena env .arena result
            reuse env result

def arenaGet2 (avoid : Option ArenaId) : M (Option ArenaId) := do
  match ← getFreeList env with
  | some a => return some a
  | none =>
      if ← ask env .belowArenaLimit then intNewArena env else reusedArena env avoid

def arenaGet (site : Site) : M (Option ArenaId) := do
  match (← getWorld).threadArena env.me with
  | none => arenaGet2 env none
  | some a =>
      if (← getArena a).corrupt then arenaGet2 env none
      else
        lockArena env site a
        return some a

def arenaGetRetry (site : Site) (a : ArenaId) : M (Option ArenaId) := do
  if a ≠ mainArena then
    unlockArena env a
    if (← getArena mainArena).corrupt then return none
    else
      lockArena env site mainArena
      return some mainArena
  else
    unlockArena env mainArena
    arenaGet2 env (some a)

/-- `lookup_arena_index` and `arena_from_index`; an index that no arena has leads to
the arena behind `main_arena`. -/
def arenaFromIndex (index : Nat) : M ArenaId := do
  let world ← getWorld
  if index < 2 then return mainArena
  else
    let others := arenasFrom 1 world.arenaCount
    match others.find? fun a => (world.arena a).arenaIndex = index with
    | some a => return a
    | none => return nextArena mainArena world.arenaCount

def mMxfast : Int := 1

def setParameter (parameter value : Int) : M Unit :=
  if parameter = mMxfast ∧ 0 ≤ value ∧ value ≤ maxFastSize then setMaxFast (BitVec.ofInt 64 value)
  else pure ()

/-- `__libc_mallopt` after the check of `__malloc_initialized`. -/
def malloptBody (parameter value : Int) : M Unit := do
  lockArena env .mallopt mainArena
  mallocConsolidate env mainArena
  setParameter parameter value
  unlockArena env mainArena

def malloptAll : List (Tunable × Int) → M Unit
  | [] => pure ()
  | (tunable, value) :: later => do
      malloptBody env tunable.parameter value
      malloptAll later

def mCheckAction : Int := -5

/-- `__malloc_check_init`, when the check action is not zero. -/
def mallocCheckInit : M Unit := do
  match env.checkAction with
  | none => pure ()
  | some action =>
      malloptBody env mCheckAction action
      if action ≠ 0 then
        modifyWorld fun world => { world with
          mallocHook := .check, freeHook := .check, reallocHook := .check, memalignHook := .check }
      else pure ()

def ptmallocInit : M Unit := do
  if (← getWorld).mallocInitialized then pure ()
  else
    modifyWorld fun world => { world with mallocInitialized := true }
    setThreadArena env mainArena
    malloptAll env env.tunables
    mallocCheckInit env

def libcMallopt (parameter value : Int) : M Unit := do
  ptmallocInit env
  malloptBody env parameter value

def mtrim (a : ArenaId) : M Unit := do
  if (← getArena a).corrupt then pure () else mallocConsolidate env a

/-- The loop of `malloc_trim`. The arenas that are added meanwhile are trimmed as well. -/
def trimArenas : Nat → ArenaId → M Unit
  | 0, _ => halt .blocked
  | rounds + 1, a => do
      lockArena env .trim a
      mtrim env a
      unlockArena env a
      let next := nextArena a (← getWorld).arenaCount
      if next = mainArena then pure () else trimArenas rounds next

def libcMallocTrim : M Unit := do
  ptmallocInit env
  trimArenas env env.rounds mainArena

def intMallinfo (a : ArenaId) : M Unit := do
  if (← getArena a).mdTop then pure () else mallocConsolidate env a

def mallinfoArenas : Nat → ArenaId → M Unit
  | 0, _ => halt .blocked
  | rounds + 1, a => do
      lockArena env .mallinfo a
      intMallinfo env a
      unlockArena env a
      let next := nextArena a (← getWorld).arenaCount
      if next = mainArena then pure () else mallinfoArenas rounds next

def libcMallinfo : M Unit := do
  ptmallocInit env
  mallinfoArenas env env.rounds mainArena

/-- `top_check`; the result tells whether there is a top. -/
def topCheck : M Bool := do
  requireTop mainArena
  if ← ask env .topCheckFails then
    mallocPrinterr env (some mainArena)
    if ← ask env .morecore then
      let _ ← registerNew env mainArena
      return true
    else return false
  else return true

def topCheckThen (routine : M (Option Victim)) : M (Option Victim) := do
  if ← topCheck env then routine else return none

/-- `malloc_check` up to the point where the lock is given back. -/
def mallocCheckVictim (sz : Nat) : M (Option Victim) := do
  lockArena env .hooks mainArena
  let victim ← topCheckThen env (intMalloc env (some mainArena) (sz + 1))
  unlockArena env mainArena
  return victim

/-- The result is read before it is tested. -/
def mallocCheck (sz : Nat) : M (Option Victim) := do
  if sz + 1 = 2 ^ 64 then return none
  else
    let victim ← mallocCheckVictim env sz
    readUnless env victim.isSome
    return victim

def freeCheck (mem : Chunk) : M Unit := do
  if mem = 0 then pure ()
  else
    lockArena env .hooks mainArena
    match (← getArena mainArena).record mem with
    | none =>
        readNull env
        unlockArena env mainArena
        mallocPrinterr env (some mainArena)
    | some mmapped =>
        if ← ask env .corruption then
          unlockArena env mainArena
          mallocPrinterr env (some mainArena)
        else if mmapped then
          munmapChunk env
          unregisterChunk mainArena mem
          unlockArena env mainArena
        else
          intFree env (some mainArena) none mem true
          unlockArena env mainArena

def reallocCheckMmapped (mem : Chunk) (bytes : Nat) : M Unit := do
  match ← mremapChunk env mem with
  | some _ => pure ()
  | none =>
      if ← ask env .oldLargeEnough then pure ()
      else
        match ← topCheckThen env (intMalloc env (some mainArena) (bytes + 1)) with
        | none => pure ()
        | some _ =>
            munmapChunk env
            unregisterChunk mainArena mem

/-- `realloc_check` from the second time on that it takes the lock. The size is
checked once more under the lock, with the same outcome. -/
def reallocCheckLocked (mem : Chunk) (mmapped : Bool) (bytes : Nat) : M Unit := do
  match checkedRequest2size (bytes + 1) with
  | none => pure ()
  | some nb =>
      lockArena env .hooks mainArena
      if mmapped then reallocCheckMmapped env mem bytes
      else
        let _ ← topCheckThen env (intRealloc env mainArena mem nb)
      unlockArena env mainArena

/-- `realloc_check` with the lock held; a chunk without a record is left at once. -/
def reallocCheckRecord (oldmem : Chunk) (bytes : Nat) : M Unit := do
  match (← getArena mainArena).record oldmem with
  | none => pure ()
  | some mmapped =>
      let invalid ← ask env .corruption
      unlockArena env mainArena
      if invalid then
        mallocPrinterr env (some mainArena)
        let _ ← mallocCheck env bytes
      else reallocCheckLocked env oldmem mmapped bytes

def reallocCheck (oldmem : Chunk) (bytes : Nat) : M Unit := do
  if bytes + 1 = 2 ^ 64 then pure ()
  else if oldmem = 0 then
    let _ ← mallocCheck env bytes
  else if bytes = 0 then freeCheck env oldmem
  else
    lockArena env .hooks mainArena
    reallocCheckRecord env oldmem bytes

/-- The checks of `_mid_memalign` and `memalign_check`: the alignment that is used. -/
def alignmentFor (alignment bytes : Nat) : M (Option Nat) := do
  let alignment := if alignment < minSize then minSize else alignment
  if 2 ^ 63 < alignment then return none
  else if 2 ^ 64 - 1 - alignment - minSize < bytes then return none
  else if alignment.isPowerOfTwo then return some alignment
  else return some alignment.nextPowerOfTwo

/-- `memalign_check` from the lock up to the point where it is given back. -/
def memalignCheckVictim (alignment bytes : Nat) : M (Option Victim) := do
  lockArena env .hooks mainArena
  let victim ← topCheckThen env (intMemalign env (some mainArena) alignment (bytes + 1))
  unlockArena env mainArena
  return victim

def memalignCheck (alignment bytes : Nat) : M (Option Victim) := do
  if alignment ≤ 16 then mallocCheck env bytes
  else
    match ← alignmentFor alignment bytes with
    | none => return none
    | some alignment =>
        let victim ← memalignCheckVictim env alignment bytes
        readUnless env victim.isSome
        return victim

/-- The rest of `__libc_malloc` after the first attempt has failed. -/
def mallocRetry (a : ArenaId) (bytes : Nat) : M (Option Victim) := do
  let av ← arenaGetRetry env .malloc a
  let victim ← intMalloc env av bytes
  unlockAv env av
  return victim

def mallocBody (bytes : Nat) : M (Option Victim) := do
  match ← arenaGet env .malloc with
  | none => intMalloc env none bytes
  | some a =>
      match ← intMalloc env (some a) bytes with
      | some victim =>
          unlockArena env a
          return some victim
      | none => mallocRetry env a bytes

/-- A thread that meets the hooks of a fork waits for the handlers to complete. -/
def awaitFork : M Unit := wait env .hooks mainArena

/-- `__libc_malloc`, which `malloc_hook_ini` and `malloc_atfork` call again. -/
def mallocRounds : Nat → Nat → M (Option Victim)
  | 0, _ => halt .blocked
  | rounds + 1, bytes => do
      match (← getWorld).mallocHook with
      | .null => mallocBody env bytes
      | .check => mallocCheck env bytes
      | .ini =>
          modifyWorld fun world => { world with mallocHook := .null }
          ptmallocInit env
          mallocRounds rounds bytes
      | .atfork =>
          awaitFork env
          mallocRounds rounds bytes

def libcMalloc (bytes : Nat) : M (Option Victim) := mallocRounds env env.rounds bytes

/-- `malloc_atfork`, in the thread that forks or in another one. The hook of
`malloc_check` reads its result before it is tested. -/
def mallocAtfork (forking : Bool) (saved : Hook) (sz : Nat) : M (Option Victim) := do
  if forking then
    if saved = .check then
      if ← topCheck env then
        let victim ← intMalloc env (some mainArena) ((sz + 1) % 2 ^ 64)
        readUnless env victim.isSome
        return victim
      else return none
    else intMalloc env (some mainArena) sz
  else
    awaitFork env
    libcMalloc env sz

def requireRecord (p : Chunk) (why : Halt) : M Unit := do
  if ((← getArena mainArena).record p).isSome then pure () else halt why

def freeBody (mem : Chunk) : M Unit := do
  if mem = 0 then pure ()
  else
    let index ← askNumber env
    if index = 0 then
      lockArena env .free mainArena
      requireRecord mem .abort
      munmapChunk env
      unregisterChunk mainArena mem
      unlockArena env mainArena
    else intFree env (some (← arenaFromIndex index)) none mem false

/-- `free_atfork` of a thread that is not the one that forks. -/
def freeAtfork (mem : Chunk) : M Unit := do
  if mem = 0 then pure ()
  else
    let index ← askNumber env
    if index = 0 then
      requireRecord mem .segfault
      munmapChunk env
    else intFree env (some (← arenaFromIndex index)) none mem false

def libcFree (mem : Chunk) : M Unit := do
  match (← getWorld).freeHook with
  | .check => freeCheck env mem
  | .atfork => freeAtfork env mem
  | _ => freeBody env mem

def callocRetry (a : ArenaId) (sz : Nat) : M (Option Victim) := do
  readNull env
  let av ← arenaGetRetry env .calloc a
  let victim ← intMalloc env av sz
  readUnless env victim.isSome
  unlockAv env av
  return victim

/-- `__libc_calloc`; the top and the results are read before they are tested. -/
def callocBody (sz : Nat) : M (Option Victim) := do
  match ← arenaGet env .calloc with
  | none =>
      let victim ← intMalloc env none sz
      readUnless env victim.isSome
      return victim
  | some a =>
      if ← replenishMetadataCache env a then
        readUnless env (← getArena a).mdTop
        match ← intMalloc env (some a) sz with
        | some victim =>
            unlockArena env a
            return some victim
        | none => callocRetry env a sz
      else
        unlockArena env a
        return none

def libcCalloc (n elemSize : Nat) : M (Option Victim) := do
  if 2 ^ 64 ≤ n * elemSize then return none
  else
    match (← getWorld).mallocHook with
    | .null => callocBody env (n * elemSize)
    | _ => libcMalloc env (n * elemSize)

def memalignRetry (a : ArenaId) (alignment bytes : Nat) : M (Option Victim) := do
  let av ← arenaGetRetry env .memalign a
  let victim ← intMemalign env av alignment bytes
  unlockAv env av
  return victim

/-- `_mid_memalign` once the alignment is known. -/
def memalignBody (alignment bytes : Nat) : M (Option Victim) := do
  match ← arenaGet env .memalign with
  | none => intMemalign env none alignment bytes
  | some a =>
      if ← replenishMetadataCache env a then
        match ← intMemalign env (some a) alignment bytes with
        | some victim =>
            unlockArena env a
            return some victim
        | none => memalignRetry env a alignment bytes
      else
        unlockArena env a
        return none

def midMemalignUnhooked (alignment bytes : Nat) : M (Option Victim) := do
  if alignment ≤ 16 then libcMalloc env bytes
  else
    match ← alignmentFor alignment bytes with
    | none => return none
    | some alignment => memalignBody env alignment bytes

def midMemalign (alignment bytes : Nat) : M (Option Victim) := do
  match (← getWorld).memalignHook with
  | .check => memalignCheck env alignment bytes
  | .ini =>
      modifyWorld fun world => { world with memalignHook := .null }
      ptmallocInit env
      if (← getWorld).memalignHook = .check then memalignCheck env alignment bytes
      else midMemalignUnhooked env alignment bytes
  | _ => midMemalignUnhooked env alignment bytes

/-- A mapped chunk in `__libc_realloc` that `mremap_chunk` leaves where it is. -/
def reallocCopy (oldmem : Chunk) (bytes : Nat) : M Unit := do
  match ← libcMalloc env bytes with
  | none => pure ()
  | some _ =>
      munmapChunk env
      lockArena env .realloc mainArena
      unregisterChunk mainArena oldmem
      unlockArena env mainArena

/-- A mapped chunk in `__libc_realloc`, with the lock of `ar_ptr` held. -/
def reallocMmapped (a : ArenaId) (oldmem : Chunk) (bytes : Nat) : M Unit := do
  enterMain env .realloc (some a)
  match ← mremapChunk env oldmem with
  | some _ => if a = mainArena then unlockArena env mainArena else pure ()
  | none =>
      leaveMain env .realloc (some a)
      unlockArena env a
      if ← ask env .oldLargeEnough then pure () else reallocCopy env oldmem bytes

/-- `__libc_malloc`, copy and free, when `_int_realloc` has failed. -/
def reallocElsewhere (a : ArenaId) (oldmem : Chunk) (bytes : Nat) : M Unit := do
  match ← libcMalloc env bytes with
  | none => pure ()
  | some _ => intFree env (some a) (some false) oldmem false

/-- A chunk of a heap in `__libc_realloc`; the result is read before it is tested. -/
def reallocHeap (a : ArenaId) (oldmem : Chunk) (bytes nb : Nat) : M Unit := do
  let newp ← intRealloc env a oldmem nb
  readUnless env newp.isSome
  unlockArena env a
  if newp.isSome then pure () else reallocElsewhere env a oldmem bytes

/-- `__libc_realloc` with the lock of `ar_ptr` held and the record found. -/
def reallocRecord (a : ArenaId) (oldmem : Chunk) (mmapped : Bool) (bytes : Nat) : M Unit := do
  if ← replenishMetadataCache env a then
    if ← ask env .corruption then
      mallocPrinterr env (some a)
      unlockArena env a
    else
      match checkedRequest2size bytes with
      | none => unlockArena env a
      | some nb =>
          if mmapped then reallocMmapped env a oldmem bytes
          else reallocHeap env a oldmem bytes nb
  else unlockArena env a

def reallocBody (oldmem : Chunk) (bytes : Nat) : M Unit := do
  if bytes = 0 ∧ oldmem ≠ 0 then libcFree env oldmem
  else if oldmem = 0 then
    let _ ← libcMalloc env bytes
  else
    let a ← arenaFromIndex (← askNumber env)
    lockArena env .realloc a
    match (← getArena a).record oldmem with
    | none => halt .abort
    | some mmapped => reallocRecord env a oldmem mmapped bytes

/-- `realloc_hook_ini` up to the call of `__libc_realloc`. -/
def reallocHookIni : M Unit := do
  modifyWorld fun world => { world with mallocHook := .null, reallocHook := .null }
  ptmallocInit env

/-- `__libc_realloc` after `realloc_hook_ini`. -/
def reallocUnhooked (oldmem : Chunk) (bytes : Nat) : M Unit := do
  if (← getWorld).reallocHook = .check then reallocCheck env oldmem bytes
  else reallocBody env oldmem bytes

def libcRealloc (oldmem : Chunk) (bytes : Nat) : M Unit := do
  match (← getWorld).reallocHook with
  | .check => reallocCheck env oldmem bytes
  | .ini =>
      reallocHookIni env
      reallocUnhooked env oldmem bytes
  | _ => reallocBody env oldmem bytes

end SriGlibcMalloc.EntryPoints
