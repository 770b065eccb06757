import SriGlibcMalloc.Lookup.Model

/-!
# How the main arena obtains and returns memory

This is the part of `sysmalloc` and of `systrim` that deals with `MORECORE`,
with `mmap` as its backup, and with the bounds that `lookup.c` keeps. Sizes are
64-bit words; a `long` is read as signed where the source compares it with
zero. `MORECORE` is `sbrk`: when it succeeds it returns the old break.
-/

namespace SriGlibcMalloc.MainArena

open ArenaLookup

set_option autoImplicit false

def pageSize : Nat := 4096
def sizeSz : Nat := 8
def minSize : Nat := 32
def mallocAlignment : Nat := 16
def mmapAsMorecoreSize : Nat := 1024 * 1024

def wrap (n : Nat) : Nat := n % 2 ^ 64

def wrapSub (left right : Nat) : Nat := wrap (2 ^ 64 - wrap right + left)

/-- The value of a word that is declared `long`. -/
def signed (word : Nat) : Int := if word < 2 ^ 63 then word else (word : Int) - 2 ^ 64

def alignDown (base unit : Nat) : Nat := base - base % unit

def alignUp (base unit : Nat) : Nat := alignDown (wrap (base + unit - 1)) unit

/-- `chunksize` of a head that was set to a size: the low two bits are flags. -/
def chunksize (size : Nat) : Nat := size - size % 4

structure Sbrk where
  brk : Nat
  lookup : Lookup
  sbrkBase : Nat
  contiguous : Bool
  systemMem : Nat

/-- What the system answers in one call of `sysmalloc`: to `MORECORE (size)`, to
the backup `mmap`, to `MORECORE (correction)` and to `MORECORE (0)`. -/
structure Answers where
  first : Bool
  backup : Option Nat
  second : Bool
  probe : Bool

/-- Whether `MORECORE` succeeds: the new break has to be an address. -/
def Sbrk.moves (sbrk : Sbrk) (granted : Bool) (amount : Int) : Bool :=
  granted && 0 < (sbrk.brk : Int) + amount && (sbrk.brk : Int) + amount < 2 ^ 63

def morecore (sbrk : Sbrk) (granted : Bool) (amount : Int) : Option Nat × Sbrk :=
  if sbrk.moves granted amount then
    (some sbrk.brk, { sbrk with brk := ((sbrk.brk : Int) + amount).toNat })
  else (none, sbrk)

/-- The memory that `sysmalloc` got; `sndBrk` is set after the backup only. -/
structure Grant where
  brk : Nat
  size : Nat
  sndBrk : Option Nat

def growthRequest (contiguous : Bool) (nb topPad oldSize : Nat) : Nat :=
  let size := wrap (nb + topPad + minSize)
  alignUp (if contiguous then wrapSub size oldSize else size) pageSize

def backupRequest (contiguous : Bool) (size oldSize : Nat) : Nat :=
  let size := if contiguous then alignUp (wrap (size + oldSize)) pageSize else size
  if size < mmapAsMorecoreSize then mmapAsMorecoreSize else size

/-- What `sysmalloc` records about the memory before it looks at the old top. -/
def recordGrant (sbrk : Sbrk) (grant : Grant) : Sbrk :=
  let lookup :=
    match grant.sndBrk with
    | some sndBrk => (lookupAddSbrkRegion sbrk.lookup grant.brk sndBrk).2
    | none =>
        let lookup :=
          if sbrk.sbrkBase = 0 then lookupSetSbrkLo sbrk.lookup grant.brk else sbrk.lookup
        lookupIncrSbrkHi lookup grant.size
  { sbrk with
    lookup := lookup
    sbrkBase := if sbrk.sbrkBase = 0 then grant.brk else sbrk.sbrkBase
    systemMem := wrap (sbrk.systemMem + grant.size) }

/-- The first `MORECORE`, which is skipped when the size has wrapped. -/
def askMorecore (sbrk : Sbrk) (granted : Bool) (size : Nat) : Option Nat × Sbrk :=
  if 0 < signed size then morecore sbrk granted size else (none, sbrk)

/-- Whether the backup is tried, `nb < size`, and can succeed at all. -/
def mappable (nb size mbrk : Nat) : Bool :=
  nb < size && 0 < mbrk && mbrk + size < 2 ^ 63

/-- `mmap` as a backup; the space is not contiguous from then on. -/
def askMmap (sbrk : Sbrk) (backup : Option Nat) (nb size : Nat) : Option Grant × Sbrk :=
  match backup with
  | some mbrk =>
      if mappable nb size mbrk then
        let grant := ⟨mbrk, size, some (mbrk + size)⟩
        (some grant, recordGrant { sbrk with contiguous := false } grant)
      else (none, sbrk)
  | none => (none, sbrk)

def obtainMemory (sbrk : Sbrk) (answers : Answers) (nb topPad oldSize : Nat) :
    Option Grant × Sbrk :=
  let size := growthRequest sbrk.contiguous nb topPad oldSize
  match askMorecore sbrk answers.first size with
  | (some brk, sbrk) =>
      let grant := ⟨brk, size, none⟩
      (some grant, recordGrant sbrk grant)
  | (none, sbrk) =>
      askMmap sbrk answers.backup nb (backupRequest sbrk.contiguous size oldSize)

inductive Placement
  | extended (size : Nat)
  | moved (alignedBrk : Nat) (size : Nat)
  | kept

/-- The contiguous case after a foreign move of the break, or the first time. -/
def correctTop (sbrk : Sbrk) (answers : Answers) (grant : Grant) (oldEnd oldSize : Nat) :
    Placement × Sbrk :=
  let counted := if oldSize ≠ 0 then
    { sbrk with systemMem := wrap (sbrk.systemMem + (grant.brk - oldEnd)) } else sbrk
  let frontMisalign := grant.brk % mallocAlignment
  let skipped := if 0 < frontMisalign then mallocAlignment - frontMisalign else 0
  let alignedBrk := grant.brk + skipped
  let endMisalign := wrap (grant.brk + grant.size + skipped + oldSize)
  let correction := skipped + oldSize + wrapSub (alignUp endMisalign pageSize) endMisalign
  match morecore counted answers.second correction with
  | (some sndBrk, sbrk) =>
      (.moved alignedBrk (chunksize (wrap (wrapSub sndBrk alignedBrk + correction))),
        { sbrk with
          systemMem := wrap (sbrk.systemMem + correction)
          lookup := if 0 < correction then lookupIncrSbrkHi sbrk.lookup correction
            else sbrk.lookup })
  | (none, sbrk) =>
      match morecore sbrk answers.probe 0 with
      | (some sndBrk, sbrk) => (.moved alignedBrk (chunksize (wrapSub sndBrk alignedBrk)), sbrk)
      | (none, sbrk) => (.kept, sbrk)

/-- The adjustment of top; there is no result when `malloc_printerr` aborts. -/
def placeTop (sbrk : Sbrk) (answers : Answers) (grant : Grant) (oldEnd oldSize : Nat) :
    Option (Placement × Sbrk) :=
  if grant.brk = oldEnd ∧ grant.sndBrk = none then
    some (.extended (chunksize (wrap (grant.size + oldSize))), sbrk)
  else if sbrk.contiguous ∧ oldSize ≠ 0 ∧ grant.brk < oldEnd then none
  else if sbrk.contiguous then some (correctTop sbrk answers grant oldEnd oldSize)
  else
    match grant.sndBrk with
    | some sndBrk => some (.moved grant.brk (chunksize (wrapSub sndBrk grant.brk)), sbrk)
    | none =>
        match morecore sbrk answers.probe 0 with
        | (some sndBrk, sbrk) =>
            some (.moved grant.brk (chunksize (wrapSub sndBrk grant.brk)), sbrk)
        | (none, sbrk) => some (.kept, sbrk)

/-- The main-arena branch of `sysmalloc` up to the new top. -/
def growTop (sbrk : Sbrk) (answers : Answers) (nb topPad oldEnd oldSize : Nat) :
    Option (Placement × Sbrk) :=
  match obtainMemory sbrk answers nb topPad oldSize with
  | (some grant, sbrk) => placeTop sbrk answers grant oldEnd oldSize
  | (none, sbrk) => some (.kept, sbrk)

structure TrimAnswers where
  query : Bool
  release : Bool
  probe : Bool

/-- The amount that `systrim` wants to return; `none` when it gives up first. -/
def trimAmount (topSize pad : Nat) : Option Int :=
  let topArea := wrapSub topSize (minSize + 1)
  if topArea ≤ pad then none
  else
    let extra := signed (alignDown (wrapSub topArea pad) pageSize)
    if extra = 0 then none else some extra

/-- `systrim` reads the break again and believes what it reads. -/
def recordRelease (sbrk : Sbrk) (probe : Bool) (currentBrk topSize : Nat) : Option Nat × Sbrk :=
  match morecore sbrk probe 0 with
  | (none, sbrk) => (none, sbrk)
  | (some newBrk, sbrk) =>
      if currentBrk = newBrk then (none, sbrk)
      else
        let released := wrapSub currentBrk newBrk
        (some (chunksize (wrapSub topSize released)),
          { sbrk with
            systemMem := wrapSub sbrk.systemMem released
            lookup := lookupDecrSbrkHi sbrk.lookup released })

/-- Memory is only returned when top ends at the break. -/
def releaseTop (sbrk : Sbrk) (answers : TrimAnswers) (extra : Int) (topEnd topSize : Nat) :
    Option Nat × Sbrk :=
  match morecore sbrk answers.query 0 with
  | (none, sbrk) => (none, sbrk)
  | (some currentBrk, sbrk) =>
      if currentBrk = topEnd then
        let sbrk := (morecore sbrk answers.release (-extra)).2
        recordRelease sbrk answers.probe currentBrk topSize
      else (none, sbrk)

/-- `systrim`: the new size of top, if any memory was released. -/
def systrim (sbrk : Sbrk) (answers : TrimAnswers) (pad topEnd topSize : Nat) :
    Option Nat × Sbrk :=
  match trimAmount topSize pad with
  | none => (none, sbrk)
  | some extra => releaseTop sbrk answers extra topEnd topSize

end SriGlibcMalloc.MainArena
