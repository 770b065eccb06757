import SriGlibcMalloc.Blocks.Malloced

/-!
# Chunks that are mappings of their own

The main arena keeps the records of mapped chunks, the table of `lookup.c` their
addresses. `prev_size` is the offset of the chunk in its mapping. A result is missing
where the process aborts. Metadata is always granted.
-/

namespace SriGlibcMalloc.MappedChunks

open Blocks
open MainArena (wrap wrapSub alignUp pageSize sizeSz chunksize)

set_option autoImplicit false

structure Record where
  prevSize : Nat
  size : Nat
  mmapped : Bool
  deriving DecidableEq, Repr

/-- The records of the main arena by address, `mmap_tbl`, the bytes that the system has
mapped, and `mp_.mmapped_mem`. -/
structure Registry where
  records : Nat → List Record
  bound : Nat → Option Nat
  mapped : Nat → Bool
  mmappedMem : Nat

variable (registry : Registry)

def Registry.lookupChunk (p : Nat) : Option Record := (registry.records p).head?

def Registry.registerChunk (p : Nat) (record : Record) : Registry :=
  { registry with records := Function.update registry.records p (record :: registry.records p) }

def Registry.unregisterChunk (p : Nat) : Registry :=
  { registry with records := Function.update registry.records p (registry.records p).tail }

def setHead (size : Nat) : List Record → List Record
  | [] => []
  | record :: others => { record with size := size, mmapped := true } :: others

def Registry.setHead (p size : Nat) : Registry :=
  { registry with
    records := Function.update registry.records p (MappedChunks.setHead size (registry.records p)) }

def Registry.lookupAddMmap (p size : Nat) : Registry :=
  { registry with bound := Function.update registry.bound p (some size) }

/-- There is no result when the address is not in the table. -/
def Registry.lookupDeleteMmap (p : Nat) : Option Registry :=
  if (registry.bound p).isSome then
    some { registry with bound := Function.update registry.bound p none }
  else none

def Registry.map (start length : Nat) : Registry :=
  { registry with
    mapped := fun byte => decide (start ≤ byte ∧ byte < start + length) || registry.mapped byte }

def Registry.munmap (start length : Nat) : Registry :=
  { registry with
    mapped := fun byte =>
      !decide (start ≤ byte ∧ byte < start + length) && registry.mapped byte }

def Registry.addMem (amount : Nat) : Registry :=
  { registry with mmappedMem := wrap (registry.mmappedMem + amount) }

def Registry.create (nb : Nat) (mm : Option Nat) : Option Nat × Registry :=
  match sysmallocMmap nb mm with
  | none => (none, registry)
  | some block =>
      (some block.addr, (((registry.map block.addr block.size).registerChunk block.addr
        ⟨block.prevSize, block.size, true⟩).lookupAddMmap block.addr block.size).addMem block.size)

/-- `munmap_chunk`, which refuses a region that is not a number of pages. -/
def Registry.munmapChunk (p : Nat) : Option Registry :=
  match registry.lookupChunk p with
  | none => none
  | some record =>
      let block := wrapSub p record.prevSize
      let totalSize := wrap (record.prevSize + record.size)
      if block % pageSize ≠ 0 ∨ totalSize % pageSize ≠ 0 then none
      else
        ((registry.addMem (wrapSub 0 totalSize)).lookupDeleteMmap p).map fun registry =>
          registry.munmap block totalSize

/-- The new length of a mapping, with the overhead of a mapped chunk. -/
def newLength (record : Record) (nb : Nat) : Nat :=
  alignUp (wrap (nb + record.prevSize + sizeSz)) pageSize

def Registry.resize (p newSize : Nat) (record : Record) : Registry :=
  (registry.setHead p (chunksize (wrapSub newSize record.prevSize))).addMem
    (wrapSub (wrapSub newSize record.size) record.prevSize)

def Registry.move (op p newSize : Nat) (record : Record) : Option Registry :=
  ((registry.unregisterChunk op).lookupDeleteMmap op).map fun registry =>
    (registry.lookupAddMmap p newSize).registerChunk p ⟨record.prevSize, 0, false⟩

/-- `mremap_chunk`, given what `mremap` answers. -/
def Registry.mremapChunk (p nb : Nat) (answer : Option Nat) : Option (Option Nat × Registry) :=
  match registry.lookupChunk p with
  | none => none
  | some record =>
      let newSize := newLength record nb
      if wrap (record.size + record.prevSize) = newSize then some (some p, registry)
      else
        match answer with
        | none => some (none, registry)
        | some cp =>
            let new := wrap (cp + record.prevSize)
            let registry := (registry.munmap (wrapSub p record.prevSize)
              (wrap (record.size + record.prevSize))).map cp newSize
            if new = p then some (some p, registry.resize p newSize record)
            else
              (registry.move p new newSize record).map fun registry =>
                (some new, registry.resize new newSize record)

end SriGlibcMalloc.MappedChunks
