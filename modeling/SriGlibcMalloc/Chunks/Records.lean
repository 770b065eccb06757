import SriGlibcMalloc.BoundaryTags.Walk
import SriGlibcMalloc.EntryPoints.Internal

/-!
# The records of chunks

What the routines do to the fields of a record: the size, the `PREV_INUSE` bit,
`prev_size`, `md_next` and `md_prev`, and the list that the chunk is on. A record is named
by the address of its chunk. A result is missing where an assertion fails or NULL is
followed.
-/

namespace SriGlibcMalloc.Chunks

open BoundaryTags
open EntryPoints (minSize)

set_option autoImplicit false

/-- An assertion, or a test whose failure ends in `abort ()`. -/
def assert (condition : Bool) : Option Unit := if condition then some () else none

@[simp]
theorem assert_true : assert true = some () := rfl

theorem assert_of {condition : Bool} (holds : condition = true) : assert condition = some () :=
  if_pos holds

theorem proceed {α β : Type} {step : Option α} {rest : α → Option β} {value : α} {result : β}
    (done : step = some value) (others : rest value = some result) :
    (step >>= rest) = some result := by
  rw [done]
  exact others

theorem asserted {β : Type} {condition : Bool} {rest : Unit → Option β} {result : β}
    (holds : condition = true) (others : rest () = some result) :
    (assert condition >>= rest) = some result := proceed (assert_of holds) others

def lookupChunk (tags : Table) (p : Nat) : Option Nat := (tags p).map fun _ => p

def mdNextSanityCheck (tags : Table) (p : Nat) : Bool :=
  (tags p).any fun tag => tag.next = lookupChunk tags (p + tag.size)

def mdPrevSanityCheck (tags : Table) (p : Nat) : Bool :=
  (tags p).any fun tag => tag.prev = lookupChunk tags (p - tag.prevSize)

/-- `set_head (p, size | PREV_INUSE)`. -/
def setHead (tags : Table) (p size : Nat) : Table :=
  retag tags p fun tag => { tag with size := size, prevInuse := true }

def setHeadSize (tags : Table) (p size : Nat) : Table :=
  retag tags p fun tag => { tag with size := size }

/-- The bit of the chunk is in the record of the next one. -/
def inuseBit (tags : Table) (p : Nat) : Option Bool := do
  assert (mdNextSanityCheck tags p)
  let next ← tags (← (← tags p).next)
  return next.prevInuse

def setInuseBit (tags : Table) (p : Nat) : Option Table := do
  assert (mdNextSanityCheck tags p)
  let next ← (← tags p).next
  return retag tags next fun tag => { tag with prevInuse := true }

/-- The bit of the chunk before `p`. -/
def clearInuseBit (tags : Table) (p : Nat) : Table :=
  retag tags p fun tag => { tag with prevInuse := false }

def setFoot (tags : Table) (p : Nat) : Option Table := do
  assert (mdNextSanityCheck tags p)
  let tag ← tags p
  let next ← tag.next
  return retag tags next fun after => { after with prevSize := tag.size }

def setNext (tags : Table) (p : Nat) (next : Option Nat) : Table :=
  retag tags p fun tag => { tag with next := next }

def setPrev (tags : Table) (p : Nat) (prev : Option Nat) : Table :=
  retag tags p fun tag => { tag with prev := prev }

/-- `if (_md_temp != NULL) _md_temp->md_prev = _md_p`. -/
def setPrevOf (tags : Table) (temp : Option Nat) (p : Nat) : Table :=
  match temp with
  | none => tags
  | some temp => setPrev tags temp (some p)

def setPlace (tags : Table) (p : Nat) (place : Option Place) : Table :=
  retag tags p fun tag => { tag with place := place }

/-- The fields of a new record are set before they are read. -/
def registerChunk (tags : Table) (p : Nat) : Table :=
  Function.update tags p (some ⟨0, false, 0, none, none, none⟩)

def unregisterChunk (tags : Table) (p : Nat) : Table := Function.update tags p none

/-- `bin_unlink`, which aborts when the chunk is not linked. -/
def binUnlink (tags : Table) (p : Nat) : Option Table := do
  assert ((← tags p).place = some .bin)
  return setPlace tags p none

def linkRemainder (tags : Table) (p remainder remainderSize : Nat) : Option Table := do
  let temp := (← tags p).next
  let tags := registerChunk tags remainder
  let tags := setNext tags remainder temp
  let tags := setPrev tags remainder (some p)
  let tags := setNext tags p (some remainder)
  let tags := setPrevOf tags temp remainder
  return setHead tags remainder remainderSize

def absorb (tags : Table) (p next : Nat) : Option Table := do
  let temp := (← tags next).next
  let tags := setNext tags p temp
  let tags := setPrevOf tags temp p
  return unregisterChunk tags next

/-- The victim is top, so that nothing follows it. -/
def splitChunk (tags : Table) (victim nb : Nat) : Option Table := do
  let size := (← tags victim).size
  assert (nb + minSize ≤ size)
  let tags ← linkRemainder tags victim (victim + nb) (size - nb)
  return setHead tags victim nb

end SriGlibcMalloc.Chunks
