import Mathlib.Data.Finset.Basic
import SriGlibcMalloc.Lphash.Model
import SriGlibcMalloc.Replay.LogLine

/-!
# The handlers of the replay program

This is a transcription of the handlers of `replaylib.c`. The program performs
the recorded calls on a local allocator and keeps in its hash table which local
block stands for which recorded pointer. A free or a reallocation of a block that
the local allocator does not hold is a fault.
-/

namespace SriGlibcMalloc.Replay

open ReplayTable

set_option autoImplicit false

inductive Fault
  | table (fault : MetadataTable.Fault)
  | notLive (block : Value)
  deriving DecidableEq, Repr

abbrev Exec (Result : Type) := Except Fault Result

def onTable {Result : Type} (outcome : MetadataTable.Exec Result) : Exec Result :=
  outcome.mapError Fault.table

inductive Request
  | malloc (size : Word)
  | calloc (count size : Word)
  | realloc (block : Value) (size : Word)
  deriving DecidableEq

/-- A block that was free; every request for one is met. -/
def Request.Met (blocks : Finset Value) (answer : Value) : Request → Prop
  | .malloc _ => answer ≠ 0 ∧ answer ∉ blocks
  | .calloc _ _ => answer ≠ 0 ∧ answer ∉ blocks
  | .realloc block size => answer ∉ blocks.erase block ∧ ((block = 0 ∨ size ≠ 0) → answer ≠ 0)

/-- An allocator that never fails: what it answers when it holds the given blocks.
It may answer a reallocation to no bytes, which frees the block, with NULL. -/
structure Allocator where
  answer : Finset Value → Request → Value
  never_fails : ∀ (blocks : Finset Value) (request : Request),
    request.Met blocks (answer blocks request)

structure State where
  htbl : Lphash
  blocks : Finset Value

/-- What the surroundings do during one line: the local allocator, and the memory
that the table gets for a removal and for an insertion. -/
structure Turn where
  allocator : Allocator
  removal : Grants
  insertion : Grants

/-- A block that is returned to the caller is live. -/
def acquire (rptr : Value) (blocks : Finset Value) : Finset Value :=
  if rptr = 0 then blocks else insert rptr blocks

def rMalloc (turn : Turn) (state : State) (size : Word) : Value × State :=
  let rptr := turn.allocator.answer state.blocks (.malloc size)
  (rptr, { state with blocks := acquire rptr state.blocks })

def rCalloc (turn : Turn) (state : State) (count size : Word) : Value × State :=
  let rptr := turn.allocator.answer state.blocks (.calloc count size)
  (rptr, { state with blocks := acquire rptr state.blocks })

def rRealloc (turn : Turn) (state : State) (ptr : Value) (size : Word) : Exec (Value × State) :=
  if ptr = 0 ∨ ptr ∈ state.blocks then
    let rptr := turn.allocator.answer state.blocks (.realloc ptr size)
    let kept := if rptr = 0 ∧ size ≠ 0 then state.blocks else state.blocks.erase ptr
    return (rptr, { state with blocks := acquire rptr kept })
  else .error (.notLive ptr)

def rFree (state : State) (ptr : Value) : Exec State :=
  if ptr = 0 then return state
  else if ptr ∈ state.blocks then return { state with blocks := state.blocks.erase ptr }
  else .error (.notLive ptr)

def tableInsert (turn : Turn) (state : State) (key : Word) (val : Value) :
    Exec (Bool × State) := do
  let (inserted, htbl) ← onTable (lphashInsert true state.htbl key.toNat val turn.insertion)
  return (inserted, { state with htbl := htbl })

def tableDelete (turn : Turn) (state : State) (key : Word) : Exec State := do
  let (_, htbl) ← onTable (lphashDelete true state.htbl key.toNat turn.removal)
  return { state with htbl := htbl }

def tableLookup (state : State) (key : Word) : Exec Value :=
  onTable (lphashLookup true state.htbl key.toNat)

def replayMalloc (turn : Turn) (state : State) : List Word → Exec (Bool × State)
  | [sz, key, _] =>
      let (val, state) := rMalloc turn state sz
      tableInsert turn state key val
  | _ => return (false, state)

def replayCalloc (turn : Turn) (state : State) : List Word → Exec (Bool × State)
  | [cnt, sz, key, _] =>
      let (val, state) := rCalloc turn state cnt sz
      tableInsert turn state key val
  | _ => return (false, state)

/-- What `replay_realloc` does to the table when the entry is not left as it is. -/
def rebind (turn : Turn) (state : State) (ptrIn ptrOut : Word) (valNew : Value) :
    Exec (Bool × State) := do
  let state ← tableDelete turn state ptrIn
  tableInsert turn state ptrOut valNew

def replayRealloc (turn : Turn) (state : State) : List Word → Exec (Bool × State)
  | [ptrIn, sz, ptrOut, _] => do
      let valOld ← (if ptrIn = 0 then pure 0 else tableLookup state ptrIn)
      if ptrIn ≠ 0 ∧ valOld = 0 then return (false, state)
      else
        let (valNew, state) ← rRealloc turn state valOld sz
        if sz = 0 then rebind turn state ptrIn ptrOut valNew
        else if ptrIn = ptrOut then
          if valOld = valNew then return (true, state)
          else rebind turn state ptrIn ptrOut valNew
        else rebind turn state ptrIn ptrOut valNew
  | _ => return (false, state)

def replayFree (turn : Turn) (state : State) : List Word → Exec (Bool × State)
  | [key, _] =>
      if key = 0 then do
        let state ← rFree state 0
        return (true, state)
      else do
        let val ← tableLookup state key
        if val ≠ 0 then
          let state ← rFree state val
          let state ← tableDelete turn state key
          return (true, state)
        else return (true, state)
  | _ => return (false, state)

def Handler.replay (turn : Turn) (state : State) : Handler → List Word → Exec (Bool × State)
  | .replayMalloc => Replay.replayMalloc turn state
  | .replayFree => Replay.replayFree turn state
  | .replayCalloc => Replay.replayCalloc turn state
  | .replayRealloc => Replay.replayRealloc turn state

def replayline (turn : Turn) (state : State) (buffer : List Char) : Exec (Bool × State) :=
  match replayHandler buffer with
  | none => return (false, state)
  | some none => return (true, state)
  | some (some handler) =>
      match dirtywork handler.args buffer with
      | none => return (false, state)
      | some addresses => handler.replay turn state addresses

/-- What the recorder writes a line for. -/
inductive Event
  | init
  | exit
  | call (call : Call)
  deriving DecidableEq

def Event.write : Event → List Char
  | .init => writelogentry 'i' 0 0 0 0 0
  | .exit => writelogentry 'e' 0 0 0 0 0
  | .call made => made.write

/-- The loop of `process_file`, one line at a time. There is no next state when
the line is not accepted, or when a block is freed or reallocated that is not
live. -/
def replayEvent (turn : Turn) (state : State) (event : Event) : Option State :=
  match readline event.write with
  | none => none
  | some (buffer, _) =>
      match replayline turn state buffer with
      | .ok (true, next) => some next
      | _ => none

def record (result : Word) (live : Finset Key) : Finset Key :=
  if result = 0 then live else insert result.toNat live

def Call.after (live : Finset Key) : Call → Finset Key
  | .malloc _ result _ => record result live
  | .free p _ => live.erase p.toNat
  | .calloc _ _ result _ => record result live
  | .realloc p size result _ =>
      if p ≠ 0 ∧ size ≠ 0 ∧ result = 0 then live else record result (live.erase p.toNat)

def Event.after (live : Finset Key) : Event → Finset Key
  | .call made => made.after live
  | _ => live

/-- A call that a program may make, and what it may get. -/
def Call.WellFormed (live : Finset Key) : Call → Prop
  | .malloc _ result _ => result = 0 ∨ result.toNat ∉ live
  | .free p _ => p = 0 ∨ p.toNat ∈ live
  | .calloc _ _ result _ => result = 0 ∨ result.toNat ∉ live
  | .realloc p _ result _ =>
      (p = 0 ∨ p.toNat ∈ live) ∧ (result = 0 ∨ result.toNat ∉ live.erase p.toNat)

def Event.WellFormed (live : Finset Key) : Event → Prop
  | .call made => made.WellFormed live
  | _ => True

end SriGlibcMalloc.Replay
