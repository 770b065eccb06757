import Mathlib.Logic.Function.Basic
import Mathlib.Data.Nat.Bitwise

/-!
# The expanding hash table

This is a transcription of `lfht.c` as one thread runs it: every
compare-and-swap succeeds, and nothing happens between two lines. A header is
named by the number of the `mmap` call that returned it; the table that follows
it is a map from slots to entries, zeroed by the kernel. Assertions are compiled
in. The hash is a parameter, and so is the number of times that the jump back to
`retry` is followed before the call is taken not to return.
-/

namespace SriGlibcMalloc.LockFreeTable

set_option autoImplicit false

abbrev Word := Nat
abbrev HdrPtr := Nat

def tombstone : Word := 0
def keyAlignment : Nat := 16
def assimilatedBit : Nat := 1
def maxTableSize : Nat := 2 ^ 31
def migrationsPerAccess : Nat := 3

inductive TableState
  | initial
  | expanding
  | expanded
  deriving DecidableEq, Repr

structure Entry where
  key : Word
  val : Word
  deriving DecidableEq, Repr

structure Hdr where
  assimilated : Bool
  max : Nat
  threshold : Nat
  count : Nat
  next : Option HdrPtr
  table : Nat → Entry

/-- `lfht_t` with the headers that the `mmap` calls so far have returned. -/
structure Lfht where
  state : TableState
  tableHdr : HdrPtr
  hdr : HdrPtr → Hdr
  mmapCalls : Nat

/-- `mmap n` tells whether the call number `n` succeeds. -/
structure Env where
  hash : Word → Nat
  mmap : Nat → Bool
  retries : Nat

inductive Fault
  | assertKey
  | assertNotAssimilated
  | assertValue
  | assertState
  | assertPredecessor
  | assertLinked
  | nullPredecessor
  | endlessProbe
  | endlessRetry
  deriving DecidableEq, Repr

abbrev Exec (Value : Type) := Except Fault Value

@[simp] theorem ok_bind {Value Other : Type} (value : Value) (rest : Value → Exec Other) :
    ((Except.ok value : Exec Value) >>= rest) = rest value := rfl

@[simp] theorem error_bind {Value Other : Type} (fault : Fault) (rest : Value → Exec Other) :
    ((Except.error fault : Exec Value) >>= rest) = Except.error fault := rfl

@[simp] theorem pure_ok {Value : Type} (value : Value) :
    (pure value : Exec Value) = Except.ok value := rfl

def assert (condition : Bool) (fault : Fault) : Exec Unit :=
  if condition then .ok () else .error fault

@[simp] theorem assert_true (fault : Fault) : assert true fault = .ok () := rfl

def isAssimilated (key : Word) : Bool := key &&& (keyAlignment - 1) ≠ 0

def setAssimilated (key : Word) : Word := key ||| assimilatedBit

/-- `alloc_lfht_hdr`; `0.6 * max` is cut to an integer. -/
def allocLfhtHdr (max : Nat) (next : Option HdrPtr) : Hdr where
  assimilated := false
  max := max
  threshold := 6 * max / 10
  count := 0
  next := next
  table := fun _ => ⟨0, tombstone⟩

def initLfht (env : Env) (max : Nat) : Option Lfht :=
  if max ≠ 0 ∧ env.mmap 0 then
    some {
      state := .initial
      tableHdr := 0
      hdr := fun _ => allocLfhtHdr max none
      mmapCalls := 1 }
  else none

def Lfht.setHdr (ht : Lfht) (ptr : HdrPtr) (hdr : Hdr) : Lfht :=
  { ht with hdr := Function.update ht.hdr ptr hdr }

def Lfht.setEntry (ht : Lfht) (ptr : HdrPtr) (slot : Nat) (entry : Entry) : Lfht :=
  ht.setHdr ptr { ht.hdr ptr with table := Function.update (ht.hdr ptr).table slot entry }

def predecessorDone (ht : Lfht) (ptr : HdrPtr) : Bool :=
  match (ht.hdr ptr).next with
  | none => true
  | some predecessor => (ht.hdr predecessor).assimilated

def growTable (env : Env) (ht : Lfht) (hdr : HdrPtr) : Exec (Bool × Lfht) :=
  let ohdr := ht.tableHdr
  if hdr ≠ ohdr then .ok (false, ht)
  else if (ht.hdr ohdr).max < maxTableSize then
    let nhdr := ht.mmapCalls
    if env.mmap nhdr then do
      let grown := { ht.setHdr nhdr (allocLfhtHdr (2 * (ht.hdr ohdr).max) (some ohdr)) with
        tableHdr := nhdr
        mmapCalls := nhdr + 1 }
      assert (grown.state = .initial || grown.state = .expanded) .assertState
      let expanding := { grown with state := .expanding }
      assert (predecessorDone expanding ohdr) .assertPredecessor
      assert ((expanding.hdr expanding.tableHdr).next = some hdr) .assertLinked
      .ok (true, expanding)
    else .ok (false, { ht with mmapCalls := nhdr + 1 })
  else .ok (false, ht)

/-- The loop that `_lfht_add`, `lfht_remove` and `lfht_find` share: the slot
where the first empty or matching key is, or none after a full round. -/
def probe (table : Nat → Entry) (mask j : Nat) (key : Word) : Nat → Nat → Exec (Option Nat)
  | 0, _ => .error .endlessProbe
  | fuel + 1, i =>
      if (table i).key = 0 || (table i).key = key then .ok (some i)
      else
        let i := (i + 1) &&& mask
        if i = j then .ok none else probe table mask j key fuel i

def probeHdr (env : Env) (hdr : Hdr) (key : Word) : Exec (Option Nat) :=
  let mask := hdr.max - 1
  let j := env.hash key &&& mask
  probe hdr.table mask j key hdr.max j

/-- The jump back to `retry` while the header that was used is assimilated. -/
def retrying {Value : Type} (attempt : Lfht → Exec (Value × Lfht)) : Nat → Lfht →
    Exec (Value × Lfht)
  | 0, _ => .error .endlessRetry
  | fuel + 1, ht => do
      let hdr := ht.tableHdr
      let (value, ht) ← attempt ht
      if (ht.hdr hdr).assimilated then retrying attempt fuel ht else .ok (value, ht)

/-- The text of `_lfht_add` from `retry` to `exit`. -/
def addAttempt (env : Env) (key val : Word) (ht : Lfht) : Exec (Bool × Lfht) := do
  let hdr := ht.tableHdr
  match ← probeHdr env (ht.hdr hdr) key with
  | none => .ok (false, ht)
  | some i =>
      if ((ht.hdr hdr).table i).key = 0 then
        let added := ht.setEntry hdr i ⟨key, val⟩
        let count := (added.hdr hdr).count
        let counted := added.setHdr hdr { added.hdr hdr with count := (count + 1) % 2 ^ 32 }
        if (counted.hdr hdr).threshold < (count + 1) % 2 ^ 32 then
          let (_, grown) ← growTable env counted hdr
          .ok (true, grown)
        else .ok (true, counted)
      else .ok (true, ht.setEntry hdr i ⟨key, val⟩)

/-- The checks at the beginning of `_lfht_add`. -/
def checkBinding (key val : Word) : Exec Unit := do
  assert (key ≠ 0) .assertKey
  assert (!isAssimilated key) .assertNotAssimilated
  assert (val ≠ tombstone) .assertValue

/-- `_lfht_add` without the migration tax: nothing is retried. -/
def internalAdd (env : Env) (ht : Lfht) (key val : Word) : Exec (Bool × Lfht) := do
  checkBinding key val
  addAttempt env key val ht

/-- What the loop of `assimilate` does with the entry of a slot. -/
def assimilateEntry (env : Env) (fromHdr : HdrPtr) (i : Nat) (ht : Lfht) (retval : Nat) :
    Exec (Nat × Lfht) :=
  let entry := (ht.hdr fromHdr).table i
  if entry.key ≠ 0 && !isAssimilated entry.key then
    let marked := ht.setEntry fromHdr i ⟨setAssimilated entry.key, entry.val⟩
    if entry.val ≠ tombstone then do
      let (_, moved) ← internalAdd env marked entry.key entry.val
      .ok (retval + 1, moved)
    else .ok (retval, marked)
  else .ok (retval, ht)

def assimilateLoop (env : Env) (fromHdr : HdrPtr) (mask j : Nat) (key : Word) (count : Nat) :
    Nat → Nat → Lfht → Nat → Bool → Exec (Nat × Lfht)
  | 0, _, _, _, _ => .error .endlessProbe
  | fuel + 1, i, ht, retval, success =>
      let entry := (ht.hdr fromHdr).table i
      let gone := entry.key = 0 || entry.key = setAssimilated key
      let moveit := !gone && entry.key = key
      let success := success || gone || moveit
      let visit := moveit || retval < count
      if !visit && success && count ≤ retval then .ok (retval, ht)
      else do
        let (retval, ht) ←
          if visit then assimilateEntry env fromHdr i ht retval else .ok (retval, ht)
        let i := (i + 1) &&& mask
        if i = j then .ok (retval, ht)
        else assimilateLoop env fromHdr mask j key count fuel i ht retval success

def assimilate (env : Env) (ht : Lfht) (fromHdr : HdrPtr) (key : Word) (count : Nat) :
    Exec (Nat × Lfht) :=
  let hdr := ht.hdr fromHdr
  if hdr.assimilated then .ok (0, ht)
  else
    let mask := hdr.max - 1
    let j := env.hash key &&& mask
    assimilateLoop env fromHdr mask j key count hdr.max j ht 0 false

def migrateTable (env : Env) (ht : Lfht) (key : Word) : Exec Lfht :=
  if ht.state = .expanding then
    let hdr := ht.tableHdr
    match (ht.hdr hdr).next with
    | none => .error .nullPredecessor
    | some ohdr => do
        let (moved, ht) ← assimilate env ht ohdr key migrationsPerAccess
        if moved < migrationsPerAccess then
          let finished := ht.setHdr ohdr { ht.hdr ohdr with assimilated := true }
          if finished.tableHdr = hdr then .ok { finished with state := .expanded }
          else .ok finished
        else .ok ht
  else .ok ht

def lfhtAdd (env : Env) (ht : Lfht) (key val : Word) : Exec (Bool × Lfht) := do
  checkBinding key val
  let ht ← migrateTable env ht key
  retrying (addAttempt env key val) (env.retries + 1) ht

def removeAttempt (env : Env) (key : Word) (ht : Lfht) : Exec (Bool × Lfht) := do
  let hdr := ht.tableHdr
  match ← probeHdr env (ht.hdr hdr) key with
  | none => .ok (false, ht)
  | some i =>
      if ((ht.hdr hdr).table i).key = key then .ok (true, ht.setEntry hdr i ⟨key, tombstone⟩)
      else .ok (false, ht)

def lfhtRemove (env : Env) (ht : Lfht) (key : Word) : Exec (Bool × Lfht) := do
  if key = 0 then .ok (false, ht)
  else
    let ht ← migrateTable env ht key
    retrying (removeAttempt env key) (env.retries + 1) ht

/-- The value that is stored through `valp`, when the answer is true. -/
def findAttempt (env : Env) (key : Word) (ht : Lfht) : Exec (Option Word × Lfht) := do
  let hdr := ht.tableHdr
  match ← probeHdr env (ht.hdr hdr) key with
  | none => .ok (none, ht)
  | some i =>
      if ((ht.hdr hdr).table i).key = 0 then .ok (none, ht)
      else .ok (some ((ht.hdr hdr).table i).val, ht)

def lfhtFind (env : Env) (ht : Lfht) (key : Word) : Exec (Option Word × Lfht) := do
  if key = 0 then .ok (none, ht)
  else
    let ht ← migrateTable env ht key
    retrying (findAttempt env key) (env.retries + 1) ht

end SriGlibcMalloc.LockFreeTable
