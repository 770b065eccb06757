import SriGlibcMalloc.Metadata.Model

/-!
# The hash table of the replay program

This is a transcription of `lphash.c`, which repeats the dynamic hashing of
`metadata.c` with a maximal load of its own, with values in the buckets, and
without moving what it finds to the front. Where the code is that of
`metadata.c` line by line, a definition here is the one of the metadata table at
the values of this table. A bucket that is inserted comes from the pools, whose
answer is an input.
-/

namespace SriGlibcMalloc.ReplayTable

open MetadataTable

set_option autoImplicit false

abbrev Key := Nat
abbrev Value := Nat

def rot (x k : UInt32) : UInt32 := (x <<< k) ||| (x >>> (32 - k))

/-- The macro `final` on `a`, `b` and `c`; the result is `c`. -/
def final (a b c : UInt32) : UInt32 :=
  let c := (c ^^^ b) - rot b 14
  let a := (a ^^^ c) - rot c 11
  let b := (b ^^^ a) - rot a 25
  let c := (c ^^^ b) - rot b 16
  let a := (a ^^^ c) - rot c 4
  let b := (b ^^^ a) - rot a 14
  (c ^^^ b) - rot b 24

def lpjenkinsHashUint64 (x : UInt64) : UInt32 :=
  final x.toUInt32 (x >>> 32).toUInt32 0xdeadbeef

def lpjenkinsHashPtr (p : Key) : UInt32 := lpjenkinsHashUint64 (UInt64.ofNat p)

/-- `lphash` itself is built with assertions, the replay program without. -/
def lphashBuild (ndebug : Bool) : Build := ⟨ndebug, false, lpjenkinsHashPtr⟩

def lphashCfg : MetadataCfg := { cfg with minLoad := 2, maxLoad := 5 }

/-- `lphash_t`: bins, directory and keys are those of a metadata table, and the
value of a bucket is kept beside them. -/
structure Lphash where
  table : Metadata
  value : BucketPtr → Value

/-- What `lpmemcxt_allocate` answers during one call. -/
structure Grants where
  bucket : Option BucketPtr
  segment : Option SegmentPtr
  directory : Option DirectoryPtr

def Grants.answers (grants : Grants) : Answers := ⟨grants.segment, grants.directory⟩

/-- `init_lphash`, once its allocations have succeeded. -/
def initLphash (fuel : Nat) (bucket : BucketPtr → Bucket) (value : BucketPtr → Value)
    (directory : DirectoryPtr) (seg : SegmentPtr) : Lphash :=
  ⟨initMetadata fuel bucket directory seg, value⟩

def lphashLoad (table : Metadata) : Nat := metadataLoad table

def lphashBindex (ndebug : Bool) (table : Metadata) (p : Key) : Exec Nat :=
  metadataBindex (lphashBuild ndebug) table p

/-- A bin out of range is NULL when there are no assertions, and its caller reads
through it. -/
def lpbindex2bin (ndebug : Bool) (table : Metadata) (bindex : Nat) : Exec BinPtr :=
  if bindex < table.bincount then bindex2bin (lphashBuild ndebug) table bindex
  else if ndebug then .error .nullSegment
  else .error .assertBindex

def lphashFetchBucket (ndebug : Bool) (table : Metadata) (p : Key) : Exec BinPtr := do
  let bindex ← lphashBindex ndebug table p
  lpbindex2bin ndebug table bindex

def lphashExpandTable (ndebug : Bool) (table : Metadata) (answers : Answers) :
    Exec (Bool × Metadata) :=
  metadataExpandTable (lphashBuild ndebug) table answers

def lphashExpandCheck (ndebug : Bool) (table : Metadata) (answers : Answers) :
    Exec (Bool × Metadata) :=
  if table.bincount < lphashCfg.bincountMax ∧ lphashLoad table > lphashCfg.maxLoad then
    lphashExpandTable ndebug table answers
  else return (true, table)

def lphashContractTable (ndebug : Bool) (table : Metadata) (answers : Answers) : Exec Metadata :=
  metadataContractTable (lphashBuild ndebug) table answers

def lphashContractCheck (ndebug : Bool) (table : Metadata) (answers : Answers) :
    Exec Metadata :=
  if table.L > 0 ∧ lphashLoad table < lphashCfg.minLoad then
    lphashContractTable ndebug table answers
  else return table

def lphashInsert (ndebug : Bool) (lhtbl : Lphash) (key : Key) (value : Value) (grants : Grants) :
    Exec (Bool × Lphash) := do
  let binp ← lphashFetchBucket ndebug lhtbl.table key
  match grants.bucket with
  | none => return (false, lhtbl)
  | some newbucket => do
      let keyed := setChunk lhtbl.table newbucket key
      let (success, after) ←
        lphashExpandCheck ndebug (linkFront keyed binp newbucket) grants.answers
      return (success, ⟨after, Function.update lhtbl.value newbucket value⟩)

/-- The loop of `lphash_lookup`; the value is NULL when the chain ends. -/
def lookupValue (lhtbl : Lphash) (key : Key) : Nat → Option BucketPtr → Exec Value
  | 0, _ => .error .endlessChain
  | _ + 1, none => return 0
  | fuel + 1, some bucketp =>
      if key = (lhtbl.table.bucket bucketp).chunk then return lhtbl.value bucketp
      else lookupValue lhtbl key fuel (lhtbl.table.nextBucket bucketp)

def lphashLookup (ndebug : Bool) (lhtbl : Lphash) (key : Key) : Exec Value := do
  let binp ← lphashFetchBucket ndebug lhtbl.table key
  lookupValue lhtbl key lhtbl.table.fuel (lhtbl.table.slot binp)

def lphashDelete (ndebug : Bool) (lhtbl : Lphash) (key : Key) (grants : Grants) :
    Exec (Bool × Lphash) := do
  let table := lhtbl.table
  let binp ← lphashFetchBucket ndebug table key
  let (found, removed) ← deleteLoop key binp table.fuel none (table.slot binp) table
  if found then
    let contracted ← lphashContractCheck ndebug removed grants.answers
    return (true, { lhtbl with table := contracted })
  else return (false, { lhtbl with table := removed })

def lphashDeleteAll (ndebug : Bool) (lhtbl : Lphash) (key : Key) (grants : Grants) :
    Exec (Nat × Lphash) := do
  let table := lhtbl.table
  let binp ← lphashFetchBucket ndebug table key
  let (count, removed) ← deleteAllLoop key binp table.fuel 0 none (table.slot binp) table
  let counted := removed.setCount (wrapSub removed.count count)
  if count > 0 then
    let contracted ← lphashContractCheck ndebug counted grants.answers
    return (count, { lhtbl with table := contracted })
  else return (count, { lhtbl with table := counted })

inductive Op
  | insert (key : Key) (value : Value)
  | lookup (key : Key)
  | delete (key : Key)
  | deleteAll (key : Key)
  deriving DecidableEq, Repr

inductive Reply
  | inserted (success : Bool)
  | found (value : Value)
  | deleted (success : Bool)
  | purged (count : Nat)
  deriving DecidableEq, Repr

def perform (ndebug : Bool) (lhtbl : Lphash) (op : Op) (grants : Grants) :
    Exec (Reply × Lphash) :=
  match op with
  | .insert key value => do
      let (success, after) ← lphashInsert ndebug lhtbl key value grants
      return (.inserted success, after)
  | .lookup key => do
      let value ← lphashLookup ndebug lhtbl key
      return (.found value, lhtbl)
  | .delete key => do
      let (success, after) ← lphashDelete ndebug lhtbl key grants
      return (.deleted success, after)
  | .deleteAll key => do
      let (count, after) ← lphashDeleteAll ndebug lhtbl key grants
      return (.purged count, after)

end SriGlibcMalloc.ReplayTable
