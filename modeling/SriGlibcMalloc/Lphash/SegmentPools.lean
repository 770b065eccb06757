import SriGlibcMalloc.PoolAllocator.SlotRun

/-!
# The segment pools of the replay table

The pools of `lphash.c` are those of `memcxt.c` with other sizes, but the search for a free
segment is a loop that goes on to the next pool only when the count of the pool is zero. On
a pool with a positive count and no clear bit it would stay for ever. The assertions are not
compiled in, as in the replay program.
-/

namespace SriGlibcMalloc.ReplayPools

open PoolAllocator Transition

set_option autoImplicit false

/-- `SP_SCALE` masks; an `lpsegment_t` has 257 words. -/
def lpsegmentKind : Kind :=
  ⟨8, 2056, segmentKind.someMask, segmentKind.someBytes, segmentKind.small⟩

/-- `BP_SCALE` masks; an `lpbucket_t` has four words. -/
def lpbucketKind : Kind := ⟨32, 32, by decide, by decide, by decide⟩

/-- `lpinit_pool_memcxt`, with the answers of its two `mmap` calls. -/
def lpinitPoolMemcxt (memory : Nat → Nat) (segments buckets : Option Nat) : Bool × Memcxt :=
  (segments.isSome && buckets.isSome,
    ⟨firstPools lpsegmentKind memory segments, firstPools lpbucketKind memory buckets⟩)

def scan (pool : Pool) : Option (Nat × Pool) :=
  ((List.range lpsegmentKind.scale).find? fun scale =>
      pool.bitmasks scale < BitVec.allOnes 64).map fun scale =>
    let index := getFreeBit (pool.bitmasks scale)
    (lpsegmentKind.slot pool.base (scale * bitsInMask + index),
      { pool with
        bitmasks := Function.update pool.bitmasks scale (setBit (pool.bitmasks scale) index)
        freeCount := pool.freeCount - 1 })

inductive Fault
  | endlessSearch
  deriving DecidableEq, Repr

/-- The `while` loop, followed for a number of rounds: `passed` are the pools before
`spool_current`. The result is the segment with the pools that it leaves, or none when
`spool_current` is NULL. -/
def searchLoop : Nat → List Pool → List Pool → Except Fault (Option (Nat × List Pool))
  | 0, _, _ => .error .endlessSearch
  | _ + 1, _, [] => .ok none
  | rounds + 1, passed, current :: rest =>
      if 0 < current.freeCount then
        match scan current with
        | some (segp, changed) => .ok (some (segp, passed ++ changed :: rest))
        | none => searchLoop rounds passed (current :: rest)
      else searchLoop rounds (passed ++ [current]) rest

/-- `alloc_lpsegment`; the area is the answer of `mmap`, should `new_lpsegments` ask. -/
def allocLpsegment (rounds : Nat) (memcxt : Memcxt) (area : Option Nat) :
    Except Fault (Option Nat × Memcxt) :=
  match searchLoop rounds [] memcxt.segments.pools with
  | .error fault => .error fault
  | .ok (some (segp, pools)) =>
      .ok (some segp, { memcxt with segments := { memcxt.segments with pools := pools } })
  | .ok none =>
      match area with
      | none => .ok (none, memcxt)
      | some base =>
          let (pool, poolPtr) := newPool lpsegmentKind memcxt.segments.poolPtr base
          let first := { pool with
            freeCount := pool.freeCount - 1
            bitmasks := Function.update pool.bitmasks 0 1#64 }
          .ok (some (lpsegmentKind.slot base 0),
            { memcxt with segments := ⟨first :: memcxt.segments.pools, poolPtr⟩ })

/-- `free_lpsegment`. There is no result when the segment names no pool. -/
def freeLpsegment (memcxt : Memcxt) (segp : Nat) : Option Memcxt :=
  (free lpsegmentKind memcxt.segments segp).map fun segments => { memcxt with segments := segments }

/-- The search never stays on a pool: where it looks at the masks it finds a clear bit. -/
def NeverStays (pools : List Pool) : Prop :=
  ∀ pool ∈ pools, 0 < pool.freeCount → ∃ found, scan pool = some found

variable {pool : Pool} {pools : List Pool} {listed : Pools} {memcxt : Memcxt}
variable {live : Finset Nat} {rounds : Nat}

theorem take_eq (pool : Pool) :
    pool.take lpsegmentKind = if 0 < pool.freeCount then scan pool else none := rfl

/-- When no pool holds it back the loop ends once it has seen all pools, and has served the
first one with a clear bit. -/
theorem search_ends (never : NeverStays pools) (passed : List Pool)
    (enough : pools.length < rounds) :
    searchLoop rounds passed pools =
      .ok ((takeFrom lpsegmentKind pools).map fun found => (found.1, passed ++ found.2)) := by
  induction pools generalizing rounds passed with
  | nil =>
      cases rounds with
      | zero => cases enough
      | succ rounds => rfl
  | cons current rest ih =>
      cases rounds with
      | zero => cases enough
      | succ rounds =>
          rw [searchLoop, takeFrom, take_eq]
          by_cases counted : 0 < current.freeCount
          · obtain ⟨⟨segp, changed⟩, found⟩ := never current (List.mem_cons_self ..) counted
            simp only [if_pos counted, found, Option.map_some]
          · have later : NeverStays rest := by
              intro pool member
              exact never pool (List.mem_cons_of_mem current member)
            rw [if_neg counted, if_neg counted, ih later _ (Nat.lt_of_succ_lt_succ enough),
              Option.map_map]
            simp only [Function.comp_def, List.append_assoc, List.singleton_append]

/-- The counter and the masks agree, so that a positive count promises a clear bit. -/
theorem sound_never_stays (sound : Sound lpsegmentKind listed live) : NeverStays listed.pools := by
  intro pool member counted
  cases found : scan pool with
  | some result => exact ⟨result, rfl⟩
  | none =>
      have missed : pool.take lpsegmentKind = none := by
        rw [take_eq, if_pos counted, found]
      have exact := sound.exact.counted pool member
      have full := BitMask.vacant_zero_iff.mpr fun index inside => take_none exact missed inside
      rw [← exact] at full
      rw [BitVec.lt_def] at counted
      exact absurd full (Nat.ne_of_gt counted)

/-- In such states the loop does what the search of `memcxt.c` does. -/
theorem alloc_lpsegment_eq (never : NeverStays memcxt.segments.pools)
    (enough : memcxt.segments.pools.length < rounds) (area : Option Nat) :
    allocLpsegment rounds memcxt area = .ok ((alloc lpsegmentKind memcxt.segments area).1,
      { memcxt with segments := (alloc lpsegmentKind memcxt.segments area).2 }) := by
  unfold allocLpsegment alloc
  rw [search_ends never [] enough]
  cases takeFrom lpsegmentKind memcxt.segments.pools with
  | some found => rfl
  | none =>
      cases area <;> simp only [Option.map_none]

theorem search_more {result : Option (Nat × List Pool)} {passed : List Pool}
    (returned : searchLoop rounds passed pools = .ok result) :
    searchLoop (rounds + 1) passed pools = .ok result := by
  fun_induction searchLoop rounds passed pools with
  | case1 => cases returned
  | case2 => exact returned
  | case3 rounds passed current rest counted segp changed found =>
      rw [searchLoop, if_pos counted, found]
      exact returned
  | case4 rounds passed current rest counted full ih =>
      rw [searchLoop, if_pos counted, full]
      exact ih returned
  | case5 rounds passed current rest counted ih =>
      rw [searchLoop, if_neg counted]
      exact ih returned

theorem search_enough {result : Option (Nat × List Pool)} {passed : List Pool}
    (returned : searchLoop rounds passed pools = .ok result) (more : Nat) :
    searchLoop (rounds + more) passed pools = .ok result := by
  induction more with
  | zero => exact returned
  | succ more ih => exact search_more ih

/-- A call that returns does what `memcxt.c` would, in however many rounds. -/
theorem alloc_lpsegment_returns {area : Option Nat} {result : Option Nat × Memcxt}
    (never : NeverStays memcxt.segments.pools)
    (returned : allocLpsegment rounds memcxt area = .ok result) :
    result = ((alloc lpsegmentKind memcxt.segments area).1,
      { memcxt with segments := (alloc lpsegmentKind memcxt.segments area).2 }) := by
  cases searched : searchLoop rounds [] memcxt.segments.pools with
  | error fault =>
      unfold allocLpsegment at returned
      rw [searched] at returned
      cases returned
  | ok found =>
      have longer := search_enough searched (memcxt.segments.pools.length + 1)
      have same : allocLpsegment rounds memcxt area =
          allocLpsegment (rounds + (memcxt.segments.pools.length + 1)) memcxt area := by
        unfold allocLpsegment
        rw [searched, longer]
      rw [same, alloc_lpsegment_eq never (by omega)] at returned
      exact (Except.ok.inj returned).symm

/-- The pools and the segments that the table holds. -/
structure Client where
  memcxt : Memcxt
  live : Finset Nat

/-- A call of `alloc_lpsegment` may be followed for any number of rounds of its loop. -/
inductive Action
  | alloc (rounds : Nat) (area : Option Nat)
  | free (segp : Nat)
  deriving DecidableEq, Repr

def Apart (memcxt : Memcxt) (area : Option Nat) : Prop :=
  ∀ base ∈ area, ∀ pool ∈ memcxt.segments.pools,
    Separate base lpsegmentKind.poolBytes pool.base lpsegmentKind.poolBytes

instance (memcxt : Memcxt) : ∀ area, Decidable (Apart memcxt area)
  | none => .isTrue fun _ impossible => by cases impossible
  | some base => decidable_of_iff (∀ pool ∈ memcxt.segments.pools,
      Separate base lpsegmentKind.poolBytes pool.base lpsegmentKind.poolBytes)
      ⟨fun apart other same => (Option.some.inj same) ▸ apart, fun apart => apart base rfl⟩

/-- A call that returns: `mmap` gives an area that is not in use, and only live segments are
freed. -/
def step (client : Client) : Action → Option Client
  | .alloc rounds area =>
      if Apart client.memcxt area then
        match allocLpsegment rounds client.memcxt area with
        | .ok (segp, memcxt) => some ⟨memcxt, hold client.live segp⟩
        | .error _ => none
      else none
  | .free segp =>
      if segp ∈ client.live then
        (freeLpsegment client.memcxt segp).map fun memcxt => ⟨memcxt, client.live.erase segp⟩
      else none

def start (memory : Nat → Nat) (segments buckets : Option Nat) : Client :=
  ⟨(lpinitPoolMemcxt memory segments buckets).2, ∅⟩

variable {client next : Client}

theorem step_sound (client : Client) (action : Action) (next : Client)
    (sound : Sound lpsegmentKind client.memcxt.segments client.live)
    (stepped : step client action = some next) :
    Sound lpsegmentKind next.memcxt.segments next.live := by
  cases action with
  | alloc rounds area =>
      obtain ⟨apart, shape⟩ := Option.ite_none_right_eq_some.mp stepped
      cases returned : allocLpsegment rounds client.memcxt area with
      | error fault =>
          rw [returned] at shape
          cases shape
      | ok result =>
          rw [returned, alloc_lpsegment_returns (sound_never_stays sound) returned] at shape
          cases shape
          exact alloc_sound sound apart rfl
  | free segp =>
      obtain ⟨held, shape⟩ := Option.ite_none_right_eq_some.mp stepped
      obtain ⟨_, _, _, _, _, _, _, freed, later⟩ := free_spec sound held
      rw [freeLpsegment, freed] at shape
      cases shape
      exact later

/-- In every state that a run reaches, the search of `alloc_lpsegment` ends once it has seen
every pool. It stays on none, and it serves a segment that is not live, or NULL when every
segment is live and `mmap` has failed. -/
theorem segment_search_ends (memory : Nat → Nat) (segments buckets : Option Nat)
    (actions : List Action) (client : Client)
    (ran : run step (start memory segments buckets) actions = some client) :
    NeverStays client.memcxt.segments.pools ∧
      ∀ rounds area, client.memcxt.segments.pools.length < rounds → Apart client.memcxt area →
        ∃ answer later, allocLpsegment rounds client.memcxt area = .ok (answer, later) ∧
          (∀ segp, answer = some segp → segp ∉ client.live) ∧
          (answer = none → area = none ∧ ∀ pool ∈ client.memcxt.segments.pools,
            ∀ index, index < lpsegmentKind.length →
              lpsegmentKind.slot pool.base index ∈ client.live) := by
  have sound := run_preserves step_sound actions _ client
    (first_sound lpsegmentKind memory segments) ran
  have never := sound_never_stays sound
  refine ⟨never, ?_⟩
  intro rounds area enough apart
  obtain ⟨_, served, refused⟩ := alloc_spec sound apart rfl
  refine ⟨_, _, alloc_lpsegment_eq never enough area, ?_, ?_⟩
  · intro segp answered
    exact (served segp answered).1
  · intro answered
    exact ⟨(refused answered).1, (refused answered).2.2⟩

/-- Two segments are taken, and the first one is given back. -/
theorem first_segments_served : ∃ client,
    run step (start (fun _ => 0) (some 0x7f0000000000) none)
        [.alloc 2 none, .alloc 2 none, .free 0x7f0000000000] = some client ∧
      NeverStays client.memcxt.segments.pools := by
  have runs : (run step (start (fun _ => 0) (some 0x7f0000000000) none)
      [.alloc 2 none, .alloc 2 none, .free 0x7f0000000000]).isSome = true := by decide +kernel
  obtain ⟨client, ran⟩ := Option.isSome_iff_exists.mp runs
  have ends := segment_search_ends (fun _ => 0) (some 0x7f0000000000) none
    [.alloc 2 none, .alloc 2 none, .free 0x7f0000000000] client ran
  exact ⟨client, ran, ends.1⟩

end SriGlibcMalloc.ReplayPools
