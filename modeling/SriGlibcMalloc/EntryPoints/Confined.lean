import SriGlibcMalloc.EntryPoints.Threads

/-!
# The reserve lasts for one call

A call that has filled the reserve of its arena takes at most seven records from it.
But `sysmalloc` gives up the lock of the arena to try `mmap`, and other threads may use
the reserve before it has the lock again. So the reserve lasts exactly when they leave
what the rest of the path takes.
-/

namespace SriGlibcMalloc.EntryPoints

open Outcome

set_option autoImplicit false

structure HooksOff (env : Env) (world : World) : Prop where
  now : ¬world.Hooked
  unchecked : ∀ action, env.checkAction = some action → action = 0
  later : ∀ site a clock world, Arranged False world → ¬world.Hooked →
    ¬(env.others site a clock world).Hooked

/-- A thread calls in a run of the process, the hooks are off, and every refill of the
reserve succeeds. -/
structure Env.InRun (env : Env) (waiting : ThreadId → Prop) (world : World) : Prop where
  apart : ¬waiting env.me
  others : ∀ site a clock world, Evolves (fun _ => True) (fun t => t = env.me ∨ waiting t)
    world (env.others site a clock world)
  reached : Evolves (fun _ => True) waiting World.initial world
  off : HooksOff env world
  refills : ∀ clock, env.answer .replenishing clock = true

/-- The reserve of an arena that has a pool is filled up to so many records. -/
def World.topUp (world : World) (a : ArenaId) (left : Nat) : World :=
  if a < world.arenaCount ∧ (world.arena a).metadataPoolReady = true then
    world.updateArena a fun arena =>
      { arena with metadataCacheCount := max arena.metadataCacheCount left }
  else world

/-- The arena that the thread goes on with, once `sysmalloc` has its lock again: after
`mmap` has been refused, or in `main_arena` after it has been granted. -/
def Site.returnsTo : Site → Option ArenaId
  | .mmapRefused av => av
  | .sysmalloc (some a) => if a = mainArena then some mainArena else none
  | _ => none

/-- The same surroundings, except that no answer leaves the path and that a thread never
finds fewer records when `sysmalloc` has the lock of its arena again. -/
def Env.confined (env : Env) (path : Path) (left : Nat) : Env :=
  { env with
    answer := fun question clock => path.allows question && env.answer question clock
    others := fun site a clock world =>
      match site.returnsTo with
      | some av => (env.others site a clock world).topUp av left
      | none => env.others site a clock world }

/-- The call keeps to the path, and the other threads leave so many records whenever
`sysmalloc` takes the lock of its arena again: to confine the surroundings makes no
difference to the run. -/
def PublicCall.Confined (made : PublicCall) (env : Env) (state : State) (path : Path)
    (left : Nat) : Prop :=
  (made.run (env.confined path left)).run state = (made.run env).run state

variable {waiting : ThreadId → Prop} {world start : World} {tuned : Prop} {a : ArenaId}
variable {left : Nat} {kind : CallKind} {path : Path} {env : Env}

theorem top_up_arranged (arranged : Arranged tuned world) :
    Arranged tuned (world.topUp a left) := by
  unfold World.topUp
  split
  next ready => exact arranged.update ready.1 (stock_mild ready.2 _)
  next => exact arranged

theorem top_up_since : Since world (world.topUp a left) := by
  unfold World.topUp
  split
  next ready => exact (stock_mild ready.2 _).since
  next => exact Since.refl world

theorem top_up_mutex (b : ArenaId) :
    ((world.topUp a left).arena b).mutex = (world.arena b).mutex := by
  unfold World.topUp
  split
  next =>
    by_cases same : b = a
    · subst same
      rw [update_arena_same]
    · rw [update_arena_other _ same]
  next => rfl

theorem top_up_steady (steady : Steady tuned waiting start world) :
    Steady tuned waiting start (world.topUp a left) where
  arranged := top_up_arranged steady.arranged
  since := steady.since.trans top_up_since
  locks := by
    intro t waits b
    rw [top_up_mutex]
    exact steady.locks t waits b

theorem top_up_unhooked (unhooked : ¬world.Hooked) : ¬(world.topUp a left).Hooked := by
  unfold World.topUp
  split
  next => exact unhooked
  next => exact unhooked

theorem Arranged.pool_of_top (arranged : Arranged tuned world) (known : a < world.arenaCount)
    (top : (world.arena a).mdTop = true) : (world.arena a).metadataPoolReady = true := by
  by_cases main : a = mainArena
  · subst main
    cases arranged.main with
    | inl ready => exact ready.pool
    | inr dormant =>
        rw [dormant.unused.mdTop] at top
        cases top
  · exact (arranged.later a known main).pool

theorem le_top_up (arranged : Arranged tuned world) (known : a < world.arenaCount)
    (top : (world.arena a).mdTop = true) :
    left ≤ ((world.topUp a left).arena a).metadataCacheCount := by
  rw [World.topUp, if_pos ⟨known, arranged.pool_of_top known top⟩, update_arena_same]
  exact Nat.le_max_right _ left

theorem confined_steady (steady : ∀ site a clock world, Arranged tuned world →
      Steady tuned waiting world (env.others site a clock world))
    (site : Site) (a : ArenaId) (clock : Nat) (world : World) (arranged : Arranged tuned world) :
    Steady tuned waiting world ((env.confined path left).others site a clock world) := by
  unfold Env.confined
  dsimp only
  split
  next => exact top_up_steady (steady site a clock world arranged)
  next => exact steady site a clock world arranged

theorem le_confined (steady : ∀ site a clock world, Arranged tuned world →
      Steady tuned waiting world (env.others site a clock world))
    {site : Site} {av : ArenaId} (returns : site.returnsTo = some av) (clock : Nat)
    (arranged : Arranged tuned world) (known : av < world.arenaCount)
    (top : (world.arena av).mdTop = true) :
    left ≤ (((env.confined path left).others site a clock world).arena av).metadataCacheCount := by
  have kept := steady site a clock world arranged
  have still := Nat.lt_of_lt_of_le known kept.since.known
  have holding := kept.since.top av known top
  unfold Env.confined
  dsimp only
  rw [returns]
  exact le_top_up kept.arranged still holding

def stockedSetting (waiting : ThreadId → Prop) (env : Env) (world : World) (kind : CallKind)
    (path : Path) : Setting :=
  { callSetting False waiting env world with stocked := True, kind := kind, path := path }

theorem confined_respected (running : env.InRun waiting world) (allocating : kind ≠ .other)
    (enough : kind.need path ≤ left) :
    (stockedSetting waiting (env.confined path left) world kind path).Respected := by
  rw [need_of_allocating allocating] at enough
  have steady (site : Site) (a : ArenaId) (clock : Nat) (world : World)
      (arranged : Arranged False world) :
      Steady False (fun t => t = env.me ∨ waiting t) world (env.others site a clock world) :=
    evolves_steady (fun impossible => impossible.elim) (running.others site a clock world) arranged
  have respected : (callSetting False waiting (env.confined path left) world).Respected :=
    call_respected running.apart (confined_steady steady)
  exact { respected with
    unhooked := by
      intro _ site a clock world arranged unhooked
      have still := running.off.later site a clock world arranged unhooked
      change ¬World.Hooked ((env.confined path left).others site a clock world)
      unfold Env.confined
      dsimp only
      split
      next => exact top_up_unhooked still
      next => exact still
    unchecked := fun _ => running.off.unchecked
    follows := fun _ _ _ yes => (Bool.and_eq_true _ _ ▸ yes).1
    stock := fun _ a b clock world arranged known top =>
      le_trans (le_trans (Nat.le_max_left _ _) enough)
        (le_confined steady rfl clock arranged known top)
    mapped := fun _ clock world arranged top =>
      le_trans (le_trans (Nat.le_max_right _ _) enough)
        (le_confined steady rfl clock arranged arranged.positive top) }

theorem stocked_begins (arranged : Arranged False world) (unhooked : ¬world.Hooked) :
    Holding (stockedSetting waiting env world kind path) ∅ world :=
  have begins : Holding (callSetting False waiting env world) ∅ world := call_begins arranged
  { begins with unhooked := fun _ => unhooked }

theorem confined_unregister (a : ArenaId) (count : Nat) :
    unregisterEach (env.confined .full left) a count = unregisterEach env a count := by
  induction count with
  | zero => rfl
  | succ count ih =>
      rw [unregisterEach, unregisterEach, ih]
      rfl

theorem confined_replenish (a : ArenaId) (missing : Nat) :
    replenishLoop (env.confined .full left) a missing = replenishLoop env a missing := by
  induction missing with
  | zero => rfl
  | succ missing ih =>
      rw [replenishLoop, replenishLoop, ih]
      rfl

theorem confined_consolidate (a : ArenaId) :
    mallocConsolidate (env.confined .full left) a = mallocConsolidate env a := by
  simp only [mallocConsolidate, mallocInitState, replenishMetadataCache, confined_unregister,
    confined_replenish]
  rfl

theorem confined_free (mem : Chunk) :
    libcFree (env.confined .full left) mem = libcFree env mem := by
  simp only [libcFree, freeCheck, freeAtfork, freeBody, intFree, freeRecord, freeMmapped,
    freeMerge, freeTrim, consolidateAbove, consolidateFastchunks, confined_consolidate,
    confined_unregister]
  rfl

theorem confined_mallopt_body (parameter value : Int) :
    malloptBody (env.confined .full left) parameter value = malloptBody env parameter value := by
  rw [malloptBody, malloptBody, confined_consolidate]
  rfl

theorem confined_tunables (tunables : List (Tunable × Int)) :
    malloptAll (env.confined .full left) tunables = malloptAll env tunables := by
  induction tunables with
  | nil => rfl
  | cons first later ih => rw [malloptAll, malloptAll, ih, confined_mallopt_body]

theorem confined_init : ptmallocInit (env.confined .full left) = ptmallocInit env := by
  simp only [ptmallocInit, mallocCheckInit, confined_tunables, confined_mallopt_body]
  rfl

theorem confined_trim (rounds : Nat) (a : ArenaId) :
    trimArenas (env.confined .full left) rounds a = trimArenas env rounds a := by
  induction rounds generalizing a with
  | zero => rfl
  | succ rounds ih =>
      simp only [trimArenas, ih, mtrim, confined_consolidate]
      rfl

theorem confined_mallinfo (rounds : Nat) (a : ArenaId) :
    mallinfoArenas (env.confined .full left) rounds a = mallinfoArenas env rounds a := by
  induction rounds generalizing a with
  | zero => rfl
  | succ rounds ih =>
      simp only [mallinfoArenas, ih, intMallinfo, confined_consolidate]
      rfl

/-- `free` and its like never come back to an arena in `sysmalloc`. -/
theorem confined_other {made : PublicCall} (other : made.kind = .other) :
    made.run (env.confined .full left) = made.run env := by
  cases made with
  | free mem => exact confined_free mem
  | mallocTrim =>
      simp only [PublicCall.run, libcMallocTrim, confined_init, confined_trim]
      rfl
  | mallinfo =>
      simp only [PublicCall.run, libcMallinfo, confined_init, confined_mallinfo]
      rfl
  | mallopt parameter value =>
      simp only [PublicCall.run, libcMallopt, confined_init, confined_mallopt_body]
  | _ => cases other

theorem confined_suffices {made : PublicCall} {clock : Nat} (running : env.InRun waiting world)
    (confined : made.Confined env ⟨world, clock⟩ path left) (allocating : kind ≠ .other)
    (same : made.kind ≠ .other → kind = made.kind) (enough : kind.need path ≤ left) (a : ArenaId) :
    (made.run env).run ⟨world, clock⟩ ≠ .error (.reserveEmpty a) := by
  intro ran
  have respected := confined_respected running allocating enough
  have spec := public_call_spec respected made (fun impossible => impossible.elim) fun _ => same
  have begins : Holding (stockedSetting waiting (env.confined path left) world kind path) ∅ world :=
    stocked_begins (reachable_arranged running.reached) running.off.now
  have permitted := (spec ⟨world, clock⟩ begins).failure (confined.trans ran)
  exact permitted trivial

theorem need_confined {made : PublicCall} {clock : Nat} (running : env.InRun waiting world)
    (confined : made.Confined env ⟨world, clock⟩ path left)
    (enough : made.kind.need path ≤ left) (a : ArenaId) :
    (made.run env).run ⟨world, clock⟩ ≠ .error (.reserveEmpty a) := by
  by_cases other : made.kind = .other
  · have free : made.Confined env ⟨world, clock⟩ .full 6 := by
      rw [PublicCall.Confined, confined_other other]
    have most : CallKind.memalign.need .full ≤ 6 := by decide
    exact confined_suffices running free (by decide) (fun allocates => absurd other allocates)
      most a
  · exact confined_suffices running confined other (fun _ => rfl) enough a

end SriGlibcMalloc.EntryPoints
