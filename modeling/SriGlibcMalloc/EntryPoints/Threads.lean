import SriGlibcMalloc.EntryPoints.PublicSpecs

/-!
# Runs of public calls

Threads call the allocator one after the other, and while a call waits for a lock
other threads make calls of their own. What every call keeps is an invariant of such
a run. With it, an arena is initialised once unless `mallopt` sets the limit of the
fastbins to 1..7, which `set_max_fast` turns into 0.
-/

namespace SriGlibcMalloc.EntryPoints

open Outcome

set_option autoImplicit false

inductive PublicCall
  | malloc (bytes : Nat)
  | free (mem : Chunk)
  | realloc (oldmem : Chunk) (bytes : Nat)
  | calloc (n elemSize : Nat)
  | memalign (alignment bytes : Nat)
  | mallocTrim
  | mallinfo
  | mallopt (parameter value : Int)
  deriving DecidableEq, Repr

def PublicCall.run (env : Env) : PublicCall → M Unit
  | .malloc bytes => do let _ ← libcMalloc env bytes
  | .free mem => libcFree env mem
  | .realloc oldmem bytes => libcRealloc env oldmem bytes
  | .calloc n elemSize => do let _ ← libcCalloc env n elemSize
  | .memalign alignment bytes => do let _ ← midMemalign env alignment bytes
  | .mallocTrim => libcMallocTrim env
  | .mallinfo => libcMallinfo env
  | .mallopt parameter value => libcMallopt env parameter value

def PublicCall.kind : PublicCall → CallKind
  | .malloc _ => .malloc
  | .calloc _ _ => .malloc
  | .realloc _ _ => .realloc
  | .memalign _ _ => .memalign
  | _ => .other

def PublicCall.Tame : PublicCall → Prop
  | .mallopt parameter value => ¬Zeroes parameter value
  | _ => True

def World.initial : World where
  arena := fun _ => Arena.zero
  arenaCount := 1
  threadArena := fun _ => none
  freeList := []
  nextToUse := none
  globalMaxFast := 0
  mallocInitialized := false
  mallocHook := .ini
  freeHook := .null
  reallocHook := .ini
  memalignHook := .ini
  lookupInits := 0

/-- Calls that are allowed, by threads that do not wait; a thread waits while others
call. -/
inductive Evolves (allowed : PublicCall → Prop) : (ThreadId → Prop) → World → World → Prop
  | done (waiting : ThreadId → Prop) (world : World) : Evolves allowed waiting world world
  | call (waiting : ThreadId → Prop) (env : Env) (made : PublicCall) (clock : Nat)
      (world : World) (next : State) (final : World)
      (apart : ¬waiting env.me) (permitted : allowed made)
      (others : ∀ site a clock world, Evolves allowed (fun t => t = env.me ∨ waiting t) world
        (env.others site a clock world))
      (ran : (made.run env).run ⟨world, clock⟩ = .ok ((), next))
      (later : Evolves allowed waiting next.world final) :
      Evolves allowed waiting world final

variable {s : Setting} {allowed : PublicCall → Prop} {tuned : Prop}
variable {waiting : ThreadId → Prop} {world final : World}

theorem discard_spec {Result : Type} {before : World → Prop} {routine : M Result}
    (spec : Spec s before routine (fun _ => Holding s ∅)) :
    Spec s before (do let _ ← routine) (fun _ => Parted s) := by
  apply spec.bind
  intro _
  exact meets_pure fun _ holding => Or.inl holding

theorem public_call_spec (respected : s.Respected) (made : PublicCall)
    (tame : s.tuned → made.Tame) (kind : s.stocked → made.kind ≠ .other → s.kind = made.kind) :
    Spec s (Holding s ∅) (made.run s.env) (fun _ => Parted s) := by
  have parted {routine : M Unit} (spec : Spec s (Holding s ∅) routine (fun _ => Holding s ∅)) :
      Spec s (Holding s ∅) routine (fun _ => Parted s) :=
    spec.to_after fun _ _ holding => Or.inl holding
  cases made with
  | malloc bytes => exact discard_spec (libc_malloc_spec respected bytes)
  | free mem => exact parted (libc_free_spec respected mem)
  | realloc oldmem bytes =>
      have reallocating : s.stocked → s.kind = .realloc := fun stocked => kind stocked nofun
      exact libc_realloc_spec respected reallocating oldmem bytes
  | calloc n elemSize => exact discard_spec (libc_calloc_spec respected n elemSize)
  | memalign alignment bytes =>
      have aligning : s.stocked → s.kind = .memalign := fun stocked => kind stocked nofun
      exact discard_spec (mid_memalign_spec respected aligning alignment bytes)
  | mallocTrim => exact parted (libc_malloc_trim_spec respected)
  | mallinfo => exact parted (libc_mallinfo_spec respected)
  | mallopt parameter value => exact parted (libc_mallopt_spec respected parameter value tame)

/-- What a run keeps: the invariant, the arenas that exist, and the mutexes of the
threads that wait. -/
structure Steady (tuned : Prop) (waiting : ThreadId → Prop) (world final : World) : Prop where
  arranged : Arranged tuned final
  since : Since world final
  locks : ∀ t, waiting t → ∀ a,
    (final.arena a).mutex = some t ↔ (world.arena a).mutex = some t

theorem Since.trans {past middle now : World} (first : Since past middle)
    (second : Since middle now) : Since past now := by
  constructor
  · exact le_trans first.known second.known
  · intro a known top
    exact second.top a (Nat.lt_of_lt_of_le known first.known) (first.top a known top)

/-- The setting of a call in a run: what the thread and those that wait hold is read off
the world in which the call begins. -/
def callSetting (tuned : Prop) (waiting : ThreadId → Prop) (env : Env) (world : World) :
    Setting where
  env := env
  tuned := tuned
  stocked := False
  kind := .other
  path := .full
  leaked := fun a => (world.arena a).mutex = some env.me
  waiting := waiting
  theirs := fun t a => (world.arena a).mutex = some t
  fact := Since world

theorem call_respected {env : Env} (apart : ¬waiting env.me)
    (others : ∀ site a clock world, Arranged tuned world →
      Steady tuned (fun t => t = env.me ∨ waiting t) world (env.others site a clock world)) :
    (callSetting tuned waiting env world).Respected where
  apart := apart
  lasting := fun _ _ since past => past.trans since
  arranged := fun site a clock world arranged => (others site a clock world arranged).arranged
  since := fun site a clock world arranged => (others site a clock world arranged).since
  locks := fun site a clock world arranged => (others site a clock world arranged).locks
  unhooked := fun impossible => impossible.elim
  unchecked := fun impossible => impossible.elim
  follows := fun impossible => impossible.elim
  stock := fun impossible => impossible.elim
  mapped := fun impossible => impossible.elim

theorem call_begins {env : Env} (arranged : Arranged tuned world) :
    Holding (callSetting tuned waiting env world) ∅ world where
  arranged := arranged
  owned := by
    intro a
    rw [or_iff_right (Finset.notMem_empty a)]
    exact Iff.rfl
  apart := fun a mem => absurd mem (Finset.notMem_empty a)
  theirs := fun _ _ _ => Iff.rfl
  fact := Since.refl world
  unhooked := fun impossible => impossible.elim

theorem Holding.steady {env : Env} {held : Finset ArenaId}
    (holding : Holding (callSetting tuned waiting env world) held final) :
    Steady tuned waiting world final where
  arranged := holding.arranged
  since := holding.fact
  locks := holding.theirs

theorem evolves_steady (tame : tuned → ∀ made, allowed made → made.Tame)
    (evolves : Evolves allowed waiting world final) (arranged : Arranged tuned world) :
    Steady tuned waiting world final := by
  induction evolves with
  | done waiting world => exact ⟨arranged, Since.refl world, fun _ _ _ => Iff.rfl⟩
  | call waiting env made clock world next final apart permitted others ran later ihOthers ih =>
      have respected : (callSetting tuned waiting env world).Respected :=
        call_respected apart ihOthers
      have spec := public_call_spec respected made (fun good => tame good made permitted)
        fun impossible => impossible.elim
      have parted := spec.value (call_begins arranged) ran
      have once : Steady tuned waiting world next.world := by
        cases parted with
        | inl holding => exact holding.steady
        | inr holding => exact holding.steady
      have rest := ih once.arranged
      refine ⟨rest.arranged, once.since.trans rest.since, ?_⟩
      intro t waits a
      rw [rest.locks t waits a]
      exact once.locks t waits a

theorem initial_arranged (tuned : Prop) : Arranged tuned World.initial where
  positive := Nat.one_pos
  unborn := fun _ _ => rfl
  main := Or.inr ⟨⟨rfl, rfl, rfl, rfl, rfl, fun _ => rfl, rfl, rfl⟩, rfl, rfl⟩
  later := fun _ known other => absurd (Nat.lt_one_iff.mp known) other
  unmapped := fun _ known other => absurd (Nat.lt_one_iff.mp known) other
  idle := fun _ _ known other => absurd (Nat.lt_one_iff.mp known) other
  threads := fun _ _ impossible => nomatch impossible
  free := fun _ impossible => nomatch impossible
  next := fun _ impossible => nomatch impossible
  hooks := by
    rintro (impossible | impossible | impossible | impossible) <;> cases impossible
  fast := fun _ impossible => nomatch impossible
  once := fun _ _ _ => Nat.zero_le 1
  lookups := fun _ => Nat.zero_le 1

/-- Every run of public calls leaves the arenas arranged. -/
theorem reachable_arranged (evolves : Evolves allowed waiting World.initial final) :
    Arranged False final :=
  (evolves_steady (fun impossible => impossible.elim) evolves (initial_arranged False)).arranged

/-- In a run without `mallopt (M_MXFAST, 1..7)`, `malloc_init_state` has run at most once
on every arena and the lookup tables have been set up at most once; the limit of the
fastbins is not 0 once `main_arena` is initialised. -/
theorem arenas_initialised_once
    (evolves : Evolves PublicCall.Tame (fun _ => False) World.initial final) :
    (∀ a < final.arenaCount, (final.arena a).inits ≤ 1) ∧ final.lookupInits ≤ 1 ∧
      ((final.arena mainArena).mdTop = true → final.globalMaxFast ≠ 0) := by
  have tame : True → ∀ made, PublicCall.Tame made → made.Tame := fun _ _ tame => tame
  have arranged := (evolves_steady tame evolves (initial_arranged True)).arranged
  exact ⟨arranged.once trivial, arranged.lookups trivial, arranged.fast trivial⟩

/-- A thread that is alone, and a system that grants everything. -/
def quietEnv : Env where
  me := 1
  answer := fun _ _ => true
  number := fun _ => 0
  others := fun _ _ _ world => world
  rounds := 100
  tunables := []
  checkAction := none

/-- A thread that is alone, and what the system and the heap answer to it. -/
def loneEnv (me : ThreadId) (answer : Question → Nat → Bool) : Env :=
  { quietEnv with me := me, answer := answer }

def PublicCall.returns (made : PublicCall) (env : Env) (state : State) : Bool :=
  match (made.run env).run state with
  | .ok _ => true
  | .error _ => false

def PublicCall.next (made : PublicCall) (env : Env) (state : State) : State :=
  match (made.run env).run state with
  | .ok (_, next) => next
  | .error _ => state

theorem returns_run {env : Env} {made : PublicCall} {state : State}
    (returns : made.returns env state = true) :
    (made.run env).run state = .ok ((), made.next env state) := by
  unfold PublicCall.returns at returns
  unfold PublicCall.next
  cases ran : (made.run env).run state with
  | ok outcome => rfl
  | error fault => simp [ran] at returns

theorem lone_call (env : Env) (clock : Nat) (made : PublicCall) (permitted : allowed made)
    (apart : ¬waiting env.me) (alone : env.others = fun _ _ _ world => world)
    (returns : made.returns env ⟨world, clock⟩ = true)
    (later : Evolves allowed waiting (made.next env ⟨world, clock⟩).world final) :
    Evolves allowed waiting world final := by
  apply Evolves.call waiting env made clock world _ final apart permitted ?_
    (returns_run returns) later
  intro site a clock world
  rw [alone]
  exact Evolves.done _ world

theorem Evolves.trans {middle : World}
    (first : Evolves allowed waiting world middle) (second : Evolves allowed waiting middle final) :
    Evolves allowed waiting world final := by
  induction first with
  | done => exact second
  | call waiting env made clock world next middle apart permitted others ran later _ ih =>
      exact Evolves.call waiting env made clock world next final apart permitted others ran
        (ih second)

def granted (question : Question) : Bool :=
  question = .initMetadata ∨ question = .replenishing ∨ question = .metadataAdd

/-- A thread whose chunks are of 64 bytes. The first number that it asks for is the index
of arena 1. -/
def workingEnv (me : ThreadId) (answer : Question → Nat → Bool) : Env :=
  { loneEnv me answer with number := fun clock => if clock = 0 then 2 else 64 }

/-- The pools and the top have room, and the second thread gets an arena of its own. -/
def startingEnv (me : ThreadId) : Env := workingEnv me fun question _ =>
  granted question || question = .poolAllocation || question = .topLargeEnough ||
    (me = 2 && (question = .newHeap || question = .belowArenaLimit))

def mappingEnv (me : ThreadId) : Env := workingEnv me fun question _ =>
  granted question || question = .aboveMmapThreshold || question = .mmapSizeFits ||
    question = .mmap || question = .misaligned

/-- Each thread has called `malloc` once. The threads with an even number share arena 1,
the others `main_arena`. -/
def startedWorld : Nat → World
  | 0 => World.initial
  | count + 1 =>
      ((PublicCall.malloc 8).next (startingEnv (count + 1)) ⟨startedWorld count, 0⟩).world

theorem starts_return : ∀ count < 7,
    (PublicCall.malloc 8).returns (startingEnv (count + 1)) ⟨startedWorld count, 0⟩ = true := by
  decide +kernel

theorem started_world_run (permitted : allowed (.malloc 8)) (count : Nat) (most : count ≤ 7) :
    Evolves allowed (fun _ => False) World.initial (startedWorld count) := by
  induction count with
  | zero => exact Evolves.done _ _
  | succ count ih =>
      apply (ih (Nat.le_of_succ_le most)).trans
      exact lone_call (startingEnv (count + 1)) 0 (.malloc 8) permitted id rfl
        (starts_return count most) (Evolves.done _ _)

/-- Two arenas are consolidated, and once more. -/
def trimmedTwice : World :=
  let first := PublicCall.mallocTrim.next (startingEnv 1) ⟨startedWorld 2, 0⟩
  (PublicCall.mallocTrim.next (startingEnv 2) ⟨first.world, 0⟩).world

theorem trimmed_twice_run : Evolves PublicCall.Tame (fun _ => False) World.initial trimmedTwice := by
  apply (started_world_run trivial 2 (by decide)).trans
  apply lone_call (startingEnv 1) 0 .mallocTrim trivial id rfl
  · decide +kernel
  apply lone_call (startingEnv 2) 0 .mallocTrim trivial id rfl
  · decide +kernel
  · exact Evolves.done _ _

theorem trimmed_twice_initialised : trimmedTwice.arenaCount = 2 ∧
    (∀ a < trimmedTwice.arenaCount, (trimmedTwice.arena a).inits ≤ 1) ∧
      trimmedTwice.lookupInits ≤ 1 ∧
      ((trimmedTwice.arena mainArena).mdTop = true → trimmedTwice.globalMaxFast ≠ 0) := by
  refine ⟨?_, arenas_initialised_once trimmed_twice_run⟩
  decide +kernel

def limitedWorld : World :=
  ((PublicCall.mallopt mMxfast 1).next quietEnv ⟨World.initial, 0⟩).world

def limitedThenTrimmed : World := (PublicCall.mallocTrim.next quietEnv ⟨limitedWorld, 0⟩).world

theorem limited_then_trimmed_run :
    Evolves (fun _ => True) (fun _ => False) World.initial limitedThenTrimmed := by
  apply lone_call quietEnv 0 (.mallopt mMxfast 1) trivial id rfl
  · decide +kernel
  apply lone_call quietEnv 0 .mallocTrim trivial id rfl
  · decide +kernel
  · exact Evolves.done _ _

/-- With the limit set to 1, `malloc_trim` initialises `main_arena` for the second time. -/
theorem small_limit_initialises_twice :
    ¬∀ final, Evolves (fun _ => True) (fun _ => False) World.initial final →
      (∀ a < final.arenaCount, (final.arena a).inits ≤ 1) ∧ final.lookupInits ≤ 1 := by
  intro claimed
  have once := (claimed _ limited_then_trimmed_run).1 mainArena (by decide +kernel)
  have twice : (limitedThenTrimmed.arena mainArena).inits = 2 := by decide +kernel
  rw [twice] at once
  exact absurd once (by decide)

end SriGlibcMalloc.EntryPoints
