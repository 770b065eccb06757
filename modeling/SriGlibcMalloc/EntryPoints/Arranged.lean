import Mathlib.Data.Finset.Basic
import SriGlibcMalloc.EntryPoints.Need
import SriGlibcMalloc.EntryPoints.Public
import SriGlibcMalloc.Outcome.Routine

/-!
# What holds of the arenas between the steps of a call

`Arranged` is what every thread relies on and re-establishes: `main_arena` is
either initialised or untouched, every other arena is initialised, and only
`main_arena` has records of mapped chunks. `Holding` adds the mutexes of the
calling thread, `Within` the arena that a routine works on and its reserve.
-/

namespace SriGlibcMalloc.EntryPoints

open Outcome

set_option autoImplicit false

structure Arena.Ready (arena : Arena) : Prop where
  binsLinked : arena.binsLinked = true
  mdTop : arena.mdTop = true
  pool : arena.metadataPoolReady = true

structure Arena.Unused (arena : Arena) : Prop where
  fastchunks : arena.fastchunksBit = false
  binsLinked : arena.binsLinked = false
  mdTop : arena.mdTop = false
  pool : arena.metadataPoolReady = false
  reserve : arena.metadataCacheCount = 0
  record : ∀ p, arena.record p = none
  corrupt : arena.corrupt = false
  inits : arena.inits = 0

/-- `main_arena` before the first call. -/
structure Dormant (world : World) : Prop where
  unused : (world.arena mainArena).Unused
  maxFast : world.globalMaxFast = 0
  lookups : world.lookupInits = 0

def World.Hooked (world : World) : Prop :=
  world.mallocHook = .check ∨ world.freeHook = .check ∨ world.reallocHook = .check ∨
    world.memalignHook = .check

/-- `tuned` says that `mallopt` has never set the limit of the fastbins to 1..7. -/
structure Arranged (tuned : Prop) (world : World) : Prop where
  positive : 0 < world.arenaCount
  unborn : ∀ a, world.arenaCount ≤ a → (world.arena a).mutex = none
  main : (world.arena mainArena).Ready ∨ Dormant world
  later : ∀ a < world.arenaCount, a ≠ mainArena → (world.arena a).Ready
  unmapped : ∀ a < world.arenaCount, a ≠ mainArena → ∀ p, (world.arena a).record p ≠ some true
  idle : (world.arena mainArena).mdTop = false →
    ∀ a < world.arenaCount, a ≠ mainArena → (world.arena a).fastchunksBit = true
  threads : ∀ t a, world.threadArena t = some a → a < world.arenaCount
  free : ∀ a ∈ world.freeList, a < world.arenaCount
  next : ∀ a, world.nextToUse = some a → a < world.arenaCount
  hooks : world.Hooked → (world.arena mainArena).mdTop = true
  fast : tuned → (world.arena mainArena).mdTop = true → world.globalMaxFast ≠ 0
  once : tuned → ∀ a < world.arenaCount, (world.arena a).inits ≤ 1
  lookups : tuned → world.lookupInits ≤ 1

/-- Arenas are not given back, and an arena that has a top keeps one. -/
structure Since (past world : World) : Prop where
  known : past.arenaCount ≤ world.arenaCount
  top : ∀ a < past.arenaCount, (past.arena a).mdTop = true → (world.arena a).mdTop = true

theorem Since.refl (world : World) : Since world world := by
  constructor
  · exact Nat.le_refl _
  · intro a _ top
    exact top

/-- One call: its surroundings, the mutexes that the thread has kept from an earlier
call, the threads that wait for it to go on and the mutexes that they hold, and a fact
that the caller keeps. `stocked` says that the hooks are off, that the call is of the
kind and on the path, and that the other threads leave what is needed there. -/
structure Setting where
  env : Env
  tuned : Prop
  stocked : Prop
  kind : CallKind
  path : Path
  leaked : ArenaId → Prop
  waiting : ThreadId → Prop
  theirs : ThreadId → ArenaId → Prop
  fact : World → Prop

/-- What is left for splitting the top, and for what follows `_int_malloc`. -/
def Setting.top (s : Setting) : Nat := s.kind.topCost s.path

def Setting.tail (s : Setting) : Nat := s.kind.tailCost s.path

/-- What is left when `mmap` is refused. -/
def Setting.grow (s : Setting) : Nat := s.path.heapCost + s.top

/-- What is left in `main_arena` when `mmap` is granted there. -/
def Setting.mapped (s : Setting) : Nat := s.kind.mappedNeed s.path

/-- The thread gives back nothing that it does not hold, and waits for itself only if
it came with the mutex. -/
def Setting.Allows (s : Setting) : Halt → Prop
  | .relock a => s.leaked a
  | .notHeld _ => False
  | .reserveEmpty _ => ¬s.stocked
  | _ => True

/-- What the other threads do while the thread waits. -/
structure Setting.Respected (s : Setting) : Prop where
  apart : ¬s.waiting s.env.me
  lasting : ∀ past world, Since past world → s.fact past → s.fact world
  arranged : ∀ site a clock world, Arranged s.tuned world →
    Arranged s.tuned (s.env.others site a clock world)
  since : ∀ site a clock world, Arranged s.tuned world →
    Since world (s.env.others site a clock world)
  locks : ∀ site a clock world, Arranged s.tuned world →
    ∀ t, t = s.env.me ∨ s.waiting t → ∀ b,
      ((s.env.others site a clock world).arena b).mutex = some t ↔ (world.arena b).mutex = some t
  unhooked : s.stocked → ∀ site a clock world, Arranged s.tuned world → ¬world.Hooked →
    ¬(s.env.others site a clock world).Hooked
  unchecked : s.stocked → ∀ action, s.env.checkAction = some action → action = 0
  follows : s.stocked → ∀ question clock, s.env.answer question clock = true →
    s.path.allows question = true
  stock : s.stocked → ∀ a b clock world, Arranged s.tuned world → a < world.arenaCount →
    (world.arena a).mdTop = true → s.grow ≤
      ((s.env.others (.mmapRefused (some a)) b clock world).arena a).metadataCacheCount
  mapped : s.stocked → ∀ clock world, Arranged s.tuned world →
    (world.arena mainArena).mdTop = true → s.mapped ≤
      ((s.env.others (.sysmalloc (some mainArena)) mainArena clock world).arena
        mainArena).metadataCacheCount

/-- The thread holds exactly these mutexes, and those that it came with. -/
structure Holding (s : Setting) (held : Finset ArenaId) (world : World) : Prop where
  arranged : Arranged s.tuned world
  owned : ∀ a, (world.arena a).mutex = some s.env.me ↔ a ∈ held ∨ s.leaked a
  apart : ∀ a ∈ held, ¬s.leaked a
  theirs : ∀ t, s.waiting t → ∀ a, (world.arena a).mutex = some t ↔ s.theirs t a
  fact : s.fact world
  unhooked : s.stocked → ¬world.Hooked

/-- A routine works on an arena that has a top and at least so many records in its
reserve. -/
structure Within (s : Setting) (held : Finset ArenaId) (a : ArenaId) (stock : Nat)
    (world : World) : Prop where
  holding : Holding s held world
  known : a < world.arenaCount
  top : (world.arena a).mdTop = true
  stock : s.stocked → stock ≤ (world.arena a).metadataCacheCount

structure Near (s : Setting) (held : Finset ArenaId) (a : ArenaId) (world : World) : Prop where
  holding : Holding s held world
  known : a < world.arenaCount

abbrev Spec (s : Setting) {Result : Type} (before : World → Prop) (routine : M Result)
    (after : Result → World → Prop) : Prop :=
  Meets State.world s.Allows before routine after

variable {s : Setting} {held : Finset ArenaId} {a b : ArenaId} {stock : Nat} {world : World}

theorem Within.near (within : Within s held a stock world) : Near s held a world := by
  exact ⟨within.holding, within.known⟩

theorem Within.suffices {less : Nat} (within : Within s held a stock world)
    (le : s.stocked → less ≤ stock) : Within s held a less world := by
  refine ⟨within.holding, within.known, within.top, ?_⟩
  intro stocked
  exact le_trans (le stocked) (within.stock stocked)

theorem Within.lower {less : Nat} (within : Within s held a stock world) (le : less ≤ stock) :
    Within s held a less world :=
  within.suffices fun _ => le

@[simp] theorem update_arena_same (change : Arena → Arena) :
    (world.updateArena a change).arena a = change (world.arena a) := by
  exact Function.update_self a _ _

theorem update_arena_other (change : Arena → Arena) (other : b ≠ a) :
    (world.updateArena a change).arena b = world.arena b := by
  exact Function.update_of_ne other _ _

/-- A change of an arena that leaves its initialisation alone. -/
structure Mild (world : World) (a : ArenaId) (after : Arena) : Prop where
  binsLinked : after.binsLinked = (world.arena a).binsLinked
  mdTop : after.mdTop = (world.arena a).mdTop
  pool : after.metadataPoolReady = (world.arena a).metadataPoolReady
  inits : after.inits = (world.arena a).inits
  unmapped : a ≠ mainArena → ∀ p, after.record p = some true → (world.arena a).record p = some true
  unused : (world.arena a).Unused → after.Unused
  idle : (world.arena a).fastchunksBit = true →
    after.fastchunksBit = true ∨ (world.arena mainArena).mdTop = true

theorem Mild.ready {after : Arena} (mild : Mild world a after) (ready : (world.arena a).Ready) :
    after.Ready := by
  constructor
  · rw [mild.binsLinked, ready.binsLinked]
  · rw [mild.mdTop, ready.mdTop]
  · rw [mild.pool, ready.pool]

theorem Mild.since {change : Arena → Arena} (mild : Mild world a (change (world.arena a))) :
    Since world (world.updateArena a change) := by
  constructor
  · exact Nat.le_refl _
  · intro b _ top
    by_cases same : b = a
    · subst same
      rw [update_arena_same, mild.mdTop, top]
    · rw [update_arena_other change same, top]

theorem Mild.main_top {change : Arena → Arena} (mild : Mild world a (change (world.arena a))) :
    ((world.updateArena a change).arena mainArena).mdTop = (world.arena mainArena).mdTop := by
  by_cases same : mainArena = a
  · subst same
    rw [update_arena_same, mild.mdTop]
  · rw [update_arena_other change same]

theorem Arranged.update {tuned : Prop} {change : Arena → Arena} (arranged : Arranged tuned world)
    (known : a < world.arenaCount) (mild : Mild world a (change (world.arena a))) :
    Arranged tuned (world.updateArena a change) := by
  refine { arranged with
    unborn := ?_, main := ?_, later := ?_, unmapped := ?_, idle := ?_, hooks := ?_, fast := ?_,
    once := ?_ }
  · intro b unborn
    have other : b ≠ a := Nat.ne_of_gt (Nat.lt_of_lt_of_le known unborn)
    rw [update_arena_other change other]
    exact arranged.unborn b unborn
  · by_cases same : mainArena = a
    · subst same
      rw [update_arena_same]
      apply arranged.main.imp mild.ready
      intro dormant
      refine ⟨?_, dormant.maxFast, dormant.lookups⟩
      rw [update_arena_same]
      exact mild.unused dormant.unused
    · rw [update_arena_other change same]
      apply arranged.main.imp id
      intro dormant
      refine ⟨?_, dormant.maxFast, dormant.lookups⟩
      rw [update_arena_other change same]
      exact dormant.unused
  · intro b bound other
    by_cases same : b = a
    · subst same
      rw [update_arena_same]
      exact mild.ready (arranged.later b bound other)
    · rw [update_arena_other change same]
      exact arranged.later b bound other
  · intro b bound other p
    by_cases same : b = a
    · subst same
      rw [update_arena_same]
      intro mapped
      exact arranged.unmapped b bound other p (mild.unmapped other p mapped)
    · rw [update_arena_other change same]
      exact arranged.unmapped b bound other p
  · intro topless b bound other
    rw [mild.main_top] at topless
    by_cases same : b = a
    · subst same
      rw [update_arena_same]
      apply (mild.idle (arranged.idle topless b bound other)).resolve_right
      rw [topless]
      exact Bool.false_ne_true
    · rw [update_arena_other change same]
      exact arranged.idle topless b bound other
  · intro hooked
    rw [mild.main_top]
    exact arranged.hooks hooked
  · intro good top
    rw [mild.main_top] at top
    exact arranged.fast good top
  · intro good b bound
    by_cases same : b = a
    · subst same
      rw [update_arena_same, mild.inits]
      exact arranged.once good b bound
    · rw [update_arena_other change same]
      exact arranged.once good b bound

theorem Holding.update {change : Arena → Arena} (respected : s.Respected)
    (holding : Holding s held world) (known : a < world.arenaCount)
    (mild : Mild world a (change (world.arena a)))
    (mutex : (change (world.arena a)).mutex = (world.arena a).mutex) :
    Holding s held (world.updateArena a change) := by
  have same_mutex (b : ArenaId) :
      ((world.updateArena a change).arena b).mutex = (world.arena b).mutex := by
    by_cases same : b = a
    · subst same
      rw [update_arena_same, mutex]
    · rw [update_arena_other change same]
  constructor
  · exact holding.arranged.update known mild
  · intro b
    rw [same_mutex]
    exact holding.owned b
  · exact holding.apart
  · intro t waits b
    rw [same_mutex]
    exact holding.theirs t waits b
  · exact respected.lasting world _ mild.since holding.fact
  · exact holding.unhooked

end SriGlibcMalloc.EntryPoints
