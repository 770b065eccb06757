import SriGlibcMalloc.EntryPoints.Threads

/-!
# The locks of a call

A call that returns has given back every mutex that it took, with one exception:
`realloc_check` returns with the lock of `main_arena` when the pointer has no record
there.
-/

namespace SriGlibcMalloc.EntryPoints

open Outcome

set_option autoImplicit false

/-- The entry points, the hooks and the routines that change locks on behalf of their
callers. -/
inductive Entry
  | malloc (bytes : Nat)
  | free (mem : Chunk)
  | realloc (oldmem : Chunk) (bytes : Nat)
  | calloc (n elemSize : Nat)
  | memalign (alignment bytes : Nat)
  | mallocCheck (sz : Nat)
  | freeCheck (mem : Chunk)
  | reallocCheck (oldmem : Chunk) (bytes : Nat)
  | memalignCheck (alignment bytes : Nat)
  | sysmalloc (av : Option ArenaId)
  | intMemalign (av : Option ArenaId) (alignment bytes : Nat)
  | intFree (av : Option ArenaId) (record : Option Bool) (p : Chunk) (haveLock : Bool)
  deriving DecidableEq, Repr

def Entry.run (env : Env) : Entry → M Unit
  | .malloc bytes => do let _ ← libcMalloc env bytes
  | .free mem => libcFree env mem
  | .realloc oldmem bytes => libcRealloc env oldmem bytes
  | .calloc n elemSize => do let _ ← libcCalloc env n elemSize
  | .memalign alignment bytes => do let _ ← midMemalign env alignment bytes
  | .mallocCheck sz => do let _ ← EntryPoints.mallocCheck env sz
  | .freeCheck mem => EntryPoints.freeCheck env mem
  | .reallocCheck oldmem bytes => EntryPoints.reallocCheck env oldmem bytes
  | .memalignCheck alignment bytes => do
      let _ ← EntryPoints.memalignCheck env alignment bytes
  | .sysmalloc av => do let _ ← EntryPoints.sysmalloc env av
  | .intMemalign av alignment bytes => do
      let _ ← EntryPoints.intMemalign env av alignment bytes
  | .intFree av record p haveLock => EntryPoints.intFree env av record p haveLock

def Entry.held : Entry → Finset ArenaId
  | .sysmalloc (some a) => {a}
  | .intMemalign (some a) _ _ => {a}
  | .intFree (some a) _ _ haveLock => heldIf haveLock a
  | _ => ∅

/-- What the callers see to: a checking hook is installed once `main_arena` is
initialised, and the routines get an arena of the list; only an initialised arena
comes to `sysmalloc`. -/
def Entry.Ready : Entry → World → Prop
  | .freeCheck _, world => (world.arena mainArena).mdTop = true
  | .reallocCheck _ _, world => (world.arena mainArena).mdTop = true
  | .sysmalloc (some a), world => a < world.arenaCount ∧ (world.arena a).mdTop = true
  | .intMemalign (some a) _ _, world => a < world.arenaCount
  | .intFree (some a) _ _ _, world => a < world.arenaCount
  | _, _ => True

/-- The thread holds these mutexes and no others. -/
def Owns (me : ThreadId) (held : Finset ArenaId) (world : World) : Prop :=
  ∀ a, (world.arena a).mutex = some me ↔ a ∈ held

/-- A call that returns leaves the mutexes as it found them; it never waits for a
mutex of its own thread and never gives back a mutex that the thread does not hold. -/
def LocksKept (me : ThreadId) (held : Finset ArenaId) : Except Halt (Unit × State) → Prop
  | .ok (_, next) => Owns me held next.world
  | .error (.relock _) => False
  | .error (.notHeld _) => False
  | .error _ => True

/-- `realloc_check` gets the lock of `main_arena` at a time when the pointer has no
record there. -/
def Unrecorded (env : Env) (mem : Chunk) (bytes : Nat) (state : State) : Prop :=
  LooksUp mem bytes ∧ ∃ next, (lockArena env .hooks mainArena).run state = .ok ((), next) ∧
    (next.world.arena mainArena).record mem = none

/-- The calls that come to `realloc_check` with a pointer without a record: directly,
through the hook, and through the hook that the first call of `realloc` installs. -/
def Leaks (env : Env) (state : State) : Entry → Prop
  | .reallocCheck mem bytes => Unrecorded env mem bytes state
  | .realloc mem bytes =>
      match state.world.reallocHook with
      | .check => Unrecorded env mem bytes state
      | .ini => ∃ middle, (reallocHookIni env).run state = .ok ((), middle) ∧
          middle.world.reallocHook = .check ∧ Unrecorded env mem bytes middle
      | _ => False
  | _ => False

variable {s : Setting} {allowed : PublicCall → Prop} {waiting : ThreadId → Prop}
variable {held : Finset ArenaId} {before : World → Prop} {world : World} {state : State}

theorem Holding.owns (holding : Holding s held world) (unleaked : ∀ a, ¬s.leaked a) :
    Owns s.env.me held world := by
  intro a
  rw [holding.owned a, or_iff_left (unleaked a)]

theorem Ensures.kept {outcome : Except Halt (Unit × State)} (unleaked : ∀ a, ¬s.leaked a)
    (spec : Ensures (fun result => Holding s held result.2.world) s.Allows outcome) :
    LocksKept s.env.me held outcome := by
  cases outcome with
  | ok result => exact spec.owns unleaked
  | error why =>
      cases why with
      | relock a => exact unleaked a spec
      | notHeld a => exact spec
      | _ => trivial

theorem kept_of_spec {routine : M Unit} (unleaked : ∀ a, ¬s.leaked a)
    (spec : Spec s before routine (fun _ => Holding s held)) (holds : before state.world) :
    LocksKept s.env.me held (routine.run state) :=
  Ensures.kept unleaked (spec state holds)

theorem drop_result_spec {Result : Type} {routine : M Result}
    (spec : Spec s before routine (fun _ => Holding s held)) :
    Spec s before (do let _ ← routine) (fun _ => Holding s held) := by
  apply spec.bind
  intro _
  exact meets_pure fun _ holding => holding

theorem realloc_check_run {env : Env} {mem : Chunk} {bytes : Nat} (looks : LooksUp mem bytes) :
    (reallocCheck env mem bytes).run state =
      (lockArena env .hooks mainArena).run state >>= fun result =>
        (reallocCheckRecord env mem bytes).run result.2 := by
  rw [realloc_check_eq looks, StateT.run_bind]

theorem realloc_check_kept (respected : s.Respected) (unstocked : ¬s.stocked)
    (unleaked : ∀ a, ¬s.leaked a) (mem : Chunk) (bytes : Nat)
    (installed : Installed s state.world) (recorded : ¬Unrecorded s.env mem bytes state) :
    LocksKept s.env.me ∅ ((reallocCheck s.env mem bytes).run state) := by
  by_cases looks : LooksUp mem bytes
  · rw [realloc_check_run looks]
    apply Ensures.kept unleaked
    have takes : Spec s (Installed s) (lockArena s.env .hooks mainArena)
        fun _ => Within s {mainArena} mainArena 0 := lock_installed_spec respected
    have locked := takes state installed
    cases ran : (lockArena s.env .hooks mainArena).run state with
    | error why =>
        rw [ran] at locked
        exact locked
    | ok result =>
        rw [ran] at locked
        apply realloc_check_record_spec respected unstocked mem bytes result.2
        refine ⟨locked, ?_⟩
        intro missing
        exact recorded ⟨looks, result.2, ran, missing⟩
  · exact kept_of_spec unleaked
      (realloc_check_other_spec respected unstocked mem bytes looks) installed

/-- `if (!_md_oldp) return NULL` -/
theorem realloc_check_returns {env : Env} {mem : Chunk} {bytes : Nat}
    (missing : (state.world.arena mainArena).record mem = none) :
    (reallocCheckRecord env mem bytes).run state = .ok ((), state) := by
  have read : (getArena mainArena).run state = .ok (state.world.arena mainArena, state) := rfl
  unfold reallocCheckRecord
  rw [StateT.run_bind, read]
  dsimp only [bind, Except.bind]
  rw [missing]
  rfl

theorem realloc_check_leaks (respected : s.Respected) (unleaked : ∀ a, ¬s.leaked a)
    {mem : Chunk} {bytes : Nat} (installed : Installed s state.world)
    (unrecorded : Unrecorded s.env mem bytes state) :
    ¬LocksKept s.env.me ∅ ((reallocCheck s.env mem bytes).run state) := by
  obtain ⟨looks, next, ran, missing⟩ := unrecorded
  have takes : Spec s (Installed s) (lockArena s.env .hooks mainArena)
      fun _ => Within s {mainArena} mainArena 0 := lock_installed_spec respected
  have locked : Within s {mainArena} mainArena 0 next.world := takes.value installed ran
  have returned : (reallocCheck s.env mem bytes).run state = .ok ((), next) := by
    rw [realloc_check_run looks, ran]
    exact realloc_check_returns missing
  rw [returned]
  intro kept
  have taken := (locked.holding.owns unleaked mainArena).mpr (Finset.mem_singleton_self _)
  exact absurd ((kept mainArena).mp taken) (Finset.notMem_empty _)

theorem realloc_check_kept_iff (respected : s.Respected) (unstocked : ¬s.stocked)
    (unleaked : ∀ a, ¬s.leaked a) (mem : Chunk) (bytes : Nat)
    (installed : Installed s state.world) :
    LocksKept s.env.me ∅ ((reallocCheck s.env mem bytes).run state) ↔
      ¬Unrecorded s.env mem bytes state := by
  constructor
  · intro kept unrecorded
    exact realloc_check_leaks respected unleaked installed unrecorded kept
  · exact realloc_check_kept respected unstocked unleaked mem bytes installed

theorem hooked_of_check (check : world.reallocHook = .check) : world.Hooked :=
  Or.inr (Or.inr (Or.inl check))

theorem libc_realloc_check {env : Env} {mem : Chunk} {bytes : Nat}
    (check : state.world.reallocHook = .check) :
    (libcRealloc env mem bytes).run state = (reallocCheck env mem bytes).run state := by
  change StateT.run (match state.world.reallocHook with
    | .check => reallocCheck env mem bytes
    | .ini => do
        reallocHookIni env
        reallocUnhooked env mem bytes
    | _ => reallocBody env mem bytes) state = _
  rw [check]

theorem libc_realloc_ini {env : Env} {mem : Chunk} {bytes : Nat}
    (ini : state.world.reallocHook = .ini) :
    (libcRealloc env mem bytes).run state =
      (reallocHookIni env).run state >>= fun result =>
        (reallocUnhooked env mem bytes).run result.2 := by
  change StateT.run (match state.world.reallocHook with
    | .check => reallocCheck env mem bytes
    | .ini => do
        reallocHookIni env
        reallocUnhooked env mem bytes
    | _ => reallocBody env mem bytes) state = _
  rw [ini, StateT.run_bind]

theorem libc_realloc_plain {env : Env} {mem : Chunk} {bytes : Nat}
    (unchecked : state.world.reallocHook ≠ .check) (settled : state.world.reallocHook ≠ .ini) :
    (libcRealloc env mem bytes).run state = (reallocBody env mem bytes).run state := by
  change StateT.run (match state.world.reallocHook with
    | .check => reallocCheck env mem bytes
    | .ini => do
        reallocHookIni env
        reallocUnhooked env mem bytes
    | _ => reallocBody env mem bytes) state = _
  cases hook : state.world.reallocHook with
  | null => rfl
  | atfork => rfl
  | check => exact absurd hook unchecked
  | ini => exact absurd hook settled

theorem realloc_unhooked_run {env : Env} {mem : Chunk} {bytes : Nat} :
    (reallocUnhooked env mem bytes).run state =
      if state.world.reallocHook = .check then (reallocCheck env mem bytes).run state
      else (reallocBody env mem bytes).run state := by
  change StateT.run (if state.world.reallocHook = .check then reallocCheck env mem bytes
    else reallocBody env mem bytes) state = _
  split <;> rfl

theorem realloc_unhooked_kept_iff (respected : s.Respected) (unstocked : ¬s.stocked)
    (unleaked : ∀ a, ¬s.leaked a) (mem : Chunk) (bytes : Nat) (holding : Holding s ∅ state.world) :
    LocksKept s.env.me ∅ ((reallocUnhooked s.env mem bytes).run state) ↔
      ¬(state.world.reallocHook = .check ∧ Unrecorded s.env mem bytes state) := by
  rw [realloc_unhooked_run]
  by_cases check : state.world.reallocHook = .check
  · rw [if_pos check, and_iff_right check]
    exact realloc_check_kept_iff respected unstocked unleaked mem bytes
      (installed_of_hooked holding (hooked_of_check check))
  · rw [if_neg check]
    refine ⟨fun _ leaks => check leaks.1, fun _ => ?_⟩
    exact kept_of_spec unleaked (realloc_body_spec respected unstocked.elim mem bytes) holding

theorem libc_realloc_kept_iff (respected : s.Respected) (unstocked : ¬s.stocked)
    (unleaked : ∀ a, ¬s.leaked a) (mem : Chunk) (bytes : Nat) (holding : Holding s ∅ state.world) :
    LocksKept s.env.me ∅ ((libcRealloc s.env mem bytes).run state) ↔
      ¬Leaks s.env state (.realloc mem bytes) := by
  unfold Leaks
  cases hook : state.world.reallocHook with
  | check =>
      rw [libc_realloc_check hook]
      exact realloc_check_kept_iff respected unstocked unleaked mem bytes
        (installed_of_hooked holding (hooked_of_check hook))
  | ini =>
      rw [libc_realloc_ini hook]
      have initialised := realloc_hook_ini_spec respected state holding
      cases ran : (reallocHookIni s.env).run state with
      | error why =>
          rw [ran] at initialised
          have kept : LocksKept s.env.me ∅ (.error why) := Ensures.kept unleaked initialised
          refine ⟨fun _ leaks => ?_, fun _ => kept⟩
          obtain ⟨middle, impossible, _⟩ := leaks
          cases impossible
      | ok result =>
          rw [ran] at initialised
          apply (realloc_unhooked_kept_iff respected unstocked unleaked mem bytes initialised).trans
          apply not_congr
          constructor
          · intro leaks
            exact ⟨result.2, rfl, leaks⟩
          · rintro ⟨middle, same, leaks⟩
            cases same
            exact leaks
  | null =>
      rw [libc_realloc_plain (by rw [hook]; decide) (by rw [hook]; decide)]
      refine ⟨fun _ leaks => leaks, fun _ => ?_⟩
      exact kept_of_spec unleaked (realloc_body_spec respected unstocked.elim mem bytes) holding
  | atfork =>
      rw [libc_realloc_plain (by rw [hook]; decide) (by rw [hook]; decide)]
      refine ⟨fun _ leaks => leaks, fun _ => ?_⟩
      exact kept_of_spec unleaked (realloc_body_spec respected unstocked.elim mem bytes) holding

def Entry.Other : Entry → Prop
  | .realloc _ _ => False
  | .reallocCheck _ _ => False
  | _ => True

def Entry.Begins (s : Setting) (entry : Entry) (world : World) : Prop :=
  Holding s entry.held world ∧ entry.Ready world

theorem Entered.holds {av : Option ArenaId} {alignment bytes : Nat}
    (entered : Entered s av world) :
    Holding s (Entry.intMemalign av alignment bytes).held world := by
  cases av with
  | none => exact entered
  | some a => exact Near.holding entered

theorem sysmalloc_entry_spec (respected : s.Respected) (unstocked : ¬s.stocked)
    (av : Option ArenaId) :
    Spec s ((Entry.sysmalloc av).Begins s) (sysmalloc s.env av)
      (fun _ => Holding s (Entry.sysmalloc av).held) := by
  have served : Spec s (Attached s av 6) (sysmalloc s.env av) (Allotted s av) :=
    sysmalloc_spec respected
  apply served.weaken
  · intro world begins
    cases av with
    | none => exact begins.1
    | some a =>
        exact ⟨begins.1, begins.2.1, begins.2.2, fun stocked => absurd stocked unstocked⟩
  · intro _ _ allotted
    cases av with
    | none => exact allotted.entered
    | some a => exact Near.holding allotted.entered

theorem int_memalign_entry_spec (respected : s.Respected) (unstocked : ¬s.stocked)
    (av : Option ArenaId) (alignment bytes : Nat) :
    Spec s ((Entry.intMemalign av alignment bytes).Begins s)
      (intMemalign s.env av alignment bytes)
      (fun _ => Holding s (Entry.intMemalign av alignment bytes).held) := by
  have served : Spec s (Entered s av) (intMemalign s.env av alignment bytes)
      fun _ => Entered s av := int_memalign_spec respected unstocked.elim alignment bytes
  apply served.weaken
  · intro world begins
    cases av with
    | none => exact begins.1
    | some a => exact ⟨begins.1, begins.2⟩
  · exact fun _ _ entered => entered.holds

theorem int_free_entry_spec (respected : s.Respected) (av : Option ArenaId)
    (record : Option Bool) (p : Chunk) (haveLock : Bool) :
    Spec s ((Entry.intFree av record p haveLock).Begins s) (intFree s.env av record p haveLock)
      (fun _ => Holding s (Entry.intFree av record p haveLock).held) := by
  cases av with
  | none => exact meets_pure fun _ begins => begins.1
  | some a =>
      have freed : Spec s (Provided s (heldIf haveLock a) a 0)
          (intFree s.env (some a) record p haveLock) fun _ => Within s (heldIf haveLock a) a 0 :=
        int_free_spec respected (Nat.zero_le 7) record p (fun _ => rfl) fun _ => rfl
      apply freed.weaken
      · exact fun world begins => ⟨⟨begins.1, begins.2⟩, fun _ _ => Nat.zero_le _⟩
      · exact fun _ _ within => within.holding

theorem entry_spec (respected : s.Respected) (unstocked : ¬s.stocked) (entry : Entry)
    (other : entry.Other) :
    Spec s (entry.Begins s) (entry.run s.env) (fun _ => Holding s entry.held) := by
  have whole {routine : M Unit} (spec : Spec s (Holding s ∅) routine fun _ => Holding s ∅)
      {ready : World → Prop} :
      Spec s (fun world => Holding s ∅ world ∧ ready world) routine fun _ => Holding s ∅ :=
    spec.from_before fun _ begins => begins.1
  cases entry with
  | malloc bytes => exact whole (drop_result_spec (libc_malloc_spec respected bytes))
  | free mem => exact whole (libc_free_spec respected mem)
  | realloc oldmem bytes => exact other.elim
  | calloc n elemSize => exact whole (drop_result_spec (libc_calloc_spec respected n elemSize))
  | memalign alignment bytes =>
      exact whole (drop_result_spec (mid_memalign_spec respected unstocked.elim alignment bytes))
  | mallocCheck sz => exact whole (drop_result_spec (malloc_check_spec respected unstocked sz))
  | freeCheck mem => exact free_check_spec respected mem
  | reallocCheck oldmem bytes => exact other.elim
  | memalignCheck alignment bytes =>
      exact whole (drop_result_spec (memalign_check_spec respected unstocked alignment bytes))
  | sysmalloc av => exact drop_result_spec (sysmalloc_entry_spec respected unstocked av)
  | intMemalign av alignment bytes =>
      exact drop_result_spec (int_memalign_entry_spec respected unstocked av alignment bytes)
  | intFree av record p haveLock => exact int_free_entry_spec respected av record p haveLock

def entrySetting (waiting : ThreadId → Prop) (env : Env) (world : World) : Setting :=
  { callSetting False waiting env world with leaked := fun _ => False }

theorem entry_respected {env : Env} (apart : ¬waiting env.me)
    (others : ∀ site a clock world, Evolves allowed (fun t => t = env.me ∨ waiting t) world
      (env.others site a clock world)) :
    (entrySetting waiting env world).Respected := by
  have steady (site : Site) (a : ArenaId) (clock : Nat) (world : World)
      (arranged : Arranged False world) :
      Steady False (fun t => t = env.me ∨ waiting t) world (env.others site a clock world) :=
    evolves_steady (fun impossible => impossible.elim) (others site a clock world) arranged
  have respected : (callSetting False waiting env world).Respected := call_respected apart steady
  exact { respected with }

theorem entry_begins {env : Env} {entry : Entry} (arranged : Arranged False world)
    (owns : Owns env.me entry.held world) :
    Holding (entrySetting waiting env world) entry.held world where
  arranged := arranged
  owned := fun a => (owns a).trans (or_iff_left id).symm
  apart := fun _ _ => id
  theirs := fun _ _ _ => Iff.rfl
  fact := Since.refl world
  unhooked := fun impossible => impossible.elim

/-- An entry point keeps the locks exactly when it does not come to `realloc_check` with
a pointer that has no record. -/
theorem locks_kept_iff (entry : Entry) (env : Env) (world : World) (clock : Nat)
    (waiting : ThreadId → Prop) (apart : ¬waiting env.me)
    (others : ∀ site a clock world, Evolves (fun _ => True) (fun t => t = env.me ∨ waiting t)
      world (env.others site a clock world))
    (arranged : Arranged False world) (owns : Owns env.me entry.held world)
    (ready : entry.Ready world) :
    LocksKept env.me entry.held ((entry.run env).run ⟨world, clock⟩) ↔
      ¬Leaks env ⟨world, clock⟩ entry := by
  have respected : (entrySetting waiting env world).Respected := entry_respected apart others
  have holding : Holding (entrySetting waiting env world) entry.held world :=
    entry_begins arranged owns
  have unleaked : ∀ a, ¬(entrySetting waiting env world).leaked a := fun _ => id
  have kept (other : entry.Other) :
      LocksKept env.me entry.held ((entry.run env).run ⟨world, clock⟩) :=
    kept_of_spec unleaked (entry_spec respected id entry other) ⟨holding, ready⟩
  cases entry with
  | realloc oldmem bytes =>
      exact libc_realloc_kept_iff respected id unleaked oldmem bytes holding
  | reallocCheck oldmem bytes =>
      exact realloc_check_kept_iff respected id unleaked oldmem bytes ⟨holding, ready⟩
  | _ => exact iff_of_true (kept trivial) id

theorem unlocked_owns {me : ThreadId} (arranged : Arranged False world)
    (unlocked : ∀ a < world.arenaCount, (world.arena a).mutex = none) : Owns me ∅ world := by
  intro a
  have free : (world.arena a).mutex = none := by
    by_cases known : a < world.arenaCount
    · exact unlocked a known
    · exact arranged.unborn a (Nat.le_of_not_lt known)
  rw [free]
  exact iff_of_false (Option.some_ne_none me).symm (Finset.notMem_empty a)

/-- The lock of arena 1 is given up for that of `main_arena`, and taken again. -/
theorem mapped_malloc_locks_kept :
    (PublicCall.malloc 60000000).returns (mappingEnv 2) ⟨startedWorld 2, 0⟩ = true ∧
      (LocksKept 2 ∅ (((Entry.malloc 60000000).run (mappingEnv 2)).run ⟨startedWorld 2, 0⟩) ↔
        ¬Leaks (mappingEnv 2) ⟨startedWorld 2, 0⟩ (.malloc 60000000)) := by
  have reached : Evolves (fun _ => True) (fun _ => False) World.initial (startedWorld 2) :=
    started_world_run trivial 2 (by decide)
  have arranged := reachable_arranged reached
  have owns : Owns 2 ∅ (startedWorld 2) := unlocked_owns arranged (by decide +kernel)
  refine ⟨by decide +kernel, ?_⟩
  exact locks_kept_iff (.malloc 60000000) (mappingEnv 2) (startedWorld 2) 0 (fun _ => False) id
    (fun _ _ _ world => Evolves.done _ world) arranged owns trivial

/-- A process that is started with `MALLOC_CHECK_=3`. -/
def checkingEnv : Env := { quietEnv with checkAction := some 3 }

def returnsLocked (env : Env) (entry : Entry) (state : State) : Bool :=
  match (entry.run env).run state with
  | .ok (_, next) => (next.world.arena mainArena).mutex = some env.me
  | .error _ => false

theorem returns_locked_not_kept {env : Env} {entry : Entry}
    (locked : returnsLocked env entry state = true) :
    ¬LocksKept env.me ∅ ((entry.run env).run state) := by
  unfold returnsLocked at locked
  cases ran : (entry.run env).run state with
  | error why =>
      rw [ran] at locked
      cases locked
  | ok result =>
      rw [ran] at locked
      intro kept
      exact absurd ((kept mainArena).mp (of_decide_eq_true locked)) (Finset.notMem_empty _)

/-- The first call of the process is `realloc` with a pointer that it never got. -/
theorem realloc_of_unknown_keeps_lock :
    ¬∀ (entry : Entry) (env : Env) (world : World) (clock : Nat) (waiting : ThreadId → Prop),
      ¬waiting env.me →
      (∀ site a clock world, Evolves (fun _ => True) (fun t => t = env.me ∨ waiting t)
        world (env.others site a clock world)) →
      Arranged False world → Owns env.me entry.held world → entry.Ready world →
      LocksKept env.me entry.held ((entry.run env).run ⟨world, clock⟩) := by
  intro claimed
  have locked : returnsLocked checkingEnv (.realloc 16 8) ⟨World.initial, 0⟩ = true := by
    decide +kernel
  apply returns_locked_not_kept locked
  exact claimed (.realloc 16 8) checkingEnv World.initial 0 (fun _ => False) id
    (fun _ _ _ world => Evolves.done _ world) (initial_arranged False)
    (unlocked_owns (initial_arranged False) fun _ _ => rfl) trivial

end SriGlibcMalloc.EntryPoints
