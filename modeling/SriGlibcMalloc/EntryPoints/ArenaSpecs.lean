import SriGlibcMalloc.EntryPoints.InternalSpecs

/-!
# The choice of an arena and the initialisation of the allocator

A thread without mutexes gets the mutex of one arena of the list, or none; `mallopt`,
`malloc_trim`, `mallinfo` and `ptmalloc_init` give back every mutex they take.
-/

namespace SriGlibcMalloc.EntryPoints

open Outcome

set_option autoImplicit false

variable {s : Setting} {held : Finset ArenaId} {a b : ArenaId} {stock : Nat}
variable {av : Option ArenaId} {site : Site} {world : World}

/-! ## A fact that the caller keeps -/

def Lasting (fact : World → Prop) : Prop :=
  ∀ past world, Since past world → fact past → fact world

def Setting.knowing (s : Setting) (fact : World → Prop) : Setting :=
  { s with fact := fun world => s.fact world ∧ fact world }

variable {fact : World → Prop}

theorem Setting.Respected.knowing (respected : s.Respected) (lasting : Lasting fact) :
    (s.knowing fact).Respected where
  apart := respected.apart
  lasting := fun past world since holds =>
    ⟨respected.lasting past world since holds.1, lasting past world since holds.2⟩
  arranged := respected.arranged
  since := respected.since
  locks := respected.locks
  unhooked := respected.unhooked
  unchecked := respected.unchecked
  follows := respected.follows
  stock := respected.stock
  mapped := respected.mapped

theorem Holding.knowing (holding : Holding s held world) (known : fact world) :
    Holding (s.knowing fact) held world where
  arranged := holding.arranged
  owned := holding.owned
  apart := holding.apart
  theirs := holding.theirs
  fact := ⟨holding.fact, known⟩
  unhooked := holding.unhooked

theorem Holding.forget (holding : Holding (s.knowing fact) held world) :
    Holding s held world where
  arranged := holding.arranged
  owned := holding.owned
  apart := holding.apart
  theirs := holding.theirs
  fact := holding.fact.1
  unhooked := holding.unhooked

theorem Entered.forget (entered : Entered (s.knowing fact) av world) : Entered s av world := by
  cases av with
  | none => exact Holding.forget entered
  | some a => exact ⟨entered.holding.forget, entered.known⟩

theorem lasting_count (count : Nat) : Lasting fun world => count ≤ world.arenaCount :=
  fun _ _ since known => le_trans known since.known

/-! ## The list of arenas -/

/-- A change of the world that leaves the arenas as they are. -/
structure Rewired (world other : World) : Prop where
  arena : other.arena = world.arena
  count : other.arenaCount = world.arenaCount
  fast : other.globalMaxFast = world.globalMaxFast
  lookups : other.lookupInits = world.lookupInits
  threads : ∀ t a, other.threadArena t = some a → a < world.arenaCount
  free : ∀ a ∈ other.freeList, a < world.arenaCount
  next : ∀ a, other.nextToUse = some a → a < world.arenaCount
  hooks : other.Hooked → (world.arena mainArena).mdTop = true

theorem Rewired.since {other : World} (rewired : Rewired world other) : Since world other := by
  constructor
  · rw [rewired.count]
  · intro b _ top
    rw [rewired.arena]
    exact top

theorem Holding.rewire {other : World} (respected : s.Respected) (holding : Holding s held world)
    (rewired : Rewired world other) (unhooked : s.stocked → ¬other.Hooked) :
    Holding s held other := by
  have arranged := holding.arranged
  constructor
  · constructor
    · rw [rewired.count]
      exact arranged.positive
    · rw [rewired.count, rewired.arena]
      exact arranged.unborn
    · rw [rewired.arena]
      apply arranged.main.imp id
      intro dormant
      exact ⟨by rw [rewired.arena]; exact dormant.unused, by rw [rewired.fast, dormant.maxFast],
        by rw [rewired.lookups, dormant.lookups]⟩
    · rw [rewired.count, rewired.arena]
      exact arranged.later
    · rw [rewired.count, rewired.arena]
      exact arranged.unmapped
    · rw [rewired.count, rewired.arena]
      exact arranged.idle
    · rw [rewired.count]
      exact rewired.threads
    · rw [rewired.count]
      exact rewired.free
    · rw [rewired.count]
      exact rewired.next
    · rw [rewired.arena]
      exact rewired.hooks
    · rw [rewired.arena, rewired.fast]
      exact arranged.fast
    · rw [rewired.count, rewired.arena]
      exact arranged.once
    · rw [rewired.lookups]
      exact arranged.lookups
  · rw [rewired.arena]
    exact holding.owned
  · exact holding.apart
  · rw [rewired.arena]
    exact holding.theirs
  · exact respected.lasting world other rewired.since holding.fact
  · exact unhooked

theorem set_thread_rewired (arranged : Arranged s.tuned world) (known : a < world.arenaCount)
    (me : ThreadId) :
    Rewired world
      { world with threadArena := Function.update world.threadArena me (some a) } := by
  refine ⟨rfl, rfl, rfl, rfl, ?_, arranged.free, arranged.next, arranged.hooks⟩
  intro t b mine
  dsimp only at mine
  by_cases same : t = me
  · subst same
    rw [Function.update_self] at mine
    cases mine
    exact known
  · rw [Function.update_of_ne same] at mine
    exact arranged.threads t b mine

theorem set_thread_arena_spec (respected : s.Respected) :
    Spec s (Near s held a) (setThreadArena s.env a) (fun _ => Near s held a) := by
  apply change_spec
  intro world near
  have rewired := set_thread_rewired near.holding.arranged near.known s.env.me
  exact ⟨near.holding.rewire respected rewired near.holding.unhooked, near.known⟩

theorem lock_near_spec (respected : s.Respected) :
    Spec s (Near s ∅ a) (lockArena s.env site a) (fun _ => Near s {a} a) := by
  apply lock_spec respected carried_near (waits_near respected) (Finset.notMem_empty a)
  · exact insert_empty_eq a
  · exact fun _ near => near.known

theorem unlock_near_spec (respected : s.Respected) :
    Spec s (Near s {a} a) (unlockArena s.env a) (fun _ => Near s ∅ a) := by
  apply unlock_spec respected carried_near (Finset.mem_singleton_self a)
  · exact Finset.erase_singleton a
  · exact fun _ near => near.known

theorem get_free_list_spec (respected : s.Respected) :
    Spec s (Holding s ∅) (getFreeList s.env) (fun result => Entered s result) := by
  apply world_then
  intro seen
  cases listed : seen.freeList with
  | nil => exact meets_pure fun _ holds => holds.1
  | cons result later =>
      have popped : Spec s (fun world => Holding s ∅ world ∧ world = seen)
          (modifyWorld fun world => { world with freeList := later })
          (fun _ => Near s ∅ result) := by
        apply change_spec
        rintro world ⟨holding, rfl⟩
        have arranged := holding.arranged
        have free := arranged.free
        rw [listed] at free
        have rewired : Rewired world { world with freeList := later } :=
          ⟨rfl, rfl, rfl, rfl, arranged.threads, fun b mem => free b (List.mem_cons_of_mem _ mem),
            arranged.next, arranged.hooks⟩
        exact ⟨holding.rewire respected rewired holding.unhooked, free result List.mem_cons_self⟩
      apply popped.bind
      intro _
      apply (lock_near_spec respected).bind
      intro _
      apply (set_thread_arena_spec respected).bind
      intro _
      exact meets_pure fun _ near => near

/-! ## A new arena -/

section Append

variable {start : World} {me : ThreadId}

theorem append_arena_same :
    (world.appendArena a me).arena a = { world.arena a with arenaIndex := a + 1 } := by
  exact Function.update_self a _ _

theorem append_arena_other (other : b ≠ a) : (world.appendArena a me).arena b = world.arena b := by
  exact Function.update_of_ne other _ _

theorem append_arranged {tuned : Prop} (arranged : Arranged tuned start)
    (initialising : Initialising s (start.updateArena start.arenaCount fun _ => Arena.zero)
      start.arenaCount false true stock world) :
    Arranged tuned (world.appendArena start.arenaCount me) := by
  obtain ⟨count, record, _, unmapped, rfl⟩ := initialising
  have other_main : mainArena ≠ start.arenaCount := Nat.ne_of_lt arranged.positive
  have old (b : ArenaId) (other : b ≠ start.arenaCount) :
      (((start.updateArena start.arenaCount fun _ => Arena.zero).initialised start.arenaCount false
        count record true).appendArena start.arenaCount me).arena b = start.arena b := by
    rw [append_arena_other other, initialised_other other, update_arena_other _ other]
  have within {b : ArenaId} (known : b < start.arenaCount + 1) (other : b ≠ start.arenaCount) :
      b < start.arenaCount :=
    Nat.lt_of_le_of_ne (Nat.le_of_lt_succ known) other
  constructor
  · exact Nat.succ_pos _
  · intro b unborn
    have beyond : start.arenaCount + 1 ≤ b := unborn
    rw [old b (Nat.ne_of_gt (Nat.lt_of_succ_le beyond))]
    exact arranged.unborn b (Nat.le_of_succ_le beyond)
  · rw [old mainArena other_main]
    apply arranged.main.imp id
    intro dormant
    refine ⟨by rw [old mainArena other_main]; exact dormant.unused, ?_, dormant.lookups⟩
    change (if start.arenaCount = mainArena then _ else start.globalMaxFast) = 0
    rw [if_neg other_main.symm]
    exact dormant.maxFast
  · intro b known other
    by_cases new : b = start.arenaCount
    · subst new
      rw [append_arena_same, initialised_same]
      exact ⟨rfl, rfl, rfl⟩
    · rw [old b new]
      exact arranged.later b (within known new) other
  · intro b known other
    by_cases new : b = start.arenaCount
    · subst new
      rw [append_arena_same, initialised_same]
      exact unmapped other
    · rw [old b new]
      exact arranged.unmapped b (within known new) other
  · intro topless b known other
    rw [old mainArena other_main] at topless
    by_cases new : b = start.arenaCount
    · subst new
      rw [append_arena_same, initialised_same]
    · rw [old b new]
      exact arranged.idle topless b (within known new) other
  · intro t b mine
    change Function.update start.threadArena me (some start.arenaCount) t = some b at mine
    by_cases same : t = me
    · subst same
      rw [Function.update_self] at mine
      cases mine
      exact Nat.lt_succ_self _
    · rw [Function.update_of_ne same] at mine
      exact Nat.lt_succ_of_lt (arranged.threads t b mine)
  · intro b mem
    exact Nat.lt_succ_of_lt (arranged.free b mem)
  · intro b next
    exact Nat.lt_succ_of_lt (arranged.next b next)
  · intro hooked
    rw [old mainArena other_main]
    exact arranged.hooks hooked
  · intro good top
    rw [old mainArena other_main] at top
    change (if start.arenaCount = mainArena then _ else start.globalMaxFast) ≠ 0
    rw [if_neg other_main.symm]
    exact arranged.fast good top
  · intro good b known
    by_cases new : b = start.arenaCount
    · subst new
      rw [append_arena_same, initialised_same, update_arena_same]
      exact Nat.le_refl 1
    · rw [old b new]
      exact arranged.once good b (within known new)
  · exact arranged.lookups

theorem append_near (respected : s.Respected) (holding : Holding s ∅ start)
    (initialising : Initialising s (start.updateArena start.arenaCount fun _ => Arena.zero)
      start.arenaCount false true stock world) :
    Near s ∅ start.arenaCount (world.appendArena start.arenaCount s.env.me) := by
  have arranged : Arranged s.tuned (world.appendArena start.arenaCount s.env.me) :=
    append_arranged holding.arranged initialising
  obtain ⟨count, record, _, _, rfl⟩ := initialising
  have mutex (b : ArenaId) :
      ((((start.updateArena start.arenaCount fun _ => Arena.zero).initialised start.arenaCount false
        count record true).appendArena start.arenaCount s.env.me).arena b).mutex =
        (start.arena b).mutex := by
    by_cases new : b = start.arenaCount
    · subst new
      rw [append_arena_same, initialised_same, update_arena_same]
      exact (holding.arranged.unborn _ (Nat.le_refl _)).symm
    · rw [append_arena_other new, initialised_other new, update_arena_other _ new]
  refine ⟨⟨arranged, ?_, holding.apart, ?_, ?_, holding.unhooked⟩, Nat.lt_succ_self _⟩
  · intro b
    rw [mutex]
    exact holding.owned b
  · intro t waits b
    rw [mutex]
    exact holding.theirs t waits b
  · apply respected.lasting start _ _ holding.fact
    constructor
    · exact Nat.le_succ _
    · intro b known top
      have other : b ≠ start.arenaCount := Nat.ne_of_lt known
      rw [append_arena_other other, initialised_other other, update_arena_other _ other]
      exact top

theorem int_new_arena_spec (respected : s.Respected) :
    Spec s (Holding s ∅) (intNewArena s.env) (fun result => Entered s result) := by
  apply ask_if
  · apply world_then
    intro seen
    apply Meets.assume (fun world holds => holds.2 ▸ holds.1)
    intro holding
    have zeroed : Spec s (fun world => Holding s ∅ world ∧ world = seen)
        (modifyArena seen.arenaCount fun _ => Arena.zero)
        (fun _ world => world = seen.updateArena seen.arenaCount fun _ => Arena.zero) := by
      apply change_arena_spec
      rintro world ⟨_, rfl⟩
      rfl
    apply zeroed.bind
    intro _
    apply (malloc_init_state_spec _ false).bind
    intro _
    apply (register_new_spec initialising_reserve).bind
    intro _
    have joined : Spec s
        (Initialising s (seen.updateArena seen.arenaCount fun _ => Arena.zero)
          seen.arenaCount false true 6)
        (modifyWorld fun world => world.appendArena seen.arenaCount s.env.me)
        (fun _ => Near s ∅ seen.arenaCount) :=
      change_spec fun _ initialising => append_near respected holding initialising
    apply joined.bind
    intro _
    apply (lock_near_spec respected).bind
    intro _
    exact meets_pure fun _ near => near
  · exact meets_pure fun _ holding => holding

end Append

/-! ## The choice -/

def Listed (s : Setting) (arenas : List ArenaId) (world : World) : Prop :=
  Holding s ∅ world ∧ ∀ b ∈ arenas, b < world.arenaCount

theorem arenas_from_lt {start count : Nat} (b : ArenaId) (mem : b ∈ arenasFrom start count) :
    b < count := by
  unfold arenasFrom at mem
  rw [List.mem_map] at mem
  obtain ⟨step, bound, rfl⟩ := mem
  rw [List.mem_range] at bound
  exact Nat.mod_lt _ (Nat.lt_of_le_of_lt (Nat.zero_le step) bound)

/-- The mutex is not waited for. -/
theorem trylock_spec (respected : s.Respected) {arenas : List ArenaId} (mem : a ∈ arenas) :
    Spec s (Listed s arenas) (trylock s.env a)
      (fun taken world => if taken then Near s {a} a world else Listed s arenas world) := by
  apply arena_then
  intro arena
  split
  next free =>
    have taken : Spec s (fun world => Listed s arenas world ∧ world.arena a = arena)
        (modifyArena a fun arena => { arena with mutex := some s.env.me })
        (fun _ => Near s {a} a) := by
      apply change_arena_spec
      intro world holds
      have open' : (world.arena a).mutex = none := by rw [holds.2, free]
      have known := holds.1.2 a mem
      have held := holds.1.1.take respected known open'
      rw [insert_empty_eq] at held
      exact ⟨held, known⟩
    apply taken.bind
    intro _
    exact meets_pure fun _ near => near
  next => exact meets_pure fun _ holds => holds.1

theorem try_arenas_spec (respected : s.Respected) (arenas : List ArenaId) :
    Spec s (Listed s arenas) (tryArenas s.env arenas) (fun result => Entered s result) := by
  induction arenas with
  | nil => exact meets_pure fun _ listed => listed.1
  | cons a later ih =>
      have tail : ∀ world, Listed s (a :: later) world → Listed s later world :=
        fun _ listed => ⟨listed.1, fun b mem => listed.2 b (List.mem_cons_of_mem a mem)⟩
      apply arena_then
      intro arena
      apply meets_if
      · intro _
        exact ih.from_before fun world holds => tail world holds.1
      · intro _
        have tried : Spec s (fun world => Listed s (a :: later) world ∧ world.arena a = arena)
            (trylock s.env a)
            (fun taken world => if taken then Near s {a} a world else Listed s (a :: later) world) :=
          (trylock_spec respected List.mem_cons_self).from_before fun _ holds => holds.1
        apply tried.bind
        intro taken
        cases taken with
        | true => exact meets_pure fun _ near => near
        | false => exact ih.from_before tail

theorem next_arena_lt {count : Nat} (positive : 0 < count) : nextArena a count < count :=
  Nat.mod_lt _ positive

theorem reuse_spec (respected : s.Respected) :
    Spec s (Near s {a} a) (reuse s.env a) (fun result => Entered s result) := by
  apply (set_thread_arena_spec respected).bind
  intro _
  have moved : Spec s (Near s {a} a)
      (modifyWorld fun world => { world with nextToUse := some (nextArena a world.arenaCount) })
      (fun _ => Near s {a} a) := by
    apply change_spec
    intro world near
    have arranged := near.holding.arranged
    have rewired : Rewired world
        { world with nextToUse := some (nextArena a world.arenaCount) } := by
      refine ⟨rfl, rfl, rfl, rfl, arranged.threads, arranged.free, ?_, arranged.hooks⟩
      intro b next
      cases next
      exact next_arena_lt arranged.positive
    exact ⟨near.holding.rewire respected rewired near.holding.unhooked, near.known⟩
  apply moved.bind
  intro _
  exact meets_pure fun _ near => near

theorem skip_arenas_spec (avoid : Option ArenaId) (arenas : List ArenaId) :
    Spec s (Listed s arenas) (skipArenas avoid arenas)
      (fun result world => Holding s ∅ world ∧ ∀ a, result = some a → a < world.arenaCount) := by
  induction arenas with
  | nil => exact meets_pure fun _ listed => ⟨listed.1, fun _ impossible => nomatch impossible⟩
  | cons a later ih =>
      apply arena_then
      intro arena
      apply meets_if
      · intro _
        apply ih.from_before
        intro world holds
        exact ⟨holds.1.1, fun b mem => holds.1.2 b (List.mem_cons_of_mem a mem)⟩
      · intro _
        apply meets_pure
        intro world holds
        refine ⟨holds.1.1, ?_⟩
        intro b found
        cases found
        exact holds.1.2 a List.mem_cons_self

theorem reused_arena_spec (respected : s.Respected) (avoid : Option ArenaId) :
    Spec s (Holding s ∅) (reusedArena s.env avoid) (fun result => Entered s result) := by
  apply world_then
  intro seen
  -- the second loop goes over the arenas that were listed before the first
  let fact : World → Prop := fun world => seen.arenaCount ≤ world.arenaCount
  have later : (s.knowing fact).Respected := respected.knowing (lasting_count seen.arenaCount)
  have listed (start : Nat) (world : World)
      (holding : Holding (s.knowing fact) ∅ world) :
      Listed s (arenasFrom start seen.arenaCount) world :=
    ⟨holding.forget, fun b mem => Nat.lt_of_lt_of_le (arenas_from_lt b mem) holding.fact.2⟩
  have tried : Spec s (fun world => Holding s ∅ world ∧ world = seen)
      (tryArenas s.env (arenasFrom (seen.nextToUse.getD mainArena) seen.arenaCount))
      (fun result => Entered (s.knowing fact) result) := by
    have tryAll : Spec (s.knowing fact)
        (Listed (s.knowing fact) (arenasFrom (seen.nextToUse.getD mainArena) seen.arenaCount))
        (tryArenas s.env (arenasFrom (seen.nextToUse.getD mainArena) seen.arenaCount))
        (fun result => Entered (s.knowing fact) result) := try_arenas_spec later _
    apply Meets.from_before tryAll
    rintro world ⟨holding, rfl⟩
    exact ⟨holding.knowing (Nat.le_refl _), fun b mem => arenas_from_lt b mem⟩
  apply tried.bind
  intro result
  cases result with
  | some result => exact (reuse_spec respected).from_before fun _ entered => Entered.forget entered
  | none =>
      dsimp only
      have skipped (start : Nat) : Spec s (Entered (s.knowing fact) none)
          (skipArenas avoid (arenasFrom start seen.arenaCount))
          (fun result world => Holding s ∅ world ∧ ∀ a, result = some a → a < world.arenaCount) :=
        (skip_arenas_spec avoid _).from_before fun world holding => listed start world holding
      apply (skipped _).bind
      intro found
      cases found with
      | none => exact meets_pure fun _ holds => holds.1
      | some found =>
          apply meets_if
          · intro _
            exact meets_pure fun _ holds => holds.1
          · intro _
            have locked : Spec s
                (fun world => Holding s ∅ world ∧ ∀ a, some found = some a → a < world.arenaCount)
                (lockArena s.env .arena found) (fun _ => Near s {found} found) :=
              (lock_near_spec respected).from_before fun _ holds => ⟨holds.1, holds.2 found rfl⟩
            apply locked.bind
            intro _
            exact reuse_spec respected

theorem arena_get2_spec (respected : s.Respected) (avoid : Option ArenaId) :
    Spec s (Holding s ∅) (arenaGet2 s.env avoid) (fun result => Entered s result) := by
  apply (get_free_list_spec respected).bind
  intro result
  cases result with
  | some a => exact meets_pure fun _ near => near
  | none =>
      apply ask_if
      · exact int_new_arena_spec respected
      · exact reused_arena_spec respected avoid

theorem arena_get_spec (respected : s.Respected) :
    Spec s (Holding s ∅) (arenaGet s.env site) (fun result => Entered s result) := by
  apply world_then
  intro seen
  cases mine : seen.threadArena s.env.me with
  | none => exact (arena_get2_spec respected none).from_before fun _ holds => holds.1
  | some a =>
      apply arena_then
      intro arena
      apply meets_if
      · intro _
        exact (arena_get2_spec respected none).from_before fun _ holds => holds.1.1
      · intro _
        have locked : Spec s
            (fun world => (Holding s ∅ world ∧ world = seen) ∧ world.arena a = arena)
            (lockArena s.env site a) (fun _ => Near s {a} a) := by
          apply (lock_near_spec respected).from_before
          rintro world ⟨⟨holding, rfl⟩, _⟩
          exact ⟨holding, holding.arranged.threads _ a mine⟩
        apply locked.bind
        intro _
        exact meets_pure fun _ near => near

/-- The lock of the arena is given up for that of another one. -/
theorem arena_get_retry_spec (respected : s.Respected) :
    Spec s (Near s {a} a) (arenaGetRetry s.env site a) (fun result => Entered s result) := by
  have unlocked (b : ArenaId) : Spec s (Near s {b} b) (unlockArena s.env b)
      (fun _ => Holding s ∅) :=
    (unlock_near_spec respected).to_after fun _ _ near => near.holding
  apply meets_if
  · intro _
    apply (unlocked a).bind
    intro _
    apply arena_then
    intro arena
    apply meets_if
    · intro _
      exact meets_pure fun _ holds => holds.1
    · intro _
      have locked : Spec s
          (fun world => Holding s ∅ world ∧ world.arena mainArena = arena)
          (lockArena s.env site mainArena) (fun _ => Near s {mainArena} mainArena) :=
        (lock_near_spec respected).from_before fun _ holds => ⟨holds.1, main_known holds.1⟩
      apply locked.bind
      intro _
      exact meets_pure fun _ near => near
  · intro main
    have same : a = mainArena := not_not.mp main
    subst same
    apply (unlocked mainArena).bind
    intro _
    exact arena_get2_spec respected (some mainArena)

theorem arena_from_index_spec (index : Nat) :
    Spec s (Holding s ∅) (arenaFromIndex index) (fun a => Near s ∅ a) := by
  apply world_then
  intro seen
  apply meets_if
  · intro _
    exact meets_pure fun _ holds => ⟨holds.1, main_known holds.1⟩
  · intro _
    dsimp only
    cases found : (arenasFrom 1 seen.arenaCount).find?
        fun a => (seen.arena a).arenaIndex = index with
    | some a =>
        apply meets_pure
        rintro world ⟨holding, rfl⟩
        exact ⟨holding, arenas_from_lt a (List.mem_of_find?_eq_some found)⟩
    | none =>
        apply meets_pure
        rintro world ⟨holding, rfl⟩
        exact ⟨holding, next_arena_lt holding.arranged.positive⟩

/-! ## Tunables and initialisation -/

/-- The values for which `set_max_fast` gives 0. -/
def Zeroes (parameter value : Int) : Prop :=
  parameter = mMxfast ∧ 1 ≤ value ∧ value ≤ 7

theorem max_fast_zero_iff : ∀ size : Fin 161,
    maxFastFor (BitVec.ofNat 64 size.val) = 0 ↔ 1 ≤ size.val ∧ size.val ≤ 7 := by
  decide +kernel

theorem max_fast_nonzero {value : Int} (lower : 0 ≤ value) (upper : value ≤ maxFastSize)
    (safe : ¬(1 ≤ value ∧ value ≤ 7)) : maxFastFor (BitVec.ofInt 64 value) ≠ 0 := by
  obtain ⟨size, rfl⟩ := Int.eq_ofNat_of_zero_le lower
  unfold maxFastSize at upper
  have bound : size < 161 := by omega
  rw [show BitVec.ofInt 64 (size : Int) = BitVec.ofNat 64 size from BitVec.ofInt_natCast 64 size]
  intro zero
  have small := (max_fast_zero_iff ⟨size, bound⟩).mp zero
  dsimp only at small
  omega

theorem set_parameter_spec (respected : s.Respected) (parameter value : Int)
    (tame : s.tuned → ¬Zeroes parameter value) :
    Spec s (Within s {mainArena} mainArena stock) (setParameter parameter value)
      (fun _ => Within s {mainArena} mainArena stock) := by
  apply meets_if
  · rintro ⟨mxfast, lower, upper⟩
    apply change_spec
    intro world within
    have holding := within.holding
    have ready := within.near.ready_of_top within.top
    refine ⟨⟨?_, holding.owned, holding.apart, holding.theirs, ?_, holding.unhooked⟩,
      within.known, within.top, within.stock⟩
    · refine { holding.arranged with main := Or.inl ready, fast := ?_ }
      intro good _
      apply max_fast_nonzero lower upper
      intro small
      exact tame good ⟨mxfast, small⟩
    · apply respected.lasting world _ _ holding.fact
      exact ⟨Nat.le_refl _, fun _ _ top => top⟩
  · intro _
    exact meets_pure fun _ within => within

theorem consolidate_main_spec (respected : s.Respected) :
    Spec s (Near s {mainArena} mainArena) (mallocConsolidate s.env mainArena)
      (fun _ => Within s {mainArena} mainArena 0) := by
  apply (malloc_consolidate_spec respected (Nat.zero_le 7)).from_before
  intro world near
  exact ⟨near, fun other => absurd rfl other, fun _ _ => Nat.zero_le _⟩

theorem near_main (holding : Holding s held world) : Near s held mainArena world :=
  ⟨holding, main_known holding⟩

theorem mallopt_body_spec (respected : s.Respected) (parameter value : Int)
    (tame : s.tuned → ¬Zeroes parameter value) :
    Spec s (Holding s ∅) (malloptBody s.env parameter value)
      (fun _ => Within s ∅ mainArena 0) := by
  have locked : Spec s (Holding s ∅) (lockArena s.env .mallopt mainArena)
      (fun _ => Near s {mainArena} mainArena) :=
    (lock_near_spec respected).from_before fun _ holding => near_main holding
  apply locked.bind
  intro _
  apply (consolidate_main_spec respected).bind
  intro _
  apply (set_parameter_spec respected parameter value tame).bind
  intro _
  exact unlock_own_spec respected

theorem tunable_tame (tunable : Tunable) (value : Int) : ¬Zeroes tunable.parameter value := by
  rintro ⟨mxfast, _⟩
  cases tunable <;> cases mxfast

theorem mallopt_all_spec (respected : s.Respected) (tunables : List (Tunable × Int)) :
    Spec s (Holding s ∅) (malloptAll s.env tunables) (fun _ => Holding s ∅) := by
  induction tunables with
  | nil => exact meets_pure fun _ holding => holding
  | cons first later ih =>
      obtain ⟨tunable, value⟩ := first
      apply (mallopt_body_spec respected _ value fun _ => tunable_tame tunable value).bind
      intro _
      exact ih.from_before fun _ within => within.holding

theorem hooks_rewired {tuned : Prop} (arranged : Arranged tuned world)
    (mallocHook freeHook reallocHook memalignHook : Hook) (initialized : Bool) :
    let other := { world with
      mallocHook := mallocHook
      freeHook := freeHook
      reallocHook := reallocHook
      memalignHook := memalignHook
      mallocInitialized := initialized }
    (other.Hooked → (world.arena mainArena).mdTop = true) → Rewired world other := by
  intro other hooks
  exact ⟨rfl, rfl, rfl, rfl, arranged.threads, arranged.free, arranged.next, hooks⟩

theorem malloc_check_init_spec (respected : s.Respected) :
    Spec s (Holding s ∅) (mallocCheckInit s.env) (fun _ => Holding s ∅) := by
  unfold mallocCheckInit
  cases setting : s.env.checkAction with
  | none => exact meets_pure fun _ holding => holding
  | some action =>
      have tame : s.tuned → ¬Zeroes mCheckAction action := by
        rintro _ ⟨mxfast, _⟩
        cases mxfast
      apply (mallopt_body_spec respected mCheckAction action tame).bind
      intro _
      apply meets_if
      · intro nonzero
        apply change_spec
        intro world within
        have top := within.top
        have rewired := hooks_rewired within.holding.arranged .check .check .check .check
          world.mallocInitialized fun _ => top
        apply within.holding.rewire respected rewired
        intro stocked
        exact absurd (respected.unchecked stocked action setting) nonzero
      · intro _
        exact meets_pure fun _ within => within.holding

theorem ptmalloc_init_spec (respected : s.Respected) :
    Spec s (Holding s ∅) (ptmallocInit s.env) (fun _ => Holding s ∅) := by
  apply world_then
  intro seen
  apply meets_if
  · intro _
    exact meets_pure fun _ holds => holds.1
  · intro _
    have flagged : Spec s (fun world => Holding s ∅ world ∧ world = seen)
        (modifyWorld fun world => { world with mallocInitialized := true })
        (fun _ => Near s ∅ mainArena) := by
      apply change_spec
      intro world holds
      have holding := holds.1
      apply near_main
      have rewired := hooks_rewired holding.arranged world.mallocHook world.freeHook
        world.reallocHook world.memalignHook true holding.arranged.hooks
      exact holding.rewire respected rewired holding.unhooked
    apply flagged.bind
    intro _
    apply (set_thread_arena_spec respected).bind
    intro _
    apply ((mallopt_all_spec respected _).from_before fun _ near => near.holding).bind
    intro _
    exact malloc_check_init_spec respected

theorem libc_mallopt_spec (respected : s.Respected) (parameter value : Int)
    (tame : s.tuned → ¬Zeroes parameter value) :
    Spec s (Holding s ∅) (libcMallopt s.env parameter value) (fun _ => Holding s ∅) := by
  apply (ptmalloc_init_spec respected).bind
  intro _
  exact (mallopt_body_spec respected parameter value tame).to_after fun _ _ within => within.holding

/-- `main_arena` comes first, so that it is initialised before the others are trimmed. -/
theorem mtrim_spec (respected : s.Respected)
    (main : ∀ world, Near s {a} a world → a ≠ mainArena → (world.arena mainArena).mdTop = true) :
    Spec s (Near s {a} a) (mtrim s.env a) (fun _ => Within s {a} a 0) := by
  apply arena_then
  intro arena
  apply meets_if
  · intro corrupt
    apply meets_pure
    intro world holds
    refine ⟨holds.1.holding, holds.1.known, ?_, fun _ => Nat.zero_le _⟩
    cases holds.1.ready_or with
    | inl ready => exact ready.mdTop
    | inr dormant =>
        rw [← holds.2, dormant.1, dormant.2.unused.corrupt] at corrupt
        cases corrupt
  · intro _
    apply (malloc_consolidate_spec respected (Nat.zero_le 7)).from_before
    intro world holds
    exact ⟨holds.1, main world holds.1, fun _ _ => Nat.zero_le _⟩

theorem next_known (holding : Holding s held world) :
    nextArena a world.arenaCount < world.arenaCount :=
  Nat.mod_lt _ holding.arranged.positive

/-- `main_arena` is initialised when the loop of `malloc_trim` comes to another arena. -/
def Trimmable (a : ArenaId) (world : World) : Prop :=
  a < world.arenaCount ∧
    (a ≠ mainArena → mainArena < world.arenaCount ∧ (world.arena mainArena).mdTop = true)

theorem lasting_trimmable : Lasting (Trimmable a) := by
  intro past world since trimmable
  refine ⟨Nat.lt_of_lt_of_le trimmable.1 since.known, ?_⟩
  intro other
  have main := trimmable.2 other
  exact ⟨Nat.lt_of_lt_of_le main.1 since.known, since.top mainArena main.1 main.2⟩

theorem trim_arenas_spec (respected : s.Respected) (rounds : Nat) (a : ArenaId) :
    Spec s (fun world => Holding s ∅ world ∧ Trimmable a world) (trimArenas s.env rounds a)
      (fun _ => Holding s ∅) := by
  induction rounds generalizing a with
  | zero => exact halt_spec trivial
  | succ rounds ih =>
      have knowing : (s.knowing (Trimmable a)).Respected := respected.knowing lasting_trimmable
      have locked : Spec s (fun world => Holding s ∅ world ∧ Trimmable a world)
          (lockArena s.env .trim a) (fun _ => Near (s.knowing (Trimmable a)) {a} a) := by
        apply Meets.from_before (lock_near_spec knowing)
        exact fun world holds => ⟨holds.1.knowing holds.2, holds.2.1⟩
      apply locked.bind
      intro _
      have trimmed : Spec s (Near (s.knowing (Trimmable a)) {a} a) (mtrim s.env a)
          (fun _ => Within (s.knowing (Trimmable a)) {a} a 0) := by
        apply mtrim_spec knowing
        intro world near other
        exact (near.holding.fact.2.2 other).2
      apply trimmed.bind
      intro _
      have unlocked : Spec s (Within (s.knowing (Trimmable a)) {a} a 0) (unlockArena s.env a)
          (fun _ => Within (s.knowing (Trimmable a)) ∅ a 0) := unlock_own_spec knowing
      apply unlocked.bind
      intro _
      apply world_then
      intro seen
      apply meets_if
      · intro _
        exact meets_pure fun _ holds => holds.1.holding.forget
      · intro _
        apply (ih (nextArena a seen.arenaCount)).from_before
        rintro world ⟨within, rfl⟩
        refine ⟨within.holding.forget, next_known within.holding, fun _ => ?_⟩
        by_cases main : a = mainArena
        · subst main
          exact ⟨within.known, within.top⟩
        · exact within.holding.fact.2.2 main

theorem libc_malloc_trim_spec (respected : s.Respected) :
    Spec s (Holding s ∅) (libcMallocTrim s.env) (fun _ => Holding s ∅) := by
  apply (ptmalloc_init_spec respected).bind
  intro _
  apply (trim_arenas_spec respected s.env.rounds mainArena).from_before
  intro world holding
  exact ⟨holding, holding.arranged.positive, fun other => absurd rfl other⟩

theorem int_mallinfo_spec (respected : s.Respected) :
    Spec s (Near s {a} a) (intMallinfo s.env a) (fun _ => Near s {a} a) := by
  apply arena_then
  intro arena
  apply meets_if
  · intro _
    exact meets_pure fun _ holds => holds.1
  · intro topless
    have consolidated : Spec s (fun world => Near s {a} a world ∧ world.arena a = arena)
        (mallocConsolidate s.env a) (fun _ => Within s {a} a 0) := by
      apply (malloc_consolidate_spec respected (Nat.zero_le 7)).from_before
      intro world holds
      refine ⟨holds.1, ?_, fun _ _ => Nat.zero_le _⟩
      intro other
      rw [← holds.2] at topless
      exact absurd (holds.1.holding.arranged.later a holds.1.known other).mdTop topless
    exact consolidated.to_after fun _ _ within => within.near

theorem mallinfo_arenas_spec (respected : s.Respected) (rounds : Nat) (a : ArenaId) :
    Spec s (Near s ∅ a) (mallinfoArenas s.env rounds a) (fun _ => Holding s ∅) := by
  induction rounds generalizing a with
  | zero => exact halt_spec trivial
  | succ rounds ih =>
      apply (lock_near_spec respected).bind
      intro _
      apply (int_mallinfo_spec respected).bind
      intro _
      apply (unlock_near_spec respected).bind
      intro _
      apply world_then
      intro seen
      apply meets_if
      · intro _
        exact meets_pure fun _ holds => holds.1.holding
      · intro _
        apply (ih (nextArena a seen.arenaCount)).from_before
        rintro world ⟨near, rfl⟩
        exact ⟨near.holding, next_known near.holding⟩

theorem libc_mallinfo_spec (respected : s.Respected) :
    Spec s (Holding s ∅) (libcMallinfo s.env) (fun _ => Holding s ∅) := by
  apply (ptmalloc_init_spec respected).bind
  intro _
  apply (mallinfo_arenas_spec respected s.env.rounds mainArena).from_before
  exact fun _ holding => ⟨holding, holding.arranged.positive⟩

end SriGlibcMalloc.EntryPoints
