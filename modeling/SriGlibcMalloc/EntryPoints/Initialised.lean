import SriGlibcMalloc.EntryPoints.Steps

/-!
# Initialisation

`malloc_init_state` runs on `main_arena` when it is untouched, and on a new arena
before it joins the list. With a limit of the fastbins that is 0 afterwards, it
also runs when an initialised arena is consolidated.
-/

namespace SriGlibcMalloc.EntryPoints

open Outcome

set_option autoImplicit false

variable {s : Setting} {held : Finset ArenaId} {a b : ArenaId} {stock : Nat} {world : World}

def World.initialised (world : World) (a : ArenaId) (isMainArena : Bool) (count : Nat)
    (record : Chunk → Option Bool) (top : Bool) : World :=
  (world.linkBins a isMainArena).updateArena a fun arena => { arena with
    metadataPoolReady := true
    metadataCacheCount := count
    record := record
    mdTop := top }

def Initialising (s : Setting) (start : World) (a : ArenaId) (isMainArena top : Bool)
    (stock : Nat) (world : World) : Prop :=
  ∃ count record, (s.stocked → stock ≤ count) ∧
    (a ≠ mainArena → ∀ p, record p ≠ some true) ∧
    world = start.initialised a isMainArena count record top

theorem update_arena_twice (first second : Arena → Arena) :
    (world.updateArena a first).updateArena a second =
      world.updateArena a fun arena => second (first arena) := by
  simp [World.updateArena]

theorem update_arena_congr {first second : Arena → Arena}
    (same : first (world.arena a) = second (world.arena a)) :
    world.updateArena a first = world.updateArena a second := by
  unfold World.updateArena
  rw [same]

theorem initialising_reserve {start : World} {isMainArena top : Bool} :
    Reserve s a fun count => Initialising s start a isMainArena top count where
  pool := by
    rintro count world ⟨_, _, _, _, rfl⟩
    rw [World.initialised, update_arena_same]
  enough := by
    rintro count world ⟨_, _, enough, _, rfl⟩
    rw [World.initialised, update_arena_same]
    exact enough
  relax := by
    rintro count less world ⟨_, record, _, unmapped, rfl⟩ enough
    rw [World.initialised, update_arena_same] at enough
    exact ⟨_, record, enough, unmapped, rfl⟩
  restock := by
    rintro count now world ⟨_, record, _, unmapped, rfl⟩
    refine ⟨now, record, fun _ => Nat.le_refl now, unmapped, ?_⟩
    exact update_arena_twice _ _
  record := by
    rintro count world p isMmapped ⟨_, record, enough, unmapped, rfl⟩ owner
    refine ⟨_, Function.update record p (some isMmapped), enough, ?_, ?_⟩
    · intro other q
      by_cases same : q = p
      · subst same
        rw [Function.update_self]
        intro mapped
        exact other (owner (Option.some.inj mapped))
      · rw [Function.update_of_ne same]
        exact unmapped other q
    · exact update_arena_twice _ _

theorem malloc_init_state_spec (start : World) (isMainArena : Bool) :
    Spec s (fun world => world = start) (mallocInitState s.env a isMainArena)
      (fun _ => Initialising s start a isMainArena true 7) := by
  have linked : Spec s (fun world => world = start)
      (modifyWorld fun world => world.linkBins a isMainArena)
      (fun _ world => world = start.linkBins a isMainArena) := by
    apply change_spec
    rintro world rfl
    rfl
  apply linked.bind
  intro _
  apply ask_if
  · have pool : Spec s (fun world => world = start.linkBins a isMainArena)
        (modifyArena a fun arena => { arena with metadataPoolReady := true })
        (fun _ => Initialising s start a isMainArena (start.arena a).mdTop 0) := by
      apply change_arena_spec
      rintro world rfl
      refine ⟨(start.arena a).metadataCacheCount, fun _ => none, fun _ => Nat.zero_le _, ?_, ?_⟩
      · intro _ p
        exact (Option.some_ne_none true).symm
      · apply update_arena_congr
        simp [World.linkBins]
    apply pool.bind
    intro _
    apply (replenish_spec initialising_reserve).bind
    intro ok
    apply meets_if
    · intro succeeded
      rw [succeeded]
      apply (register_new_spec initialising_reserve).bind
      intro _
      apply change_arena_spec
      rintro world ⟨count, record, enough, unmapped, rfl⟩
      refine ⟨count, record, enough, unmapped, ?_⟩
      exact update_arena_twice _ _
    · intro _
      exact halt_spec trivial
  · exact halt_spec trivial

section Initialised

variable {isMainArena top : Bool} {count : Nat} {record : Chunk → Option Bool}

theorem initialised_same :
    (world.initialised a isMainArena count record top).arena a =
      { world.arena a with
        binsLinked := true
        fastchunksBit := true
        arenaIndex := if isMainArena then 1 else 0
        record := record
        inits := (world.arena a).inits + 1
        metadataPoolReady := true
        metadataCacheCount := count
        mdTop := top } := by
  simp [World.initialised, World.linkBins]

theorem initialised_other (other : b ≠ a) :
    (world.initialised a isMainArena count record top).arena b = world.arena b := by
  rw [World.initialised, update_arena_other _ other]
  exact Function.update_of_ne other _ _

theorem initialised_mutex (b : ArenaId) :
    ((world.initialised a isMainArena count record top).arena b).mutex =
      (world.arena b).mutex := by
  by_cases same : b = a
  · subst same
    rw [initialised_same]
  · rw [initialised_other same]

theorem initialised_ready : ((world.initialised a isMainArena count record true).arena a).Ready := by
  rw [initialised_same]
  exact ⟨rfl, rfl, rfl⟩

theorem initialised_since :
    Since world (world.initialised a isMainArena count record true) := by
  constructor
  · exact Nat.le_refl _
  · intro b _ topped
    by_cases same : b = a
    · subst same
      exact initialised_ready.mdTop
    · rw [initialised_other same]
      exact topped

/-- With the limit of the fastbins tuned, only an untouched `main_arena` is initialised
in the list. -/
theorem initialised_arranged {tuned : Prop} (arranged : Arranged tuned world)
    (main : a ≠ mainArena → (world.arena mainArena).Ready)
    (first : tuned → a = mainArena ∧ Dormant world)
    (unmapped : a ≠ mainArena → ∀ p, record p ≠ some true) :
    Arranged tuned (world.initialised a true count record true) := by
  have main_ready : ((world.initialised a true count record true).arena mainArena).Ready := by
    by_cases same : mainArena = a
    · subst same
      exact initialised_ready
    · rw [initialised_other same]
      exact main fun equal => same equal.symm
  refine { arranged with
    unborn := ?_, main := Or.inl main_ready, later := ?_, unmapped := ?_, idle := ?_,
    hooks := fun _ => main_ready.mdTop, fast := ?_, once := ?_, lookups := ?_ }
  · intro b unborn
    rw [initialised_mutex]
    exact arranged.unborn b unborn
  · intro b known other
    by_cases same : b = a
    · subst same
      exact initialised_ready
    · rw [initialised_other same]
      exact arranged.later b known other
  · intro b known other
    by_cases same : b = a
    · subst same
      rw [initialised_same]
      exact unmapped other
    · rw [initialised_other same]
      exact arranged.unmapped b known other
  · intro topless
    rw [main_ready.mdTop] at topless
    cases topless
  · intro good _
    obtain ⟨rfl, _⟩ := first good
    change maxFastFor defaultMxfast ≠ 0
    decide
  · intro good b known
    obtain ⟨rfl, dormant⟩ := first good
    by_cases same : b = mainArena
    · subst same
      rw [initialised_same]
      dsimp only
      rw [dormant.unused.inits]
    · rw [initialised_other same]
      exact arranged.once good b known
  · intro good
    have lookups := (first good).2.lookups
    change world.lookupInits + 1 ≤ 1
    rw [lookups]

end Initialised

theorem Initialising.within {start : World} (respected : s.Respected) (near : Near s held a start)
    (main : a ≠ mainArena → (start.arena mainArena).Ready)
    (first : s.tuned → a = mainArena ∧ Dormant start)
    (initialising : Initialising s start a true true stock world) : Within s held a stock world := by
  obtain ⟨count, record, enough, unmapped, rfl⟩ := initialising
  refine ⟨⟨?_, ?_, ?_, ?_, ?_, ?_⟩, near.known, initialised_ready.mdTop, ?_⟩
  · exact initialised_arranged near.holding.arranged main first unmapped
  · intro b
    rw [initialised_mutex]
    exact near.holding.owned b
  · exact near.holding.apart
  · intro t waits b
    rw [initialised_mutex]
    exact near.holding.theirs t waits b
  · exact respected.lasting start _ initialised_since near.holding.fact
  · exact near.holding.unhooked
  · rw [initialised_same]
    exact enough

/-- What a consolidation needs: `main_arena` is initialised, or it is the arena. -/
structure Consolidating (s : Setting) (held : Finset ArenaId) (a : ArenaId) (stock : Nat)
    (world : World) : Prop where
  near : Near s held a world
  main : a ≠ mainArena → (world.arena mainArena).mdTop = true
  stock : (world.arena a).mdTop = true → s.stocked → stock ≤ (world.arena a).metadataCacheCount

theorem main_ready {world : World} (holding : Holding s held world)
    (top : (world.arena mainArena).mdTop = true) : (world.arena mainArena).Ready :=
  Near.ready_of_top ⟨holding, main_known holding⟩ top

theorem main_top_of_max_fast (holding : Holding s held world) (fast : world.globalMaxFast ≠ 0) :
    (world.arena mainArena).mdTop = true := by
  cases holding.arranged.main with
  | inl ready => exact ready.mdTop
  | inr dormant => exact absurd dormant.maxFast fast

theorem bit_mild (topped : (world.arena a).mdTop = true) :
    Mild world a { world.arena a with fastchunksBit := true } := by
  refine ⟨rfl, rfl, rfl, rfl, fun _ _ mapped => mapped, ?_, fun _ => Or.inl rfl⟩
  intro unused
  rw [unused.mdTop] at topped
  cases topped

theorem malloc_consolidate_spec (respected : s.Respected) (small : stock ≤ 7) :
    Spec s (Consolidating s held a stock) (mallocConsolidate s.env a)
      (fun _ => Within s held a stock) := by
  apply max_fast_then
  intro maxFast
  apply meets_if
  · intro fast
    have topped (world : World)
        (holds : Consolidating s held a stock world ∧ world.globalMaxFast = maxFast) :
        (world.arena a).mdTop = true := by
      have main := main_top_of_max_fast holds.1.near.holding (holds.2 ▸ fast)
      by_cases same : a = mainArena
      · rw [same]
        exact main
      · exact (holds.1.near.holding.arranged.later a holds.1.near.known same).mdTop
    have unmarked : Spec s
        (fun world => Consolidating s held a stock world ∧ world.globalMaxFast = maxFast)
        (modifyArena a fun arena => { arena with fastchunksBit := true })
        (fun _ => Within s held a stock) := by
      apply change_arena_spec
      intro world holds
      have top := topped world holds
      have within : Within s held a stock world :=
        ⟨holds.1.near.holding, holds.1.near.known, top, holds.1.stock top⟩
      exact within.update respected (bit_mild top) rfl within.stock
    apply unmarked.bind
    intro _
    apply number_then
    intro count
    exact unregister_each_spec respected carried_within (fun _ within => within.known) count
  · intro slow
    apply Meets.from_each
    intro start holds
    apply (malloc_init_state_spec start true).to_after
    intro _ world initialising
    apply (Initialising.within respected holds.1.near ?_ ?_ initialising).lower small
    · intro other
      exact main_ready holds.1.near.holding (holds.1.main other)
    · intro good
      have dormant : Dormant start := by
        apply holds.1.near.holding.arranged.main.resolve_left
        intro ready
        exact slow (holds.2 ▸ holds.1.near.holding.arranged.fast good ready.mdTop)
      refine ⟨?_, dormant⟩
      by_contra other
      have top := holds.1.main other
      rw [dormant.unused.mdTop] at top
      cases top

end SriGlibcMalloc.EntryPoints
