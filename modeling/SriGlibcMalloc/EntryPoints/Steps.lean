import SriGlibcMalloc.EntryPoints.Arranged

/-!
# The steps that the routines share

Questions and readings keep what is seen; then locks, the reserve and the records,
and initialisation, each with the invariant it keeps and the mutexes it moves.
-/

namespace SriGlibcMalloc.EntryPoints

open Outcome

set_option autoImplicit false

variable {s : Setting} {held now : Finset ArenaId} {a b : ArenaId} {stock : Nat}
variable {before : World → Prop} {Result : Type} {after : Result → World → Prop}

theorem ask_spec (question : Question) : Spec s before (ask s.env question) (fun _ => before) := by
  intro state holds
  exact holds

theorem ask_number_spec : Spec s before (askNumber s.env) (fun _ => before) := by
  intro state holds
  exact holds

theorem ask_then {question : Question} {rest : Bool → M Result}
    (second : ∀ answer, Spec s before (rest answer) after) :
    Spec s before (ask s.env question >>= rest) after :=
  (ask_spec question).bind second

theorem number_then {rest : Nat → M Result} (second : ∀ number, Spec s before (rest number) after) :
    Spec s before (askNumber s.env >>= rest) after :=
  ask_number_spec.bind second

theorem ask_if {question : Question} {first second : M Result}
    (positive : Spec s before first after) (negative : Spec s before second after) :
    Spec s before (ask s.env question >>= fun answer => if answer then first else second) after := by
  apply ask_then
  intro answer
  apply meets_if
  · intro _
    exact positive
  · intro _
    exact negative

theorem ask_path {question : Question} {rest : Bool → M Result} (respected : s.Respected)
    (second : ∀ answer, (answer = true → s.stocked → s.path.allows question = true) →
      Spec s before (rest answer) after) :
    Spec s before (ask s.env question >>= rest) after := by
  intro state holds
  have allows (yes : s.env.answer question state.clock = true) (stocked : s.stocked) :
      s.path.allows question = true := respected.follows stocked question state.clock yes
  exact second _ allows { state with clock := state.clock + 1 } holds

theorem ask_path_if {question : Question} {first second : M Result} (respected : s.Respected)
    (positive : (s.stocked → s.path.allows question = true) → Spec s before first after)
    (negative : Spec s before second after) :
    Spec s before (ask s.env question >>= fun answer => if answer then first else second) after := by
  apply ask_path respected
  intro answer allows
  apply meets_if
  · intro yes
    exact positive (allows yes)
  · intro _
    exact negative

theorem halt_spec {why : Halt} (allowed : s.Allows why) :
    Spec s before (halt why : M Result) after := by
  exact meets_throw allowed

theorem arena_then {rest : Arena → M Result} (second : ∀ arena,
      Spec s (fun world => before world ∧ world.arena a = arena) (rest arena) after) :
    Spec s before (getArena a >>= rest) after :=
  Meets.read (fun world => world.arena a) (fun _ => rfl) second

theorem world_then {rest : World → M Result} (second : ∀ seen,
      Spec s (fun world => before world ∧ world = seen) (rest seen) after) :
    Spec s before (getWorld >>= rest) after :=
  Meets.read (fun world => world) (fun _ => rfl) second

theorem max_fast_then {rest : Word → M Result} (second : ∀ maxFast,
      Spec s (fun world => before world ∧ world.globalMaxFast = maxFast) (rest maxFast) after) :
    Spec s before (getMaxFast >>= rest) after :=
  Meets.read (fun world => world.globalMaxFast) (fun _ => rfl) second

theorem fastchunks_if {first second : M Result}
    (positive : Spec s (fun world => before world ∧ (world.arena a).fastchunksBit = false)
      first after)
    (negative : Spec s (fun world => before world ∧ (world.arena a).fastchunksBit = true)
      second after) :
    Spec s before (haveFastchunks a >>= fun some => if some then first else second) after := by
  have reading (state : State) : (haveFastchunks a).run state =
      .ok (!(state.world.arena a).fastchunksBit, state) := rfl
  apply Meets.read (fun world => !(world.arena a).fastchunksBit) reading
  intro found
  cases found with
  | true =>
      apply positive.from_before
      intro world holds
      exact ⟨holds.1, by simpa using holds.2⟩
  | false =>
      apply negative.from_before
      intro world holds
      exact ⟨holds.1, by simpa using holds.2⟩

theorem change_spec {change : World → World} {after : World → Prop}
    (holds : ∀ world, before world → after (change world)) :
    Spec s before (modifyWorld change) (fun _ => after) := by
  intro state initially
  exact holds state.world initially

theorem change_arena_spec {change : Arena → Arena} {after : World → Prop}
    (holds : ∀ world, before world → after (world.updateArena a change)) :
    Spec s before (modifyArena a change) (fun _ => after) :=
  change_spec holds

variable {site : Site}

theorem Holding.wait {world : World} {clock : Nat} (respected : s.Respected)
    (holding : Holding s held world) : Holding s held (s.env.others site a clock world) := by
  have arranged := holding.arranged
  constructor
  · exact respected.arranged site a clock world arranged
  · intro b
    rw [respected.locks site a clock world arranged _ (Or.inl rfl)]
    exact holding.owned b
  · exact holding.apart
  · intro t waits b
    rw [respected.locks site a clock world arranged t (Or.inr waits)]
    exact holding.theirs t waits b
  · exact respected.lasting world _ (respected.since site a clock world arranged) holding.fact
  · intro stocked
    exact respected.unhooked stocked site a clock world arranged (holding.unhooked stocked)

theorem Near.wait {world : World} {clock : Nat} (respected : s.Respected)
    (near : Near s held b world) : Near s held b (s.env.others site a clock world) := by
  have since := respected.since site a clock world near.holding.arranged
  exact ⟨near.holding.wait respected, Nat.lt_of_lt_of_le near.known since.known⟩

theorem Within.wait {world : World} {clock left : Nat} (respected : s.Respected)
    (within : Within s held b stock world)
    (leaves : s.stocked → left ≤ ((s.env.others site a clock world).arena b).metadataCacheCount) :
    Within s held b left (s.env.others site a clock world) := by
  have since := respected.since site a clock world within.holding.arranged
  exact ⟨within.holding.wait respected, Nat.lt_of_lt_of_le within.known since.known,
    since.top b within.known within.top, leaves⟩

theorem mutex_mild (world : World) (a : ArenaId) (mutex : Option ThreadId) :
    Mild world a { world.arena a with mutex := mutex } := by
  refine ⟨rfl, rfl, rfl, rfl, fun _ _ mapped => mapped, ?_, Or.inl⟩
  intro unused
  exact ⟨unused.1, unused.2, unused.3, unused.4, unused.5, unused.6, unused.7, unused.8⟩

theorem Holding.set_mutex {world : World} {mutex : Option ThreadId} {now : Finset ArenaId}
    (respected : s.Respected) (holding : Holding s held world) (known : a < world.arenaCount)
    (unleaked : ¬s.leaked a) (mine : mutex = some s.env.me ↔ a ∈ now)
    (others : ∀ b, b ≠ a → (b ∈ now ↔ b ∈ held))
    (notTheirs : ∀ t, s.waiting t → mutex ≠ some t ∧ (world.arena a).mutex ≠ some t) :
    Holding s now (world.updateArena a fun arena => { arena with mutex := mutex }) := by
  have mild := mutex_mild world a mutex
  constructor
  · exact holding.arranged.update known mild
  · intro b
    by_cases same : b = a
    · subst same
      rw [update_arena_same, or_iff_left unleaked]
      exact mine
    · rw [update_arena_other _ same, others b same]
      exact holding.owned b
  · intro b mem
    by_cases same : b = a
    · rw [same]
      exact unleaked
    · exact holding.apart b ((others b same).mp mem)
  · intro t waits b
    by_cases same : b = a
    · subst same
      rw [update_arena_same, ← holding.theirs t waits b]
      constructor
      · intro theirs
        exact absurd theirs (notTheirs t waits).1
      · intro theirs
        exact absurd theirs (notTheirs t waits).2
    · rw [update_arena_other _ same]
      exact holding.theirs t waits b
  · exact respected.lasting world _ mild.since holding.fact
  · exact holding.unhooked

theorem waiting_ne_me (respected : s.Respected) {t : ThreadId} (waits : s.waiting t) :
    s.env.me ≠ t := by
  intro same
  exact respected.apart (same ▸ waits)

theorem Holding.take {world : World} (respected : s.Respected) (holding : Holding s held world)
    (known : a < world.arenaCount) (free : (world.arena a).mutex = none) :
    Holding s (insert a held)
      (world.updateArena a fun arena => { arena with mutex := some s.env.me }) := by
  apply holding.set_mutex respected known
  · intro leaked
    have mine := (holding.owned a).mpr (Or.inr leaked)
    rw [free] at mine
    cases mine
  · simp
  · intro b other
    rw [Finset.mem_insert, or_iff_right other]
  · intro t waits
    rw [free]
    constructor
    · intro same
      exact waiting_ne_me respected waits (Option.some.inj same)
    · exact Option.some_ne_none t |>.symm

theorem Holding.give {world : World} (respected : s.Respected) (holding : Holding s held world)
    (known : a < world.arenaCount) (owned : a ∈ held)
    (mine : (world.arena a).mutex = some s.env.me) :
    Holding s (held.erase a) (world.updateArena a fun arena => { arena with mutex := none }) := by
  apply holding.set_mutex respected known
  · exact holding.apart a owned
  · simp
  · intro b other
    rw [Finset.mem_erase, and_iff_right other]
  · intro t waits
    rw [mine]
    constructor
    · exact Option.some_ne_none t |>.symm
    · intro same
      exact waiting_ne_me respected waits (Option.some.inj same)

/-- What is carried along with the mutexes of the thread, by changes that leave the
initialisation and the reserve alone. -/
structure Carried (s : Setting) (P : Finset ArenaId → World → Prop) : Prop where
  holding : ∀ held world, P held world → Holding s held world
  change : ∀ held now world b change, P held world → Mild world b (change (world.arena b)) →
    (change (world.arena b)).metadataCacheCount = (world.arena b).metadataCacheCount →
    Holding s now (world.updateArena b change) → P now (world.updateArena b change)

def Setting.Waits (s : Setting) (site : Site) (P : Finset ArenaId → World → Prop) : Prop :=
  ∀ held world b clock, P held world → P held (s.env.others site b clock world)

theorem carried_holding : Carried s (Holding s) where
  holding := fun _ _ holding => holding
  change := fun _ _ _ _ _ _ _ _ holding => holding

theorem carried_near : Carried s fun held => Near s held a where
  holding := fun _ _ near => near.holding
  change := fun _ _ _ _ _ near _ _ holding => ⟨holding, near.known⟩

theorem carried_within : Carried s fun held => Within s held a stock where
  holding := fun _ _ within => within.holding
  change := by
    intro held now world b change within mild reserve holding
    refine ⟨holding, within.known, mild.since.top a within.known within.top, ?_⟩
    intro stocked
    by_cases same : a = b
    · subst same
      rw [update_arena_same, reserve]
      exact within.stock stocked
    · rw [update_arena_other _ same]
      exact within.stock stocked

theorem waits_holding (respected : s.Respected) : s.Waits site (Holding s) :=
  fun _ _ _ _ holding => holding.wait respected

theorem waits_near (respected : s.Respected) : s.Waits site fun held => Near s held a :=
  fun _ _ _ _ near => near.wait respected

theorem waits_within (respected : s.Respected) : s.Waits site fun held => Within s held a 0 :=
  fun _ _ _ _ within => within.wait respected fun _ => Nat.zero_le _

section Carried

variable {P : Finset ArenaId → World → Prop}

theorem mild_spec (respected : s.Respected) (carried : Carried s P) {change : Arena → Arena}
    (near : ∀ world, P held world → b < world.arenaCount)
    (mild : ∀ world, P held world → Mild world b (change (world.arena b)))
    (mutex : ∀ arena, (change arena).mutex = arena.mutex)
    (reserve : ∀ arena, (change arena).metadataCacheCount = arena.metadataCacheCount) :
    Spec s (P held) (modifyArena b change) (fun _ => P held) := by
  apply change_arena_spec
  intro world holds
  have holding := (carried.holding held world holds).update respected (near world holds)
    (mild world holds) (mutex _)
  exact carried.change held held world b change holds (mild world holds) (reserve _) holding

theorem wait_spec (waits : s.Waits site P) :
    Spec s (P held) (wait s.env site b) (fun _ => P held) := by
  intro state holds
  exact waits held state.world b state.clock holds

theorem acquire_spec (respected : s.Respected) (carried : Carried s P) (free : b ∉ held)
    (near : ∀ world, P held world → b < world.arenaCount) :
    Spec s (P held) (acquire s.env b) (fun _ => P (insert b held)) := by
  apply arena_then
  intro arena
  split
  next unlocked =>
    apply change_arena_spec
    intro world holds
    have known := near world holds.1
    have open' : (world.arena b).mutex = none := by rw [holds.2, unlocked]
    exact carried.change held _ world b _ holds.1 (mutex_mild world b _) rfl
      ((carried.holding held world holds.1).take respected known open')
  next owner locked =>
    apply meets_if
    · rintro rfl state holds
      have mine : (state.world.arena b).mutex = some s.env.me := by rw [holds.2, locked]
      exact (((carried.holding held state.world holds.1).owned b).mp mine).resolve_left free
    · intro _
      exact halt_spec trivial

theorem lock_spec (respected : s.Respected) (carried : Carried s P) (waits : s.Waits site P)
    (free : b ∉ held) (same : insert b held = now)
    (near : ∀ world, P held world → b < world.arenaCount) :
    Spec s (P held) (lockArena s.env site b) (fun _ => P now) := by
  subst same
  apply (wait_spec waits).bind
  intro _
  exact acquire_spec respected carried free near

theorem unlock_spec (respected : s.Respected) (carried : Carried s P)
    (mine : b ∈ held) (same : held.erase b = now)
    (near : ∀ world, P held world → b < world.arenaCount) :
    Spec s (P held) (unlockArena s.env b) (fun _ => P now) := by
  subst same
  apply arena_then
  intro arena
  apply meets_if
  · intro owned
    apply change_arena_spec
    intro world holds
    rw [← holds.2] at owned
    exact carried.change held _ world b _ holds.1 (mutex_mild world b _) rfl
      ((carried.holding held world holds.1).give respected (near world holds.1) mine owned)
  · intro foreign state holds
    have owned := ((carried.holding held state.world holds.1).owned b).mpr (Or.inl mine)
    rw [holds.2] at owned
    exact absurd owned foreign

end Carried

theorem main_known {world : World} (holding : Holding s held world) :
    mainArena < world.arenaCount :=
  holding.arranged.positive

/-- `Q count` is what is known while the reserve of the arena holds so many records. -/
structure Reserve (s : Setting) (a : ArenaId) (Q : Nat → World → Prop) : Prop where
  pool : ∀ count world, Q count world → (world.arena a).metadataPoolReady = true
  enough : ∀ count world, Q count world →
    s.stocked → count ≤ (world.arena a).metadataCacheCount
  relax : ∀ count less world, Q count world →
    (s.stocked → less ≤ (world.arena a).metadataCacheCount) → Q less world
  restock : ∀ count now world, Q count world →
    Q now (world.updateArena a fun arena => { arena with metadataCacheCount := now })
  record : ∀ count world p isMmapped, Q count world → (isMmapped = true → a = mainArena) →
    Q count (world.updateArena a fun arena =>
      { arena with record := Function.update arena.record p (some isMmapped) })

section Reserve

variable {Q : Nat → World → Prop}

theorem replenish_loop_spec (reserve : Reserve s a Q) (missing : Nat) :
    Spec s (Q stock) (replenishLoop s.env a missing)
      (fun ok => Q (if ok then metadataCacheSize else stock)) := by
  induction missing with
  | zero =>
      have filled : Spec s (Q stock)
          (modifyArena a fun arena => { arena with metadataCacheCount := metadataCacheSize })
          (fun _ => Q metadataCacheSize) := by
        apply change_arena_spec
        intro world holds
        exact reserve.restock stock metadataCacheSize world holds
      apply filled.bind
      intro _
      exact meets_pure fun _ holds => holds
  | succ missing ih =>
      apply ask_if
      · exact ih
      · exact meets_pure fun _ holds => holds

theorem replenish_spec (reserve : Reserve s a Q) :
    Spec s (Q stock) (replenishMetadataCache s.env a)
      (fun ok => Q (if ok then metadataCacheSize else stock)) := by
  apply arena_then
  intro arena
  apply meets_if
  · intro _
    apply meets_if
    · intro _
      exact (replenish_loop_spec reserve _).from_before fun _ holds => holds.1
    · intro enough
      apply meets_pure
      intro world holds
      apply reserve.relax stock metadataCacheSize world holds.1
      intro _
      rw [holds.2]
      exact Nat.le_of_not_lt enough
  · intro notReady state holds
    have pool := reserve.pool stock state.world holds.1
    rw [holds.2] at pool
    exact absurd pool notReady

/-- A record costs one of the reserve at most. -/
theorem new_chunkinfoptr_spec (reserve : Reserve s a Q) :
    Spec s (Q (stock + 1)) (newChunkinfoptr s.env a) (fun _ => Q stock) := by
  apply arena_then
  intro arena
  apply meets_if
  · intro empty state holds stocked
    have enough := reserve.enough _ _ holds.1 stocked
    rw [holds.2, empty] at enough
    omega
  · intro _
    have kept (world : World) (holds : Q (stock + 1) world) (stocked : s.stocked) :
        stock + 1 ≤ (world.arena a).metadataCacheCount := reserve.enough _ _ holds stocked
    apply ask_if
    · apply meets_pure
      intro world holds
      apply reserve.relax _ _ world holds.1
      intro stocked
      exact Nat.le_of_succ_le (kept world holds.1 stocked)
    · apply change_arena_spec
      intro world holds
      have spent := reserve.restock _ ((world.arena a).metadataCacheCount - 1) world holds.1
      apply reserve.relax _ _ _ spent
      intro stocked
      rw [update_arena_same]
      exact Nat.le_sub_one_of_lt (kept world holds.1 stocked)

/-- Only `main_arena` gets records of mapped chunks. -/
theorem register_chunk_spec (reserve : Reserve s a Q) {isMmapped : Bool} (p : Chunk)
    (owner : isMmapped = true → a = mainArena) :
    Spec s (Q (stock + 1)) (registerChunk s.env a p isMmapped) (fun _ => Q stock) := by
  apply (new_chunkinfoptr_spec reserve).bind
  intro _
  apply ask_if
  · apply change_arena_spec
    intro world holds
    exact reserve.record stock world p isMmapped holds owner
  · exact halt_spec trivial

theorem register_new_spec (reserve : Reserve s a Q) :
    Spec s (Q (stock + 1)) (registerNew s.env a) (fun _ => Q stock) := by
  apply number_then
  intro p
  have registered : Spec s (Q (stock + 1)) (registerChunk s.env a p false) (fun _ => Q stock) :=
    register_chunk_spec reserve p Bool.noConfusion
  apply registered.bind
  intro _
  exact meets_pure fun _ holds => holds

end Reserve

theorem stock_mild {world : World} (pool : (world.arena a).metadataPoolReady = true) (count : Nat) :
    Mild world a { world.arena a with metadataCacheCount := count } := by
  refine ⟨rfl, rfl, rfl, rfl, fun _ _ mapped => mapped, ?_, Or.inl⟩
  intro unused
  rw [unused.pool] at pool
  cases pool

theorem record_mild {world : World} {p : Chunk} {record : Option Bool}
    (unmapped : a ≠ mainArena → record ≠ some true)
    (unused : (world.arena a).metadataPoolReady = false → record = none) :
    Mild world a
      { world.arena a with record := Function.update (world.arena a).record p record } := by
  refine ⟨rfl, rfl, rfl, rfl, ?_, ?_, Or.inl⟩
  · intro other q mapped
    dsimp only at mapped
    by_cases same : q = p
    · subst same
      rw [Function.update_self] at mapped
      exact absurd mapped (unmapped other)
    · rw [Function.update_of_ne same] at mapped
      exact mapped
  · intro fresh
    refine ⟨fresh.1, fresh.2, fresh.3, fresh.4, fresh.5, ?_, fresh.7, fresh.8⟩
    intro q
    rw [unused fresh.pool]
    by_cases same : q = p
    · subst same
      exact Function.update_self q _ _
    · exact (Function.update_of_ne same _ _).trans (fresh.record q)

theorem register_mild {world : World} {p : Chunk} {isMmapped : Bool}
    (pool : (world.arena a).metadataPoolReady = true)
    (owner : isMmapped = true → a = mainArena) :
    Mild world a { world.arena a with
      record := Function.update (world.arena a).record p (some isMmapped) } := by
  apply record_mild
  · intro other mapped
    exact other (owner (Option.some.inj mapped))
  · intro notReady
    rw [pool] at notReady
    cases notReady

theorem Near.ready_or {world : World} (near : Near s held a world) :
    (world.arena a).Ready ∨ a = mainArena ∧ Dormant world := by
  by_cases main : a = mainArena
  · subst main
    exact near.holding.arranged.main.imp id fun dormant => ⟨rfl, dormant⟩
  · exact Or.inl (near.holding.arranged.later a near.known main)

theorem Near.ready_of_top {world : World} (near : Near s held a world)
    (top : (world.arena a).mdTop = true) : (world.arena a).Ready := by
  apply near.ready_or.resolve_right
  intro dormant
  rw [dormant.1, dormant.2.unused.mdTop] at top
  cases top

theorem Near.ready_of_pool {world : World} (near : Near s held a world)
    (pool : (world.arena a).metadataPoolReady = true) : (world.arena a).Ready := by
  apply near.ready_or.resolve_right
  intro dormant
  rw [dormant.1, dormant.2.unused.pool] at pool
  cases pool

theorem Within.pool {world : World} (within : Within s held a stock world) :
    (world.arena a).metadataPoolReady = true :=
  (within.near.ready_of_top within.top).pool

theorem Within.update {world : World} {now : Nat} {change : Arena → Arena}
    (respected : s.Respected) (within : Within s held a stock world)
    (mild : Mild world a (change (world.arena a)))
    (mutex : (change (world.arena a)).mutex = (world.arena a).mutex)
    (enough : s.stocked → now ≤ (change (world.arena a)).metadataCacheCount) :
    Within s held a now (world.updateArena a change) := by
  refine ⟨within.holding.update respected within.known mild mutex, within.known, ?_, ?_⟩
  · exact mild.since.top a within.known within.top
  · rw [update_arena_same]
    exact enough

theorem within_reserve (respected : s.Respected) : Reserve s a (Within s held a) where
  pool := fun _ _ within => within.pool
  enough := fun _ _ within => within.stock
  relax := fun _ _ _ within enough => ⟨within.holding, within.known, within.top, enough⟩
  restock := by
    intro count now world within
    apply within.update respected (stock_mild within.pool now) rfl
    exact fun _ => Nat.le_refl now
  record := by
    intro count world p isMmapped within owner
    exact within.update respected (register_mild within.pool owner) rfl within.stock

section Carried

variable {P : Finset ArenaId → World → Prop}

theorem unregister_chunk_spec (respected : s.Respected) (carried : Carried s P) (p : Chunk)
    (near : ∀ world, P held world → a < world.arenaCount) :
    Spec s (P held) (unregisterChunk a p) (fun _ => P held) := by
  apply mild_spec respected carried near
  · intro world _
    apply record_mild
    · intro _
      exact (Option.some_ne_none true).symm
    · intro _
      rfl
  · intro arena
    rfl
  · intro arena
    rfl

theorem unregister_some_spec (respected : s.Respected) (carried : Carried s P)
    (near : ∀ world, P held world → a < world.arenaCount) :
    Spec s (P held) (unregisterSome s.env a) (fun _ => P held) := by
  apply number_then
  intro p
  exact unregister_chunk_spec respected carried p near

theorem unregister_each_spec (respected : s.Respected) (carried : Carried s P)
    (near : ∀ world, P held world → a < world.arenaCount) (count : Nat) :
    Spec s (P held) (unregisterEach s.env a count) (fun _ => P held) := by
  induction count with
  | zero => exact meets_pure fun _ holds => holds
  | succ count ih =>
      apply (unregister_some_spec respected carried near).bind
      intro _
      exact ih

theorem malloc_printerr_spec (respected : s.Respected) (carried : Carried s P)
    (near : ∀ world, P held world → a < world.arenaCount)
    (top : ∀ world, P held world → (world.arena a).mdTop = true) :
    Spec s (P held) (mallocPrinterr s.env (some a)) (fun _ => P held) := by
  have marked : Spec s (P held) (markCorrupt (some a)) (fun _ => P held) := by
    apply mild_spec respected carried near
    · intro world holds
      refine ⟨rfl, rfl, rfl, rfl, fun _ _ mapped => mapped, ?_, Or.inl⟩
      intro unused
      have topped := top world holds
      rw [unused.mdTop] at topped
      cases topped
    · intro arena
      rfl
    · intro arena
      rfl
  apply marked.bind
  intro _
  apply ask_if
  · exact halt_spec trivial
  · exact meets_pure fun _ holds => holds

end Carried

theorem munmap_chunk_spec : Spec s before (munmapChunk s.env) (fun _ => before) := by
  apply ask_if
  · have unmarked : Spec s before (markCorrupt none) (fun _ => before) :=
      meets_pure fun _ holds => holds
    apply unmarked.bind
    intro _
    apply ask_if
    · exact halt_spec trivial
    · exact meets_pure fun _ holds => holds
  · exact meets_pure fun _ holds => holds

theorem read_null_spec : Spec s before (readNull s.env) (fun _ => before) := by
  apply ask_if
  · exact meets_pure fun _ holds => holds
  · exact halt_spec trivial

theorem read_unless_spec (known : Bool) :
    Spec s before (readUnless s.env known) (fun _ => before) := by
  apply meets_if
  · intro _
    exact meets_pure fun _ holds => holds
  · intro _
    exact read_null_spec

theorem require_top_spec : Spec s before (requireTop a)
    (fun _ world => before world ∧ (world.arena a).mdTop = true) := by
  apply arena_then
  intro arena
  apply meets_if
  · intro top
    apply meets_pure
    intro world holds
    rw [holds.2]
    exact ⟨holds.1, top⟩
  · intro _
    exact halt_spec trivial

end SriGlibcMalloc.EntryPoints
