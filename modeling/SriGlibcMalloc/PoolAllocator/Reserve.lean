import SriGlibcMalloc.PoolAllocator.SlotRun

/-!
# The metadata reserve of an arena

An arena keeps up to eight metadata records in `metadata_cache` for the time when
the pools have none. The reserve is modelled over any source of records; the pools
of `memcxt.c` are one. The assertions are not compiled in.
-/

namespace SriGlibcMalloc.MetadataReserve

open Transition

set_option autoImplicit false

/-- A source of records. What it has given out and not got back is live, and it never
gives out what is live. -/
structure Supply (Pool : Type) where
  allocate : Pool → Option Nat × Pool
  giveBack : Pool → Nat → Pool
  live : Pool → Finset Nat
  sound : Pool → Prop
  served : ∀ pool slot next, sound pool → allocate pool = (some slot, next) →
    slot ∉ live pool ∧ live next = insert slot (live pool) ∧ sound next
  refused : ∀ pool next, sound pool → allocate pool = (none, next) →
    live next = live pool ∧ sound next
  freed : ∀ pool slot, sound pool → slot ∈ live pool →
    live (giveBack pool slot) = (live pool).erase slot ∧ sound (giveBack pool slot)

variable {Pool : Type}

/-- The answer to the allocation that follows `index` others. -/
def Supply.answer (supply : Supply Pool) : Pool → Nat → Option Nat
  | pool, 0 => (supply.allocate pool).1
  | pool, index + 1 => supply.answer (supply.allocate pool).2 index

def metadataCacheSize : Nat := 8

/-- The fields of `struct malloc_state` that the reserve is made of. -/
structure Mstate (Pool : Type) where
  pool : Pool
  metadataPoolReady : Bool
  metadataCache : Nat → Option Nat
  metadataCacheCount : Nat

/-- The loop of `replenish_metadata_cache` over `missing` entries from `index` on. -/
def refill (supply : Supply Pool) : Nat → Nat → Mstate Pool → Bool × Mstate Pool
  | _, 0, av => (true, av)
  | index, missing + 1, av =>
      match supply.allocate av.pool with
      | (some record, pool) =>
          refill supply (index + 1) missing { av with
            pool := pool
            metadataCache := Function.update av.metadataCache index (some record) }
      | (none, pool) => (false, { av with pool := pool })

def replenishMetadataCache (supply : Supply Pool) (av : Mstate Pool) : Bool × Mstate Pool :=
  if av.metadataPoolReady = false then (true, av)
  else if av.metadataCacheCount < metadataCacheSize then
    match refill supply av.metadataCacheCount (metadataCacheSize - av.metadataCacheCount) av with
    | (true, next) => (true, { next with metadataCacheCount := metadataCacheSize })
    | (false, next) => (false, next)
  else (true, av)

/-- There is no result when the reserve is empty and the process aborts. -/
def newChunkinfoptr (supply : Supply Pool) (av : Mstate Pool) :
    Option (Option Nat × Mstate Pool) :=
  if av.metadataCacheCount = 0 then none
  else
    match supply.allocate av.pool with
    | (some record, pool) => some (some record, { av with pool := pool })
    | (none, pool) =>
        let count := av.metadataCacheCount - 1
        some (av.metadataCache count, { av with
          pool := pool
          metadataCache := Function.update av.metadataCache count none
          metadataCacheCount := count })

structure Client (Pool : Type) where
  av : Mstate Pool
  handed : List Nat

inductive Action
  | replenish
  | newChunkinfoptr
  | giveBack (record : Nat)
  deriving DecidableEq, Repr

/-- A caller gives back only what it holds. -/
def step (supply : Supply Pool) (client : Client Pool) : Action → Option (Client Pool)
  | .replenish => some { client with av := (replenishMetadataCache supply client.av).2 }
  | .newChunkinfoptr =>
      (newChunkinfoptr supply client.av).map fun (record, av) =>
        ⟨av, record.toList ++ client.handed⟩
  | .giveBack record =>
      if record ∈ client.handed then
        some ⟨{ client.av with pool := supply.giveBack client.av.pool record },
          client.handed.erase record⟩
      else none

/-- An arena without records in its reserve, before or after its pools are ready. -/
def start (pool : Pool) (ready : Bool) : Client Pool := ⟨⟨pool, ready, fun _ => none, 0⟩, []⟩

/-- Each record that is taken from the source is in one of the entries below `bound`
or with one caller, once. -/
structure Accounted (supply : Supply Pool) (pool : Pool) (cache : Nat → Option Nat) (bound : Nat)
    (handed : List Nat) : Prop where
  sound : supply.sound pool
  filled : ∀ index < bound, cache index ≠ none
  distinct : ∀ index < bound, ∀ other < bound, cache index = cache other → index = other
  apart : ∀ index < bound, ∀ record ∈ cache index, record ∉ handed
  once : handed.Nodup
  taken : ∀ record, record ∈ supply.live pool ↔
    (∃ index < bound, cache index = some record) ∨ record ∈ handed

structure WellFormed (supply : Supply Pool) (client : Client Pool) : Prop where
  bounded : client.av.metadataCacheCount ≤ metadataCacheSize
  accounted : Accounted supply client.av.pool client.av.metadataCache
    client.av.metadataCacheCount client.handed
  empty : ∀ index, client.av.metadataCacheCount ≤ index → index < metadataCacheSize →
    client.av.metadataCache index = none

variable {supply : Supply Pool} {pool next : Pool} {cache : Nat → Option Nat} {bound : Nat}
variable {handed : List Nat} {record : Nat}

theorem Accounted.fresh (accounted : Accounted supply pool cache bound handed)
    (served : record ∉ supply.live pool) :
    (∀ index < bound, cache index ≠ some record) ∧ record ∉ handed := by
  rw [accounted.taken, not_or] at served
  constructor
  · intro index below same
    exact served.1 ⟨index, below, same⟩
  · exact served.2

theorem Accounted.store (accounted : Accounted supply pool cache bound handed)
    (served : supply.allocate pool = (some record, next)) :
    Accounted supply next (Function.update cache bound (some record)) (bound + 1) handed := by
  have given := supply.served pool record next accounted.sound served
  have fresh := accounted.fresh given.1
  have lower : ∀ index < bound, Function.update cache bound (some record) index = cache index :=
    fun index below => Function.update_of_ne (Nat.ne_of_lt below) _ _
  have last : Function.update cache bound (some record) bound = some record :=
    Function.update_self bound _ cache
  constructor
  · exact given.2.2
  · intro index below
    cases Nat.lt_succ_iff_lt_or_eq.mp below with
    | inl below => rw [lower index below]; exact accounted.filled index below
    | inr same => rw [same, last]; exact Option.some_ne_none record
  · intro index below other within same
    cases Nat.lt_succ_iff_lt_or_eq.mp below with
    | inl below =>
        cases Nat.lt_succ_iff_lt_or_eq.mp within with
        | inl within =>
            rw [lower index below, lower other within] at same
            exact accounted.distinct index below other within same
        | inr equal =>
            rw [lower index below, equal, last] at same
            exact absurd same (fresh.1 index below)
    | inr equal =>
        cases Nat.lt_succ_iff_lt_or_eq.mp within with
        | inl within =>
            rw [equal, last, lower other within] at same
            exact absurd same.symm (fresh.1 other within)
        | inr last => rw [equal, last]
  · intro index below stored member
    cases Nat.lt_succ_iff_lt_or_eq.mp below with
    | inl below =>
        rw [lower index below] at member
        exact accounted.apart index below stored member
    | inr same =>
        rw [same, last, Option.mem_some_iff] at member
        rw [← member]
        exact fresh.2
  · exact accounted.once
  · intro other
    rw [given.2.1, Finset.mem_insert, accounted.taken]
    constructor
    · rintro (same | stored | held)
      · exact Or.inl ⟨bound, Nat.lt_succ_self bound, by rw [last, same]⟩
      · cases stored with
        | intro index found =>
            exact Or.inl ⟨index, Nat.lt_succ_of_lt found.1, (lower index found.1).trans found.2⟩
      · exact Or.inr held
    · rintro (stored | held)
      · cases stored with
        | intro index found =>
            cases Nat.lt_succ_iff_lt_or_eq.mp found.1 with
            | inl below =>
                exact Or.inr (Or.inl ⟨index, below, (lower index below).symm.trans found.2⟩)
            | inr same =>
                have equal := found.2
                rw [same, last] at equal
                exact Or.inl (Option.some.inj equal).symm
      · exact Or.inr (Or.inr held)

theorem Accounted.hand (accounted : Accounted supply pool cache bound handed)
    (served : supply.allocate pool = (some record, next)) :
    Accounted supply next cache bound (record :: handed) := by
  have given := supply.served pool record next accounted.sound served
  have fresh := accounted.fresh given.1
  refine ⟨given.2.2, accounted.filled, accounted.distinct, ?_, ?_, ?_⟩
  · intro index below stored member
    rw [List.mem_cons, not_or]
    refine ⟨?_, accounted.apart index below stored member⟩
    intro same
    rw [same] at member
    exact fresh.1 index below member
  · exact List.nodup_cons.mpr ⟨fresh.2, accounted.once⟩
  · intro other
    rw [given.2.1, Finset.mem_insert, accounted.taken, List.mem_cons, or_left_comm]

theorem Accounted.refuse (accounted : Accounted supply pool cache bound handed)
    (refused : supply.allocate pool = (none, next)) :
    Accounted supply next cache bound handed := by
  have kept := supply.refused pool next accounted.sound refused
  refine ⟨kept.2, accounted.filled, accounted.distinct, accounted.apart, accounted.once, ?_⟩
  intro other
  rw [kept.1]
  exact accounted.taken other

theorem Accounted.spend (accounted : Accounted supply pool cache (bound + 1) handed)
    (last : cache bound = some record) :
    Accounted supply pool (Function.update cache bound none) bound (record :: handed) := by
  have lower : ∀ index < bound, Function.update cache bound none index = cache index :=
    fun index below => Function.update_of_ne (Nat.ne_of_lt below) _ _
  constructor
  · exact accounted.sound
  · intro index below
    rw [lower index below]
    exact accounted.filled index (Nat.lt_succ_of_lt below)
  · intro index below other within same
    rw [lower index below, lower other within] at same
    exact accounted.distinct index (Nat.lt_succ_of_lt below) other (Nat.lt_succ_of_lt within) same
  · intro index below stored member
    rw [lower index below] at member
    rw [List.mem_cons, not_or]
    refine ⟨?_, accounted.apart index (Nat.lt_succ_of_lt below) stored member⟩
    intro same
    rw [same] at member
    have equal := accounted.distinct index (Nat.lt_succ_of_lt below) bound (Nat.lt_succ_self bound)
      (member.trans last.symm)
    exact Nat.ne_of_lt below equal
  · exact List.nodup_cons.mpr
      ⟨accounted.apart bound (Nat.lt_succ_self bound) record last, accounted.once⟩
  · intro other
    rw [accounted.taken, List.mem_cons]
    constructor
    · rintro (stored | held)
      · cases stored with
        | intro index found =>
            cases Nat.lt_succ_iff_lt_or_eq.mp found.1 with
            | inl below => exact Or.inl ⟨index, below, (lower index below).trans found.2⟩
            | inr same =>
                have equal := found.2
                rw [same, last] at equal
                exact Or.inr (Or.inl (Option.some.inj equal).symm)
      · exact Or.inr (Or.inr held)
    · rintro (stored | same | held)
      · cases stored with
        | intro index found =>
            exact Or.inl ⟨index, Nat.lt_succ_of_lt found.1,
              (lower index found.1).symm.trans found.2⟩
      · exact Or.inl ⟨bound, Nat.lt_succ_self bound, last.trans (congrArg some same.symm)⟩
      · exact Or.inr held

theorem Accounted.release (accounted : Accounted supply pool cache bound handed)
    (held : record ∈ handed) :
    Accounted supply (supply.giveBack pool record) cache bound (handed.erase record) := by
  have live : record ∈ supply.live pool := (accounted.taken record).mpr (Or.inr held)
  have freed := supply.freed pool record accounted.sound live
  refine ⟨freed.2, accounted.filled, accounted.distinct, ?_, accounted.once.erase record, ?_⟩
  · intro index below stored member erased
    exact accounted.apart index below stored member (List.mem_of_mem_erase erased)
  · intro other
    rw [freed.1, Finset.mem_erase, accounted.taken, accounted.once.mem_erase_iff, and_or_left]
    apply or_congr_left
    constructor
    · exact And.right
    · intro stored
      refine ⟨?_, stored⟩
      intro same
      cases stored with
      | intro index found =>
          rw [same] at found
          exact accounted.apart index found.1 record found.2 held

variable {av after : Mstate Pool} {index missing : Nat}

theorem refill_spec
    (accounted : Accounted supply av.pool av.metadataCache index handed)
    (filled : refill supply index missing av = (true, after)) :
    Accounted supply after.pool after.metadataCache (index + missing) handed := by
  induction missing generalizing index av with
  | zero =>
      rw [refill, Prod.mk.injEq] at filled
      rw [← filled.2]
      exact accounted
  | succ missing ih =>
      rw [refill] at filled
      cases asked : supply.allocate av.pool with | mk answer pool
      rw [asked] at filled
      cases answer with
      | none => exact absurd (congrArg Prod.fst filled) Bool.false_ne_true
      | some record =>
          have stored := ih (accounted.store asked) filled
          rw [Nat.add_right_comm] at stored
          exact stored

theorem refill_filled
    (answered : ∀ later < missing, supply.answer av.pool later ≠ none) :
    (refill supply index missing av).1 = true := by
  induction missing generalizing index av with
  | zero => rfl
  | succ missing ih =>
      rw [refill]
      cases asked : supply.allocate av.pool with | mk answer pool
      have first : answer ≠ none := by
        have served := answered 0 (Nat.succ_pos missing)
        rw [Supply.answer, asked] at served
        exact served
      cases answer with
      | none => exact absurd rfl first
      | some record =>
          apply ih
          intro later below
          have served := answered (later + 1) (Nat.succ_lt_succ below)
          rw [Supply.answer, asked] at served
          exact served

/-- In the refill no allocation fails after the first has succeeded. -/
def Steady (supply : Supply Pool) (client : Client Pool) : Action → Prop
  | .replenish => client.av.metadataPoolReady = true →
      ∀ later, client.av.metadataCacheCount + later < metadataCacheSize →
        supply.answer client.av.pool later = none → supply.answer client.av.pool 0 = none
  | _ => True

instance steadyDecidable (supply : Supply Pool) (client : Client Pool) :
    ∀ action, Decidable (Steady supply client action)
  | .replenish =>
      decidable_of_iff (client.av.metadataPoolReady = true →
          ∀ later < metadataCacheSize - client.av.metadataCacheCount,
            supply.answer client.av.pool later = none → supply.answer client.av.pool 0 = none)
        (imp_congr_right fun _ => forall_congr' fun _ => imp_congr_left Nat.lt_sub_iff_add_lt')
  | .newChunkinfoptr => inferInstanceAs (Decidable True)
  | .giveBack _ => inferInstanceAs (Decidable True)

variable {client final : Client Pool}

theorem replenish_well_formed (formed : WellFormed supply client)
    (steady : Steady supply client .replenish) :
    WellFormed supply { client with av := (replenishMetadataCache supply client.av).2 } := by
  unfold replenishMetadataCache
  by_cases ready : client.av.metadataPoolReady = false
  · rw [if_pos ready]
    exact formed
  rw [if_neg ready]
  by_cases short : client.av.metadataCacheCount < metadataCacheSize
  · rw [if_pos short]
    have steady := steady (Bool.eq_true_of_not_eq_false ready)
    have gap : metadataCacheSize - client.av.metadataCacheCount =
        (metadataCacheSize - client.av.metadataCacheCount - 1) + 1 := by omega
    cases refilled : refill supply client.av.metadataCacheCount
        (metadataCacheSize - client.av.metadataCacheCount) client.av with | mk filled after
    cases filled with
    | true =>
        have accounted := refill_spec formed.accounted refilled
        rw [Nat.add_sub_cancel' (Nat.le_of_lt short)] at accounted
        refine ⟨Nat.le_refl _, accounted, ?_⟩
        intro index above below
        exact absurd below (Nat.not_lt.mpr above)
    | false =>
        have refused : supply.answer client.av.pool 0 = none := by
          by_contra served
          have answered : (refill supply client.av.metadataCacheCount
              (metadataCacheSize - client.av.metadataCacheCount) client.av).1 = true := by
            apply refill_filled
            intro later below missed
            exact served (steady later (by omega) missed)
          rw [refilled] at answered
          exact absurd answered Bool.false_ne_true
        rw [gap, refill] at refilled
        cases asked : supply.allocate client.av.pool with | mk answer pool
        rw [Supply.answer, asked] at refused
        cases refused
        rw [asked, Prod.mk.injEq] at refilled
        rw [← refilled.2]
        exact ⟨formed.bounded, formed.accounted.refuse asked, formed.empty⟩
  · rw [if_neg short]
    exact formed

theorem cleared_entry {count : Nat}
    (empty : ∀ index, count + 1 ≤ index → index < metadataCacheSize → cache index = none) :
    ∀ index, count ≤ index → index < metadataCacheSize →
      Function.update cache count none index = none := by
  intro index above below
  cases Nat.eq_or_lt_of_le above with
  | inl same => rw [← same, Function.update_self]
  | inr higher =>
      rw [Function.update_of_ne (Nat.ne_of_gt higher)]
      exact empty index higher below

theorem new_chunkinfoptr_well_formed {answer : Option Nat} (formed : WellFormed supply client)
    (returned : newChunkinfoptr supply client.av = some (answer, after)) :
    WellFormed supply ⟨after, answer.toList ++ client.handed⟩ := by
  unfold newChunkinfoptr at returned
  by_cases dry : client.av.metadataCacheCount = 0
  · rw [if_pos dry] at returned
    cases returned
  rw [if_neg dry] at returned
  cases asked : supply.allocate client.av.pool with | mk served pool
  rw [asked] at returned
  cases served with
  | some record =>
      cases returned
      exact ⟨formed.bounded, formed.accounted.hand asked, formed.empty⟩
  | none =>
      cases counted : client.av.metadataCacheCount with
      | zero => exact absurd counted dry
      | succ count =>
          have bounded := formed.bounded
          have accounted := formed.accounted.refuse asked
          rw [counted] at bounded accounted
          rw [counted, Nat.add_sub_cancel] at returned
          cases kept : client.av.metadataCache count with
          | none => exact absurd kept (accounted.filled count (Nat.lt_succ_self count))
          | some record =>
              cases returned
              rw [kept]
              refine ⟨Nat.le_of_succ_le bounded, accounted.spend kept, ?_⟩
              apply cleared_entry
              intro index above
              exact formed.empty index (counted.trans_le above)

theorem step_well_formed (client : Client Pool) (action : Action) (next : Client Pool)
    (formed : WellFormed supply client) (steady : Steady supply client action)
    (stepped : step supply client action = some next) : WellFormed supply next := by
  cases action with
  | replenish =>
      cases stepped
      exact replenish_well_formed formed steady
  | newChunkinfoptr =>
      obtain ⟨⟨answer, after⟩, returned, same⟩ := Option.map_eq_some_iff.mp stepped
      rw [← same]
      exact new_chunkinfoptr_well_formed formed returned
  | giveBack record =>
      obtain ⟨held, same⟩ := Option.ite_none_right_eq_some.mp stepped
      cases same
      exact ⟨formed.bounded, formed.accounted.release held, formed.empty⟩

theorem start_well_formed (ready : Bool) (sound : supply.sound pool)
    (unused : supply.live pool = ∅) : WellFormed supply (start pool ready) where
  bounded := Nat.zero_le _
  accounted := {
    sound := sound
    filled := fun index below => absurd below (Nat.not_lt_zero index)
    distinct := fun index below => absurd below (Nat.not_lt_zero index)
    apart := fun index below => absurd below (Nat.not_lt_zero index)
    once := List.nodup_nil
    taken := by
      intro record
      rw [show supply.live (start pool ready).av.pool = ∅ from unused]
      simp [start] }
  empty := fun _ _ _ => rfl

/-- In every run whose refills are steady the reserve is well formed and no record is
lost or handed out twice. -/
theorem reserve_well_formed (supply : Supply Pool) (pool : Pool) (ready : Bool)
    (actions : List Action) (final : Client Pool) (sound : supply.sound pool)
    (unused : supply.live pool = ∅)
    (permitted : Permitted (step supply) (Steady supply) (start pool ready) actions)
    (ran : run (step supply) (start pool ready) actions = some final) :
    WellFormed supply final :=
  run_invariant step_well_formed actions _ final (start_well_formed ready sound unused)
    permitted ran

/-- The answers to come and what is live; a live record is not given out again. -/
abbrev Script := List (Option Nat) × Finset Nat

def scripted : Supply Script where
  allocate
    | (some record :: later, live) =>
        if record ∈ live then (none, later, live) else (some record, later, insert record live)
    | (none :: later, live) => (none, later, live)
    | ([], live) => (none, [], live)
  giveBack script record := (script.1, script.2.erase record)
  live := Prod.snd
  sound := fun _ => True
  served := by
    rintro ⟨_ | ⟨_ | first, later⟩, live⟩ record next _ served
    · cases served
    · cases served
    · by_cases used : first ∈ live
      · simp [used] at served
      · simp only [used, if_false, Prod.mk.injEq, Option.some.injEq] at served
        rw [← served.1, ← served.2]
        exact ⟨used, rfl, trivial⟩
  refused := by
    rintro ⟨_ | ⟨_ | first, later⟩, live⟩ next _ refused
    · cases refused
      exact ⟨rfl, trivial⟩
    · cases refused
      exact ⟨rfl, trivial⟩
    · by_cases used : first ∈ live
      · simp only [used, if_true, Prod.mk.injEq] at refused
        rw [← refused.2]
        exact ⟨rfl, trivial⟩
      · simp [used] at refused
  freed := fun _ _ _ _ => ⟨rfl, trivial⟩

def eightRecords : List (Option Nat) := (List.range 8).map some

/-- Records are taken from the source and from the reserve, one is given back and taken again by
the second refill, and the last refill is refused. -/
def refillActions : List Action :=
  [.replenish, .newChunkinfoptr, .newChunkinfoptr, .newChunkinfoptr, .giveBack 7, .replenish,
    .newChunkinfoptr, .replenish]

def refillAnswers : List (Option Nat) :=
  eightRecords ++ [some 8, none, none, some 9, some 7, none, none]

theorem refilled_reserve_well_formed : ∃ final,
    run (step scripted) (start (refillAnswers, ∅) true) refillActions = some final ∧
      WellFormed scripted final := by
  have runs : (run (step scripted) (start (refillAnswers, ∅) true) refillActions).isSome = true := by
    decide
  obtain ⟨final, ran⟩ := Option.isSome_iff_exists.mp runs
  exact ⟨final, ran, reserve_well_formed scripted (refillAnswers, ∅) true refillActions final trivial
    rfl (by decide) ran⟩

/-- Two records are spent while the source is dry. Of the next refill one allocation
succeeds and one fails; the refill after that overwrites the record. -/
def exhaustion : List (Option Nat) :=
  eightRecords ++ [none, none, some 8, none, some 9, some 10]

theorem partial_refill_loses_record :
    ¬∀ (pool : Script) (ready : Bool) (actions : List Action) (final : Client Script),
      scripted.sound pool → scripted.live pool = ∅ →
      run (step scripted) (start pool ready) actions = some final →
      WellFormed scripted final := by
  intro claimed
  have formed := claimed (exhaustion, ∅) true
    [.replenish, .newChunkinfoptr, .newChunkinfoptr, .replenish, .replenish] _ trivial rfl rfl
  have accounted := (formed.accounted.taken 8).mp (by decide)
  revert accounted
  decide

section Pools

open PoolAllocator

/-- What `sri_mmap` grants of a wish; an area that is in use is not granted. -/
def granted (memcxt : Memcxt) (wish : Option Nat) : Option Nat :=
  if Fresh memcxt bucketKind wish then wish else none

theorem granted_fresh (memcxt : Memcxt) (wish : Option Nat) :
    Fresh memcxt bucketKind (granted memcxt wish) := by
  unfold granted
  by_cases fresh : Fresh memcxt bucketKind wish
  · rw [if_pos fresh]
    exact fresh
  · rw [if_neg fresh]
    intro base impossible
    cases impossible

/-- The pools, what is live of them, and the areas that `sri_mmap` is asked for later. -/
abbrev Backed := PoolAllocator.Client × List (Option Nat)

def allocateFromPools (state : Backed) : Option Nat × Backed :=
  let client := state.1
  let (slot, memcxt) :=
    allocBucket client.memcxt (granted client.memcxt (state.2.headD none))
  (slot, { client with memcxt := memcxt, liveBuckets := hold client.liveBuckets slot },
    state.2.tail)

theorem allocate_from_pools_spec {state later : Backed} {answer : Option Nat}
    (consistent : Consistent state.1) (allocated : allocateFromPools state = (answer, later)) :
    later.1.liveBuckets = hold state.1.liveBuckets answer ∧ Consistent later.1 ∧
      ∀ slot, answer = some slot → slot ∉ state.1.liveBuckets := by
  cases served : allocBucket state.1.memcxt
      (granted state.1.memcxt (state.2.headD none)) with | mk slot memcxt
  have fresh := granted_fresh state.1.memcxt (state.2.headD none)
  have kept := alloc_bucket_consistent consistent fresh served
  simp only [allocateFromPools, served, Prod.mk.injEq] at allocated
  rw [← allocated.1, ← allocated.2]
  refine ⟨rfl, kept, ?_⟩
  intro slot answered
  have allocated : alloc bucketKind state.1.memcxt.buckets
      (granted state.1.memcxt (state.2.headD none)) = (some slot, memcxt.buckets) := by
    unfold allocBucket at served
    cases served
    exact Prod.ext answered rfl
  have spec := alloc_spec consistent.buckets (fun base given => (fresh base given).2) allocated
  exact (spec.2.1 slot rfl).1

/-- The pools of `memcxt.c` are a source of records. -/
def pools : Supply Backed where
  allocate := allocateFromPools
  giveBack state slot :=
    ({ state.1 with
      memcxt := (freeBucket state.1.memcxt slot).getD state.1.memcxt
      liveBuckets := state.1.liveBuckets.erase slot }, state.2)
  live state := state.1.liveBuckets
  sound state := Consistent state.1
  served := by
    intro state slot next consistent served
    have spec := allocate_from_pools_spec consistent served
    exact ⟨spec.2.2 slot rfl, spec.1, spec.2.1⟩
  refused := by
    intro state next consistent refused
    have spec := allocate_from_pools_spec consistent refused
    exact ⟨spec.1, spec.2.1⟩
  freed := by
    intro state slot consistent live
    obtain ⟨after, freed, _, kept⟩ := free_bucket_spec consistent live
    rw [freed]
    exact ⟨rfl, kept⟩

/-- The reserve of an arena whose records come from the pools. -/
theorem pooled_reserve_well_formed (memory : Nat → Nat) (segments buckets : Option Nat)
    (areas : List (Option Nat)) (ready : Bool) (actions : List Action)
    (final : MetadataReserve.Client Backed)
    (apart : ∀ segment ∈ segments, ∀ bucket ∈ buckets,
      Separate segment segmentKind.poolBytes bucket bucketKind.poolBytes)
    (permitted : Permitted (step pools) (Steady pools)
      (start (PoolAllocator.start memory segments buckets, areas) ready) actions)
    (ran : run (step pools)
      (start (PoolAllocator.start memory segments buckets, areas) ready) actions = some final) :
    WellFormed pools final := by
  have sound : pools.sound (PoolAllocator.start memory segments buckets, areas) :=
    start_consistent memory segments buckets apart
  exact run_invariant step_well_formed actions _ final (start_well_formed ready sound rfl)
    permitted ran

end Pools

end SriGlibcMalloc.MetadataReserve
