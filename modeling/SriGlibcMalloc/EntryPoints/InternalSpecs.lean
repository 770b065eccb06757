import SriGlibcMalloc.EntryPoints.Initialised

/-!
# What the internal routines keep

The mutexes of the thread before and after each routine, and the records that a
routine may take from the reserve of its arena.
-/

namespace SriGlibcMalloc.EntryPoints

open Outcome

set_option autoImplicit false

variable {s : Setting} {held : Finset ArenaId} {a b : ArenaId} {stock : Nat}
variable {av : Option ArenaId} {site : Site} {haveLock : Bool}

/-- The mutexes of a thread that is called with or without the lock of the arena. -/
def heldIf (haveLock : Bool) (a : ArenaId) : Finset ArenaId :=
  if haveLock then {a} else ∅

/-! ## Freeing -/

theorem unlock_own_spec (respected : s.Respected) :
    Spec s (Within s {a} a stock) (unlockArena s.env a) (fun _ => Within s ∅ a stock) := by
  apply unlock_spec respected carried_within (Finset.mem_singleton_self a)
  · exact Finset.erase_singleton a
  · exact fun _ within => within.known

theorem unlock_unless_spec (respected : s.Respected) :
    Spec s (Within s {a} a stock) (unlockUnless s.env haveLock a)
      (fun _ => Within s (heldIf haveLock a) a stock) := by
  cases haveLock with
  | true => exact meets_pure fun _ within => within
  | false => exact unlock_own_spec respected

def Setting.Leaves (s : Setting) (site : Site) (a : ArenaId) (left : Nat) : Prop :=
  s.stocked → ∀ clock world, Arranged s.tuned world → a < world.arenaCount →
    (world.arena a).mdTop = true →
    left ≤ ((s.env.others site a clock world).arena a).metadataCacheCount

theorem leaves_nothing : s.Leaves site a 0 :=
  fun _ _ _ _ _ _ => Nat.zero_le _

theorem leaves_refused (respected : s.Respected) : s.Leaves (.mmapRefused (some a)) a s.grow :=
  fun stocked clock world => respected.stock stocked a a clock world

theorem leaves_mapped (respected : s.Respected) :
    s.Leaves (.sysmalloc (some mainArena)) mainArena s.mapped :=
  fun stocked clock world arranged _ => respected.mapped stocked clock world arranged

theorem relock_spec {left : Nat} (respected : s.Respected) (leaves : s.Leaves site a left) :
    Spec s (Within s ∅ a stock) (lockArena s.env site a) (fun _ => Within s {a} a left) := by
  have waited : Spec s (Within s ∅ a stock) (wait s.env site a) (fun _ => Within s ∅ a left) := by
    intro state within
    apply within.wait respected
    intro stocked
    exact leaves stocked state.clock state.world within.holding.arranged within.known within.top
  have taken : Spec s (Within s ∅ a left) (acquire s.env a)
      (fun _ => Within s (insert a ∅) a left) :=
    acquire_spec respected carried_within (Finset.notMem_empty a) fun _ within => within.known
  apply waited.bind
  intro _
  rw [insert_empty_eq] at taken
  exact taken

theorem lock_own_spec (respected : s.Respected) :
    Spec s (Within s ∅ a 0) (lockArena s.env site a) (fun _ => Within s {a} a 0) :=
  relock_spec respected leaves_nothing

theorem lock_unless_spec (respected : s.Respected) (kept : haveLock = false → stock = 0) :
    Spec s (Within s (heldIf haveLock a) a stock) (lockUnless s.env haveLock site a)
      (fun _ => Within s {a} a stock) := by
  cases haveLock with
  | true => exact meets_pure fun _ within => within
  | false =>
      rw [kept rfl]
      exact lock_own_spec respected

theorem free_errout_spec (respected : s.Respected) :
    Spec s (Within s {a} a stock) (freeErrout s.env a haveLock)
      (fun _ => Within s (heldIf haveLock a) a stock) := by
  apply (unlock_unless_spec respected).bind
  intro _
  apply malloc_printerr_spec respected carried_within
  · exact fun _ within => within.known
  · exact fun _ within => within.top

/-- A chunk goes to a fastbin only when `main_arena` is initialised. -/
theorem free_fastbin_spec (respected : s.Respected) :
    Spec s (fun world => Within s {a} a stock world ∧ (world.arena mainArena).mdTop = true)
      (freeFastbin s.env a haveLock) (fun _ => Within s (heldIf haveLock a) a stock) := by
  apply ask_if
  · exact (free_errout_spec respected).from_before fun _ holds => holds.1
  · have flagged : Spec s
        (fun world => Within s {a} a stock world ∧ (world.arena mainArena).mdTop = true)
        (modifyArena a fun arena => { arena with fastchunksBit := false })
        (fun _ => Within s {a} a stock) := by
      apply change_arena_spec
      intro world holds
      have mild : Mild world a { world.arena a with fastchunksBit := false } := by
        refine ⟨rfl, rfl, rfl, rfl, fun _ _ mapped => mapped, ?_, fun _ => Or.inr holds.2⟩
        intro unused
        have top := holds.1.top
        rw [unused.mdTop] at top
        cases top
      exact holds.1.update respected mild rfl holds.1.stock
    apply flagged.bind
    intro _
    apply ask_if
    · exact free_errout_spec respected
    · exact unlock_unless_spec respected

/-- The arena may be untouched; the reserve is known once it is initialised. -/
structure Provided (s : Setting) (held : Finset ArenaId) (a : ArenaId) (stock : Nat)
    (world : World) : Prop where
  near : Near s held a world
  stock : (world.arena a).mdTop = true → s.stocked → stock ≤ (world.arena a).metadataCacheCount

theorem Within.provided {world : World} (within : Within s held a stock world) :
    Provided s held a stock world :=
  ⟨within.near, fun _ => within.stock⟩

theorem Provided.within {world : World} (provided : Provided s held a stock world)
    (top : (world.arena a).mdTop = true) : Within s held a stock world :=
  ⟨provided.near.holding, provided.near.known, top, provided.stock top⟩

/-- Only an arena that may be consolidated has fast chunks. -/
theorem consolidate_fast_spec (respected : s.Respected) (small : stock ≤ 7) :
    Spec s
      (fun world => Provided s held a stock world ∧ (world.arena a).fastchunksBit = false)
      (mallocConsolidate s.env a) (fun _ => Within s held a stock) := by
  apply (malloc_consolidate_spec respected small).from_before
  intro world holds
  refine ⟨holds.1.near, ?_, holds.1.stock⟩
  intro other
  by_contra topless
  have idle := holds.1.near.holding.arranged.idle (Bool.eq_false_of_not_eq_true topless) a
    holds.1.near.known other
  rw [holds.2] at idle
  cases idle

theorem consolidate_fastchunks_spec (respected : s.Respected) (small : stock ≤ 7) :
    Spec s (Provided s held a stock) (consolidateFastchunks s.env a)
      (fun _ => Within s held a stock) := by
  apply fastchunks_if
  · exact consolidate_fast_spec respected small
  · apply meets_pure
    intro world holds
    apply holds.1.within
    cases holds.1.near.ready_or with
    | inl ready => exact ready.mdTop
    | inr dormant =>
        have bit := holds.2
        rw [dormant.1, dormant.2.unused.fastchunks] at bit
        cases bit

theorem free_trim_spec (respected : s.Respected) (small : stock ≤ 7) (size : Nat) :
    Spec s (Within s held a stock) (freeTrim s.env a size) (fun _ => Within s held a stock) := by
  have consolidated : Spec s (Within s held a stock) (consolidateAbove s.env a size)
      (fun _ => Within s held a stock) := by
    apply meets_if
    · intro _
      apply (consolidate_fastchunks_spec respected small).from_before
      exact fun _ within => within.provided
    · intro _
      exact meets_pure fun _ within => within
  apply consolidated.bind
  intro _
  apply number_then
  intro count
  exact unregister_each_spec respected carried_within (fun _ within => within.known) count

theorem free_merge_spec (respected : s.Respected) (small : stock ≤ 7) :
    Spec s (Within s {a} a stock) (freeMerge s.env a haveLock)
      (fun _ => Within s (heldIf haveLock a) a stock) := by
  apply ask_if
  · exact free_errout_spec respected
  · apply number_then
    intro count
    have merged : Spec s (Within s {a} a stock) (unregisterEach s.env a count)
        (fun _ => Within s {a} a stock) :=
      unregister_each_spec respected carried_within (fun _ within => within.known) count
    apply merged.bind
    intro _
    apply number_then
    intro size
    apply (free_trim_spec respected small size).bind
    intro _
    exact unlock_unless_spec respected

theorem within_main_known {world : World} (within : Within s held a stock world) :
    mainArena < world.arenaCount :=
  main_known within.holding

theorem main_notMem_held (other : a ≠ mainArena) : mainArena ∉ heldIf haveLock a := by
  cases haveLock with
  | true => exact fun mem => other (Finset.mem_singleton.mp mem).symm
  | false => exact Finset.notMem_empty mainArena

/-- The lock of `main_arena` is taken in addition, or instead. -/
theorem free_mmapped_spec (respected : s.Respected) (p : Chunk) :
    Spec s (Within s {a} a stock) (freeMmapped s.env a p haveLock)
      (fun _ => Within s (heldIf haveLock a) a 0) := by
  have removed (held : Finset ArenaId) (less : Nat) : Spec s (Within s held a less)
      (unregisterChunk mainArena p) (fun _ => Within s held a less) :=
    unregister_chunk_spec respected carried_within p fun _ => within_main_known
  apply meets_if
  · rintro rfl
    apply munmap_chunk_spec.bind
    intro _
    apply (removed _ _).bind
    intro _
    apply (unlock_unless_spec respected).to_after
    exact fun _ _ within => within.lower (Nat.zero_le stock)
  · intro other
    apply (unlock_unless_spec respected).bind
    intro _
    have locked : Spec s (Within s (heldIf haveLock a) a stock)
        (lockArena s.env .free mainArena)
        (fun _ => Within s (insert mainArena (heldIf haveLock a)) a 0) := by
      have lock : Spec s (Within s (heldIf haveLock a) a 0) (lockArena s.env .free mainArena)
          (fun _ => Within s (insert mainArena (heldIf haveLock a)) a 0) := by
        apply lock_spec respected carried_within (waits_within respected)
        · exact main_notMem_held other
        · rfl
        · exact fun _ => within_main_known
      exact lock.from_before fun _ within => within.lower (Nat.zero_le stock)
    apply locked.bind
    intro _
    apply munmap_chunk_spec.bind
    intro _
    apply (removed _ _).bind
    intro _
    apply unlock_spec respected carried_within (Finset.mem_insert_self _ _)
    · exact Finset.erase_insert (main_notMem_held other)
    · exact fun _ => within_main_known

theorem free_record_spec (respected : s.Respected) (small : stock ≤ 7) {mmapped : Bool}
    (p : Chunk) (lost : mmapped = true → stock = 0) :
    Spec s (Within s {a} a stock) (freeRecord s.env a p mmapped haveLock)
      (fun _ => Within s (heldIf haveLock a) a stock) := by
  apply number_then
  intro size
  apply ask_then
  intro invalid
  apply meets_if
  · intro _
    exact free_errout_spec respected
  · intro valid
    apply max_fast_then
    intro maxFast
    apply meets_if
    · intro fits
      apply (free_fastbin_spec respected).from_before
      intro world holds
      refine ⟨holds.1, main_top_of_max_fast holds.1.holding ?_⟩
      rw [holds.2]
      rintro rfl
      simp [minSize] at valid fits
      omega
    · intro _
      have within : ∀ world, Within s {a} a stock world ∧ world.globalMaxFast = maxFast →
          Within s {a} a stock world := fun _ holds => holds.1
      apply meets_if
      · intro mapped
        rw [lost mapped]
        rw [lost mapped] at within
        exact (free_mmapped_spec respected p).from_before within
      · intro _
        exact (free_merge_spec respected small).from_before within

/-- A record that is looked up may be that of a mapped chunk. -/
theorem int_free_spec (respected : s.Respected) (small : stock ≤ 7) (record : Option Bool)
    (p : Chunk) (kept : haveLock = false → stock = 0) (lost : record ≠ some false → stock = 0) :
    Spec s (Provided s (heldIf haveLock a) a stock) (intFree s.env (some a) record p haveLock)
      (fun _ => Within s (heldIf haveLock a) a stock) := by
  have top : Spec s (Provided s (heldIf haveLock a) a stock) (requireTop a)
      (fun _ => Within s (heldIf haveLock a) a stock) :=
    require_top_spec.to_after fun _ _ holds => holds.1.within holds.2
  apply top.bind
  intro _
  apply (lock_unless_spec respected kept).bind
  intro _
  cases record with
  | some mmapped =>
      apply free_record_spec respected small p
      rintro rfl
      exact lost (by decide)
  | none =>
      apply arena_then
      intro arena
      have before : ∀ world, Within s {a} a stock world ∧ world.arena a = arena →
          Within s {a} a stock world := fun _ holds => holds.1
      cases arena.record p with
      | none => exact halt_spec trivial
      | some mmapped =>
          apply (free_record_spec respected small p fun _ => lost ?_).from_before before
          exact (Option.some_ne_none false).symm

theorem int_free_locked_spec (respected : s.Respected) (small : stock ≤ 7) (p : Chunk) :
    Spec s (Within s {a} a stock) (intFree s.env (some a) (some false) p true)
      (fun _ => Within s {a} a stock) := by
  have freed : Spec s (Provided s (heldIf true a) a stock)
      (intFree s.env (some a) (some false) p true) (fun _ => Within s (heldIf true a) a stock) := by
    apply int_free_spec respected small
    · exact fun impossible => nomatch impossible
    · exact fun impossible => absurd rfl impossible
  exact freed.from_before fun _ within => within.provided

/-! ## Allocating -/

theorem within_register_new (respected : s.Respected) :
    Spec s (Within s held a (stock + 1)) (registerNew s.env a) (fun _ => Within s held a stock) :=
  register_new_spec (within_reserve respected)

theorem split_chunk_spec (respected : s.Respected) :
    Spec s (Within s held a (stock + 1)) (splitChunk s.env a)
      (fun victim world => victim.mmapped = false ∧ Within s held a stock world) := by
  apply (within_register_new respected).bind
  intro _
  apply number_then
  intro _
  exact meets_pure fun _ within => ⟨rfl, within⟩

/-- The thread has the lock of `av`, and the records that it may take from it. -/
def Attached (s : Setting) (av : Option ArenaId) (stock : Nat) (world : World) : Prop :=
  match av with
  | none => Holding s ∅ world
  | some a => Within s {a} a stock world

/-- The thread has the lock of `main_arena` instead. -/
def Lent (s : Setting) (av : Option ArenaId) (stock : Nat) (world : World) : Prop :=
  match av with
  | none => Holding s {mainArena} world
  | some a => Within s {mainArena} a stock world

/-- What a thread that gives up the lock of `av` still knows of its reserve: nothing,
unless it stays in `main_arena`. -/
def ownStock (av : Option ArenaId) (stock : Nat) : Nat :=
  if av = some mainArena then stock else 0

theorem own_stock_main : ownStock (some mainArena) stock = stock :=
  if_pos rfl

theorem own_stock_other (other : av ≠ some mainArena) : ownStock av stock = 0 :=
  if_neg other

theorem own_stock_mono {less : Nat} (le : less ≤ stock) : ownStock av less ≤ ownStock av stock := by
  unfold ownStock
  split
  next => exact le
  next => exact Nat.le_refl 0

theorem own_stock_le : ownStock av stock ≤ stock := by
  unfold ownStock
  split
  next => exact Nat.le_refl stock
  next => exact Nat.zero_le stock

theorem lock_main_spec (respected : s.Respected) :
    Spec s (Holding s ∅) (lockArena s.env site mainArena) (fun _ => Holding s {mainArena}) := by
  apply lock_spec respected carried_holding (waits_holding respected)
  · exact Finset.notMem_empty mainArena
  · exact insert_empty_eq mainArena
  · exact fun _ => main_known

theorem unlock_main_spec (respected : s.Respected) :
    Spec s (Holding s {mainArena}) (unlockArena s.env mainArena) (fun _ => Holding s ∅) := by
  apply unlock_spec respected carried_holding (Finset.mem_singleton_self mainArena)
  · exact Finset.erase_singleton mainArena
  · exact fun _ => main_known

theorem lend_spec (respected : s.Respected) :
    Spec s (Within s ∅ a 0) (lockArena s.env site mainArena)
      (fun _ => Within s {mainArena} a 0) := by
  apply lock_spec respected carried_within (waits_within respected)
  · exact Finset.notMem_empty mainArena
  · exact insert_empty_eq mainArena
  · exact fun _ => within_main_known

theorem unlend_spec (respected : s.Respected) :
    Spec s (Within s {mainArena} a stock) (unlockArena s.env mainArena)
      (fun _ => Within s ∅ a stock) := by
  apply unlock_spec respected carried_within (Finset.mem_singleton_self mainArena)
  · exact Finset.erase_singleton mainArena
  · exact fun _ => within_main_known

/-- `main_arena` is not left for itself. -/
theorem enter_main_spec (respected : s.Respected) :
    Spec s (Attached s av (ownStock av stock)) (enterMain s.env site av)
      (fun _ => Lent s av (ownStock av stock)) := by
  apply meets_if
  · rintro rfl
    exact meets_pure fun _ within => within
  · intro other
    rw [own_stock_other other]
    cases av with
    | none =>
        have unattached : Spec s (Holding s ∅) (unlockAv s.env none) (fun _ => Holding s ∅) :=
          meets_pure fun _ holding => holding
        apply unattached.bind
        intro _
        exact lock_main_spec respected
    | some a =>
        apply (unlock_own_spec respected).bind
        intro _
        exact lend_spec respected

theorem restore_lock_spec {left : Nat} (respected : s.Respected)
    (leaves : ∀ a, av = some a → s.Leaves site a left) :
    Spec s (Lent s av stock) (restoreLock s.env site av) (fun _ => Attached s av left) := by
  cases av with
  | none =>
      apply (unlock_main_spec respected).bind
      intro _
      exact meets_pure fun _ holding => holding
  | some a =>
      apply (unlend_spec respected).bind
      intro _
      exact relock_spec respected (leaves a rfl)

def Setting.refused (s : Setting) (av : Option ArenaId) : Nat :=
  if av = some mainArena then 6 else s.grow

theorem refused_le : s.refused av ≤ 6 := by
  have heap := heap_cost_le s.path
  have top := top_cost_le s.kind s.path
  unfold Setting.refused Setting.grow Setting.top
  split <;> omega

theorem leave_main_spec (respected : s.Respected) :
    Spec s (Lent s av (ownStock av 6)) (leaveMain s.env (.mmapRefused av) av)
      (fun _ => Attached s av (s.refused av)) := by
  apply meets_if
  · rintro rfl
    exact meets_pure fun _ within => within
  · intro other
    rw [Setting.refused, if_neg other]
    apply restore_lock_spec respected
    rintro a rfl
    exact leaves_refused respected

/-! ### Mapping -/

/-- A change of `main_arena` while the thread has its lock and another arena is to be
returned to. -/
theorem Lent.update {world : World} {change : Arena → Arena} (respected : s.Respected)
    (other : av ≠ some mainArena) (lent : Lent s av stock world)
    (mild : Mild world mainArena (change (world.arena mainArena)))
    (mutex : (change (world.arena mainArena)).mutex = (world.arena mainArena).mutex) :
    Lent s av stock (world.updateArena mainArena change) := by
  cases av with
  | none => exact Holding.update respected lent (main_known lent) mild mutex
  | some a =>
      have apart : a ≠ mainArena := fun same => other (congrArg some same)
      have holding := lent.holding.update respected (main_known lent.holding) mild mutex
      refine ⟨holding, lent.known, mild.since.top a lent.known lent.top, ?_⟩
      rw [update_arena_other change apart]
      exact lent.stock

def LentMain (s : Setting) (av : Option ArenaId) (stock : Nat) (count : Nat) (world : World) :
    Prop :=
  Lent s av stock world ∧ Within s {mainArena} mainArena count world

theorem lent_main_reserve (respected : s.Respected) (other : av ≠ some mainArena) :
    Reserve s mainArena (LentMain s av stock) where
  pool := fun _ _ holds => holds.2.pool
  enough := fun _ _ holds => holds.2.stock
  relax := fun count less world holds enough =>
    ⟨holds.1, (within_reserve respected).relax count less world holds.2 enough⟩
  restock := fun count now world holds =>
    ⟨holds.1.update respected other (stock_mild holds.2.pool now) rfl,
      (within_reserve respected).restock count now world holds.2⟩
  record := fun count world p isMmapped holds owner =>
    ⟨holds.1.update respected other (register_mild holds.2.pool owner) rfl,
      (within_reserve respected).record count world p isMmapped holds.2 owner⟩

theorem Lent.holding {world : World} (lent : Lent s av stock world) :
    Holding s {mainArena} world := by
  cases av with
  | none => exact lent
  | some a => exact Within.holding lent

theorem within_main_of_reserve {world : World} (lent : Lent s av stock world)
    (some' : (world.arena mainArena).metadataCacheCount ≠ 0) :
    Within s {mainArena} mainArena 1 world := by
  have holding := lent.holding
  refine ⟨holding, main_known holding, ?_, fun _ => Nat.one_le_iff_ne_zero.mpr some'⟩
  cases holding.arranged.main with
  | inl ready => exact ready.mdTop
  | inr dormant => exact absurd dormant.unused.reserve some'

theorem Attached.suffices {world : World} {less : Nat} (attached : Attached s av stock world)
    (le : s.stocked → less ≤ stock) : Attached s av less world := by
  cases av with
  | none => exact attached
  | some a => exact Within.suffices attached le

theorem Attached.lower {world : World} {less : Nat} (attached : Attached s av stock world)
    (le : less ≤ stock) : Attached s av less world :=
  attached.suffices fun _ => le

theorem Lent.lower {world : World} {less : Nat} (lent : Lent s av stock world)
    (le : less ≤ stock) : Lent s av less world := by
  cases av with
  | none => exact lent
  | some a => exact Within.lower lent le

/-- A record of a mapped chunk costs `av` nothing, unless it is `main_arena`. -/
theorem register_mapped_spec (respected : s.Respected) (p : Chunk) :
    Spec s
      (fun world => Lent s av (ownStock av 1) world ∧
        (av ≠ some mainArena → (world.arena mainArena).metadataCacheCount ≠ 0))
      (registerChunk s.env mainArena p true) (fun _ => Lent s av 0) := by
  by_cases main : av = some mainArena
  · subst main
    apply Meets.from_before
    · exact register_chunk_spec (within_reserve respected) p fun _ => rfl
    · exact fun _ holds => holds.1
  · have registered : Spec s (LentMain s av 0 1) (registerChunk s.env mainArena p true)
        (fun _ => LentMain s av 0 0) :=
      register_chunk_spec (lent_main_reserve respected main) p fun _ => rfl
    apply registered.weaken
    · intro world holds
      exact ⟨holds.1.lower (Nat.zero_le _), within_main_of_reserve holds.1 (holds.2 main)⟩
    · exact fun _ _ holds => holds.1

/-- The thread has the lock of `av`, which may be untouched. -/
def Entered (s : Setting) (av : Option ArenaId) (world : World) : Prop :=
  match av with
  | none => Holding s ∅ world
  | some a => Near s {a} a world

theorem Attached.entered {world : World} (attached : Attached s av stock world) :
    Entered s av world := by
  cases av with
  | none => exact attached
  | some a => exact Within.near attached

def Setting.leftFor (s : Setting) (av : Option ArenaId) (victim : Victim) : Nat :=
  if victim.mmapped then ownStock av (s.kind.mappedCost s.path) else s.tail

def Allotted (s : Setting) (av : Option ArenaId) (result : Option Victim) (world : World) : Prop :=
  match result with
  | none => Entered s av world
  | some victim => Attached s av (s.leftFor av victim) world

theorem left_for_heap {victim : Victim} (unmapped : victim.mmapped = false) :
    s.leftFor av victim = s.tail :=
  if_neg (by rw [unmapped]; exact Bool.false_ne_true)

theorem Within.allotted {world : World} {victim : Victim} (within : Within s {a} a s.tail world)
    (unmapped : victim.mmapped = false) : Allotted s (some a) (some victim) world := by
  rw [← left_for_heap unmapped] at within
  exact within

theorem Allotted.entered {world : World} {result : Option Victim}
    (allotted : Allotted s av result world) : Entered s av world := by
  cases result with
  | none => exact allotted
  | some victim => exact Attached.entered allotted

/-- The locks are as before: the request is served or given up, or there is no mapping. -/
def MmapTried (s : Setting) (av : Option ArenaId) (result : Option (Option Victim))
    (world : World) : Prop :=
  match result with
  | none => Attached s av (s.refused av) world
  | some result => Allotted s av result world

theorem try_mmap_spec (respected : s.Respected) :
    Spec s (Attached s av (ownStock av 6)) (tryMmap s.env av) (MmapTried s av) := by
  apply (enter_main_spec respected).bind
  intro _
  apply arena_then
  intro arena
  apply meets_if
  · intro _
    have restored : Spec s
        (fun world => Lent s av (ownStock av 6) world ∧ world.arena mainArena = arena)
        (restoreLock s.env (.sysmalloc av) av) (fun _ => Attached s av 0) :=
      (restore_lock_spec respected fun _ _ => leaves_nothing).from_before fun _ holds => holds.1
    apply restored.bind
    intro _
    exact meets_pure fun _ attached => attached.entered
  · intro enough
    apply ask_then
    intro fits
    apply ask_path respected
    intro mapped allows
    apply meets_if
    · intro granted
      apply number_then
      intro p
      have registered : Spec s
          (fun world => Lent s av (ownStock av 6) world ∧ world.arena mainArena = arena)
          (registerChunk s.env mainArena p true) (fun _ => Lent s av 0) := by
        apply (register_mapped_spec respected p).from_before
        intro world holds
        refine ⟨holds.1.lower (own_stock_mono (by decide)), ?_⟩
        intro other empty
        rw [holds.2] at empty
        exact enough ⟨other, empty⟩
      have restored : Spec s (Lent s av 0) (restoreLock s.env (.sysmalloc av) av)
          (fun _ => Attached s av (ownStock av (s.kind.mappedCost s.path))) := by
        apply restore_lock_spec respected
        rintro a rfl stocked
        by_cases main : a = mainArena
        · subst main
          have left := leaves_mapped respected stocked
          rw [Setting.mapped, mapped_need_of_allows (allows granted.2 stocked)] at left
          rw [own_stock_main]
          exact left
        · rw [own_stock_other fun same => main (Option.some.inj same)]
          exact leaves_nothing stocked
      apply registered.bind
      intro _
      apply restored.bind
      intro _
      exact meets_pure fun _ attached => attached
    · intro _
      have left : Spec s
          (fun world => Lent s av (ownStock av 6) world ∧ world.arena mainArena = arena)
          (leaveMain s.env (.mmapRefused av) av) (fun _ => Attached s av (s.refused av)) :=
        (leave_main_spec respected).from_before fun _ holds => holds.1
      apply left.bind
      intro _
      exact meets_pure fun _ attached => attached

/-! ### Growing -/

theorem new_heap_top_spec (respected : s.Respected) (small : stock ≤ 7) :
    Spec s (Within s {a} a (stock + s.path.oldTopLeft.toNat + 2)) (newHeapTop s.env a)
      (fun _ => Within s {a} a stock) := by
  apply (within_register_new respected).bind
  intro _
  apply (within_register_new respected).bind
  intro _
  apply ask_path_if respected
  · intro allows
    have enough : ∀ world, Within s {a} a (stock + s.path.oldTopLeft.toNat) world →
        Within s {a} a (stock + 1) world := by
      intro world within
      apply within.suffices
      intro stocked
      have left : s.path.oldTopLeft = true := allows stocked
      rw [left]
      exact Nat.le_refl _
    apply ((within_register_new respected).from_before enough).bind
    intro _
    apply number_then
    intro p
    exact int_free_locked_spec respected small p
  · apply meets_pure
    exact fun _ within => within.lower (Nat.le_add_right stock _)

theorem top_le : s.top ≤ 3 :=
  top_cost_le s.kind s.path

theorem tail_le : s.tail ≤ 2 :=
  tail_cost_le s.kind s.path

/-- The arena has what the top needs, or the request has been mapped or given up. -/
def ArenaGrown (s : Setting) (a : ArenaId) (result : Option (Option Victim)) (world : World) :
    Prop :=
  match result with
  | none => Within s {a} a s.top world
  | some result => Allotted s (some a) result world

/-- A new heap takes two records, and one more for the rest of the old top. -/
theorem grow_arena_spec (respected : s.Respected) (other : a ≠ mainArena) (triedMmap : Bool) :
    Spec s (Within s {a} a s.grow) (growArena s.env a triedMmap) (ArenaGrown s a) := by
  have unchanged : Spec s (Within s {a} a s.grow) (pure none) (ArenaGrown s a) :=
    meets_pure fun _ within => within.lower (Nat.le_add_left s.top _)
  have newHeap (allows : s.stocked → s.path.allows .newHeap = true) :
      Spec s (Within s {a} a s.grow) (do
        newHeapTop s.env a
        return none) (ArenaGrown s a) := by
    have enough : ∀ world, Within s {a} a s.grow world →
        Within s {a} a (s.top + s.path.oldTopLeft.toNat + 2) world := by
      intro world within
      apply within.suffices
      intro stocked
      rw [Setting.grow, heap_cost_of_allows (allows stocked)]
      omega
    have small : s.top ≤ 7 := le_trans top_le (by decide)
    apply ((new_heap_top_spec respected small).from_before enough).bind
    intro _
    exact meets_pure fun _ within => within
  apply ask_if
  · exact unchanged
  · apply ask_path_if respected
    · exact newHeap
    · apply meets_if
      · intro _
        exact unchanged
      · intro _
        have tried : Spec s (Within s {a} a s.grow) (tryMmap s.env (some a))
            (MmapTried s (some a)) :=
          (try_mmap_spec respected).from_before fun _ within =>
            within.lower (by rw [own_stock_other (other ∘ Option.some.inj)]; exact Nat.zero_le _)
        apply tried.bind
        intro result
        cases result with
        | some result => exact meets_pure fun _ allotted => allotted
        | none =>
            have left : ∀ world, MmapTried s (some a) none world → Within s {a} a s.grow world := by
              intro world within
              apply Within.lower within
              rw [Setting.refused, if_neg (other ∘ Option.some.inj)]
            apply Meets.from_before _ left
            apply ask_if
            · exact unchanged
            · apply ask_path_if respected
              · exact newHeap
              · exact unchanged

theorem drop_old_top_spec (respected : s.Respected) :
    Spec s (Within s {mainArena} mainArena stock) (dropOldTop s.env)
      (fun _ => Within s {mainArena} mainArena stock) := by
  apply ask_if
  · exact meets_pure fun _ within => within
  · exact unregister_some_spec respected carried_within fun _ within => within.known

theorem place_top_spec (respected : s.Respected) (small : stock ≤ 7) :
    Spec s (Within s {mainArena} mainArena (stock + 3)) (placeTop s.env)
      (fun _ => Within s {mainArena} mainArena stock) := by
  apply ask_if
  · apply (within_register_new respected).bind
    intro _
    apply ask_if
    · apply (drop_old_top_spec respected).bind
      intro _
      apply (within_register_new respected).bind
      intro _
      apply (within_register_new respected).bind
      intro _
      apply ask_if
      · apply number_then
        intro p
        exact int_free_locked_spec respected small p
      · exact meets_pure fun _ within => within
    · apply meets_pure
      exact fun _ within => within.lower (Nat.le_add_right stock 2)
  · apply meets_pure
    exact fun _ within => within.lower (Nat.le_add_right stock 3)

theorem grow_main_spec (respected : s.Respected) (small : stock ≤ 7) :
    Spec s (Within s {mainArena} mainArena (stock + 3)) (growMain s.env)
      (fun _ => Within s {mainArena} mainArena stock) := by
  have unchanged : Spec s (Within s {mainArena} mainArena (stock + 3)) (pure ())
      (fun _ => Within s {mainArena} mainArena stock) :=
    meets_pure fun _ within => within.lower (Nat.le_add_right stock 3)
  apply ask_then
  intro moved
  apply ask_then
  intro mapped
  apply meets_if
  · intro _
    apply ask_if
    · exact unchanged
    · apply ask_if
      · exact halt_spec trivial
      · exact place_top_spec respected small
  · intro _
    exact unchanged

theorem take_from_top_spec (respected : s.Respected) :
    Spec s (Within s {a} a s.top) (takeFromTop s.env a) (Allotted s (some a)) := by
  apply ask_path_if respected
  · intro allows
    have enough : ∀ world, Within s {a} a s.top world → Within s {a} a (s.tail + 1) world := by
      intro world within
      apply within.suffices
      intro stocked
      exact Nat.le_of_eq (top_cost_of_allows (allows stocked)).symm
    apply ((split_chunk_spec respected).from_before enough).bind
    intro victim
    apply meets_pure
    rintro world ⟨unmapped, within⟩
    exact within.allotted unmapped
  · exact meets_pure fun _ within => within.near

theorem sysmalloc_grow_spec (respected : s.Respected) (triedMmap : Bool) :
    Spec s (Within s {a} a (s.refused (some a))) (sysmallocGrow s.env a triedMmap)
      (Allotted s (some a)) := by
  apply meets_if
  · rintro rfl
    apply (grow_main_spec respected (by decide : 3 ≤ 7)).bind
    intro _
    exact (take_from_top_spec respected).from_before fun _ within => within.lower top_le
  · intro other
    rw [Setting.refused, if_neg (other ∘ Option.some.inj)]
    apply (grow_arena_spec respected other triedMmap).bind
    intro result
    cases result with
    | some result => exact meets_pure fun _ allotted => allotted
    | none => exact take_from_top_spec respected

theorem sysmalloc_spec (respected : s.Respected) :
    Spec s (Attached s av 6) (sysmalloc s.env av) (Allotted s av) := by
  have tried : Spec s (Attached s av 6) (tryMmap s.env av) (MmapTried s av) :=
    (try_mmap_spec respected).from_before fun _ attached => attached.lower own_stock_le
  cases av with
  | none =>
      apply tried.bind
      intro result
      cases result with
      | some result => exact meets_pure fun _ allotted => allotted
      | none => exact meets_pure fun _ holding => holding
  | some a =>
      apply ask_if
      · apply tried.bind
        intro result
        cases result with
        | some result => exact meets_pure fun _ allotted => allotted
        | none => exact sysmalloc_grow_spec respected true
      · apply (sysmalloc_grow_spec respected false).from_before
        exact fun _ within => Within.lower within refused_le

/-! ### `_int_malloc` -/

theorem malloc_errout_spec (respected : s.Respected) :
    Spec s (Within s {a} a stock) (mallocErrout s.env a)
      (fun result world => result = none ∧ Near s {a} a world) := by
  have reported : Spec s (Within s {a} a stock) (mallocPrinterr s.env (some a))
      (fun _ => Within s {a} a stock) :=
    malloc_printerr_spec respected carried_within (fun _ within => within.known)
      fun _ within => within.top
  apply reported.bind
  intro _
  exact meets_pure fun _ within => ⟨rfl, within.near⟩

theorem malloc_given_up_spec (respected : s.Respected) :
    Spec s (Within s {a} a stock) (mallocErrout s.env a) (Allotted s (some a)) := by
  apply (malloc_errout_spec respected).to_after
  rintro result world ⟨rfl, near⟩
  exact near

theorem hand_out_spec (respected : s.Respected) :
    Spec s (Within s {a} a s.tail) (handOut s.env a) (Allotted s (some a)) := by
  apply ask_if
  · exact malloc_given_up_spec respected
  · apply number_then
    intro p
    exact meets_pure fun _ within => within.allotted rfl

theorem split_off_spec (respected : s.Respected) :
    Spec s (Within s {a} a (s.tail + 1)) (do return some (← splitChunk s.env a))
      (Allotted s (some a)) := by
  apply (split_chunk_spec respected).bind
  intro victim
  apply meets_pure
  rintro world ⟨unmapped, within⟩
  exact within.allotted unmapped

theorem hand_out_split_spec (respected : s.Respected) :
    Spec s (Within s {a} a (s.tail + 1)) (handOutSplit s.env a) (Allotted s (some a)) := by
  apply ask_if
  · apply ask_if
    · exact malloc_given_up_spec respected
    · exact split_off_spec respected
  · apply number_then
    intro p
    exact meets_pure fun _ within => (within.lower (Nat.le_succ s.tail)).allotted rfl

def RoundEnded (s : Setting) (a : ArenaId) (result : Option (Option Victim)) (world : World) :
    Prop :=
  match result with
  | none => Within s {a} a 7 world
  | some result => Allotted s (some a) result world

theorem malloc_round_spec (respected : s.Respected) :
    Spec s (Within s {a} a 7) (mallocRound s.env a) (RoundEnded s a) := by
  have reported : Spec s (Within s {a} a 7) (reportCorruption s.env a)
      (fun _ => Within s {a} a 7) := by
    apply ask_if
    · exact malloc_printerr_spec respected carried_within (fun _ within => within.known)
        fun _ within => within.top
    · exact meets_pure fun _ within => within
  have enough : ∀ world, Within s {a} a 7 world → Within s {a} a (s.tail + 1) world :=
    fun _ within => within.lower (Nat.succ_le_of_lt (Nat.lt_of_le_of_lt tail_le (by decide)))
  have split : Spec s (Within s {a} a 7) (do
      return some (some (← splitChunk s.env a)) : M (Option (Option Victim)))
      (RoundEnded s a) := by
    apply ((split_chunk_spec respected).from_before enough).bind
    intro victim
    apply meets_pure
    rintro world ⟨unmapped, within⟩
    exact within.allotted unmapped
  apply reported.bind
  intro _
  apply ask_if
  · exact split
  · apply ask_if
    · apply number_then
      intro p
      exact meets_pure fun _ within => ((enough _ within).lower (Nat.le_succ s.tail)).allotted rfl
    · apply ask_if
      · apply ((hand_out_split_spec respected).from_before enough).bind
        intro _
        exact meets_pure fun _ allotted => allotted
      · apply ask_if
        · exact split
        · exact meets_pure fun _ within => within

theorem malloc_loop_spec (respected : s.Respected) :
    Spec s (Within s {a} a 7) (mallocLoop s.env a) (Allotted s (some a)) := by
  have grown : Spec s (Within s {a} a 7) (sysmalloc s.env (some a)) (Allotted s (some a)) :=
    (sysmalloc_spec respected).from_before fun _ within => within.lower (by decide)
  apply (malloc_round_spec respected).bind
  intro result
  cases result with
  | some result => exact meets_pure fun _ allotted => allotted
  | none =>
      apply fastchunks_if
      · have consolidated : Spec s
            (fun world => Within s {a} a 7 world ∧ (world.arena a).fastchunksBit = false)
            (mallocConsolidate s.env a) (fun _ => Within s {a} a 7) :=
          (consolidate_fast_spec respected (by decide)).from_before
            fun _ holds => ⟨holds.1.provided, holds.2⟩
        apply consolidated.bind
        intro _
        apply (malloc_round_spec respected).bind
        intro result
        cases result with
        | some result => exact meets_pure fun _ allotted => allotted
        | none => exact grown
      · exact grown.from_before fun _ holds => holds.1

theorem replenish_near_spec (respected : s.Respected) :
    Spec s (Near s held a) (replenishMetadataCache s.env a)
      (fun ok => Provided s held a (if ok then metadataCacheSize else 0)) := by
  apply Meets.from_each
  intro seen near
  by_cases pool : (seen.arena a).metadataPoolReady = true
  · have top := (near.ready_of_pool pool).mdTop
    have refilled : Spec s (Within s held a 0) (replenishMetadataCache s.env a)
        (fun ok => Within s held a (if ok then metadataCacheSize else 0)) :=
      replenish_spec (within_reserve respected)
    apply refilled.weaken
    · rintro world rfl
      exact ⟨near.holding, near.known, top, fun _ => Nat.zero_le _⟩
    · exact fun _ _ within => within.provided
  · apply arena_then
    intro arena
    apply meets_if
    · intro ready state holds
      rw [← holds.2, holds.1] at ready
      exact absurd ready pool
    · intro _
      apply meets_pure
      rintro world ⟨rfl, _⟩
      refine ⟨near, ?_⟩
      intro top
      exact absurd (near.ready_of_top top).pool pool

theorem malloc_regular_spec (respected : s.Respected) (nb : Nat) :
    Spec s (Provided s {a} a 7) (mallocRegular s.env a nb) (Allotted s (some a)) := by
  apply meets_if
  · intro _
    apply arena_then
    intro arena
    apply meets_if
    · intro linked
      have before : ∀ world, Provided s {a} a 7 world ∧ world.arena a = arena →
          Within s {a} a 7 world := by
        intro world holds
        apply holds.1.within
        cases holds.1.near.ready_or with
        | inl ready => exact ready.mdTop
        | inr dormant =>
            rw [← holds.2, dormant.1, dormant.2.unused.binsLinked] at linked
            cases linked
      apply Meets.from_before _ before
      apply ask_if
      · apply (hand_out_spec respected).from_before
        exact fun _ within => within.lower (le_trans tail_le (by decide))
      · exact malloc_loop_spec respected
    · intro unlinked
      have consolidated : Spec s
          (fun world => Provided s {a} a 7 world ∧ world.arena a = arena)
          (mallocConsolidate s.env a) (fun _ => Within s {a} a 7) := by
        apply (malloc_consolidate_spec respected (by decide)).from_before
        intro world holds
        refine ⟨holds.1.near, ?_, holds.1.stock⟩
        intro other
        have ready := holds.1.near.holding.arranged.later a holds.1.near.known other
        rw [← holds.2] at unlinked
        exact absurd ready.binsLinked unlinked
      apply consolidated.bind
      intro _
      exact malloc_loop_spec respected
  · intro _
    apply (consolidate_fastchunks_spec respected (by decide)).bind
    intro _
    exact malloc_loop_spec respected

theorem int_malloc_sized_spec (respected : s.Respected) {nb : Nat} (positive : 0 < nb) :
    Spec s (Near s {a} a) (intMallocSized s.env a nb) (Allotted s (some a)) := by
  apply (replenish_near_spec respected).bind
  intro ok
  apply meets_if
  · intro succeeded
    rw [succeeded]
    apply max_fast_then
    intro maxFast
    apply ask_then
    intro found
    apply meets_if
    · intro fast
      apply (hand_out_spec respected).from_before
      · intro world holds
        have nonzero : world.globalMaxFast ≠ 0 := by
          rw [holds.2]
          rintro rfl
          exact absurd fast.1 (Nat.not_le_of_lt positive)
        have main := main_top_of_max_fast holds.1.near.holding nonzero
        have top : (world.arena a).mdTop = true := by
          by_cases same : a = mainArena
          · rw [same]
            exact main
          · exact (holds.1.near.holding.arranged.later a holds.1.near.known same).mdTop
        exact (holds.1.within top).lower (le_trans tail_le (by decide))
    · intro _
      apply (malloc_regular_spec respected nb).from_before
      exact fun _ holds => ⟨holds.1.near, fun top stocked =>
        Nat.le_of_succ_le (holds.1.stock top stocked)⟩
  · intro _
    exact meets_pure fun _ provided => provided.near

theorem checked_request2size_pos {req nb : Nat} (checked : checkedRequest2size req = some nb) :
    0 < nb := by
  unfold checkedRequest2size request2size minSize mallocAlignMask at checked
  split at checked
  · cases checked
  · split at checked <;> cases checked <;> omega

theorem int_malloc_spec (respected : s.Respected) (bytes : Nat) :
    Spec s (Entered s av) (intMalloc s.env av bytes) (Allotted s av) := by
  unfold intMalloc
  cases checked : checkedRequest2size bytes with
  | none => exact meets_pure fun _ entered => entered
  | some nb =>
      cases av with
      | none =>
          have grown : Spec s (Attached s none 6) (sysmalloc s.env none) (Allotted s none) :=
            sysmalloc_spec respected
          exact grown
      | some a => exact int_malloc_sized_spec respected (checked_request2size_pos checked)

/-! ## Reallocating -/

theorem realloc_split_spec (respected : s.Respected) (oldp : Chunk) :
    Spec s (Within s {a} a s.path.remainder.toNat) (reallocSplit s.env a oldp)
      (fun _ => Near s {a} a) := by
  apply ask_path_if respected
  · intro allows
    have enough : ∀ world, Within s {a} a s.path.remainder.toNat world →
        Within s {a} a (0 + 1) world := by
      intro world within
      apply within.suffices
      intro stocked
      have split : s.path.remainder = true := allows stocked
      rw [split]
      exact Nat.le_refl _
    apply ((within_register_new respected).from_before enough).bind
    intro remainder
    apply (int_free_locked_spec respected (Nat.zero_le 7) remainder).bind
    intro _
    exact meets_pure fun _ within => within.near
  · exact meets_pure fun _ within => within.near

theorem realloc_move_spec (respected : s.Respected) (kind : s.stocked → s.kind = .realloc)
    (oldp : Chunk) (nb : Nat) :
    Spec s (Near s {a} a) (reallocMove s.env a oldp nb) (fun _ => Near s {a} a) := by
  have allocated : Spec s (Entered s (some a))
      (intMalloc s.env (some a) (nb - mallocAlignMask)) (Allotted s (some a)) :=
    int_malloc_spec respected _
  apply allocated.bind
  intro newp
  cases newp with
  | none => exact meets_pure fun _ near => near
  | some newp =>
      apply ask_path respected
      intro next allows
      apply meets_if
      · rintro ⟨unmapped, new⟩
        have enough : ∀ world, Allotted s (some a) (some newp) world →
            Within s {a} a s.path.remainder.toNat world := by
          intro world allotted
          apply Within.suffices allotted
          intro stocked
          have merged : s.path.nextIsNew = true := allows new stocked
          rw [left_for_heap unmapped, Setting.tail, kind stocked, CallKind.tailCost, merged,
            Bool.true_and]
        have removed : Spec s (Within s {a} a s.path.remainder.toNat)
            (unregisterChunk a newp.chunk) (fun _ => Within s {a} a s.path.remainder.toNat) :=
          unregister_chunk_spec respected carried_within newp.chunk fun _ within => within.known
        apply (removed.from_before enough).bind
        intro _
        exact realloc_split_spec respected oldp
      · intro _
        have freed : Spec s (Within s {a} a 0) (intFree s.env (some a) (some false) oldp true)
            (fun _ => Within s {a} a 0) := int_free_locked_spec respected (Nat.zero_le 7) oldp
        apply (freed.from_before fun _ allotted => Within.lower allotted (Nat.zero_le _)).bind
        intro _
        exact meets_pure fun _ within => within.near

theorem int_realloc_spec (respected : s.Respected) (kind : s.stocked → s.kind = .realloc)
    (oldp : Chunk) (nb : Nat) :
    Spec s (Within s {a} a 1) (intRealloc s.env a oldp nb) (fun _ => Near s {a} a) := by
  have merged : Spec s (Within s {a} a 1) (unregisterSome s.env a) (fun _ => Within s {a} a 1) :=
    unregister_some_spec respected carried_within fun _ within => within.known
  have split : Spec s (Within s {a} a 1) (reallocSplit s.env a oldp) (fun _ => Near s {a} a) :=
    (realloc_split_spec respected oldp).from_before
      fun _ within => within.lower (Bool.toNat_le s.path.remainder)
  apply ask_if
  · exact (malloc_errout_spec respected).to_after fun _ _ failed => failed.2
  · apply ask_if
    · exact split
    · apply ask_if
      · apply merged.bind
        intro _
        apply (within_register_new respected).bind
        intro _
        exact meets_pure fun _ within => within.near
      · apply ask_if
        · apply merged.bind
          intro _
          exact split
        · exact (realloc_move_spec respected kind oldp nb).from_before fun _ within => within.near

theorem mremap_chunk_spec (respected : s.Respected) (p : Chunk) :
    Spec s (Within s {mainArena} mainArena 1) (mremapChunk s.env p)
      (fun _ => Near s {mainArena} mainArena) := by
  have kept {result : Option Chunk} : Spec s (Within s {mainArena} mainArena 1) (pure result)
      (fun _ => Near s {mainArena} mainArena) := meets_pure fun _ within => within.near
  apply ask_if
  · exact kept
  · apply ask_if
    · apply ask_if
      · have removed : Spec s (Within s {mainArena} mainArena 1) (unregisterChunk mainArena p)
            (fun _ => Within s {mainArena} mainArena 1) :=
          unregister_chunk_spec respected carried_within p fun _ within => within.known
        apply removed.bind
        intro _
        apply number_then
        intro newp
        have registered : Spec s (Within s {mainArena} mainArena 1)
            (registerChunk s.env mainArena newp true)
            (fun _ => Within s {mainArena} mainArena 0) :=
          register_chunk_spec (within_reserve respected) newp fun _ => rfl
        apply registered.bind
        intro _
        exact meets_pure fun _ within => within.near
      · exact kept
    · exact kept

/-! ## Aligned requests -/

theorem unregister_lent_spec (respected : s.Respected) (p : Chunk) :
    Spec s (Lent s av stock) (unregisterChunk mainArena p) (fun _ => Lent s av stock) := by
  cases av with
  | none => exact unregister_chunk_spec respected carried_holding p fun _ => main_known
  | some a => exact unregister_chunk_spec respected carried_within p fun _ => within_main_known

/-- The lock of another arena is given up, so that its reserve is not known after. -/
theorem memalign_mmapped_spec (respected : s.Respected) (p : Chunk) :
    Spec s (Attached s av (ownStock av 1)) (memalignMmapped s.env av p)
      (fun _ => Entered s av) := by
  have restored : Spec s (Lent s av 0) (restoreLock s.env .memalign av)
      (fun _ => Attached s av 0) := restore_lock_spec respected fun _ _ => leaves_nothing
  apply (enter_main_spec respected).bind
  intro _
  apply arena_then
  intro arena
  apply meets_if
  · intro _
    apply (restored.from_before fun _ holds => holds.1.lower (Nat.zero_le _)).bind
    intro _
    exact meets_pure fun _ attached => attached.entered
  · intro enough
    apply number_then
    intro newp
    have registered : Spec s
        (fun world => Lent s av (ownStock av 1) world ∧ world.arena mainArena = arena)
        (registerChunk s.env mainArena newp true) (fun _ => Lent s av 0) := by
      apply (register_mapped_spec respected newp).from_before
      intro world holds
      refine ⟨holds.1, ?_⟩
      intro other empty
      rw [holds.2] at empty
      exact enough ⟨other, empty⟩
    apply registered.bind
    intro _
    apply (unregister_lent_spec respected p).bind
    intro _
    apply restored.bind
    intro _
    exact meets_pure fun _ attached => attached.entered

theorem memalign_tail_spec (respected : s.Respected) (p : Chunk) :
    Spec s (Within s {a} a s.path.remainder.toNat) (memalignTail s.env a p)
      (fun _ => Near s {a} a) :=
  realloc_split_spec respected p

theorem memalign_leader_spec (respected : s.Respected) (p : Chunk) :
    Spec s (Within s {a} a (s.path.remainder.toNat + 1)) (memalignLeader s.env a p)
      (fun _ => Near s {a} a) := by
  have small : s.path.remainder.toNat ≤ 7 := le_trans (Bool.toNat_le _) (by decide)
  apply (within_register_new respected).bind
  intro newp
  apply (int_free_locked_spec respected small p).bind
  intro _
  exact memalign_tail_spec respected newp

theorem memalign_mapping_spec (respected : s.Respected) (kind : s.stocked → s.kind = .memalign)
    {victim : Victim} (mapped : victim.mmapped = true) :
    Spec s (Allotted s av (some victim)) (do
      if ← ask s.env .misaligned then memalignMmapped s.env av victim.chunk
      else return some victim) (fun _ => Entered s av) := by
  apply ask_path_if respected
  · intro allows
    apply (memalign_mmapped_spec respected victim.chunk).from_before
    intro world allotted
    apply Attached.suffices allotted
    intro stocked
    have misaligned : s.path.misaligned = true := allows stocked
    simp [Setting.leftFor, mapped, kind stocked, CallKind.mappedCost, misaligned]
  · exact meets_pure fun _ allotted => Allotted.entered allotted

theorem memalign_heap_spec (respected : s.Respected) (kind : s.stocked → s.kind = .memalign)
    {victim : Victim} (unmapped : victim.mmapped = false) :
    Spec s (Allotted s (some a) (some victim)) (do
      if ← ask s.env .misaligned then memalignLeader s.env a victim.chunk
      else memalignTail s.env a victim.chunk) (fun _ => Entered s (some a)) := by
  apply ask_path_if respected
  · intro allows
    apply (memalign_leader_spec respected victim.chunk).from_before
    intro world allotted
    apply Within.suffices allotted
    intro stocked
    have misaligned : s.path.misaligned = true := allows stocked
    rw [left_for_heap unmapped, Setting.tail, kind stocked, CallKind.tailCost, misaligned,
      Bool.toNat_true, Nat.add_comm]
  · apply (memalign_tail_spec respected victim.chunk).from_before
    intro world allotted
    apply Within.suffices allotted
    intro stocked
    rw [left_for_heap unmapped, Setting.tail, kind stocked, CallKind.tailCost]
    exact Nat.le_add_left _ _

theorem int_memalign_spec (respected : s.Respected) (kind : s.stocked → s.kind = .memalign)
    (alignment bytes : Nat) :
    Spec s (Entered s av) (intMemalign s.env av alignment bytes) (fun _ => Entered s av) := by
  unfold intMemalign
  cases checkedRequest2size bytes with
  | none => exact meets_pure fun _ entered => entered
  | some nb =>
      apply (int_malloc_spec respected _).bind
      intro result
      cases result with
      | none => exact meets_pure fun _ entered => entered
      | some victim =>
          obtain ⟨chunk, mmapped⟩ := victim
          cases mmapped with
          | true => exact memalign_mapping_spec respected kind rfl
          | false =>
              cases av with
              | none => exact halt_spec trivial
              | some a => exact memalign_heap_spec respected kind rfl

end SriGlibcMalloc.EntryPoints
