import SriGlibcMalloc.EntryPoints.ArenaSpecs

/-!
# What the entry points and the hooks keep

A call of a thread that holds no mutex gives back every mutex that it takes, except
`realloc_check` with a chunk that has no record. The checking hooks take records
without a replenishment of their own.
-/

namespace SriGlibcMalloc.EntryPoints

open Outcome

set_option autoImplicit false

variable {s : Setting} {held : Finset ArenaId} {a b : ArenaId} {stock : Nat}
variable {av : Option ArenaId} {site : Site} {world : World}

/-! ## The checking hooks -/

theorem Within.unstocked (within : Within s held a stock world) (unstocked : ¬s.stocked)
    (more : Nat) : Within s held a more world :=
  ⟨within.holding, within.known, within.top, fun stocked => absurd stocked unstocked⟩

theorem lock_main_near_spec (respected : s.Respected) :
    Spec s (Holding s ∅) (lockArena s.env site mainArena)
      (fun _ => Near s {mainArena} mainArena) :=
  (lock_near_spec respected).from_before fun _ holding => near_main holding

theorem unlock_main_near_spec (respected : s.Respected) :
    Spec s (Near s {mainArena} mainArena) (unlockArena s.env mainArena) (fun _ => Holding s ∅) :=
  (unlock_near_spec respected).to_after fun _ _ near => near.holding

theorem top_check_spec (respected : s.Respected) (unstocked : ¬s.stocked) :
    Spec s (Near s {mainArena} mainArena) (topCheck s.env)
      (fun _ => Within s {mainArena} mainArena 0) := by
  have top : Spec s (Near s {mainArena} mainArena) (requireTop mainArena)
      (fun _ => Within s {mainArena} mainArena 1) :=
    require_top_spec.to_after fun _ _ holds =>
      ⟨holds.1.holding, holds.1.known, holds.2, fun stocked => absurd stocked unstocked⟩
  have lower : ∀ world, Within s {mainArena} mainArena 1 world →
      Within s {mainArena} mainArena 0 world := fun _ within => within.lower (Nat.zero_le 1)
  apply top.bind
  intro _
  apply ask_if
  · have reported : Spec s (Within s {mainArena} mainArena 1)
        (mallocPrinterr s.env (some mainArena)) (fun _ => Within s {mainArena} mainArena 1) :=
      malloc_printerr_spec respected carried_within (fun _ within => within.known)
        fun _ within => within.top
    apply reported.bind
    intro _
    apply ask_if
    · apply (within_register_new respected).bind
      intro _
      exact meets_pure fun _ within => within
    · exact meets_pure lower
  · exact meets_pure lower

theorem top_check_then_spec (respected : s.Respected) (unstocked : ¬s.stocked)
    {routine : M (Option Victim)}
    (spec : Spec s (Within s {mainArena} mainArena 1) routine
      (fun _ => Near s {mainArena} mainArena)) :
    Spec s (Near s {mainArena} mainArena) (topCheckThen s.env routine)
      (fun _ => Near s {mainArena} mainArena) := by
  apply (top_check_spec respected unstocked).bind
  intro checked
  apply meets_if
  · intro _
    exact spec.from_before fun _ within => within.unstocked unstocked 1
  · intro _
    exact meets_pure fun _ within => within.near

theorem main_malloc_spec (respected : s.Respected) (bytes : Nat) :
    Spec s (Within s {mainArena} mainArena 1) (intMalloc s.env (some mainArena) bytes)
      (fun _ => Near s {mainArena} mainArena) := by
  have allocated : Spec s (Entered s (some mainArena)) (intMalloc s.env (some mainArena) bytes)
      (Allotted s (some mainArena)) := int_malloc_spec respected bytes
  apply allocated.weaken
  · exact fun _ within => within.near
  · exact fun _ _ allotted => Allotted.entered allotted

theorem locked_victim_spec (respected : s.Respected) (unstocked : ¬s.stocked)
    {routine : M (Option Victim)}
    (spec : Spec s (Within s {mainArena} mainArena 1) routine
      (fun _ => Near s {mainArena} mainArena)) :
    Spec s (Holding s ∅) (do
      lockArena s.env .hooks mainArena
      let victim ← topCheckThen s.env routine
      unlockArena s.env mainArena
      return victim) (fun _ => Holding s ∅) := by
  apply (lock_main_near_spec respected).bind
  intro _
  apply (top_check_then_spec respected unstocked spec).bind
  intro _
  apply (unlock_main_near_spec respected).bind
  intro _
  exact meets_pure fun _ holding => holding

theorem malloc_check_spec (respected : s.Respected) (unstocked : ¬s.stocked) (sz : Nat) :
    Spec s (Holding s ∅) (mallocCheck s.env sz) (fun _ => Holding s ∅) := by
  apply meets_if
  · intro _
    exact meets_pure fun _ holding => holding
  · intro _
    apply (locked_victim_spec respected unstocked (main_malloc_spec respected (sz + 1))).bind
    intro victim
    apply (read_unless_spec victim.isSome).bind
    intro _
    exact meets_pure fun _ holding => holding

/-- `main_arena` has its top since the hooks were set. -/
def Installed (s : Setting) (world : World) : Prop :=
  Holding s ∅ world ∧ (world.arena mainArena).mdTop = true

theorem Installed.within (installed : Installed s world) :
    Within s ∅ mainArena 0 world :=
  ⟨installed.1, main_known installed.1, installed.2, fun _ => Nat.zero_le _⟩

theorem lock_installed_spec (respected : s.Respected) :
    Spec s (Installed s) (lockArena s.env site mainArena)
      (fun _ => Within s {mainArena} mainArena 0) :=
  (lock_own_spec respected).from_before fun _ installed => installed.within

theorem report_main_spec (respected : s.Respected) :
    Spec s (Within s held mainArena stock) (mallocPrinterr s.env (some mainArena))
      (fun _ => Within s held mainArena stock) :=
  malloc_printerr_spec respected carried_within (fun _ within => within.known)
    fun _ within => within.top

theorem free_check_spec (respected : s.Respected) (mem : Chunk) :
    Spec s (Installed s) (freeCheck s.env mem) (fun _ => Holding s ∅) := by
  apply meets_if
  · intro _
    exact meets_pure fun _ installed => installed.1
  · intro _
    apply (lock_installed_spec respected).bind
    intro _
    have rejected : Spec s (Within s {mainArena} mainArena 0) (do
        unlockArena s.env mainArena
        mallocPrinterr s.env (some mainArena)) (fun _ => Holding s ∅) := by
      apply (unlock_own_spec respected).bind
      intro _
      exact (report_main_spec respected).to_after fun _ _ within => within.holding
    apply arena_then
    intro arena
    apply Meets.from_before _ fun _ holds => And.left holds
    cases arena.record mem with
    | none =>
        apply read_null_spec.bind
        intro _
        exact rejected
    | some mmapped =>
        have unlocked : Spec s (Within s {mainArena} mainArena 0) (unlockArena s.env mainArena)
            (fun _ => Holding s ∅) :=
          (unlock_own_spec respected).to_after fun _ _ within => within.holding
        apply ask_if
        · exact rejected
        · apply meets_if
          · intro _
            apply munmap_chunk_spec.bind
            intro _
            have removed : Spec s (Within s {mainArena} mainArena 0)
                (unregisterChunk mainArena mem) (fun _ => Within s {mainArena} mainArena 0) :=
              unregister_chunk_spec respected carried_within mem fun _ within => within.known
            apply removed.bind
            intro _
            exact unlocked
          · intro _
            have freed : Spec s (Provided s (heldIf true mainArena) mainArena 0)
                (intFree s.env (some mainArena) none mem true)
                (fun _ => Within s (heldIf true mainArena) mainArena 0) :=
              int_free_spec respected (Nat.zero_le 7) none mem (fun _ => rfl) fun _ => rfl
            apply (freed.from_before fun _ within => Within.provided within).bind
            intro _
            exact unlocked

theorem realloc_check_mmapped_spec (respected : s.Respected) (unstocked : ¬s.stocked)
    (mem : Chunk) (bytes : Nat) :
    Spec s (Within s {mainArena} mainArena 1) (reallocCheckMmapped s.env mem bytes)
      (fun _ => Near s {mainArena} mainArena) := by
  have kept : Spec s (Near s {mainArena} mainArena) (pure ())
      (fun _ => Near s {mainArena} mainArena) := meets_pure fun _ near => near
  apply (mremap_chunk_spec respected mem).bind
  intro newp
  cases newp with
  | some newp => exact kept
  | none =>
      apply ask_if
      · exact kept
      · apply (top_check_then_spec respected unstocked (main_malloc_spec respected _)).bind
        intro newmem
        cases newmem with
        | none => exact kept
        | some newmem =>
            apply munmap_chunk_spec.bind
            intro _
            exact unregister_chunk_spec respected carried_near mem fun _ near => near.known

theorem realloc_check_locked_spec (respected : s.Respected) (unstocked : ¬s.stocked)
    (mem : Chunk) (mmapped : Bool) (bytes : Nat) :
    Spec s (Within s ∅ mainArena 0) (reallocCheckLocked s.env mem mmapped bytes)
      (fun _ => Holding s ∅) := by
  unfold reallocCheckLocked
  cases checkedRequest2size (bytes + 1) with
  | none => exact meets_pure fun _ within => within.holding
  | some nb =>
      apply (lock_own_spec respected).bind
      intro _
      apply meets_if
      · intro _
        have resized : Spec s (Within s {mainArena} mainArena 0)
            (reallocCheckMmapped s.env mem bytes) (fun _ => Near s {mainArena} mainArena) :=
          (realloc_check_mmapped_spec respected unstocked mem bytes).from_before
            fun _ within => within.unstocked unstocked 1
        apply resized.bind
        intro _
        exact unlock_main_near_spec respected
      · intro _
        have resized : Spec s (Within s {mainArena} mainArena 0)
            (topCheckThen s.env (intRealloc s.env mainArena mem nb))
            (fun _ => Near s {mainArena} mainArena) :=
          (top_check_then_spec respected unstocked
            (int_realloc_spec respected unstocked.elim mem nb)).from_before
              fun _ within => within.near
        apply resized.bind
        intro _
        exact unlock_main_near_spec respected

/-- The lock is given back when the chunk has a record. -/
theorem realloc_check_record_spec (respected : s.Respected) (unstocked : ¬s.stocked)
    (mem : Chunk) (bytes : Nat) :
    Spec s (fun world => Within s {mainArena} mainArena 0 world ∧
        (world.arena mainArena).record mem ≠ none)
      (reallocCheckRecord s.env mem bytes) (fun _ => Holding s ∅) := by
  apply arena_then
  intro arena
  cases found : arena.record mem with
  | none =>
      intro state holds
      have missing := holds.1.2
      rw [holds.2, found] at missing
      exact absurd rfl missing
  | some mmapped =>
      apply ask_then
      intro invalid
      apply ((unlock_own_spec respected).from_before fun _ holds => holds.1.1).bind
      intro _
      apply meets_if
      · intro _
        apply (report_main_spec respected).bind
        intro _
        apply ((malloc_check_spec respected unstocked bytes).from_before
          fun _ within => Within.holding within).bind
        intro _
        exact meets_pure fun _ holding => holding
      · intro _
        exact realloc_check_locked_spec respected unstocked mem mmapped bytes

/-- After `realloc_check`, the thread may have kept the lock of `main_arena`. -/
def Parted (s : Setting) (world : World) : Prop :=
  Holding s ∅ world ∨ Holding s {mainArena} world

theorem realloc_check_unrecorded_spec (mem : Chunk) (bytes : Nat) :
    Spec s (fun world => Within s {mainArena} mainArena 0 world ∧
        (world.arena mainArena).record mem = none)
      (reallocCheckRecord s.env mem bytes) (fun _ => Holding s {mainArena}) := by
  apply arena_then
  intro arena
  cases found : arena.record mem with
  | none => exact meets_pure fun _ holds => holds.1.1.holding
  | some mmapped =>
      intro state holds
      have missing := holds.1.2
      rw [holds.2, found] at missing
      cases missing

def LooksUp (mem : Chunk) (bytes : Nat) : Prop :=
  bytes + 1 ≠ 2 ^ 64 ∧ mem ≠ 0 ∧ bytes ≠ 0

theorem realloc_check_other_spec (respected : s.Respected) (unstocked : ¬s.stocked)
    (mem : Chunk) (bytes : Nat) (other : ¬LooksUp mem bytes) :
    Spec s (Installed s) (reallocCheck s.env mem bytes) (fun _ => Holding s ∅) := by
  apply meets_if
  · intro _
    exact meets_pure fun _ installed => installed.1
  · intro fits
    apply meets_if
    · intro _
      have allocated : Spec s (Installed s) (mallocCheck s.env bytes) (fun _ => Holding s ∅) :=
        (malloc_check_spec respected unstocked bytes).from_before fun _ installed => installed.1
      apply allocated.bind
      intro _
      exact meets_pure fun _ holding => holding
    · intro known
      apply meets_if
      · intro _
        exact free_check_spec respected mem
      · intro positive
        exact absurd ⟨fits, known, positive⟩ other

theorem realloc_check_eq {env : Env} {mem : Chunk} {bytes : Nat} (looks : LooksUp mem bytes) :
    reallocCheck env mem bytes = (do
      lockArena env .hooks mainArena
      reallocCheckRecord env mem bytes) := by
  rw [reallocCheck, if_neg looks.1, if_neg looks.2.1, if_neg looks.2.2]

theorem realloc_check_spec (respected : s.Respected) (unstocked : ¬s.stocked)
    (mem : Chunk) (bytes : Nat) :
    Spec s (Installed s) (reallocCheck s.env mem bytes) (fun _ => Parted s) := by
  by_cases looks : LooksUp mem bytes
  · rw [realloc_check_eq looks]
    apply (lock_installed_spec respected).bind
    intro _
    apply Meets.from_each
    intro seen within
    cases found : (seen.arena mainArena).record mem with
    | none =>
        apply (realloc_check_unrecorded_spec mem bytes).weaken
        · rintro world rfl
          exact ⟨within, found⟩
        · exact fun _ _ holding => Or.inr holding
    | some mmapped =>
        apply (realloc_check_record_spec respected unstocked mem bytes).weaken
        · rintro world rfl
          exact ⟨within, by rw [found]; exact Option.some_ne_none mmapped⟩
        · exact fun _ _ holding => Or.inl holding
  · exact (realloc_check_other_spec respected unstocked mem bytes looks).to_after
      fun _ _ holding => Or.inl holding

theorem alignment_for_spec {before : World → Prop} (alignment bytes : Nat) :
    Spec s before (alignmentFor alignment bytes) (fun _ => before) := by
  have kept (result : Option Nat) : Spec s before (pure result) (fun _ => before) :=
    meets_pure fun _ holds => holds
  apply meets_if
  · intro _
    exact kept none
  · intro _
    apply meets_if
    · intro _
      exact kept none
    · intro _
      apply meets_if
      · intro _
        exact kept _
      · intro _
        exact kept _

theorem memalign_check_spec (respected : s.Respected) (unstocked : ¬s.stocked)
    (alignment bytes : Nat) :
    Spec s (Holding s ∅) (memalignCheck s.env alignment bytes) (fun _ => Holding s ∅) := by
  apply meets_if
  · intro _
    exact malloc_check_spec respected unstocked bytes
  · intro _
    apply Meets.bind (alignment_for_spec alignment bytes)
    intro result
    cases result with
    | none => exact meets_pure fun _ holding => holding
    | some alignment =>
        have allocated : Spec s (Within s {mainArena} mainArena 1)
            (intMemalign s.env (some mainArena) alignment (bytes + 1))
            (fun _ => Near s {mainArena} mainArena) := by
          have spec : Spec s (Entered s (some mainArena))
              (intMemalign s.env (some mainArena) alignment (bytes + 1))
              (fun _ => Entered s (some mainArena)) :=
            int_memalign_spec respected unstocked.elim _ _
          exact spec.from_before fun _ within => Within.near within
        apply (locked_victim_spec respected unstocked allocated).bind
        intro victim
        apply (read_unless_spec victim.isSome).bind
        intro _
        exact meets_pure fun _ holding => holding

/-! ## The public wrappers -/

theorem unlock_av_spec (respected : s.Respected) :
    Spec s (Entered s av) (unlockAv s.env av) (fun _ => Holding s ∅) := by
  cases av with
  | none => exact meets_pure fun _ holding => holding
  | some a => exact (unlock_near_spec respected).to_after fun _ _ near => near.holding

theorem then_unlock_spec (respected : s.Respected) {routine : M (Option Victim)}
    (spec : Spec s (Entered s av) routine (fun _ => Entered s av)) :
    Spec s (Entered s av) (do
      let victim ← routine
      unlockAv s.env av
      return victim) (fun _ => Holding s ∅) := by
  apply spec.bind
  intro victim
  apply (unlock_av_spec respected).bind
  intro _
  exact meets_pure fun _ holding => holding

theorem entered_malloc_spec (respected : s.Respected) (bytes : Nat) :
    Spec s (Entered s av) (intMalloc s.env av bytes) (fun _ => Entered s av) :=
  (int_malloc_spec respected bytes).to_after fun _ _ allotted => allotted.entered

theorem retry_spec (respected : s.Respected) {routine : Option ArenaId → M (Option Victim)}
    (spec : ∀ av, Spec s (Entered s av) (routine av) (fun _ => Entered s av)) :
    Spec s (Near s {a} a) (do
      let av ← arenaGetRetry s.env site a
      let victim ← routine av
      unlockAv s.env av
      return victim) (fun _ => Holding s ∅) := by
  apply (arena_get_retry_spec respected).bind
  intro av
  exact then_unlock_spec respected (spec av)

theorem malloc_body_spec (respected : s.Respected) (bytes : Nat) :
    Spec s (Holding s ∅) (mallocBody s.env bytes) (fun _ => Holding s ∅) := by
  apply (arena_get_spec respected).bind
  intro av
  cases av with
  | none => exact entered_malloc_spec respected bytes
  | some a =>
      apply (entered_malloc_spec respected bytes).bind
      intro victim
      cases victim with
      | some victim =>
          apply (unlock_av_spec respected).bind
          intro _
          exact meets_pure fun _ holding => holding
      | none => exact retry_spec respected fun av => entered_malloc_spec respected bytes

/-- The hooks are read by a thread whose call has a full reserve only if they are off. -/
theorem unstocked_of_hooked (holding : Holding s held world) (hooked : world.Hooked) :
    ¬s.stocked :=
  fun stocked => holding.unhooked stocked hooked

theorem malloc_checked_spec (respected : s.Respected) (bytes : Nat) {seen : World}
    (check : seen.mallocHook = .check) :
    Spec s (fun world => Holding s ∅ world ∧ world = seen) (mallocCheck s.env bytes)
      (fun _ => Holding s ∅) := by
  apply Meets.assume (fun world holds =>
    unstocked_of_hooked holds.1 (Or.inl (by rw [holds.2, check])))
  intro unstocked
  exact (malloc_check_spec respected unstocked bytes).from_before fun _ holds => holds.1

/-- `malloc_hook_ini` and its like take their hook down first. -/
theorem unhook_spec (respected : s.Respected) (change : World → World)
    (rewired : ∀ world, Arranged s.tuned world → Rewired world (change world))
    (quiet : ∀ world, (change world).Hooked → world.Hooked) :
    Spec s (Holding s ∅) (modifyWorld change) (fun _ => Holding s ∅) := by
  apply change_spec
  intro world holding
  apply holding.rewire respected (rewired world holding.arranged)
  intro stocked hooked
  exact holding.unhooked stocked (quiet world hooked)

theorem malloc_unhooked_spec (respected : s.Respected) :
    Spec s (Holding s ∅) (modifyWorld fun world => { world with mallocHook := .null })
      (fun _ => Holding s ∅) := by
  have quiet (world : World) (hooked : { world with mallocHook := Hook.null }.Hooked) :
      world.Hooked :=
    Or.inr (hooked.resolve_left (by simp))
  apply unhook_spec respected _ _ quiet
  intro world arranged
  exact hooks_rewired arranged .null world.freeHook world.reallocHook world.memalignHook
    world.mallocInitialized fun hooked => arranged.hooks (quiet world hooked)

theorem malloc_rounds_spec (respected : s.Respected) (rounds bytes : Nat) :
    Spec s (Holding s ∅) (mallocRounds s.env rounds bytes) (fun _ => Holding s ∅) := by
  induction rounds with
  | zero => exact halt_spec trivial
  | succ rounds ih =>
      apply world_then
      intro seen
      have before : ∀ world, Holding s ∅ world ∧ world = seen → Holding s ∅ world :=
        fun _ holds => holds.1
      cases hook : seen.mallocHook with
      | null => exact (malloc_body_spec respected bytes).from_before before
      | check => exact malloc_checked_spec respected bytes hook
      | ini =>
          apply ((malloc_unhooked_spec respected).from_before before).bind
          intro _
          apply (ptmalloc_init_spec respected).bind
          intro _
          exact ih
      | atfork =>
          apply ((wait_spec (waits_holding respected)).from_before before).bind
          intro _
          exact ih

theorem libc_malloc_spec (respected : s.Respected) (bytes : Nat) :
    Spec s (Holding s ∅) (libcMalloc s.env bytes) (fun _ => Holding s ∅) :=
  malloc_rounds_spec respected s.env.rounds bytes

theorem require_record_spec {before : World → Prop} (p : Chunk) {why : Halt}
    (allowed : s.Allows why) :
    Spec s before (requireRecord p why) (fun _ => before) := by
  apply arena_then
  intro arena
  apply meets_if
  · intro _
    exact meets_pure fun _ holds => holds.1
  · intro _
    exact halt_spec allowed

theorem free_unlocked_spec (respected : s.Respected) (index : Nat) (mem : Chunk) :
    Spec s (Holding s ∅) (do
      intFree s.env (some (← arenaFromIndex index)) none mem false) (fun _ => Holding s ∅) := by
  apply (arena_from_index_spec index).bind
  intro a
  have freed : Spec s (Provided s (heldIf false a) a 0) (intFree s.env (some a) none mem false)
      (fun _ => Within s (heldIf false a) a 0) :=
    int_free_spec respected (Nat.zero_le 7) none mem (fun _ => rfl) fun _ => rfl
  apply freed.weaken
  · exact fun _ near => ⟨near, fun _ _ => Nat.zero_le _⟩
  · exact fun _ _ within => within.holding

theorem unregister_main_spec (respected : s.Respected) (p : Chunk) :
    Spec s (Near s {mainArena} mainArena) (unregisterChunk mainArena p)
      (fun _ => Near s {mainArena} mainArena) :=
  unregister_chunk_spec respected carried_near p fun _ near => near.known

theorem free_body_spec (respected : s.Respected) (mem : Chunk) :
    Spec s (Holding s ∅) (freeBody s.env mem) (fun _ => Holding s ∅) := by
  apply meets_if
  · intro _
    exact meets_pure fun _ holding => holding
  · intro _
    apply number_then
    intro index
    apply meets_if
    · intro _
      apply (lock_main_near_spec respected).bind
      intro _
      apply (require_record_spec mem (show s.Allows .abort from trivial)).bind
      intro _
      apply munmap_chunk_spec.bind
      intro _
      apply (unregister_main_spec respected mem).bind
      intro _
      exact unlock_main_near_spec respected
    · intro _
      exact free_unlocked_spec respected index mem

theorem free_atfork_spec (respected : s.Respected) (mem : Chunk) :
    Spec s (Holding s ∅) (freeAtfork s.env mem) (fun _ => Holding s ∅) := by
  apply meets_if
  · intro _
    exact meets_pure fun _ holding => holding
  · intro _
    apply number_then
    intro index
    apply meets_if
    · intro _
      apply (require_record_spec mem (show s.Allows .segfault from trivial)).bind
      intro _
      exact munmap_chunk_spec
    · intro _
      exact free_unlocked_spec respected index mem

theorem installed_of_hooked (holding : Holding s ∅ world) (hooked : world.Hooked) :
    Installed s world :=
  ⟨holding, holding.arranged.hooks hooked⟩

theorem libc_free_spec (respected : s.Respected) (mem : Chunk) :
    Spec s (Holding s ∅) (libcFree s.env mem) (fun _ => Holding s ∅) := by
  apply world_then
  intro seen
  have before : ∀ world, Holding s ∅ world ∧ world = seen → Holding s ∅ world :=
    fun _ holds => holds.1
  cases hook : seen.freeHook with
  | null => exact (free_body_spec respected mem).from_before before
  | ini => exact (free_body_spec respected mem).from_before before
  | atfork => exact (free_atfork_spec respected mem).from_before before
  | check =>
      apply (free_check_spec respected mem).from_before
      intro world holds
      exact installed_of_hooked holds.1 (Or.inr (Or.inl (by rw [holds.2, hook])))

theorem calloc_retry_spec (respected : s.Respected) (sz : Nat) :
    Spec s (Near s {a} a) (callocRetry s.env a sz) (fun _ => Holding s ∅) := by
  apply read_null_spec.bind
  intro _
  apply (arena_get_retry_spec respected).bind
  intro av
  apply (entered_malloc_spec respected sz).bind
  intro victim
  apply (read_unless_spec victim.isSome).bind
  intro _
  apply (unlock_av_spec respected).bind
  intro _
  exact meets_pure fun _ holding => holding

theorem replenish_kept_spec (respected : s.Respected) :
    Spec s (Near s held a) (replenishMetadataCache s.env a) (fun _ => Near s held a) :=
  (replenish_near_spec respected).to_after fun _ _ provided => provided.near

theorem given_up_spec (respected : s.Respected) :
    Spec s (Near s {a} a) (do
      unlockArena s.env a
      return none : M (Option Victim)) (fun _ => Holding s ∅) := by
  apply (unlock_near_spec respected).bind
  intro _
  exact meets_pure fun _ near => near.holding

theorem handed_out_spec (respected : s.Respected) (victim : Victim) :
    Spec s (Entered s (some a)) (do
      unlockArena s.env a
      return some victim : M (Option Victim)) (fun _ => Holding s ∅) := by
  apply Meets.bind (unlock_near_spec respected)
  intro _
  exact meets_pure fun _ near => near.holding

theorem calloc_body_spec (respected : s.Respected) (sz : Nat) :
    Spec s (Holding s ∅) (callocBody s.env sz) (fun _ => Holding s ∅) := by
  apply (arena_get_spec respected).bind
  intro av
  cases av with
  | none =>
      apply (entered_malloc_spec respected sz).bind
      intro victim
      apply (read_unless_spec victim.isSome).bind
      intro _
      exact meets_pure fun _ holding => holding
  | some a =>
      apply Meets.bind (replenish_kept_spec respected)
      intro ok
      apply meets_if
      · intro _
        apply arena_then
        intro arena
        apply (read_unless_spec arena.mdTop).bind
        intro _
        have allocated : Spec s (fun world => Near s {a} a world ∧ world.arena a = arena)
            (intMalloc s.env (some a) sz) (fun _ => Entered s (some a)) :=
          (entered_malloc_spec respected sz).from_before fun _ holds => holds.1
        apply allocated.bind
        intro victim
        cases victim with
        | some victim => exact handed_out_spec respected victim
        | none => exact calloc_retry_spec respected sz
      · intro _
        exact given_up_spec respected

theorem libc_calloc_spec (respected : s.Respected) (n elemSize : Nat) :
    Spec s (Holding s ∅) (libcCalloc s.env n elemSize) (fun _ => Holding s ∅) := by
  apply meets_if
  · intro _
    exact meets_pure fun _ holding => holding
  · intro _
    apply world_then
    intro seen
    have before : ∀ world, Holding s ∅ world ∧ world = seen → Holding s ∅ world :=
      fun _ holds => holds.1
    cases seen.mallocHook with
    | null => exact (calloc_body_spec respected _).from_before before
    | ini => exact (libc_malloc_spec respected _).from_before before
    | check => exact (libc_malloc_spec respected _).from_before before
    | atfork => exact (libc_malloc_spec respected _).from_before before

theorem memalign_body_spec (respected : s.Respected) (kind : s.stocked → s.kind = .memalign)
    (alignment bytes : Nat) :
    Spec s (Holding s ∅) (memalignBody s.env alignment bytes) (fun _ => Holding s ∅) := by
  apply (arena_get_spec respected).bind
  intro av
  cases av with
  | none => exact int_memalign_spec respected kind alignment bytes
  | some a =>
      apply Meets.bind (replenish_kept_spec respected)
      intro ok
      apply meets_if
      · intro _
        have allocated : Spec s (Entered s (some a)) (intMemalign s.env (some a) alignment bytes)
            (fun _ => Entered s (some a)) := int_memalign_spec respected kind alignment bytes
        apply allocated.bind
        intro victim
        cases victim with
        | some victim => exact handed_out_spec respected victim
        | none =>
            exact retry_spec respected fun av => int_memalign_spec respected kind alignment bytes
      · intro _
        exact given_up_spec respected

theorem mid_memalign_unhooked_spec (respected : s.Respected)
    (kind : s.stocked → s.kind = .memalign) (alignment bytes : Nat) :
    Spec s (Holding s ∅) (midMemalignUnhooked s.env alignment bytes) (fun _ => Holding s ∅) := by
  apply meets_if
  · intro _
    exact libc_malloc_spec respected bytes
  · intro _
    apply Meets.bind (alignment_for_spec alignment bytes)
    intro result
    cases result with
    | none => exact meets_pure fun _ holding => holding
    | some alignment => exact memalign_body_spec respected kind alignment bytes

theorem memalign_checked_spec (respected : s.Respected) (alignment bytes : Nat) {seen : World}
    (check : seen.memalignHook = .check) :
    Spec s (fun world => Holding s ∅ world ∧ world = seen) (memalignCheck s.env alignment bytes)
      (fun _ => Holding s ∅) := by
  apply Meets.assume (fun world holds =>
    unstocked_of_hooked holds.1 (Or.inr (Or.inr (Or.inr (by rw [holds.2, check])))))
  intro unstocked
  exact (memalign_check_spec respected unstocked alignment bytes).from_before
    fun _ holds => holds.1

theorem mid_memalign_spec (respected : s.Respected) (kind : s.stocked → s.kind = .memalign)
    (alignment bytes : Nat) :
    Spec s (Holding s ∅) (midMemalign s.env alignment bytes) (fun _ => Holding s ∅) := by
  have before {seen : World} : ∀ world, Holding s ∅ world ∧ world = seen → Holding s ∅ world :=
    fun _ holds => holds.1
  apply world_then
  intro seen
  cases hook : seen.memalignHook with
  | null => exact (mid_memalign_unhooked_spec respected kind alignment bytes).from_before before
  | atfork => exact (mid_memalign_unhooked_spec respected kind alignment bytes).from_before before
  | check => exact memalign_checked_spec respected alignment bytes hook
  | ini =>
      have quiet (world : World) (hooked : { world with memalignHook := Hook.null }.Hooked) :
          world.Hooked := by
        rcases hooked with malloc | free | realloc | memalign
        · exact Or.inl malloc
        · exact Or.inr (Or.inl free)
        · exact Or.inr (Or.inr (Or.inl realloc))
        · cases memalign
      have unhooked : Spec s (Holding s ∅)
          (modifyWorld fun world => { world with memalignHook := Hook.null })
          (fun _ => Holding s ∅) := by
        apply unhook_spec respected _ _ quiet
        intro world arranged
        exact hooks_rewired arranged world.mallocHook world.freeHook world.reallocHook .null
          world.mallocInitialized fun hooked => arranged.hooks (quiet world hooked)
      apply (unhooked.from_before before).bind
      intro _
      apply (ptmalloc_init_spec respected).bind
      intro _
      apply world_then
      intro seen
      apply meets_if
      · intro check
        exact memalign_checked_spec respected alignment bytes check
      · intro _
        exact (mid_memalign_unhooked_spec respected kind alignment bytes).from_before before

/-! ### `__libc_realloc` -/

theorem realloc_copy_spec (respected : s.Respected) (mem : Chunk) (bytes : Nat) :
    Spec s (Holding s ∅) (reallocCopy s.env mem bytes) (fun _ => Holding s ∅) := by
  apply (libc_malloc_spec respected bytes).bind
  intro newmem
  cases newmem with
  | none => exact meets_pure fun _ holding => holding
  | some newmem =>
      apply munmap_chunk_spec.bind
      intro _
      apply (lock_main_near_spec respected).bind
      intro _
      apply (unregister_main_spec respected mem).bind
      intro _
      exact unlock_main_near_spec respected

/-- A mapped chunk has its record in `main_arena`, whose lock is held already. -/
theorem realloc_mmapped_spec (respected : s.Respected) (mem : Chunk) (bytes : Nat) :
    Spec s (Within s {mainArena} mainArena 1) (reallocMmapped s.env mainArena mem bytes)
      (fun _ => Holding s ∅) := by
  have entered : Spec s (Within s {mainArena} mainArena 1)
      (enterMain s.env .realloc (some mainArena)) (fun _ => Within s {mainArena} mainArena 1) :=
    meets_pure fun _ within => within
  have left : Spec s (Near s {mainArena} mainArena)
      (leaveMain s.env .realloc (some mainArena)) (fun _ => Near s {mainArena} mainArena) :=
    meets_pure fun _ near => near
  apply entered.bind
  intro _
  apply (mremap_chunk_spec respected mem).bind
  intro newp
  cases newp with
  | some newp => exact unlock_main_near_spec respected
  | none =>
      apply left.bind
      intro _
      apply (unlock_main_near_spec respected).bind
      intro _
      apply ask_if
      · exact meets_pure fun _ holding => holding
      · exact realloc_copy_spec respected mem bytes

theorem lasting_arena (a : ArenaId) : Lasting fun world => a < world.arenaCount :=
  fun _ _ since known => Nat.lt_of_lt_of_le known since.known

theorem realloc_elsewhere_spec (respected : s.Respected) (mem : Chunk) (bytes : Nat) :
    Spec s (Near s ∅ a) (reallocElsewhere s.env a mem bytes) (fun _ => Holding s ∅) := by
  have knowing := respected.knowing (lasting_arena a)
  have allocated : Spec s (Near s ∅ a) (libcMalloc s.env bytes) (fun _ => Near s ∅ a) := by
    apply Meets.weaken (libc_malloc_spec knowing bytes)
    · exact fun _ near => near.holding.knowing near.known
    · exact fun _ _ holding => ⟨holding.forget, holding.fact.2⟩
  apply allocated.bind
  intro newmem
  cases newmem with
  | none => exact meets_pure fun _ near => near.holding
  | some newmem =>
      have freed : Spec s (Provided s (heldIf false a) a 0)
          (intFree s.env (some a) (some false) mem false)
          (fun _ => Within s (heldIf false a) a 0) :=
        int_free_spec respected (Nat.zero_le 7) (some false) mem (fun _ => rfl) fun _ => rfl
      apply freed.weaken
      · exact fun _ near => ⟨near, fun _ _ => Nat.zero_le _⟩
      · exact fun _ _ within => within.holding

theorem realloc_heap_spec (respected : s.Respected) (kind : s.stocked → s.kind = .realloc)
    (mem : Chunk) (bytes nb : Nat) :
    Spec s (Within s {a} a 1) (reallocHeap s.env a mem bytes nb) (fun _ => Holding s ∅) := by
  apply (int_realloc_spec respected kind mem nb).bind
  intro newp
  apply (read_unless_spec newp.isSome).bind
  intro _
  apply (unlock_near_spec respected).bind
  intro _
  apply meets_if
  · intro _
    exact meets_pure fun _ near => near.holding
  · intro _
    exact realloc_elsewhere_spec respected mem bytes

theorem realloc_record_spec (respected : s.Respected) (kind : s.stocked → s.kind = .realloc)
    {mmapped : Bool} (mem : Chunk) (bytes : Nat) (owner : mmapped = true → a = mainArena) :
    Spec s (Within s {a} a 0) (reallocRecord s.env a mem mmapped bytes)
      (fun _ => Holding s ∅) := by
  have unlocked (stock : Nat) : Spec s (Within s {a} a stock) (unlockArena s.env a)
      (fun _ => Holding s ∅) :=
    (unlock_own_spec respected).to_after fun _ _ within => within.holding
  apply (replenish_spec (within_reserve respected)).bind
  intro ok
  apply meets_if
  · intro succeeded
    rw [succeeded]
    apply ask_if
    · have reported : Spec s (Within s {a} a metadataCacheSize) (mallocPrinterr s.env (some a))
          (fun _ => Within s {a} a metadataCacheSize) :=
        malloc_printerr_spec respected carried_within (fun _ within => within.known)
          fun _ within => within.top
      apply reported.bind
      intro _
      exact unlocked _
    · cases checkedRequest2size bytes with
      | none => exact unlocked _
      | some nb =>
          have lower : ∀ world, Within s {a} a metadataCacheSize world → Within s {a} a 1 world :=
            fun _ within => within.lower (by decide)
          apply meets_if
          · intro mapped
            have main := owner mapped
            subst main
            exact (realloc_mmapped_spec respected mem bytes).from_before lower
          · intro _
            exact (realloc_heap_spec respected kind mem bytes nb).from_before lower
  · intro _
    exact unlocked _

theorem Near.within_of_record {record : Bool} {p : Chunk} (near : Near s held a world)
    (found : (world.arena a).record p = some record) : Within s held a 0 world := by
  refine ⟨near.holding, near.known, ?_, fun _ => Nat.zero_le _⟩
  cases near.ready_or with
  | inl ready => exact ready.mdTop
  | inr dormant =>
      rw [dormant.1, dormant.2.unused.record] at found
      cases found

theorem realloc_body_spec (respected : s.Respected) (kind : s.stocked → s.kind = .realloc)
    (mem : Chunk) (bytes : Nat) :
    Spec s (Holding s ∅) (reallocBody s.env mem bytes) (fun _ => Holding s ∅) := by
  apply meets_if
  · intro _
    exact libc_free_spec respected mem
  · intro _
    apply meets_if
    · intro _
      apply (libc_malloc_spec respected bytes).bind
      intro _
      exact meets_pure fun _ holding => holding
    · intro _
      apply number_then
      intro index
      apply (arena_from_index_spec index).bind
      intro a
      apply (lock_near_spec respected).bind
      intro _
      apply arena_then
      intro arena
      cases found : arena.record mem with
      | none => exact halt_spec trivial
      | some mmapped =>
          have owned (world : World) (holds : Near s {a} a world ∧ world.arena a = arena)
              (mapped : mmapped = true) : a = mainArena := by
            by_contra other
            rw [← holds.2, mapped] at found
            exact holds.1.holding.arranged.unmapped a holds.1.known other mem found
          apply Meets.assume owned
          · intro owner
            apply (realloc_record_spec respected kind mem bytes owner).from_before
            intro world holds
            rw [← holds.2] at found
            exact holds.1.within_of_record found

theorem realloc_checked_spec (respected : s.Respected) (mem : Chunk) (bytes : Nat) {seen : World}
    (check : seen.reallocHook = .check) :
    Spec s (fun world => Holding s ∅ world ∧ world = seen) (reallocCheck s.env mem bytes)
      (fun _ => Parted s) := by
  have hooked (world : World) (holds : Holding s ∅ world ∧ world = seen) : world.Hooked :=
    Or.inr (Or.inr (Or.inl (by rw [holds.2, check])))
  apply Meets.assume (fun world holds => unstocked_of_hooked holds.1 (hooked world holds))
  intro unstocked
  apply (realloc_check_spec respected unstocked mem bytes).from_before
  exact fun world holds => installed_of_hooked holds.1 (hooked world holds)

theorem realloc_hook_ini_spec (respected : s.Respected) :
    Spec s (Holding s ∅) (reallocHookIni s.env) (fun _ => Holding s ∅) := by
  have quiet (world : World)
      (hooked : { world with mallocHook := Hook.null, reallocHook := Hook.null }.Hooked) :
      world.Hooked := by
    rcases hooked with malloc | free | realloc | memalign
    · cases malloc
    · exact Or.inr (Or.inl free)
    · cases realloc
    · exact Or.inr (Or.inr (Or.inr memalign))
  have unhooked : Spec s (Holding s ∅)
      (modifyWorld fun world => { world with mallocHook := .null, reallocHook := .null })
      (fun _ => Holding s ∅) := by
    apply unhook_spec respected _ _ quiet
    intro world arranged
    exact hooks_rewired arranged .null world.freeHook .null world.memalignHook
      world.mallocInitialized fun hooked => arranged.hooks (quiet world hooked)
  apply unhooked.bind
  intro _
  exact ptmalloc_init_spec respected

theorem realloc_plain_spec (respected : s.Respected) (kind : s.stocked → s.kind = .realloc)
    (mem : Chunk) (bytes : Nat) {seen : World} :
    Spec s (fun world => Holding s ∅ world ∧ world = seen) (reallocBody s.env mem bytes)
      (fun _ => Parted s) :=
  (realloc_body_spec respected kind mem bytes).weaken (fun _ holds => holds.1)
    fun _ _ holding => Or.inl holding

theorem realloc_unhooked_spec (respected : s.Respected) (kind : s.stocked → s.kind = .realloc)
    (mem : Chunk) (bytes : Nat) :
    Spec s (Holding s ∅) (reallocUnhooked s.env mem bytes) (fun _ => Parted s) := by
  apply world_then
  intro seen
  apply meets_if
  · intro check
    exact realloc_checked_spec respected mem bytes check
  · intro _
    exact realloc_plain_spec respected kind mem bytes

theorem libc_realloc_spec (respected : s.Respected) (kind : s.stocked → s.kind = .realloc)
    (mem : Chunk) (bytes : Nat) :
    Spec s (Holding s ∅) (libcRealloc s.env mem bytes) (fun _ => Parted s) := by
  apply world_then
  intro seen
  cases hook : seen.reallocHook with
  | null => exact realloc_plain_spec respected kind mem bytes
  | atfork => exact realloc_plain_spec respected kind mem bytes
  | check => exact realloc_checked_spec respected mem bytes hook
  | ini =>
      apply ((realloc_hook_ini_spec respected).from_before fun _ holds => holds.1).bind
      intro _
      exact realloc_unhooked_spec respected kind mem bytes

end SriGlibcMalloc.EntryPoints
