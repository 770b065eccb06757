import SriGlibcMalloc.Bins.BestFit
import SriGlibcMalloc.Bins.SkipRingRun
import SriGlibcMalloc.Transition.Trace

/-!
# The free chunks over whole runs

No free chunk gets lost or doubled: what each action does to the free chunks is what it says, and
every search is by best fit.
-/

namespace SriGlibcMalloc.Bins

open CircularList EntryPoints Transition

set_option autoImplicit false

variable {arena next : Arena} {chunk : FreeChunk} {linkage : Linkage}

/-- What an action does to the free chunks, by how often each is there. -/
def Keeps : Action → (FreeChunk → Nat) → (FreeChunk → Nat) → Prop
  | .free chunk, before, after =>
      ∀ other, after other = before other + if other = chunk then 1 else 0
  | .unlink _ chunk, before, after | .unlinkUnsorted chunk, before, after =>
      ∀ other, after other + (if other = chunk then 1 else 0) = before other
  | .takeSmall nb, before, after | .sortUnsorted nb, before, after
  | .takeBestFit nb, before, after | .takeScanned nb, before, after =>
      ∃ answer, Delivers nb before after answer
  | _, before, after => after = before

theorem Linkage.Sound.in_order (sound : linkage.Sound) : Ordered linkage.arena :=
  fun _ large => (sound.exact large).ordered

theorem turn_keeps {action : Action} (sound : linkage.Sound) (proper : linkage.Proper action)
    (moved : turn linkage.arena action = some next) :
    Keeps action (binnedCount linkage.arena) (binnedCount next) := by
  have binned := sound.binned
  have ordered := sound.in_order
  cases action with
  | free chunk =>
      cases moved
      intro other
      unfold binnedCount
      dsimp only
      rw [count_first]
      omega
  | freeFast maxFast chunk =>
      unfold turn Bins.step at moved
      dsimp only at moved
      split_ifs at moved
      cases moved
      rfl
  | unlink index chunk =>
      cases moved
      exact set_bin_removes (binned.placed index chunk proper.2).2 (count_erase_member proper.2)
  | unlinkUnsorted chunk =>
      cases moved
      intro other
      have removed := count_erase_member proper other
      unfold binnedCount
      dsimp only
      omega
  | consolidateFast index =>
      cases moved
      rfl
  | setTop top systemMem =>
      cases moved
      rfl
  | reuseRecord lastRemainder =>
      cases moved
      rfl
  | takeFast maxFast nb =>
      obtain ⟨⟨answer, after⟩, taken, same⟩ := Option.map_eq_some_iff.mp moved
      cases same
      obtain ⟨bins, unsorted⟩ := take_fast_same taken
      change binnedCount after = binnedCount linkage.arena
      unfold binnedCount
      rw [bins, unsorted]
  | takeSmall nb =>
      obtain ⟨bytes, requested⟩ := proper
      rcases taken : linkage.arena.takeSmall nb with ⟨answer, after⟩
      change some (linkage.arena.takeSmall nb).2 = _ at moved
      rw [taken] at moved
      cases moved
      obtain ⟨nothing, something⟩ := take_small_spec binned (request_chunk_size requested) taken
      refine ⟨answer, delivers_of (fun absent => ?_) fun found same => ?_⟩
      · rw [(nothing absent).1]
      · exact ⟨found, (something found same).2⟩
  | sortUnsorted nb =>
      obtain ⟨bytes, requested⟩ := proper
      have request := request_chunk_size requested
      obtain ⟨⟨answer, after⟩, sorted, same⟩ := Option.map_eq_some_iff.mp moved
      cases same
      refine ⟨answer, delivers_of (fun absent => ?_) fun found same => ?_⟩
      · rw [absent] at sorted
        exact (sort_unsorted_sorts binned ordered request sorted).counts
      · rw [same] at sorted
        obtain ⟨victim, takes, _⟩ := sort_unsorted_takes binned ordered request sorted
        exact ⟨victim, takes⟩
  | takeBestFit nb =>
      obtain ⟨bytes, requested⟩ := proper
      rcases taken : linkage.arena.takeBestFit nb with ⟨answer, after⟩
      change some (linkage.arena.takeBestFit nb).2 = _ at moved
      rw [taken] at moved
      cases moved
      obtain ⟨nothing, something⟩ :=
        take_best_fit_spec binned ordered (request_chunk_size requested) taken
      refine ⟨answer, delivers_of (fun absent => ?_) fun found same => ?_⟩
      · rw [(nothing absent).1]
      · obtain ⟨victim, takes, _⟩ := something found same
        exact ⟨victim, takes⟩
  | takeScanned nb =>
      obtain ⟨bytes, requested⟩ := proper
      obtain ⟨⟨answer, after⟩, taken, same⟩ := Option.map_eq_some_iff.mp moved
      cases same
      obtain ⟨nothing, something⟩ :=
        take_scanned_spec binned ordered (request_chunk_size requested) taken
      refine ⟨answer, delivers_of (fun absent => (nothing absent).1) fun found same => ?_⟩
      obtain ⟨victim, takes, _⟩ := something found same
      exact ⟨victim, takes⟩
  | useTop nb =>
      cases moved
      have same : binnedCount (linkage.arena.useTop nb).2 = binnedCount linkage.arena := by
        unfold Arena.useTop
        split_ifs <;> rfl
      exact same

theorem Binned.listed (binned : Binned arena) (present : 0 < binnedCount arena chunk) :
    ∃ i, chunk ∈ arena.lists i := by
  by_cases waiting : chunk ∈ arena.unsorted
  · exact ⟨1, (lists_unsorted arena).symm ▸ waiting⟩
  · unfold binnedCount at present
    rw [List.count_eq_zero_of_not_mem waiting, Nat.zero_add] at present
    have member := List.count_pos_iff.mp present
    have bin := (bin_index_bounds (binned.placed _ chunk member).1.size).1
    exact ⟨_, (lists_bin bin).symm ▸ member⟩

theorem Linkage.Sound.apart {first second : FreeChunk} (sound : linkage.Sound)
    (present : 0 < binnedCount linkage.arena first)
    (present' : 0 < binnedCount linkage.arena second) :
    first = second ∨ first.Separate second := by
  obtain ⟨i, member⟩ := sound.binned.listed present
  obtain ⟨j, member'⟩ := sound.binned.listed present'
  exact (sound.follows.separate i j first second member member').imp_left And.right

theorem Linkage.Sound.once (sound : linkage.Sound) (chunk : FreeChunk) :
    binnedCount linkage.arena chunk ≤ 1 := by
  have follows := sound.follows
  have waiting := follows.nodup 1
  rw [lists_unsorted] at waiting
  have sorted := List.nodup_iff_count_le_one.mp waiting chunk
  unfold binnedCount
  by_cases member : chunk ∈ linkage.arena.bins (binIndex chunk.size)
  · have valid := (sound.binned.placed _ chunk member).1
    have bin : 1 < binIndex chunk.size := (bin_index_bounds valid.size).1
    have nodup := follows.nodup (binIndex chunk.size)
    rw [lists_bin bin] at nodup
    have absent : chunk ∉ linkage.arena.unsorted := by
      intro other
      rw [← lists_bin bin] at member
      rw [← lists_unsorted] at other
      have minimal := valid.size.minimal
      simp only [minSize] at minimal
      rcases follows.separate _ _ chunk chunk other member with ⟨same, _⟩ | before | behind
        <;> omega
    rw [List.count_eq_zero_of_not_mem absent, Nat.zero_add]
    exact List.nodup_iff_count_le_one.mp nodup chunk
  · rw [List.count_eq_zero_of_not_mem member, Nat.add_zero]
    exact sorted

theorem linkage_step_keeps (linkage : Linkage) (action : Action) (after : Linkage)
    (sound : linkage.Sound) (allowed : linkage.Proper action ∧ linkage.Careful action)
    (moved : linkage.step action = some after) :
    after.Sound ∧ Keeps action (binnedCount linkage.arena) (binnedCount after.arena) := by
  obtain ⟨next, turned, _⟩ := Option.bind_eq_some_iff.mp moved
  obtain ⟨after', stepped, same, sound'⟩ := step_sound linkage action next sound allowed turned
  rw [moved] at stepped
  cases stepped
  rw [same]
  exact ⟨sound', turn_keeps sound allowed.1 turned⟩

theorem careful_run_sound (initialTop : Nat) (actions : List Action) (linkage : Linkage)
    (permitted : Permitted Linkage.step
      (fun linkage action => linkage.Proper action ∧ linkage.Careful action)
      (Linkage.initial initialTop) actions)
    (ran : run Linkage.step (Linkage.initial initialTop) actions = some linkage) :
    linkage.Sound ∧ Traced Keeps (fun _ => 0) actions (binnedCount linkage.arena) :=
  run_traced linkage_step_keeps actions (Linkage.initial initialTop) linkage
    (initial_sound initialTop) permitted ran

/-- In every run in which no exposed chunk is unlinked, each action adds and removes the free
chunks that it names and no others, a search only the one that it takes and the remainder; and
the pointers read the lists, on which each chunk is once and none overlaps another. -/
theorem careful_run_keeps_chunks (initialTop : Nat) (actions : List Action) (linkage : Linkage)
    (permitted : Permitted Linkage.step
      (fun linkage action => linkage.Proper action ∧ linkage.Careful action)
      (Linkage.initial initialTop) actions)
    (ran : run Linkage.step (Linkage.initial initialTop) actions = some linkage) :
    Traced Keeps (fun _ => 0) actions (binnedCount linkage.arena) ∧
      (∀ chunk, binnedCount linkage.arena chunk ≤ 1) ∧
      (∀ first second, 0 < binnedCount linkage.arena first →
        0 < binnedCount linkage.arena second → first = second ∨ first.Separate second) ∧
      ∀ index, Ring linkage.links.fd linkage.links.bk
        (records index (linkage.arena.lists index)) := by
  obtain ⟨sound, traced⟩ := careful_run_sound initialTop actions linkage permitted ran
  exact ⟨traced, sound.once, fun _ _ present => sound.apart present,
    fun index => (sound.follows.listed index).reads⟩

theorem freed_keeps_chunks : ∃ linkage,
    run Linkage.step (Linkage.initial 0x500000) freedActions = some linkage ∧
      Traced Keeps (fun _ => 0) freedActions (binnedCount linkage.arena) ∧
      (∀ chunk, binnedCount linkage.arena chunk ≤ 1) ∧
      (∀ first second, 0 < binnedCount linkage.arena first →
        0 < binnedCount linkage.arena second → first = second ∨ first.Separate second) ∧
      ∀ index, Ring linkage.links.fd linkage.links.bk
        (records index (linkage.arena.lists index)) := by
  obtain ⟨linkage, ran, _⟩ := Option.map_eq_some_iff.mp freed_bin
  exact ⟨linkage, ran,
    careful_run_keeps_chunks 0x500000 freedActions linkage freed_permitted ran⟩

/-- In every state that such a run reaches a search goes through its parts and is by best fit,
and it ends unless an unsorted chunk is larger than the arena. -/
theorem search_is_best_fit (initialTop bytes nb : Nat) (actions : List Action) (linkage : Linkage)
    (permitted : Permitted Linkage.step
      (fun linkage action => linkage.Proper action ∧ linkage.Careful action)
      (Linkage.initial initialTop) actions)
    (ran : run Linkage.step (Linkage.initial initialTop) actions = some linkage)
    (requested : checkedRequest2size bytes = some nb) :
    (∀ answer next, linkage.arena.findChunk nb = some (answer, next) →
      BestFit nb linkage.arena next answer ∧
        ∃ turns ≤ maxIters, ∃ parts, parts <+: searchParts nb turns ∧
          run turn linkage.arena parts = some next) ∧
      ((∀ chunk ∈ linkage.arena.unsorted, chunk.size < linkage.arena.systemMem) →
        linkage.arena.findChunk nb ≠ none) := by
  have sound := (careful_run_sound initialTop actions linkage permitted ran).1
  have request := request_chunk_size requested
  constructor
  · intro answer next searched
    exact ⟨find_chunk_best_fit sound.binned sound.in_order request searched,
      find_chunk_run searched⟩
  · exact find_chunk_ends sound.binned sound.in_order request

theorem freed_search_best_fit : ∃ linkage,
    run Linkage.step (Linkage.initial 0x500000) freedActions = some linkage ∧
      (∀ answer next, linkage.arena.findChunk 1040 = some (answer, next) →
        BestFit 1040 linkage.arena next answer ∧
          ∃ turns ≤ maxIters, ∃ parts, parts <+: searchParts 1040 turns ∧
            run turn linkage.arena parts = some next) ∧
        ((∀ chunk ∈ linkage.arena.unsorted, chunk.size < linkage.arena.systemMem) →
          linkage.arena.findChunk 1040 ≠ none) := by
  obtain ⟨linkage, ran, _⟩ := Option.map_eq_some_iff.mp freed_bin
  exact ⟨linkage, ran, search_is_best_fit 0x500000 1032 1040 freedActions linkage freed_permitted
    ran (by decide)⟩

/-- The smaller of the two chunks fits best. -/
example : ((run turn (Arena.initial 0x500000) freedActions).bind fun arena =>
    (arena.findChunk 1008).map Prod.fst) = some (some ⟨0x10440, 1024⟩) := by
  decide +kernel

end SriGlibcMalloc.Bins
