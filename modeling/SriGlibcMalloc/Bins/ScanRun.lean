import SriGlibcMalloc.Bins.Threads

/-!
# The scan over whole runs

Whatever has been unlinked, the pointers of every bin read some list of chunks of its sizes,
and a bin that is not empty is marked. This is all that the scan of the bit map relies on.
-/

namespace SriGlibcMalloc.Bins

open BitMask CircularList EntryPoints Transition
open MainArena (wrapSub wrap_sub_exact)

set_option autoImplicit false

/-- The pointers read these lists, and the bins that are not empty are marked. -/
structure MallocState.Sound (state : MallocState) (lists : Nat → List FreeChunk) : Prop where
  carries : Carries lists state.links
  indicated : ∀ i, 1 < i → lists i ≠ [] → marked state.binmap i = true

variable {state next : MallocState} {lists rest : Nat → List FreeChunk} {links : Links}
variable {index nb fuel : Nat} {chunk victim : FreeChunk} {front back chunks : List FreeChunk}

theorem initial_carries : MallocState.initial.Sound fun _ => [] := by
  refine ⟨?_, fun _ _ occupied => absurd rfl occupied⟩
  constructor
  case listed =>
    intro i
    refine ⟨ring_singleton ⟨rfl, rfl⟩, ?_, ?_⟩
    · exact fun _ absent => absurd absent List.not_mem_nil
    · exact fun _ _ absent => absurd absent List.not_mem_nil
  case skips =>
    intro i _
    refine ⟨rfl, ⟨?_, ?_, ?_⟩, ?_⟩
    · intro null
      cases List.mem_singleton.mp null
    · exact fun _ _ used => absurd rfl used
    · exact fun _ _ used => absurd rfl used
    · exact fun _ absent => absurd absent (by rintro ⟨⟩)
  case nodup => exact fun _ => List.nodup_nil
  all_goals
    intros
    simp only [List.not_mem_nil] at *

theorem Carries.reads (carries : Carries lists links) (index : Nat) :
    Reads links index (lists index) :=
  ⟨(carries.listed index).reads, carries.distinct index, (carries.listed index).sizes⟩

theorem Carries.on_iff (carries : Carries lists links) :
    links.On index chunk ↔ chunk ∈ lists index := by
  constructor
  · rintro ⟨chunks, reads, member⟩
    rw [(carries.reads index).unique reads]
    exact member
  · exact fun member => ⟨lists index, carries.reads index, member⟩

theorem Carries.lasts_eq (carries : Carries lists links) (bin : 1 < index) :
    links.lasts index = (lists index).getLast?.toList := by
  unfold Links.lasts
  rw [if_neg (by omega)]
  rcases List.eq_nil_or_concat' (lists index) with empty | ⟨front, last, shape⟩
  · have reads := (carries.listed index).reads
    rw [empty] at reads
    have own : links.bk (.header index) = .header index := (reads.closed _ rfl _ rfl).prev
    rw [empty, own]
    rfl
  · have bottom : links.bk (.header index) = .chunk last.addr := (carries.last shape).1
    have member : last ∈ lists index := by
      rw [shape]
      exact List.mem_append_right _ List.mem_cons_self
    have size : links.size (.chunk last.addr) = last.size :=
      (carries.listed index).sizes last member
    rw [bottom, shape, List.getLast?_concat]
    dsimp only
    rw [size]
    rfl

theorem Carries.lasts_last (carries : Carries lists links) (bin : 1 < index) :
    (links.lasts index).getLast? = (lists index).getLast? := by
  rw [carries.lasts_eq bin]
  cases (lists index).getLast? <;> rfl

theorem Carries.lasts_empty (carries : Carries lists links) (bin : 1 < index) :
    links.lasts index = [] ↔ lists index = [] := by
  rw [carries.lasts_eq bin, Option.toList_eq_nil_iff, List.getLast?_eq_none_iff]

theorem MallocState.Sound.lasts_indicated (sound : state.Sound lists) :
    Indicated state.links.lasts state.binmap := by
  intro i occupied
  by_cases bin : 1 < i
  · exact sound.indicated i bin fun empty => occupied ((sound.carries.lasts_empty bin).mpr empty)
  · exact absurd (if_pos (by omega)) occupied

theorem MallocState.Sound.fewer (sound : state.Sound lists) (carries : Carries rest next.links)
    (within : ∀ i, 1 < i → rest i ⊆ lists i) (same : next.binmap = state.binmap) :
    next.Sound rest := by
  refine ⟨carries, fun i bin occupied => ?_⟩
  rw [same]
  apply sound.indicated i bin
  intro empty
  have none := within i bin
  rw [empty] at none
  exact occupied (List.subset_nil.mp none)

theorem update_unsorted {i : Nat} (bin : 1 < i) : Function.update lists 1 chunks i = lists i :=
  Function.update_of_ne (Nat.ne_of_gt bin) ..

theorem sort_unsorted_sound (sound : state.Sound lists) (request : ChunkSize nb)
    (sorted : state.sortUnsorted fuel nb = some next) : ∃ rest, next.Sound rest := by
  have carries := sound.carries
  have listed := carries.listed 1
  unfold MallocState.sortUnsorted at sorted
  dsimp only at sorted
  rcases List.eq_nil_or_concat' (lists 1) with empty | ⟨front, victim, shape⟩
  · have own : state.links.bk unsortedChunks = .header 1 := by
      have reads := listed.reads
      rw [empty] at reads
      exact (reads.closed _ rfl _ rfl).prev
    rw [own] at sorted
    cases sorted
    exact ⟨lists, sound⟩
  have member : victim ∈ lists 1 := by
    rw [shape]
    exact List.mem_append_right _ List.mem_cons_self
  have valid := carries.valid 1 victim member
  have last : state.links.bk unsortedChunks = .chunk victim.addr := (carries.last shape).1
  have size : state.links.size (.chunk victim.addr) = victim.size := listed.sizes victim member
  have taken := take_last_kept carries (by decide) shape
  rw [last] at sorted
  dsimp only at sorted
  rw [size] at sorted
  split_ifs at sorted with _ splits fits
  · cases sorted
    obtain ⟨_, alone, _, room⟩ := splits
    have only : lists 1 = [victim] := by
      have single := (carries.alone_iff shape).mp alone
      rw [shape, List.length_append, List.length_singleton, Nat.add_eq_right,
        List.length_eq_zero_iff] at single
      rw [shape, single]
      rfl
    refine ⟨_, sound.fewer (split_remainder_kept carries only request room) ?_ rfl⟩
    intro i bin
    rw [update_unsorted bin]
    exact List.Subset.refl _
  · cases sorted
    refine ⟨_, sound.fewer taken (fun i bin => ?_) rfl⟩
    rw [update_unsorted bin]
    exact List.Subset.refl _
  · obtain ⟨links, done, same⟩ := Option.map_eq_some_iff.mp sorted
    cases same
    have outside := carries.removed_outside shape
    rw [List.append_nil] at outside
    obtain ⟨chunks, _, carried⟩ := place_carries taken valid outside size
      (listed.waiting rfl victim member) done
    refine ⟨_, carried, fun i bin occupied => ?_⟩
    rw [mark_bin_eq, marked_mark (by decide)]
    by_cases here : i = binIndex victim.size
    · rw [decide_eq_true here, Bool.true_or]
    · rw [Function.update_of_ne here, update_unsorted bin] at occupied
      rw [sound.indicated i bin occupied, Bool.or_true]

/-- What the scan for a request does to the bins: the last chunk of the lowest bin above the
bin of the request that is not empty is taken, and top is used only if there is no such bin. -/
def TakesLowest (bins : Nat → List FreeChunk) (next : MallocState) (nb : Nat) :
    Option FreeChunk → Prop
  | none => ∀ i, binIndex nb < i → bins i = []
  | some chunk => ∃ index victim, binIndex nb < index ∧
      (∀ i, binIndex nb < i → i < index → bins i = []) ∧
      (bins index).getLast? = some victim ∧ nb ≤ victim.size ∧
      (∀ i, 1 < i → Reads next.links i (Function.update bins index (bins index).dropLast i)) ∧
      chunk.addr = victim.addr ∧ nb ≤ chunk.size

theorem MallocState.Sound.larger (sound : state.Sound lists) (request : ChunkSize nb)
    (member : chunk ∈ lists index) (higher : binIndex nb < index) : nb < chunk.size := by
  have bounds := bin_index_bounds request
  rw [← sound.carries.placed index (by omega) chunk member] at higher
  exact larger_of_bin_lt request.word higher

theorem MallocState.Sound.empty_above (sound : state.Sound lists) (request : ChunkSize nb)
    (empty : Empty state.links.lasts (binIndex nb + 1) (binmapSize * 32)) :
    ∀ i, binIndex nb < i → lists i = [] := by
  intro i above
  have low := bin_index_bounds request
  have bin : 1 < i := by omega
  by_cases inside : i < binmapSize * 32
  · exact (sound.carries.lasts_empty bin).mp (empty i above inside)
  · by_contra occupied
    obtain ⟨chunk, member⟩ := List.exists_mem_of_ne_nil _ occupied
    have valid := sound.carries.valid i chunk member
    have placed := sound.carries.placed i bin chunk member
    have bounds := bin_index_bounds valid.size
    simp only [binmapSize] at inside
    omega

theorem take_scanned_sound (sound : state.Sound lists) (request : ChunkSize nb) :
    ∃ answer next rest, state.takeScanned nb = some (answer, next) ∧ next.Sound rest ∧
      TakesLowest lists next nb answer := by
  obtain ⟨⟨binmap, place⟩, searched, lowest⟩ := scan_loop_spec
    (start_located sound.lasts_indicated (binIndex nb + 1) (bin_index_word request))
    (by rw [startCursor]; exact Nat.le_add_left _ _)
  have cleared : ∀ i, 1 < i → lists i ≠ [] → marked binmap i = true := fun i bin occupied =>
    lowest.indicated i fun empty => occupied ((sound.carries.lasts_empty bin).mp empty)
  unfold MallocState.takeScanned
  rw [searched, Option.bind_some]
  cases place with
  | none =>
      exact ⟨_, _, lists, rfl, ⟨sound.carries, cleared⟩,
        sound.empty_above request (lowest.nothing rfl)⟩
  | some place =>
      obtain ⟨index, victim⟩ := place
      obtain ⟨above, _, last, empty⟩ := lowest.something index victim rfl
      have low := bin_index_bounds request
      have bin : 1 < index := by omega
      rw [sound.carries.lasts_last bin] at last
      have member := List.mem_of_getLast? last
      have fits := Nat.le_of_lt (sound.larger request member above)
      have shape : lists index = (lists index).dropLast ++ victim :: [] :=
        (List.dropLast_append_getLast? victim last).symm
      obtain ⟨links, rest, taken, carried, bins⟩ :=
        take_chunk_carries sound.carries bin shape request fits
      rw [List.append_nil] at bins
      have within : ∀ i, 1 < i → rest i ≠ [] → marked binmap i = true := by
        intro i regular occupied
        apply cleared i regular
        intro none
        rw [bins i regular] at occupied
        by_cases same : i = index
        · rw [same, Function.update_self, ← same, none] at occupied
          exact occupied rfl
        · rw [Function.update_of_ne same] at occupied
          exact occupied none
      have kept : ∀ i, 1 < i →
          Reads links i (Function.update lists index (lists index).dropLast i) := by
        intro i regular
        rw [← bins i regular]
        exact carried.reads i
      have passed : ∀ i, binIndex nb < i → i < index → lists i = [] := fun i high before =>
        (sound.carries.lasts_empty (by omega)).mp (empty i high before)
      have taken' : state.links.takeChunk (.chunk victim.addr) nb = some links := taken
      dsimp only
      rw [taken', Option.map_some]
      by_cases exhausted : wrapSub victim.size nb < minSize
      · rw [if_pos exhausted]
        exact ⟨_, _, rest, rfl, ⟨carried, within⟩, index, victim, above, passed, last, fits, kept,
          rfl, fits⟩
      · rw [if_neg exhausted]
        exact ⟨_, _, rest, rfl, ⟨carried, within⟩, index, victim, above, passed, last, fits, kept,
          rfl, Nat.le_refl nb⟩

theorem Carries.outside (carries : Carries lists links)
    (apart : ∀ index other, links.On index other → chunk.Separate other) : Outside lists chunk :=
  fun index other member => apart index other (carries.on_iff.mpr member)

theorem unlink_sound (sound : state.Sound lists) (positive : 0 < index)
    (on : state.links.On index chunk)
    (unlinked : state.links.binUnlink chunk.node = some links) :
    ∃ rest, (state.withLinks links).Sound rest := by
  obtain ⟨front, back, shape⟩ := List.append_of_mem (sound.carries.on_iff.mp on)
  obtain ⟨after, done, carried⟩ := bin_unlink_carries sound.carries positive shape
  rw [unlinked] at done
  cases done
  exact ⟨_, sound.fewer carried (fun i _ => taken_subset shape i) rfl⟩

theorem free_sound (sound : state.Sound lists) (valid : chunk.Valid)
    (outside : Outside lists chunk)
    (stepped : MallocState.step fuel state (.free chunk) = some next) :
    next.Sound (Function.update lists 1 (chunk :: lists 1)) := by
  obtain ⟨links, linked, same⟩ := Option.map_eq_some_iff.mp stepped
  cases same
  obtain ⟨after, done, carried⟩ := link_unsorted_kept sound.carries valid outside
  have linked' : state.links.linkUnsorted chunk.node chunk.size = some links := linked
  rw [done] at linked'
  cases linked'
  refine sound.fewer carried (fun i bin => ?_) rfl
  rw [update_unsorted bin]
  exact List.Subset.refl _

theorem taken_small_subset (i : Nat) : takenSmall lists nb i ⊆ lists i := by
  unfold takenSmall
  split_ifs
  · by_cases same : i = smallbinIndex nb
    · rw [same, Function.update_self]
      exact List.dropLast_subset _
    · rw [Function.update_of_ne same]
      exact List.Subset.refl _
  · exact List.Subset.refl _

theorem malloc_step_sound (fuel : Nat) (state : MallocState) (action : Action)
    (next : MallocState) (sound : ∃ lists, state.Sound lists) (proper : state.Proper action)
    (stepped : MallocState.step fuel state action = some next) : ∃ lists, next.Sound lists := by
  obtain ⟨lists, sound⟩ := sound
  have carries := sound.carries
  cases action with
  | free chunk =>
      exact ⟨_, free_sound sound proper.1 (carries.outside proper.2) stepped⟩
  | freeFast maxFast chunk =>
      obtain ⟨valid, apart⟩ := proper
      have outside := carries.outside apart
      unfold MallocState.step MallocState.freeFast at stepped
      dsimp only at stepped
      split_ifs at stepped
      cases stepped
      refine ⟨lists, ?_, sound.indicated⟩
      apply carries.frame
      intro i node member
      exact set_fd_agree (carries.unlisted valid outside member)
  | unlink index chunk =>
      obtain ⟨links, unlinked, same⟩ := Option.map_eq_some_iff.mp stepped
      cases same
      exact unlink_sound sound (Nat.lt_trans Nat.one_pos proper.1) proper.2 unlinked
  | unlinkUnsorted chunk =>
      obtain ⟨links, unlinked, same⟩ := Option.map_eq_some_iff.mp stepped
      cases same
      exact unlink_sound sound Nat.one_pos proper unlinked
  | takeFast maxFast nb =>
      unfold MallocState.step MallocState.takeFast at stepped
      dsimp only at stepped
      split_ifs at stepped
      · cases stepped
        exact ⟨lists, sound⟩
      · cases stepped
        exact ⟨lists, carries, sound.indicated⟩
  | takeSmall nb =>
      obtain ⟨links, taken, same⟩ := Option.map_eq_some_iff.mp stepped
      obtain ⟨bytes, requested⟩ := proper
      cases same
      obtain ⟨after, done, carried⟩ := take_small_kept carries (request_chunk_size requested)
      rw [taken] at done
      cases done
      exact ⟨_, sound.fewer carried (fun i _ => taken_small_subset i) rfl⟩
  | sortUnsorted nb =>
      obtain ⟨bytes, requested⟩ := proper
      exact sort_unsorted_sound sound (request_chunk_size requested) stepped
  | takeBestFit nb =>
      obtain ⟨links, taken, same⟩ := Option.map_eq_some_iff.mp stepped
      obtain ⟨bytes, requested⟩ := proper
      cases same
      obtain ⟨rest, within, carried⟩ :=
        take_best_fit_carries carries (request_chunk_size requested) taken
      exact ⟨rest, sound.fewer carried within rfl⟩
  | takeScanned nb =>
      obtain ⟨⟨answer, after⟩, taken, same⟩ := Option.map_eq_some_iff.mp stepped
      obtain ⟨bytes, requested⟩ := proper
      cases same
      obtain ⟨_, _, rest, done, sound', _⟩ :=
        take_scanned_sound sound (request_chunk_size requested)
      rw [taken] at done
      cases done
      exact ⟨rest, sound'⟩
  | consolidateFast index =>
      cases stepped
      exact ⟨lists, carries, sound.indicated⟩
  | setTop top systemMem =>
      cases stepped
      exact ⟨lists, carries, sound.indicated⟩
  | reuseRecord lastRemainder =>
      cases stepped
      exact ⟨lists, carries, sound.indicated⟩
  | useTop nb =>
      cases stepped
      exact ⟨lists, sound⟩

/-- In every state that a run reaches the pointers of each bin read a list, bins that are not
empty are marked, the index of a bin grows with the size, and the scan for any request ends at
the lowest bin. -/
theorem scan_takes_lowest (fuel : Nat) (actions : List Action) (state : MallocState)
    (bytes nb : Nat)
    (proper : Permitted (MallocState.step fuel) MallocState.Proper MallocState.initial actions)
    (ran : run (MallocState.step fuel) MallocState.initial actions = some state)
    (requested : checkedRequest2size bytes = some nb) :
    ∃ bins : Nat → List FreeChunk, (∀ i, Reads state.links i (bins i)) ∧
      (∀ i, 1 < i → ∀ chunk ∈ bins i, binIndex chunk.size = i) ∧
      (∀ i, 1 < i → bins i ≠ [] → getBinmap state.binmap i ≠ 0) ∧
      (∀ small large, small ≤ large → large + 16 < 2 ^ 64 → binIndex small ≤ binIndex large) ∧
      ∃ answer next, state.takeScanned nb = some (answer, next) ∧
        TakesLowest bins next nb answer := by
  obtain ⟨lists, sound⟩ := run_invariant (malloc_step_sound fuel) actions MallocState.initial state
    ⟨_, initial_carries⟩ proper ran
  obtain ⟨answer, next, _, taken, _, lowest⟩ :=
    take_scanned_sound sound (request_chunk_size requested)
  exact ⟨lists, sound.carries.reads, sound.carries.placed,
    fun i bin occupied => (get_binmap_iff _ _).mpr (sound.indicated i bin occupied),
    fun _ _ => bin_index_mono, answer, next, taken, lowest⟩

theorem frees_permitted {waiting : List FreeChunk}
    (sound : state.Sound (Function.update (fun _ => []) 1 waiting))
    (valid : ∀ chunk ∈ chunks, chunk.Valid)
    (apart : (chunks.reverse ++ waiting).Pairwise FreeChunk.Separate) :
    Permitted (MallocState.step fuel) MallocState.Proper state (chunks.map Action.free) := by
  induction chunks generalizing state waiting with
  | nil => trivial
  | cons chunk later ih =>
      rw [List.reverse_cons, List.append_assoc, List.singleton_append] at apart
      have others := (List.pairwise_cons.mp (List.pairwise_append.mp apart).2.1).1
      have outside : Outside (Function.update (fun _ => []) 1 waiting) chunk := by
        intro i other member
        by_cases same : i = 1
        · rw [same, Function.update_self] at member
          exact others other member
        · rw [Function.update_of_ne same] at member
          cases member
      refine ⟨⟨valid chunk List.mem_cons_self, fun i other on => ?_⟩, fun next stepped => ?_⟩
      · exact outside i other (sound.carries.on_iff.mp on)
      · have sound' := free_sound sound (valid chunk List.mem_cons_self) outside stepped
        rw [Function.update_self, Function.update_idem] at sound'
        exact ih sound' (fun other member => valid other (List.mem_cons_of_mem chunk member)) apart

/-- The chunk of 1024 bytes is taken while it is the last of its bin, so that the bin comes to be
on the skip list and the chunk of 1040 bytes is placed behind that of 1008. -/
def disorderedChunks : List FreeChunk :=
  [⟨0x10000, 1056⟩, ⟨0x10440, 1024⟩, ⟨0x10860, 1008⟩, ⟨0x10c70, 1040⟩]

def disorderedActions : List Action :=
  .setTop ⟨0x11000, 0x1f000⟩ 0x20000 :: disorderedChunks.map Action.free ++
    [.sortUnsorted 112, .sortUnsorted 112, .takeScanned 992, .sortUnsorted 112, .sortUnsorted 112]

theorem disordered_permitted : Permitted (MallocState.step 4) MallocState.Proper
    MallocState.initial disorderedActions := by
  have request : ∃ bytes, checkedRequest2size bytes = some 112 := ⟨100, by decide⟩
  refine ⟨trivial, fun start stepped => ?_⟩
  cases stepped
  have sound : ({ MallocState.initial with systemMem := 0x20000 } : MallocState).Sound
      (Function.update (fun _ => []) 1 []) := by
    rw [Function.update_eq_self_iff.mpr rfl]
    exact ⟨initial_carries.carries, initial_carries.indicated⟩
  refine permitted_append (frees_permitted sound ?_ (by decide)) fun _ _ => ?_
  · intro chunk member
    simp only [disorderedChunks, List.mem_cons, List.not_mem_nil, or_false] at member
    rcases member with rfl | rfl | rfl | rfl <;>
      exact ⟨⟨by decide, by decide, by decide⟩, by decide, by decide, by decide⟩
  · exact ⟨request, fun _ _ => ⟨request, fun _ _ => ⟨⟨984, by decide⟩, fun _ _ =>
      ⟨request, fun _ _ => ⟨request, fun _ _ => trivial⟩⟩⟩⟩⟩

theorem disordered_last :
    ((run (MallocState.step 4) MallocState.initial disorderedActions).map fun state =>
      state.links.lasts 64) = some [⟨0x10c70, 1040⟩] := by
  decide +kernel

theorem disordered_scan : ∃ state,
    run (MallocState.step 4) MallocState.initial disorderedActions = some state ∧
      ∃ bins : Nat → List FreeChunk, (∀ i, Reads state.links i (bins i)) ∧
        (∀ i, 1 < i → ∀ chunk ∈ bins i, binIndex chunk.size = i) ∧
        (∀ i, 1 < i → bins i ≠ [] → getBinmap state.binmap i ≠ 0) ∧
        (∀ small large, small ≤ large → large + 16 < 2 ^ 64 → binIndex small ≤ binIndex large) ∧
        ∃ answer next, state.takeScanned 992 = some (answer, next) ∧
          TakesLowest bins next 992 answer := by
  obtain ⟨state, ran, _⟩ := Option.map_eq_some_iff.mp disordered_last
  exact ⟨state, ran, scan_takes_lowest 4 disorderedActions state 984 992 disordered_permitted ran
    (by decide)⟩

end SriGlibcMalloc.Bins
