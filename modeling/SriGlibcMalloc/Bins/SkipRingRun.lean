import SriGlibcMalloc.Bins.LinkedRoutines

/-!
# The skip lists over whole runs

A run goes along with the lists of the arena. The chunks that other routines free are on
none of the lists, and those that they unlink are on one of them. As long as no exposed
chunk is unlinked, the skip list of every large bin is a ring of the first chunks of each
size.
-/

namespace SriGlibcMalloc.Bins

open CircularList EntryPoints Transition

set_option autoImplicit false

/-- A large bin has these chunks, in order, and those of them on its skip list that are the
first of their size. -/
structure Exact (links : Links) (index : Nat) (chunks heads : List FreeChunk) : Prop where
  reads : Ring links.fd links.bk (records index chunks)
  distinct : (records index chunks).Nodup
  sizes : ∀ chunk ∈ chunks, links.size chunk.node = chunk.size
  ordered : Descending chunks
  first : ∀ chunk, chunk ∈ heads ↔ ∃ front back, chunks = front ++ chunk :: back ∧
    ∀ other ∈ front, other.size ≠ chunk.size
  decreasing : heads.Pairwise fun first second => second.size < first.size
  ring : Ring links.fdNextsize links.bkNextsize (heads.map FreeChunk.node)
  skipped : ∀ chunk ∈ chunks, chunk ∉ heads → links.fdNextsize chunk.node = .null

/-- Chunks are freed when they are on no list, and unlinked when they are on one. -/
def Linkage.Proper (linkage : Linkage) : Action → Prop
  | .free chunk => chunk.Valid ∧ Outside linkage.arena.lists chunk
  | .freeFast maxFast chunk =>
      chunk.Valid ∧ maxFast ≤ maxFastSize ∧ Outside linkage.arena.lists chunk
  | .unlink index chunk => 1 < index ∧ chunk ∈ linkage.arena.bins index
  | .unlinkUnsorted chunk => chunk ∈ linkage.arena.unsorted
  | action => Bins.Proper linkage.arena action

def Linkage.Safe (linkage : Linkage) (index : Nat) (victim : FreeChunk) : Prop :=
  firstLarge ≤ index → ¬Exposed linkage.links index (linkage.arena.bins index) victim

def Linkage.Careful (linkage : Linkage) : Action → Prop
  | .unlink index chunk => linkage.Safe index chunk
  | .takeBestFit nb => inSmallbinRange nb = false → ∀ victim,
      bestFitVictim (linkage.arena.bins (largebinIndex64 nb)) nb = some victim →
        linkage.Safe (largebinIndex64 nb) victim
  | .takeScanned nb => ∀ found index victim, linkage.arena.search scanFuel nb = some found →
      found.place = some (index, victim) → linkage.Safe index victim
  | _ => True

structure Linkage.Sound (linkage : Linkage) : Prop where
  binned : Binned linkage.arena
  follows : Follows linkage.arena.lists linkage.links

variable {arena next : Arena} {links : Links} {linkage : Linkage} {action : Action}
variable {lists : Nat → List FreeChunk} {index nb : Nat} {chunks heads : List FreeChunk}
variable {victim : FreeChunk}

theorem Follows.exact (follows : Follows lists links) (large : firstLarge ≤ index) :
    Exact links index (lists index) (sizeHeads (lists index)) where
  reads := (follows.listed index).reads
  distinct := follows.distinct index
  sizes := (follows.listed index).sizes
  ordered := (follows.in_order large).ordered
  first := fun _ => mem_size_heads_iff
  decreasing := (follows.in_order large).ordered.heads
  ring := (follows.in_order large).heads
  skipped := (follows.in_order large).skipped

theorem Linkage.Sound.exact (sound : linkage.Sound) (large : firstLarge ≤ index) :
    Exact linkage.links index (linkage.arena.bins index)
      (sizeHeads (linkage.arena.bins index)) := by
  have bin : 1 < index := Nat.lt_of_lt_of_le (by decide) large
  have exactly := sound.follows.exact large
  rw [lists_bin bin] at exactly
  exact exactly

theorem Exact.not_header (exactly : Exact links index chunks heads) (member : victim ∈ chunks)
    (other : Nat) : links.fdNextsize victim.node ≠ .header other := by
  by_cases head : victim ∈ heads
  · obtain ⟨next, _, same⟩ :=
      List.mem_map.mp (exactly.ring.onward (List.mem_map_of_mem head)).1
    rw [← same]
    rintro ⟨⟩
  · rw [exactly.skipped victim member head]
    rintro ⟨⟩

/-- The bin takes the place of an exposed chunk on the skip list. -/
theorem exposed_unlinked (follows : Follows lists links) (large : firstLarge ≤ index)
    (exposed : Exposed links index (lists index) victim) :
    ∃ after, links.binUnlink victim.node = some after ∧
      ∀ chunks heads, ¬Exact after index chunks heads := by
  have listed := follows.listed index
  have ordered := (follows.in_order large).ordered
  have ring := (follows.in_order large).heads
  have distinct := follows.heads_distinct index
  have shape : lists index = (lists index).dropLast ++ [victim] :=
    (List.dropLast_append_getLast? victim exposed.last).symm
  have others := exposed.others
  have single := exposed.single
  generalize (lists index).dropLast = front at shape
  have nodup := follows.nodup index
  rw [shape] at nodup ordered others single
  have first : ∀ chunk ∈ front, chunk.size ≠ victim.size := by
    intro chunk member same
    have equal := single chunk (List.mem_append_left _ member) same
    exact (List.nodup_append.mp nodup).2.2 chunk member victim (List.mem_singleton_self _) equal
  have split : sizeHeads (lists index) = sizeHeads front ++ [victim] := by
    rw [shape, ordered.size_heads first]
    rfl
  have head : victim ∈ sizeHeads (lists index) := by
    rw [split]
    exact List.mem_append_right _ List.mem_cons_self
  have behind := (follows.head_around large head).2
  rw [split, List.map_append] at ring distinct
  have occupied : [] ++ (sizeHeads front).map FreeChunk.node ≠ [] := by
    cases front with
    | nil => exact absurd rfl others
    | cons start rest => exact List.cons_ne_nil _ _
  have apart : links.fdNextsize victim.node ≠ victim.node := ring.next_ne distinct occupied
  have before : links.bkNextsize victim.node ∈ front.map FreeChunk.node := by
    rw [split, List.map_append] at behind
    rcases List.mem_append.mp behind.1 with early | here
    · exact List.map_subset _ (size_heads_members front) early
    · rw [List.mem_singleton.mp here] at behind
      exact absurd behind.2 apart
  rw [bin_unlink_head follows large head, (follows.last shape).2, if_pos exposed.header,
    if_neg apart]
  refine ⟨_, rfl, fun chunks heads exactly => ?_⟩
  have reads := bypass_reads follows shape
  have fewer : (records index (front ++ [])).Nodup := by
    refine List.Nodup.sublist ?_ (follows.distinct index)
    rw [shape, List.append_nil]
    exact ((List.sublist_append_left front [victim]).map FreeChunk.node).cons_cons _
  have same : (front ++ []).map FreeChunk.node = chunks.map FreeChunk.node :=
    reads.unique exactly.reads fewer exactly.distinct
  rw [List.append_nil] at same
  rw [same] at before
  obtain ⟨chunk, member, equal⟩ := List.mem_map.mp before
  apply exactly.not_header member index
  rw [equal]
  exact Function.update_self ..

theorem initial_sound (initialTop : Nat) : (Linkage.initial initialTop).Sound := by
  have empty : ∀ i, (Arena.initial initialTop).lists i = [] := by
    intro i
    by_cases same : i = 1
    · rw [same]
      exact Function.update_self ..
    · exact Function.update_of_ne same ..
  refine ⟨initial_binned initialTop, ?_⟩
  constructor
  case listed =>
    intro i
    unfold Linkage.initial
    dsimp only
    rw [empty i]
    constructor
    case reads => exact ring_singleton ⟨rfl, rfl⟩
    case sizes => exact fun _ absent => absurd absent List.not_mem_nil
    case waiting => exact fun _ _ absent => absurd absent List.not_mem_nil
  case skips =>
    intro i _
    unfold Linkage.initial
    dsimp only
    rw [empty i]
    exact ⟨Or.inl rfl, List.Pairwise.nil, ring_nil,
      fun _ absent => absurd absent List.not_mem_nil⟩
  case nodup =>
    intro i
    unfold Linkage.initial
    dsimp only
    rw [empty i]
    exact List.nodup_nil
  all_goals
    intros
    simp only [Linkage.initial, empty, List.not_mem_nil] at *

theorem proper_arena (proper : linkage.Proper action) :
    Bins.Proper linkage.arena action := by
  cases action with
  | free chunk => exact proper.1
  | freeFast maxFast chunk => exact ⟨proper.1, proper.2.1⟩
  | unlink index chunk => trivial
  | unlinkUnsorted chunk => trivial
  | _ => exact proper

theorem turn_binned (binned : Binned arena) (proper : Bins.Proper arena action)
    (moved : turn arena action = some next) : Binned next := by
  cases action with
  | sortUnsorted nb =>
      obtain ⟨⟨answer, after⟩, sorted, same⟩ := Option.map_eq_some_iff.mp moved
      obtain ⟨bytes, requested⟩ := proper
      cases same
      exact binned.sort_unsorted (request_chunk_size requested) sorted
  | _ => exact step_binned arena _ next binned proper moved

theorem follow_spec (sound : linkage.Sound) (proper : linkage.Proper action)
    (careful : linkage.Careful action) (moved : turn linkage.arena action = some next) :
    ∃ links, linkage.follow action = some links ∧ Follows next.lists links := by
  obtain ⟨binned, follows⟩ := sound
  cases action with
  | free chunk =>
      obtain ⟨valid, outside⟩ := proper
      cases moved
      obtain ⟨links, linked, after⟩ := link_unsorted_kept follows valid outside
      refine ⟨links, linked, ?_⟩
      rw [lists_unsorted] at after
      rw [unsorted_lists]
      exact after
  | freeFast maxFast chunk =>
      obtain ⟨valid, _, outside⟩ := proper
      refine ⟨_, rfl, ?_⟩
      have same : next.lists = linkage.arena.lists := by
        unfold turn Bins.step at moved
        dsimp only at moved
        split_ifs at moved
        cases moved
        rfl
      rw [same]
      apply follows.frame
      intro i node member
      exact set_fd_agree (follows.unlisted valid outside member)
  | unlink index chunk =>
      obtain ⟨bin, member⟩ := proper
      cases moved
      obtain ⟨front, back, shape⟩ := List.append_of_mem member
      have listed : linkage.arena.lists index = linkage.arena.bins index := lists_bin bin
      have safe : firstLarge ≤ index →
          ¬Exposed linkage.links index (linkage.arena.lists index) chunk := by
        rw [listed]
        exact careful
      have erased := follows.erase_eq (listed.trans shape)
      rw [set_bin_lists bin, ← listed, erased]
      exact bin_unlink_follows follows (Nat.lt_trans Nat.one_pos bin) (listed.trans shape) safe
  | unlinkUnsorted chunk =>
      cases moved
      obtain ⟨front, back, shape⟩ := List.append_of_mem proper
      have listed := lists_unsorted linkage.arena
      have erased := follows.erase_eq (listed.trans shape)
      rw [unsorted_lists, ← listed, erased]
      exact bin_unlink_follows follows Nat.one_pos (listed.trans shape)
        fun large => absurd large (by decide)
  | consolidateFast index =>
      cases moved
      exact ⟨_, rfl, follows⟩
  | setTop top systemMem =>
      cases moved
      exact ⟨_, rfl, follows⟩
  | reuseRecord lastRemainder =>
      cases moved
      exact ⟨_, rfl, follows⟩
  | takeFast maxFast nb =>
      refine ⟨_, rfl, ?_⟩
      have same : next.lists = linkage.arena.lists := by
        obtain ⟨⟨answer, after⟩, taken, same⟩ := Option.map_eq_some_iff.mp moved
        cases same
        obtain ⟨bins, unsorted⟩ := take_fast_same taken
        unfold Arena.lists
        rw [bins, unsorted]
      rw [same]
      exact follows
  | takeSmall nb =>
      obtain ⟨bytes, requested⟩ := proper
      cases moved
      exact take_small_follows follows (request_chunk_size requested)
  | sortUnsorted nb =>
      obtain ⟨bytes, requested⟩ := proper
      obtain ⟨⟨answer, after⟩, sorted, same⟩ := Option.map_eq_some_iff.mp moved
      cases same
      exact sort_unsorted_follows follows (request_chunk_size requested) sorted
  | takeBestFit nb =>
      obtain ⟨bytes, requested⟩ := proper
      have request := request_chunk_size requested
      cases moved
      apply take_best_fit_follows follows request (Nat.le_refl _)
      intro large victim found
      have above := Nat.not_lt.mp ((small_iff request.word).not.mp (by rw [large]; decide))
      exact careful large victim found (largebin_index_bounds above request.word).1
  | takeScanned nb =>
      obtain ⟨bytes, requested⟩ := proper
      obtain ⟨⟨answer, after⟩, taken, same⟩ := Option.map_eq_some_iff.mp moved
      cases same
      exact take_scanned_follows binned follows (request_chunk_size requested) taken careful
  | useTop nb =>
      cases moved
      refine ⟨_, rfl, ?_⟩
      have same : (linkage.arena.useTop nb).2.lists = linkage.arena.lists := by
        unfold Arena.useTop
        split_ifs <;> rfl
      rw [same]
      exact follows

theorem step_sound (linkage : Linkage) (action : Action) (next : Arena) (sound : linkage.Sound)
    (allowed : linkage.Proper action ∧ linkage.Careful action)
    (moved : turn linkage.arena action = some next) :
    ∃ after, linkage.step action = some after ∧ after.arena = next ∧ after.Sound := by
  obtain ⟨proper, careful⟩ := allowed
  obtain ⟨links, followed, follows⟩ := follow_spec sound proper careful moved
  refine ⟨⟨next, links⟩, ?_, rfl, ?_, follows⟩
  · unfold Linkage.step
    rw [moved, followed]
    rfl
  · exact turn_binned sound.binned (proper_arena proper) moved

/-- In every state that a run reaches in which no exposed chunk is unlinked, the list of each
large bin is in order, and its skip list is a ring of the first chunks of each size. -/
theorem careful_run_exact (initialTop : Nat) (actions : List Action) (arena : Arena)
    (permitted : Permitted Linkage.step
      (fun linkage action => linkage.Proper action ∧ linkage.Careful action)
      (Linkage.initial initialTop) actions)
    (ran : run turn (Arena.initial initialTop) actions = some arena) :
    ∃ linkage, run Linkage.step (Linkage.initial initialTop) actions = some linkage ∧
      linkage.arena = arena ∧
      ∀ index, firstLarge ≤ index →
        Exact linkage.links index (arena.bins index) (sizeHeads (arena.bins index)) := by
  obtain ⟨linkage, moved, same, sound⟩ := run_lifts Linkage.arena Linkage.Sound step_sound
    actions (Linkage.initial initialTop) arena (initial_sound initialTop) permitted ran
  refine ⟨linkage, moved, same, fun index large => ?_⟩
  rw [← same]
  exact sound.exact large

theorem outside_unsorted (empty : ∀ i, arena.bins i = [])
    (apart : ∀ other ∈ arena.unsorted, victim.Separate other) : Outside arena.lists victim := by
  intro i other member
  by_cases same : i = 1
  · rw [same, lists_unsorted] at member
    exact apart other member
  · have bin : arena.lists i = arena.bins i := Function.update_of_ne same ..
    rw [bin, empty i] at member
    cases member

/-- Chunks of 1056 and of 1024 bytes are freed and put in the first large bin. -/
def freedActions : List Action :=
  [.setTop ⟨0x10000, 0x20000⟩ 0x20000, .useTop 1056, .useTop 32, .useTop 1024, .useTop 32,
    .free ⟨0x10000, 1056⟩, .free ⟨0x10440, 1024⟩, .sortUnsorted 992, .sortUnsorted 992]

theorem freed_permitted : Permitted Linkage.step
    (fun linkage action => linkage.Proper action ∧ linkage.Careful action)
    (Linkage.initial 0x500000) freedActions := by
  have request : ∃ bytes, checkedRequest2size bytes = some 992 := ⟨984, by decide⟩
  have pad : ∃ bytes, checkedRequest2size bytes = some 32 := ⟨24, by decide⟩
  have larger : ChunkSize 1056 := ⟨by decide, by decide, by decide⟩
  have smaller : ChunkSize 1024 := ⟨by decide, by decide, by decide⟩
  refine ⟨⟨⟨by decide, by decide, by decide⟩, trivial⟩, fun next stepped => ?_⟩
  cases stepped
  refine ⟨⟨⟨1048, by decide⟩, trivial⟩, fun next stepped => ?_⟩
  cases stepped
  refine ⟨⟨pad, trivial⟩, fun next stepped => ?_⟩
  cases stepped
  refine ⟨⟨⟨1016, by decide⟩, trivial⟩, fun next stepped => ?_⟩
  cases stepped
  refine ⟨⟨pad, trivial⟩, fun next stepped => ?_⟩
  cases stepped
  refine ⟨⟨⟨⟨larger, by decide, by decide, by decide⟩, ?_⟩, trivial⟩, fun next stepped => ?_⟩
  · exact outside_unsorted (fun _ => rfl) fun _ absent => absurd absent List.not_mem_nil
  cases stepped
  refine ⟨⟨⟨⟨smaller, by decide, by decide, by decide⟩, ?_⟩, trivial⟩, fun next stepped => ?_⟩
  · apply outside_unsorted fun _ => rfl
    intro other member
    rw [List.mem_singleton.mp member]
    exact Or.inr (by decide)
  exact ⟨⟨request, trivial⟩, fun _ _ => ⟨⟨request, trivial⟩, fun _ _ => trivial⟩⟩

theorem scanned_links :
    (run Linkage.step (Linkage.initial 0x500000) (freedActions ++ [.takeScanned 992])).map
        (fun linkage =>
          (linkage.links.fd (.header 64), linkage.links.fdNextsize (.chunk 0x10000))) =
      some (.chunk 0x10000, .header 64) := by
  decide +kernel

theorem freed_bin :
    (run Linkage.step (Linkage.initial 0x500000) freedActions).map
        (fun linkage => linkage.arena.bins 64) =
      some [⟨0x10000, 1056⟩, ⟨0x10440, 1024⟩] := by
  decide +kernel

theorem scanned_run_not_exact : ¬∀ initialTop actions linkage index,
    Permitted Linkage.step Linkage.Proper (Linkage.initial initialTop) actions →
      run Linkage.step (Linkage.initial initialTop) actions = some linkage →
        firstLarge ≤ index → ∃ chunks heads, Exact linkage.links index chunks heads := by
  intro all
  have permitted : Permitted Linkage.step Linkage.Proper (Linkage.initial 0x500000)
      (freedActions ++ [.takeScanned 992]) :=
    permitted_append (freed_permitted.imp fun _ _ => And.left)
      fun _ _ => ⟨⟨984, by decide⟩, fun _ _ => trivial⟩
  obtain ⟨linkage, ran, reached⟩ := Option.map_eq_some_iff.mp scanned_links
  obtain ⟨start, onward⟩ := Prod.mk.inj reached
  obtain ⟨chunks, heads, exactly⟩ := all 0x500000 _ linkage 64 permitted ran (by decide)
  have inside := (exactly.reads.onward header_record).1
  rw [start] at inside
  rcases List.mem_cons.mp inside with same | member
  · cases same
  · obtain ⟨chunk, member, same⟩ := List.mem_map.mp member
    apply exactly.not_header member 64
    rw [same]
    exact onward

theorem best_fit_run_exact : ∃ arena,
    run turn (Arena.initial 0x500000) (freedActions ++ [.takeBestFit 1040]) = some arena ∧
      ∃ linkage, run Linkage.step (Linkage.initial 0x500000)
          (freedActions ++ [.takeBestFit 1040]) = some linkage ∧
        linkage.arena = arena ∧ ∀ index, firstLarge ≤ index →
          Exact linkage.links index (arena.bins index) (sizeHeads (arena.bins index)) := by
  refine ⟨_, rfl, careful_run_exact 0x500000 (freedActions ++ [.takeBestFit 1040]) _ ?_ rfl⟩
  apply permitted_append freed_permitted
  intro final ran
  refine ⟨⟨⟨1032, by decide⟩, ?_⟩, fun _ _ => trivial⟩
  have bin := freed_bin
  rw [ran, Option.map_some] at bin
  intro _ victim found _ exposed
  have position : largebinIndex64 1040 = 64 := by decide
  rw [position, Option.some.inj bin] at found exposed
  cases found
  cases exposed.last

end SriGlibcMalloc.Bins
