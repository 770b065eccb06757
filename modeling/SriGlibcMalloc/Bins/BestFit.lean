import SriGlibcMalloc.Bins.Counts

/-!
# Best fit

A search of `_int_malloc` takes the smallest of the free chunks that are large enough; the last
remainder is the only exception.
-/

namespace SriGlibcMalloc.Bins

open EntryPoints Transition

set_option autoImplicit false

variable {arena next : Arena} {answer : Option FreeChunk} {chunk victim : FreeChunk}
variable {index nb : Nat} {bin : List FreeChunk}

theorem size_head_exists (member : chunk ∈ bin) :
    ∃ head ∈ sizeHeads bin, head.size = chunk.size := by
  induction bin with
  | nil => cases member
  | cons first rest ih =>
      rw [sizeHeads]
      by_cases same : first.size = chunk.size
      · exact ⟨first, List.mem_cons_self, same⟩
      · have later := (List.mem_cons.mp member).resolve_left fun own => same (own ▸ rfl)
        obtain ⟨head, inside, size⟩ := ih later
        refine ⟨head, List.mem_cons_of_mem _ (List.mem_filter.mpr ⟨inside, ?_⟩), size⟩
        rw [size]
        exact decide_eq_true fun equal => same equal.symm

theorem best_fit_smallest (ordered : Descending bin) (found : bestFitVictim bin nb = some victim)
    (member : chunk ∈ bin) (fits : nb ≤ chunk.size) : victim.size ≤ chunk.size := by
  unfold bestFitVictim at found
  cases bin with
  | nil => cases found
  | cons first rest =>
      dsimp only at found
      split_ifs at found with large
      obtain ⟨head, searched, same⟩ := Option.map_eq_some_iff.mp found
      obtain ⟨_, before, after, shape, smaller⟩ := List.find?_eq_some_iff_append.mp searched
      have inside := size_heads_members _ head
        (List.mem_reverse.mp (List.mem_of_find?_eq_some searched))
      obtain ⟨_, size⟩ := second_of_size_spec inside
      rw [same] at size
      rw [size]
      obtain ⟨other, listed, equal⟩ := size_head_exists member
      rw [← equal]
      have place := List.mem_reverse.mpr listed
      rw [shape] at place
      rcases List.mem_append.mp place with early | late
      · have less := smaller other early
        rw [equal, decide_eq_true fits] at less
        cases less
      · -- The list is walked backwards, from the smallest size on.
        have increasing := List.pairwise_reverse.mpr ordered.heads
        rw [shape] at increasing
        rcases List.mem_cons.mp late with own | later
        · rw [own]
        · have above := (List.pairwise_cons.mp (List.pairwise_append.mp increasing).2.1).1
          exact Nat.le_of_lt (above other later)

theorem best_fit_nothing (ordered : Descending bin) (nothing : bestFitVictim bin nb = none)
    (member : chunk ∈ bin) : chunk.size < nb := by
  by_contra large
  have fits := Nat.not_lt.mp large
  unfold bestFitVictim at nothing
  cases bin with
  | nil => cases member
  | cons first rest =>
      dsimp only at nothing
      have most : chunk.size ≤ first.size := by
        rcases List.mem_cons.mp member with own | later
        · rw [own]
        · exact (List.pairwise_cons.mp ordered).1 chunk later
      rw [if_pos (Nat.le_trans fits most), Option.map_eq_none_iff, List.find?_eq_none] at nothing
      obtain ⟨head, listed, same⟩ := size_head_exists member
      exact nothing head (List.mem_reverse.mpr listed) (decide_eq_true (same ▸ fits))

theorem last_smallest (binned : Binned arena) (ordered : Ordered arena)
    (last : (arena.bins index).getLast? = some victim) (member : chunk ∈ arena.bins index) :
    victim.size ≤ chunk.size := by
  obtain ⟨valid, placed⟩ := binned.placed index victim (List.mem_of_getLast? last)
  obtain ⟨valid', placed'⟩ := binned.placed index chunk member
  unfold binIndex at placed
  split_ifs at placed with small
  · have equal := small_bin_size valid'.size valid.size small (placed'.trans placed.symm)
    exact Nat.le_of_eq equal.symm
  · have above := Nat.not_lt.mp ((small_iff valid.size.word).not.mp small)
    have large := (largebin_index_bounds above valid.size.word).1
    rw [placed] at large
    obtain ⟨front, shape⟩ := List.getLast?_eq_some_iff.mp last
    have descending := ordered index large
    rw [shape] at descending member
    rcases List.mem_append.mp member with before | own
    · exact descending.before chunk before
    · rw [List.mem_singleton.mp own]

theorem Binned.bin_of (binned : Binned arena) (member : chunk ∈ arena.bins index)
    (fits : nb ≤ chunk.size) : binIndex nb ≤ index := by
  obtain ⟨valid, placed⟩ := binned.placed index chunk member
  rw [← placed]
  exact bin_index_mono fits valid.size.word

theorem take_best_fit_spec (binned : Binned arena) (ordered : Ordered arena)
    (request : ChunkSize nb) (taken : arena.takeBestFit nb = (answer, next)) :
    (answer = none → next = arena ∧ (inSmallbinRange nb = false →
      ∀ chunk ∈ arena.bins (binIndex nb), chunk.size < nb)) ∧
    ∀ found, answer = some found → ∃ victim,
      Takes nb (binnedCount arena) (binnedCount next) victim found ∧
        ∀ i, ∀ chunk ∈ arena.bins i, nb ≤ chunk.size → victim.size ≤ chunk.size := by
  unfold Arena.takeBestFit at taken
  dsimp only at taken
  by_cases small : inSmallbinRange nb = true
  · rw [if_pos small] at taken
    cases taken
    refine ⟨fun _ => ⟨rfl, fun large => ?_⟩, fun _ absent => nomatch absent⟩
    rw [small] at large
    cases large
  · have place : binIndex nb = largebinIndex64 nb := if_neg small
    have above := Nat.not_lt.mp ((small_iff request.word).not.mp small)
    have large := (largebin_index_bounds above request.word).1
    have descending := ordered _ large
    rw [if_neg small] at taken
    split at taken
    case h_1 nothing =>
      cases taken
      rw [place]
      exact ⟨fun _ => ⟨rfl, fun _ chunk => best_fit_nothing descending nothing⟩,
        fun _ absent => nomatch absent⟩
    case h_2 victim found =>
      cases taken
      refine ⟨(fun absent => nomatch absent), fun found' same => ?_⟩
      cases same
      obtain ⟨member, fits⟩ := best_fit_victim_spec found
      obtain ⟨valid, placed⟩ := binned.placed _ victim member
      refine ⟨victim, carve_takes valid.size fits (binned_count_pos (placed.symm ▸ member))
        (set_bin_removes placed (count_erase_member member)), fun i chunk inside enough => ?_⟩
      rcases Nat.eq_or_lt_of_le (binned.bin_of inside enough) with same | higher
      · rw [← same, place] at inside
        exact best_fit_smallest descending found inside enough
      · rw [place, ← placed] at higher
        rw [← (binned.placed i chunk inside).2] at higher
        exact Nat.le_of_lt (larger_of_bin_lt valid.size.word higher)

theorem take_scanned_spec (binned : Binned arena) (ordered : Ordered arena)
    (request : ChunkSize nb) (taken : arena.takeScanned scanFuel nb = some (answer, next)) :
    (answer = none → binnedCount next = binnedCount arena ∧
      ∀ i, binIndex nb < i → arena.bins i = []) ∧
    ∀ found, answer = some found → ∃ victim,
      Takes nb (binnedCount arena) (binnedCount next) victim found ∧
        ∀ i, binIndex nb < i → ∀ chunk ∈ arena.bins i, victim.size ≤ chunk.size := by
  obtain ⟨⟨binmap, place⟩, searched, lowest⟩ := binned.search request
  unfold Arena.takeScanned at taken
  rw [searched] at taken
  cases place with
  | none =>
      cases taken
      have empty := binned.empty_above (lowest.nothing rfl)
      exact ⟨fun _ => ⟨rfl, empty⟩, fun _ absent => nomatch absent⟩
  | some place =>
      obtain ⟨position, victim⟩ := place
      obtain ⟨above, _, last, empty⟩ := lowest.something position victim rfl
      have member := List.mem_of_getLast? last
      have fits := binned.larger request member above
      obtain ⟨valid, placed⟩ := binned.placed position victim member
      obtain ⟨front, shape⟩ := List.getLast?_eq_some_iff.mp last
      cases taken
      refine ⟨(fun absent => nomatch absent), fun found' same => ?_⟩
      cases same
      refine ⟨victim, carve_takes valid.size (Nat.le_of_lt fits)
        (binned_count_pos (placed.symm ▸ member)) ?_, fun i start chunk inside => ?_⟩
      · apply @set_bin_removes { arena with binmap := binmap } victim position _ placed
        intro chunk
        rw [shape, List.dropLast_concat, count_last]
      · rcases Nat.lt_trichotomy i position with below | same | beyond
        · rw [empty i start below] at inside
          cases inside
        · exact last_smallest binned ordered last (same ▸ inside)
        · rw [← placed, ← (binned.placed i chunk inside).2] at beyond
          exact Nat.le_of_lt (larger_of_bin_lt valid.size.word beyond)

/-- The search for a free chunk, from the small bins up to `use_top`. For a large request the
fast bins have been consolidated before. -/
def Arena.findChunk (arena : Arena) (nb : Nat) : Option (Option FreeChunk × Arena) :=
  match arena.takeSmall nb with
  | (some chunk, next) => some (some chunk, next)
  | (none, arena) =>
      match arena.sortUnsorted nb maxIters with
      | none => none
      | some (some chunk, next) => some (some chunk, next)
      | some (none, arena) =>
          match arena.takeBestFit nb with
          | (some chunk, next) => some (some chunk, next)
          | (none, arena) => arena.takeScanned scanFuel nb

/-- The chunks that wait behind those that one search sorts. -/
def Arena.unseen (arena : Arena) : List FreeChunk :=
  arena.unsorted.take (arena.unsorted.length - maxIters)

/-- The smallest chunk that is large enough is taken, and nothing only when there is none; the
last remainder is the exception, and only when no chunk fits exactly. -/
def BestFit (nb : Nat) (arena next : Arena) : Option FreeChunk → Prop
  | none => binnedCount next = binnedCount arena ∧
      ∀ chunk, 0 < binnedCount arena chunk → chunk ∉ arena.unseen → chunk.size < nb
  | some found => ∃ victim, Takes nb (binnedCount arena) (binnedCount next) victim found ∧
      ((∀ chunk, 0 < binnedCount arena chunk → chunk ∉ arena.unseen → nb ≤ chunk.size →
          victim.size ≤ chunk.size) ∨
        LastRemainder nb arena victim ∧
          ∀ chunk, 0 < binnedCount arena chunk → chunk.size ≠ nb)

theorem Sorts.in_bins {sorted : Arena} (sorts : Sorts nb maxIters arena sorted)
    (listed : 0 < binnedCount arena chunk) (seen : chunk ∉ arena.unseen) :
    chunk ∈ sorted.bins (binIndex chunk.size) := by
  rw [← sorts.counts] at listed
  unfold binnedCount at listed
  have absent : sorted.unsorted.count chunk = 0 := by
    rw [sorts.waiting]
    exact List.count_eq_zero_of_not_mem seen
  rw [absent, Nat.zero_add] at listed
  exact List.count_pos_iff.mp listed

theorem Sorts.best_fit {sorted : Arena} (sorts : Sorts nb maxIters arena sorted)
    (nothing : answer = none → binnedCount next = binnedCount sorted ∧
      ∀ i, ∀ chunk ∈ sorted.bins i, chunk.size < nb)
    (something : ∀ found, answer = some found → ∃ victim,
      Takes nb (binnedCount sorted) (binnedCount next) victim found ∧
        ∀ i, ∀ chunk ∈ sorted.bins i, nb ≤ chunk.size → victim.size ≤ chunk.size) :
    BestFit nb arena next answer := by
  rw [sorts.counts] at nothing something
  cases answer with
  | none =>
      obtain ⟨counts, smaller⟩ := nothing rfl
      exact ⟨counts, fun chunk listed seen => smaller _ chunk (sorts.in_bins listed seen)⟩
  | some found =>
      obtain ⟨victim, takes, smallest⟩ := something found rfl
      exact ⟨victim, takes, Or.inl fun chunk listed seen =>
        smallest _ chunk (sorts.in_bins listed seen)⟩

theorem Sorts.scan_best_fit {sorted : Arena} (sorts : Sorts nb maxIters arena sorted)
    (request : ChunkSize nb)
    (exhausted : ∀ chunk ∈ sorted.bins (binIndex nb), chunk.size < nb)
    (scanned : sorted.takeScanned scanFuel nb = some (answer, next)) :
    BestFit nb arena next answer := by
  have higher : ∀ i, ∀ chunk ∈ sorted.bins i, nb ≤ chunk.size → binIndex nb < i := by
    intro i chunk member fits
    refine Nat.lt_of_le_of_ne (sorts.binned.bin_of member fits) fun own => ?_
    exact Nat.not_lt.mpr fits (exhausted chunk (own ▸ member))
  obtain ⟨nothing, something⟩ := take_scanned_spec sorts.binned sorts.ordered request scanned
  apply sorts.best_fit
  · intro absent
    obtain ⟨counts, empty⟩ := nothing absent
    refine ⟨counts, fun i chunk member => ?_⟩
    by_contra large
    rw [empty i (higher i chunk member (Nat.not_lt.mp large))] at member
    cases member
  · intro found answered
    obtain ⟨victim, takes, smallest⟩ := something found answered
    exact ⟨victim, takes, fun i chunk member fits =>
      smallest i (higher i chunk member fits) chunk member⟩

/-- A search is by best fit. -/
theorem find_chunk_best_fit (binned : Binned arena) (ordered : Ordered arena)
    (request : ChunkSize nb) (searched : arena.findChunk nb = some (answer, next)) :
    BestFit nb arena next answer := by
  unfold Arena.findChunk at searched
  split at searched
  case h_1 found after taken =>
    cases searched
    obtain ⟨whole, takes⟩ := (take_small_spec binned request taken).2 found rfl
    exact ⟨found, takes, Or.inl fun chunk _ _ fits => whole.symm ▸ fits⟩
  case h_2 kept taken =>
    obtain ⟨unchanged, empty⟩ := (take_small_spec binned request taken).1 rfl
    subst unchanged
    split at searched
    case h_1 => cases searched
    case h_2 found after sorted =>
      cases searched
      obtain ⟨victim, takes, choice⟩ := sort_unsorted_takes binned ordered request sorted
      refine ⟨victim, takes, ?_⟩
      rcases choice with whole | ⟨remainder, inexact⟩
      · exact Or.inl fun chunk _ _ fits => whole.symm ▸ fits
      · exact Or.inr ⟨remainder, inexact (empty remainder.small)⟩
    case h_3 middle sorted =>
      have sorts := sort_unsorted_sorts binned ordered request sorted
      split at searched
      case h_1 found after fitted =>
        cases searched
        refine sorts.best_fit (fun absent => ?_) ?_
        · cases absent
        · exact (take_best_fit_spec sorts.binned sorts.ordered request fitted).2
      case h_2 left fitted =>
        obtain ⟨unchanged, smaller⟩ :=
          (take_best_fit_spec sorts.binned sorts.ordered request fitted).1 rfl
        subst unchanged
        apply sorts.scan_best_fit request _ searched
        by_cases small : inSmallbinRange nb = true
        · rw [sorts.exact small (empty small)]
          exact fun _ absent => nomatch absent
        · exact smaller (Bool.eq_false_iff.mpr small)

/-- The loop over the unsorted chunks ends when none is larger than the arena. -/
theorem sort_unsorted_ends (count : Nat) (inside : ∀ chunk ∈ arena.unsorted,
      minSize ≤ chunk.size ∧ chunk.size < arena.systemMem) :
    arena.sortUnsorted nb count ≠ none := by
  induction count generalizing arena with
  | zero => exact Option.some_ne_none _
  | succ count ih =>
      rw [Arena.sortUnsorted]
      split
      case h_1 => exact Option.some_ne_none _
      case h_2 victim last =>
        obtain ⟨least, most⟩ := inside victim (List.mem_of_getLast? last)
        simp only [minSize] at least
        have sane : arena.corrupted victim = false := by
          unfold Arena.corrupted
          rw [Bool.or_eq_false_iff, decide_eq_false_iff_not, decide_eq_false_iff_not]
          omega
        dsimp only
        rw [if_neg (ne_true_of_eq_false sane)]
        split_ifs
        · exact Option.some_ne_none _
        · exact Option.some_ne_none _
        · apply ih
          intro chunk member
          exact inside chunk ((List.dropLast_sublist arena.unsorted).subset member)

theorem find_chunk_ends (binned : Binned arena) (ordered : Ordered arena) (request : ChunkSize nb)
    (inside : ∀ chunk ∈ arena.unsorted, chunk.size < arena.systemMem) :
    arena.findChunk nb ≠ none := by
  have sane : ∀ chunk ∈ arena.unsorted, minSize ≤ chunk.size ∧ chunk.size < arena.systemMem :=
    fun chunk member => ⟨(binned.waiting chunk member).size.minimal, inside chunk member⟩
  unfold Arena.findChunk
  split
  case h_1 => exact Option.some_ne_none _
  case h_2 kept taken =>
    obtain ⟨unchanged, _⟩ := (take_small_spec binned request taken).1 rfl
    subst unchanged
    split
    case h_1 aborted => exact absurd aborted (sort_unsorted_ends maxIters sane)
    case h_2 => exact Option.some_ne_none _
    case h_3 middle sorted =>
      have sorts := sort_unsorted_sorts binned ordered request sorted
      split
      case h_1 => exact Option.some_ne_none _
      case h_2 left fitted =>
        obtain ⟨unchanged, _⟩ :=
          (take_best_fit_spec sorts.binned sorts.ordered request fitted).1 rfl
        subst unchanged
        obtain ⟨found, after, scanned⟩ := sorts.binned.take_scanned_ends request
        rw [scanned]
        exact Option.some_ne_none _

def searchParts (nb turns : Nat) : List Action :=
  .takeSmall nb :: (List.replicate turns (.sortUnsorted nb) ++ [.takeBestFit nb, .takeScanned nb])

theorem search_parts_prefix {turns : Nat} {front : List Action}
    (started : front <+: [.takeBestFit nb, .takeScanned nb]) :
    .takeSmall nb :: (List.replicate turns (.sortUnsorted nb) ++ front) <+:
      searchParts nb turns :=
  List.cons_prefix_cons.mpr ⟨rfl, (List.prefix_append_right_inj _).mpr started⟩

theorem sort_unsorted_succ (count : Nat) (waiting : arena.unsorted ≠ []) :
    arena.sortUnsorted nb (count + 1) =
      (arena.sortUnsorted nb 1).bind fun (answer, next) =>
        match answer with
        | some chunk => some (some chunk, next)
        | none => next.sortUnsorted nb count := by
  have last := List.getLast?_eq_some_getLast waiting
  rw [Arena.sortUnsorted, Arena.sortUnsorted, last]
  dsimp only
  split_ifs <;> rfl

theorem sort_unsorted_run {count : Nat}
    (sorted : arena.sortUnsorted nb count = some (answer, next)) :
    ∃ turns ≤ count, ∀ later final, run turn next later = some final →
      run turn arena (List.replicate turns (.sortUnsorted nb) ++ later) = some final := by
  induction count generalizing arena with
  | zero =>
      cases sorted
      exact ⟨0, Nat.le_refl 0, fun _ _ ran => ran⟩
  | succ count ih =>
      by_cases waiting : arena.unsorted = []
      · rw [Arena.sortUnsorted, waiting] at sorted
        cases sorted
        exact ⟨0, Nat.zero_le _, fun _ _ ran => ran⟩
      · rw [sort_unsorted_succ count waiting] at sorted
        obtain ⟨⟨first, middle⟩, one, rest⟩ := Option.bind_eq_some_iff.mp sorted
        have moved : turn arena (.sortUnsorted nb) = some middle := by
          change (arena.sortUnsorted nb 1).map Prod.snd = _
          rw [one]
          rfl
        cases first with
        | some chunk =>
            cases rest
            refine ⟨1, Nat.le_add_left _ _, fun later final ran => ?_⟩
            change (turn arena (.sortUnsorted nb)).bind _ = _
            rw [moved]
            exact ran
        | none =>
            obtain ⟨turns, bounded, onward⟩ := ih rest
            refine ⟨turns + 1, Nat.succ_le_succ bounded, fun later final ran => ?_⟩
            change (turn arena (.sortUnsorted nb)).bind _ = _
            rw [moved]
            exact onward later final ran

/-- A search goes through its parts up to the one that finds a chunk. -/
theorem find_chunk_run (searched : arena.findChunk nb = some (answer, next)) :
    ∃ turns ≤ maxIters, ∃ parts, parts <+: searchParts nb turns ∧
      run turn arena parts = some next := by
  unfold Arena.findChunk at searched
  split at searched
  case h_1 found after taken =>
    cases searched
    refine ⟨0, Nat.zero_le _, [.takeSmall nb], ⟨_, rfl⟩, ?_⟩
    change some (arena.takeSmall nb).2 = _
    rw [taken]
  case h_2 kept taken =>
    have first : ∀ later final, run turn kept later = some final →
        run turn arena (.takeSmall nb :: later) = some final := by
      intro later final ran
      change run turn (arena.takeSmall nb).2 later = _
      rw [taken]
      exact ran
    split at searched
    case h_1 => cases searched
    case h_2 found after sorted =>
      cases searched
      obtain ⟨turns, bounded, onward⟩ := sort_unsorted_run sorted
      exact ⟨turns, bounded, _, search_parts_prefix List.nil_prefix,
        first _ _ (onward [] next rfl)⟩
    case h_3 middle sorted =>
      obtain ⟨turns, bounded, onward⟩ := sort_unsorted_run sorted
      split at searched
      case h_1 found after fitted =>
        cases searched
        refine ⟨turns, bounded, _, search_parts_prefix ⟨[.takeScanned nb], rfl⟩,
          first _ _ (onward [.takeBestFit nb] next ?_)⟩
        change some (middle.takeBestFit nb).2 = _
        rw [fitted]
      case h_2 left fitted =>
        refine ⟨turns, bounded, searchParts nb turns, List.prefix_rfl,
          first _ _ (onward _ next ?_)⟩
        change (turn (middle.takeBestFit nb).2 (.takeScanned nb)).bind _ = _
        rw [fitted]
        change (((left.takeScanned scanFuel nb).map Prod.snd).bind some) = _
        rw [searched]
        rfl

end SriGlibcMalloc.Bins
