import SriGlibcMalloc.MainArena.Trim
import SriGlibcMalloc.Transition.Run

/-!
# The last part of `sysmalloc`, where the old top is freed

When top could not be extended, what is left of the old top goes through the general
free routine, and only then `nb` bytes are split off the new top. That routine trims.
-/

namespace SriGlibcMalloc.MainArena

open ArenaLookup Transition

set_option autoImplicit false

/-! ## Fastbins -/

def smallbinWidth : Nat := 16
def defaultMxfast : Nat := 128
def maxFastSize : Nat := 160
def fastbinConsolidationThreshold : Nat := 65536

def setMaxFast (size : Nat) : Nat :=
  if size = 0 then smallbinWidth else alignDown (size + sizeSz) mallocAlignment

/-- `global_max_fast`, and what `have_fastchunks` says of the main arena. -/
structure Fast where
  maxFast : Nat
  fastchunks : Bool

def Fast.initial : Fast := ⟨setMaxFast defaultMxfast, false⟩

/-- A limit of zero means to `malloc_consolidate` that nothing is initialized yet. -/
def Fast.consolidate (fast : Fast) : Fast :=
  if fast.maxFast ≠ 0 then { fast with fastchunks := false } else Fast.initial

inductive FastAction
  | free (size : Nat)
  | consolidate
  | mallopt (value : Int)

/-- `mallopt` consolidates before it looks at the parameter. -/
def Fast.step (fast : Fast) : FastAction → Option Fast
  | .free size =>
      if size < minSize then none
      else some (if size ≤ fast.maxFast then { fast with fastchunks := true } else fast)
  | .consolidate => some fast.consolidate
  | .mallopt value =>
      some (if 0 ≤ value ∧ value ≤ maxFastSize then
        { fast.consolidate with maxFast := setMaxFast value.toNat } else fast.consolidate)

/-! ## The old top -/

/-- `mp_.top_pad` and `mp_.trim_threshold`, and what initialization starts from. -/
structure Parameters where
  topPad : Nat
  trimThreshold : Nat
  initialTop : Nat
  heapMax : Nat

structure MainState where
  arena : Arena
  fast : Fast

/-- `malloc_consolidate` as far as top is concerned: the fenceposts keep the chunks that
are merged apart from the new top, but initialization starts with no top at all. -/
def MainState.consolidate (state : MainState) (mp : Parameters) : MainState where
  fast := state.fast.consolidate
  arena :=
    if state.fast.maxFast ≠ 0 then state.arena
    else { state.arena with
      sbrk := { state.arena.sbrk with lookup := lookupInit mp.heapMax }
      top := mp.initialTop
      topSize := 0 }

/-- The tests of `_int_free` that end in `malloc_printerr`. The chunk and the chunk after
it, a fencepost, are marked as preceded by a chunk in use. -/
def MainState.refuses (state : MainState) (addr size : Nat) : Bool :=
  wrapSub 0 size < addr || addr % mallocAlignment ≠ 0 || size < minSize ||
    size % mallocAlignment ≠ 0 || state.arena.sbrk.systemMem ≤ 2 * sizeSz ||
    (state.fast.maxFast < size && (addr = state.arena.top ||
      (state.arena.sbrk.contiguous && state.arena.top + state.arena.topSize ≤ addr + size)))

/-- The consolidation and the trimming at the end of `_int_free`. -/
def MainState.freeLarge (state : MainState) (mp : Parameters) (answers : TrimAnswers) :
    MainState :=
  let state := if state.fast.fastchunks then state.consolidate mp else state
  if mp.trimThreshold ≤ state.arena.topSize then
    { state with arena := state.arena.trim mp.topPad answers }
  else state

/-- `_int_free` of what is left of the old top; there is no result when it aborts. The
fenceposts around the chunk leave nothing to merge it with. -/
def MainState.freeOldTop (state : MainState) (mp : Parameters) (answers : TrimAnswers)
    (addr size : Nat) : Option MainState :=
  if state.refuses addr size then none
  else if size ≤ state.fast.maxFast then
    some { state with fast := { state.fast with fastchunks := true } }
  else if size < fastbinConsolidationThreshold then some state
  else some (state.freeLarge mp answers)

def oldRest (oldSize : Nat) : Nat :=
  alignDown (wrapSub oldSize (4 * sizeSz)) mallocAlignment

def MainState.replaceTop (state : MainState) (mp : Parameters) (answers : TrimAnswers)
    (sbrk : Sbrk) (placement : Placement) : Option MainState :=
  let placed := { state with arena := state.arena.place sbrk placement }
  match placement with
  | .moved _ _ =>
      if state.arena.topSize ≠ 0 ∧ minSize ≤ oldRest state.arena.topSize then
        placed.freeOldTop mp answers state.arena.top (oldRest state.arena.topSize)
      else some placed
  | _ => some placed

/-- The final allocation: a chunk, given by its address and its size, or `ENOMEM`. -/
def MainState.splitTop (state : MainState) (nb : Nat) : Option (Nat × Nat) × MainState :=
  if wrap (nb + minSize) ≤ state.arena.topSize then
    (some (state.arena.top, chunksize nb), { state with arena := { state.arena with
      top := state.arena.top + nb
      topSize := state.arena.topSize - nb
      chunks := (state.arena.top, nb) :: state.arena.chunks } })
  else (none, state)

/-- `sysmalloc` in the main arena, after it has not used a mapping of its own. -/
def MainState.sysmalloc (state : MainState) (mp : Parameters) (answers : Answers)
    (trimAnswers : TrimAnswers) (nb : Nat) : Option (Option (Nat × Nat) × MainState) :=
  match growTop state.arena.sbrk answers nb mp.topPad
      (state.arena.top + state.arena.topSize) state.arena.topSize with
  | none => none
  | some (placement, sbrk) =>
      match state.replaceTop mp trimAnswers sbrk placement with
      | none => none
      | some next => some (next.splitTop nb)

/-! ## What is promised -/

/-- A state of the main arena, and a system that only hands out memory that top does not
have already. -/
structure Ready (state : MainState) (mp : Parameters) (answers : Answers) (nb : Nat) : Prop where
  word : state.arena.top + state.arena.topSize < 2 ^ 63
  aligned : state.arena.top % mallocAlignment = 0
  room : state.arena.topSize = 0 ∨ minSize ≤ state.arena.topSize
  memory : state.arena.sbrk.systemMem < 2 ^ 63
  fast : ∃ actions, run Fast.step Fast.initial actions = some state.fast
  fresh : ∀ grant after, obtainMemory state.arena.sbrk answers nb mp.topPad
      state.arena.topSize = (some grant, after) →
    grant.brk + grant.size ≤ state.arena.top ∨
      state.arena.top + state.arena.topSize ≤ grant.brk

/-- The chunk is split off the top that was placed, the rest of that top stays top, and
the break stays where it was. -/
def Served (state : MainState) (mp : Parameters) (answers : Answers) (trimAnswers : TrimAnswers)
    (nb : Nat) (placed : Arena) : Prop :=
  ∃ next, state.sysmalloc mp answers trimAnswers nb = some (some (placed.top, nb), next) ∧
    next.arena.top = placed.top + nb ∧ next.arena.topSize + nb = placed.topSize ∧
    next.arena.sbrk.brk = placed.sbrk.brk

/-- The old top was large, it was not extended, and the new one reaches the threshold, ends
at the break and is larger than the pad by a page that the system takes back. -/
structure GivesBack (state : MainState) (mp : Parameters) (answers : TrimAnswers)
    (placed : Arena) : Prop where
  replaced : placed.top ≠ state.arena.top
  large : fastbinConsolidationThreshold + minSize ≤ state.arena.topSize
  threshold : mp.trimThreshold ≤ placed.topSize
  reached : Reaches placed.sbrk answers (placed.top + placed.topSize)
  taken : ∃ extra, trimAmount placed.topSize mp.topPad = some extra ∧
    placed.sbrk.moves answers.release (-extra) = true

variable {fast next : Fast} {state : MainState} {mp : Parameters} {answers : Answers}
variable {trimAnswers : TrimAnswers} {nb : Nat} {arena placed : Arena}

/-! ## Fastbins are used under a limit -/

/-- A fast chunk was freed under a limit that is not zero, and the limit is moderate. -/
structure Fast.Used (fast : Fast) : Prop where
  limit : fast.fastchunks = true → fast.maxFast ≠ 0
  moderate : fast.maxFast ≤ maxFastSize

theorem Fast.Used.consolidate (used : fast.Used) :
    fast.consolidate.Used ∧ fast.consolidate.fastchunks = false := by
  unfold Fast.consolidate
  by_cases limited : fast.maxFast ≠ 0
  · rw [if_pos limited]
    exact ⟨⟨(fun impossible => nomatch impossible), used.moderate⟩, rfl⟩
  · rw [if_neg limited]
    exact ⟨⟨(fun impossible => nomatch impossible), by decide⟩, rfl⟩

theorem Fast.step_used (fast : Fast) (action : FastAction) (next : Fast) (used : fast.Used)
    (stepped : fast.step action = some next) : next.Used := by
  cases action with
  | free size =>
      rw [Fast.step] at stepped
      by_cases tiny : size < minSize
      · rw [if_pos tiny] at stepped
        cases stepped
      · rw [if_neg tiny] at stepped
        cases stepped
        by_cases fits : size ≤ fast.maxFast
        · rw [if_pos fits]
          refine ⟨fun _ => ?_, used.moderate⟩
          simp only [minSize] at tiny ⊢
          omega
        · rw [if_neg fits]
          exact used
  | consolidate =>
      cases stepped
      exact used.consolidate.1
  | mallopt value =>
      cases stepped
      by_cases valid : 0 ≤ value ∧ value ≤ maxFastSize
      · rw [if_pos valid]
        constructor
        · intro pending
          exact absurd (used.consolidate.2.symm.trans pending) Bool.false_ne_true
        · have rounded : alignDown (value.toNat + sizeSz) mallocAlignment ≤ maxFastSize := by
            simp only [alignDown, sizeSz, mallocAlignment, maxFastSize] at valid ⊢
            omega
          dsimp only [setMaxFast]
          split
          · decide
          · exact rounded
      · rw [if_neg valid]
        exact used.consolidate.1

theorem Ready.used (ready : Ready state mp answers nb) : state.fast.Used := by
  obtain ⟨actions, ran⟩ := ready.fast
  apply run_preserves Fast.step_used actions Fast.initial state.fast _ ran
  exact ⟨(fun impossible => nomatch impossible), by decide⟩

/-! ## What trimming does to the break -/

theorem trim_amount_nonzero {topSize pad : Nat} {extra : Int}
    (wanted : trimAmount topSize pad = some extra) : extra ≠ 0 := by
  unfold trimAmount at wanted
  dsimp only at wanted
  split at wanted
  · cases wanted
  · split at wanted
    · cases wanted
    · cases wanted
      assumption

def Takes (arena : Arena) (pad : Nat) (answers : TrimAnswers) : Prop :=
  Reaches arena.sbrk answers (arena.top + arena.topSize) ∧
    ∃ extra, trimAmount arena.topSize pad = some extra ∧
      arena.sbrk.moves answers.release (-extra) = true

theorem trim_untaken {pad : Nat} (untaken : ¬Takes arena pad trimAnswers) :
    arena.trim pad trimAnswers = arena := by
  unfold Arena.trim systrim
  cases wanted : trimAmount arena.topSize pad with
  | none => rfl
  | some extra =>
      dsimp only
      rw [release_top_eq]
      by_cases reached : Reaches arena.sbrk trimAnswers (arena.top + arena.topSize)
      · have still : ¬arena.sbrk.moves trimAnswers.release (-extra) = true :=
          fun moves => untaken ⟨reached, extra, wanted, moves⟩
        rw [if_pos reached, record_release_eq, morecore, if_neg still,
          if_neg fun seen => seen.2 rfl]
      · rw [if_neg reached]

theorem record_release_brk {sbrk : Sbrk} {probe : Bool} {currentBrk topSize : Nat} :
    (recordRelease sbrk probe currentBrk topSize).2.brk = sbrk.brk := by
  rw [record_release_eq]
  split <;> rfl

theorem trim_taken {pad : Nat} (taken : Takes arena pad trimAnswers) :
    (arena.trim pad trimAnswers).sbrk.brk ≠ arena.sbrk.brk := by
  obtain ⟨reached, extra, wanted, moves⟩ := taken
  have asked := trim_amount_nonzero wanted
  have trimmed : (arena.trim pad trimAnswers).sbrk =
      (systrim arena.sbrk trimAnswers pad (arena.top + arena.topSize) arena.topSize).2 := by
    unfold Arena.trim
    split <;> rename_i result <;> rw [result]
  obtain ⟨_, low, high⟩ := moves_iff.mp moves
  rw [trimmed, systrim, wanted]
  dsimp only
  rw [release_top_eq, if_pos reached, record_release_brk, morecore, if_pos moves]
  dsimp only
  omega

/-! ## Where a new top lies -/

section Growing

variable {sbrk after later : Sbrk} {grant : Grant} {topPad oldEnd oldSize aligned size : Nat}

/-- The memory is counted, and it ends at the break while the arena is contiguous. -/
structure Obtained (grant : Grant) (after : Sbrk) : Prop where
  page : pageSize ≤ grant.size
  counted : grant.size ≤ after.systemMem
  total : after.systemMem < 2 ^ 63 + grant.size
  word : grant.brk + grant.size < 2 ^ 63
  ends : after.contiguous = true → after.brk = grant.brk + grant.size

theorem obtained_memory (memory : sbrk.systemMem < 2 ^ 63)
    (obtained : obtainMemory sbrk answers nb topPad oldSize = (some grant, after)) :
    Obtained grant after := by
  rcases obtain_memory_cases obtained with
    ⟨size, shape, positive, moves, same, recorded⟩ |
      ⟨mbrk, size, page, mapped, word, same, recorded⟩ | ⟨impossible, _⟩
  · cases same
    have word := (moves_iff.mp moves).2.2
    have page : pageSize ≤ size := by
      rw [shape] at positive ⊢
      exact growth_request_page positive
    subst recorded
    dsimp only [recordGrant, wrap]
    constructor <;> dsimp only <;> omega
  · cases same
    subst recorded
    dsimp only [recordGrant, wrap]
    constructor <;> dsimp only
    · exact page
    · omega
    · omega
    · exact word
    · exact fun impossible => nomatch impossible
  · cases impossible

theorem corrected_top (obtained : Obtained grant sbrk) (contiguous : sbrk.contiguous = true)
    (corrected : correctTop sbrk answers grant oldEnd oldSize = (.moved aligned size, later)) :
    grant.brk ≤ aligned ∧ 2 * sizeSz < later.systemMem := by
  have page := obtained.page
  have counted := obtained.counted
  have total := obtained.total
  have word := obtained.word
  have ends := obtained.ends contiguous
  have enough : 2 * sizeSz < pageSize := by decide
  unfold correctTop at corrected
  extract_lets counting misalign skipped alignedBrk endMisalign correction at corrected
  have brk : counting.brk = sbrk.brk := by
    dsimp only [counting]
    split <;> rfl
  have kept : grant.size ≤ counting.systemMem ∧
      counting.systemMem < 2 ^ 63 + grant.size + grant.brk := by
    dsimp only [counting]
    split
    · dsimp only [wrap]
      omega
    · omega
  have above : grant.brk ≤ alignedBrk := Nat.le_add_right ..
  split at corrected
  case h_1 old sndBrk found called =>
    obtain ⟨placed, counting'⟩ := Prod.mk.inj corrected
    rcases morecore_cases called with ⟨_, moves, same⟩ | ⟨impossible, _⟩
    · have high := (moves_iff.mp moves).2.2
      rw [← (Placement.moved.inj placed).1, ← counting', same]
      refine ⟨above, ?_⟩
      dsimp only [wrap]
      omega
    · cases impossible
  case h_2 old found called =>
    rcases morecore_cases called with ⟨impossible, _⟩ | ⟨_, same⟩
    · cases impossible
    · split at corrected
      case h_1 again sndBrk probed asked =>
        obtain ⟨placed, kept'⟩ := Prod.mk.inj corrected
        rw [← (Placement.moved.inj placed).1, ← kept', (morecore_zero asked).1, same]
        exact ⟨above, by omega⟩
      case h_2 => cases corrected

/-- A top that was moved lies apart from the old one, above it in a contiguous arena. -/
theorem moved_top {top : Nat} (memory : sbrk.systemMem < 2 ^ 63)
    (fresh : ∀ grant after, obtainMemory sbrk answers nb topPad oldSize = (some grant, after) →
      grant.brk + grant.size ≤ top ∨ top + oldSize ≤ grant.brk)
    (some' : oldSize ≠ 0)
    (grown : growTop sbrk answers nb topPad (top + oldSize) oldSize =
      some (.moved aligned size, later)) :
    aligned ≠ top ∧ (later.contiguous = true → top + oldSize ≤ aligned) ∧
      2 * sizeSz < later.systemMem := by
  unfold growTop at grown
  cases result : obtainMemory sbrk answers nb topPad oldSize with | mk granted recorded
  rw [result] at grown
  cases granted with
  | none => cases grown
  | some grant =>
      have obtained := obtained_memory memory result
      have apart := fresh grant recorded result
      have page := obtained.page
      have counted := obtained.counted
      have enough : 2 * sizeSz < pageSize := by decide
      dsimp only at grown
      unfold placeTop at grown
      by_cases meets : grant.brk = top + oldSize ∧ grant.sndBrk = none
      · rw [if_pos meets] at grown
        cases grown
      · rw [if_neg meets] at grown
        by_cases killed : recorded.contiguous = true ∧ oldSize ≠ 0 ∧ grant.brk < top + oldSize
        · rw [if_pos killed] at grown
          cases grown
        · rw [if_neg killed] at grown
          by_cases contiguous : recorded.contiguous = true
          · rw [if_pos contiguous] at grown
            have above : top + oldSize ≤ grant.brk :=
              Nat.le_of_not_lt fun below => killed ⟨contiguous, some', below⟩
            obtain ⟨placed, counted⟩ :=
              corrected_top obtained contiguous (Option.some.inj grown)
            exact ⟨by omega, fun _ => by omega, counted⟩
          · rw [if_neg contiguous] at grown
            have plain : aligned = grant.brk ∧ later = recorded := by
              split at grown
              · cases grown
                exact ⟨rfl, rfl⟩
              · split at grown
                case h_1 called =>
                  cases grown
                  exact ⟨rfl, (morecore_zero called).1⟩
                case h_2 => cases grown
            rw [plain.1, plain.2]
            exact ⟨by omega, fun still => absurd still contiguous, by omega⟩

end Growing

/-! ## Freeing the old top -/

theorem Arena.grow_place {topPad : Nat} (grown : arena.grow nb topPad answers = some placed) :
    ∃ placement sbrk, growTop arena.sbrk answers nb topPad (arena.top + arena.topSize)
        arena.topSize = some (placement, sbrk) ∧ placed = arena.place sbrk placement := by
  obtain ⟨⟨placement, sbrk⟩, grew, same⟩ := Option.map_eq_some_iff.mp grown
  exact ⟨placement, sbrk, grew, same.symm⟩

theorem old_rest_bounds {oldSize : Nat} (room : minSize ≤ oldSize) (word : oldSize < 2 ^ 63) :
    oldRest oldSize + minSize ≤ oldSize ∧ oldRest oldSize % mallocAlignment = 0 ∧
      (fastbinConsolidationThreshold ≤ oldRest oldSize ↔
        fastbinConsolidationThreshold + minSize ≤ oldSize) := by
  have exact' : wrapSub oldSize (4 * sizeSz) = oldSize - 32 := wrap_sub_exact room (by omega)
  rw [oldRest, exact', alignDown]
  simp only [minSize, mallocAlignment, fastbinConsolidationThreshold] at room ⊢
  omega

theorem free_large_arena (used : state.fast.Used) :
    (state.freeLarge mp trimAnswers).arena =
      if mp.trimThreshold ≤ state.arena.topSize then state.arena.trim mp.topPad trimAnswers
      else state.arena := by
  have consolidated : (if state.fast.fastchunks then state.consolidate mp else state).arena =
      state.arena := by
    by_cases pending : state.fast.fastchunks = true
    · rw [if_pos pending, MainState.consolidate, if_pos (used.limit pending)]
    · rw [if_neg pending]
  unfold MainState.freeLarge
  extract_lets freed
  rw [← consolidated]
  change MainState.arena (if mp.trimThreshold ≤ freed.arena.topSize then
    { freed with arena := freed.arena.trim mp.topPad trimAnswers } else freed) = _
  split <;> rfl

/-- `_int_free` accepts the rest of the old top, and only trims after a large one. -/
theorem free_old_top_spec {addr size : Nat} (accepted : state.refuses addr size = false)
    (used : state.fast.Used) :
    ∃ freed, state.freeOldTop mp trimAnswers addr size = some freed ∧
      freed.arena = if fastbinConsolidationThreshold ≤ size ∧
          mp.trimThreshold ≤ state.arena.topSize then
        state.arena.trim mp.topPad trimAnswers else state.arena := by
  have moderate : state.fast.maxFast < fastbinConsolidationThreshold :=
    Nat.lt_of_le_of_lt used.moderate (by decide)
  unfold MainState.freeOldTop
  rw [accepted, if_neg Bool.false_ne_true]
  by_cases fits : size ≤ state.fast.maxFast
  · rw [if_pos fits, if_neg fun both => absurd both.1 (by omega)]
    exact ⟨_, rfl, rfl⟩
  · rw [if_neg fits]
    by_cases small : size < fastbinConsolidationThreshold
    · rw [if_pos small, if_neg fun both => absurd both.1 (by omega)]
      exact ⟨_, rfl, rfl⟩
    · rw [if_neg small]
      refine ⟨_, rfl, ?_⟩
      rw [free_large_arena used]
      simp only [Nat.not_lt.mp small, true_and]

theorem old_top_accepted {alignedBrk size : Nat} {sbrk : Sbrk}
    (ready : Ready state mp answers nb) (some' : state.arena.topSize ≠ 0)
    (rest : minSize ≤ oldRest state.arena.topSize)
    (grown : growTop state.arena.sbrk answers nb mp.topPad
      (state.arena.top + state.arena.topSize) state.arena.topSize =
        some (.moved alignedBrk size, sbrk)) :
    MainState.refuses { state with arena := state.arena.place sbrk (.moved alignedBrk size) }
      state.arena.top (oldRest state.arena.topSize) = false := by
  have word := ready.word
  have aligned := ready.aligned
  have room : minSize ≤ state.arena.topSize := ready.room.resolve_left some'
  obtain ⟨inside, whole, _⟩ := old_rest_bounds room (by omega)
  obtain ⟨apart, above, counted⟩ := moved_top ready.memory ready.fresh some' grown
  have end' : ¬wrapSub 0 (oldRest state.arena.topSize) < state.arena.top := by
    simp only [wrapSub, wrap, minSize] at rest ⊢
    omega
  have beyond : sbrk.contiguous = true →
      ¬alignedBrk + size ≤ state.arena.top + oldRest state.arena.topSize := by
    intro contiguous
    have higher := above contiguous
    simp only [minSize] at inside
    omega
  unfold MainState.refuses
  simp only [Arena.place, Bool.or_eq_false_iff, Bool.and_eq_false_iff, decide_eq_false_iff_not,
    not_not]
  refine ⟨⟨⟨⟨⟨end', aligned⟩, Nat.not_lt.mpr rest⟩, whole⟩,
    decide_eq_false (Nat.not_le.mpr counted)⟩, Or.inr ⟨decide_eq_false (Ne.symm apart), ?_⟩⟩
  cases contiguous : sbrk.contiguous with
  | false => exact Or.inl rfl
  | true => exact Or.inr (decide_eq_false (beyond contiguous))

theorem replace_top_spec {placement : Placement} {sbrk : Sbrk}
    (ready : Ready state mp answers nb) (same : placed = state.arena.place sbrk placement)
    (grown : growTop state.arena.sbrk answers nb mp.topPad
      (state.arena.top + state.arena.topSize) state.arena.topSize = some (placement, sbrk)) :
    ∃ next, state.replaceTop mp trimAnswers sbrk placement = some next ∧
      (¬GivesBack state mp trimAnswers placed → next.arena = placed) ∧
      (GivesBack state mp trimAnswers placed → next.arena.sbrk.brk ≠ placed.sbrk.brk) := by
  subst same
  have word := ready.word
  have large : fastbinConsolidationThreshold + minSize ≤ state.arena.topSize →
      state.arena.topSize ≠ 0 ∧ minSize ≤ oldRest state.arena.topSize := by
    intro large
    have room : minSize ≤ state.arena.topSize := Nat.le_of_add_left_le large
    have rest := (old_rest_bounds room (by omega)).2.2.mpr large
    refine ⟨fun zero => ?_, Nat.le_trans (by decide) rest⟩
    rw [zero] at room
    exact absurd room (by decide)
  cases placement with
  | extended size => exact ⟨_, rfl, fun _ => rfl, fun gives => absurd rfl gives.replaced⟩
  | kept => exact ⟨_, rfl, fun _ => rfl, fun gives => absurd rfl gives.replaced⟩
  | moved alignedBrk size =>
      by_cases released : state.arena.topSize ≠ 0 ∧ minSize ≤ oldRest state.arena.topSize
      · obtain ⟨some', rest⟩ := released
        have accepted := old_top_accepted ready some' rest grown
        have apart := (moved_top ready.memory ready.fresh some' grown).1
        have threshold := (old_rest_bounds (ready.room.resolve_left some') (by omega)).2.2
        obtain ⟨freed, freeing, arena⟩ := free_old_top_spec accepted ready.used
        refine ⟨freed, ?_, ?_, ?_⟩
        · unfold MainState.replaceTop
          dsimp only
          rw [if_pos ⟨some', rest⟩]
          exact freeing
        · intro kept
          rw [arena]
          split
          case isTrue both =>
            apply trim_untaken
            intro takes
            exact kept ⟨apart, threshold.mp both.1, both.2, takes.1, takes.2⟩
          case isFalse => rfl
        · intro gives
          rw [arena, if_pos ⟨threshold.mpr gives.large, gives.threshold⟩]
          exact trim_taken ⟨gives.reached, gives.taken⟩
      · refine ⟨{ state with arena := state.arena.place sbrk (.moved alignedBrk size) }, ?_,
          fun _ => rfl, fun gives => absurd (large gives.large) released⟩
        unfold MainState.replaceTop
        dsimp only
        rw [if_neg released]

/-! ## Every growth -/

theorem split_top_spec (enough : nb + minSize ≤ state.arena.topSize)
    (word : state.arena.topSize < 2 ^ 64) (whole : nb % mallocAlignment = 0) :
    ∃ next, state.splitTop nb = (some (state.arena.top, nb), next) ∧
      next.arena.top = state.arena.top + nb ∧ next.arena.topSize + nb = state.arena.topSize ∧
      next.arena.sbrk = state.arena.sbrk := by
  have sum : wrap (nb + minSize) = nb + minSize := Nat.mod_eq_of_lt (by omega)
  have size : chunksize nb = nb := by
    simp only [chunksize, mallocAlignment] at whole ⊢
    omega
  unfold MainState.splitTop
  rw [if_pos (by rw [sum]; exact enough), size]
  exact ⟨_, rfl, rfl, Nat.sub_add_cancel (by omega), rfl⟩

theorem split_top_sbrk : (state.splitTop nb).2.arena.sbrk = state.arena.sbrk := by
  unfold MainState.splitTop
  split <;> rfl

theorem chunksize_word (size : Nat) : chunksize (wrap size) < 2 ^ 64 :=
  Nat.lt_of_le_of_lt (chunksize_le _) (Nat.mod_lt _ (Nat.two_pow_pos 64))

theorem correct_top_word (arena : Arena) (sbrk : Sbrk) (answers : Answers) (grant : Grant)
    (oldEnd oldSize : Nat) (word : arena.topSize < 2 ^ 64) :
    (arena.place (correctTop sbrk answers grant oldEnd oldSize).2
      (correctTop sbrk answers grant oldEnd oldSize).1).topSize < 2 ^ 64 := by
  unfold correctTop
  dsimp only
  split
  · exact chunksize_word _
  · split
    · exact chunksize_word _
    · exact word

theorem placed_word {placement : Placement} {sbrk : Sbrk} {topPad oldEnd oldSize : Nat}
    (word : arena.topSize < 2 ^ 64)
    (grown : growTop arena.sbrk answers nb topPad oldEnd oldSize = some (placement, sbrk)) :
    (arena.place sbrk placement).topSize < 2 ^ 64 := by
  unfold growTop at grown
  split at grown
  case h_1 grant recorded obtained =>
    unfold placeTop at grown
    split at grown
    · cases grown
      exact chunksize_word _
    · split at grown
      · cases grown
      · split at grown
        · have corrected := correct_top_word arena recorded answers grant oldEnd oldSize word
          rw [Option.some.inj grown] at corrected
          exact corrected
        · split at grown
          · cases grown
            exact chunksize_word _
          · split at grown <;> cases grown
            · exact chunksize_word _
            · exact word
  case h_2 =>
    cases grown
    exact word

/-- Once the memory is there `sysmalloc` serves the request exactly when it does not give
the memory back while it frees the old top. -/
theorem sysmalloc_serves_iff (state : MainState) (mp : Parameters) (answers : Answers)
    (trimAnswers : TrimAnswers) (nb : Nat) (placed : Arena) (ready : Ready state mp answers nb)
    (whole : nb % mallocAlignment = 0)
    (grown : state.arena.grow nb mp.topPad answers = some placed)
    (enough : nb + minSize ≤ placed.topSize) :
    Served state mp answers trimAnswers nb placed ↔
      ¬GivesBack state mp trimAnswers placed := by
  obtain ⟨placement, sbrk, grew, same⟩ := Arena.grow_place grown
  have word : placed.topSize < 2 ^ 64 := by
    rw [same]
    exact placed_word (by have word := ready.word; omega) grew
  obtain ⟨next, replaced, kept, lost⟩ := replace_top_spec ready same grew
  have result : state.sysmalloc mp answers trimAnswers nb = some (next.splitTop nb) := by
    unfold MainState.sysmalloc
    rw [grew]
    dsimp only
    rw [replaced]
  unfold Served
  rw [result]
  constructor
  · rintro ⟨final, split', _, _, brk⟩ gives
    have last : (next.splitTop nb).2 = final := congrArg Prod.snd (Option.some.inj split')
    apply lost gives
    rw [← brk, ← last, split_top_sbrk]
  · intro keeps
    have arena := kept keeps
    rw [← arena] at enough word
    obtain ⟨final, split', top, size, sbrk⟩ := split_top_spec enough word whole
    rw [arena] at split' top size sbrk
    exact ⟨final, congrArg some split', top, size, congrArg Sbrk.brk sbrk⟩

/-- A heap with a large top, after a foreign `sbrk` of one page. -/
def foreignState : MainState where
  arena := {
    sbrk := {
      brk := 0x623000
      lookup := (lookupInit (2 ^ 26)).setRegion ⟨false, 0x600000, 0x622000, 0x622000⟩
      sbrkBase := 0x600000
      contiguous := true
      systemMem := 0x22000 }
    top := 0x601000
    topSize := 0x21000
    chunks := [(0x600000, 0x1000)] }
  fast := Fast.initial

def defaultParameters : Parameters := ⟨131072, 131072, 0x500000, 2 ^ 26⟩

theorem foreign_state_ready : Ready foreignState defaultParameters granted 200000 where
  word := by decide
  aligned := by decide
  room := Or.inr (by decide)
  memory := by decide
  fast := ⟨[], rfl⟩
  fresh := by
    intro grant after obtained
    have first : (obtainMemory foreignState.arena.sbrk granted 200000 131072 0x21000).1 =
        some ⟨0x623000, 0x30000, none⟩ := rfl
    cases first.symm.trans (congrArg Prod.fst obtained)
    exact Or.inr (by decide)

theorem foreign_state_grows : ∃ placed,
    foreignState.arena.grow 200000 131072 granted = some placed ∧
      200000 + minSize ≤ placed.topSize := by
  have sizes : (foreignState.arena.grow 200000 131072 granted).map Arena.topSize =
      some 0x51000 := by decide +kernel
  obtain ⟨placed, grew, size⟩ := Option.map_eq_some_iff.mp sizes
  exact ⟨placed, grew, by rw [size]; decide⟩

theorem foreign_state_serves_iff : ∃ placed,
    foreignState.arena.grow 200000 131072 granted = some placed ∧
      (Served foreignState defaultParameters granted grantedTrim 200000 placed ↔
        ¬GivesBack foreignState defaultParameters grantedTrim placed) := by
  obtain ⟨placed, grew, enough⟩ := foreign_state_grows
  exact ⟨placed, grew, sysmalloc_serves_iff foreignState defaultParameters granted grantedTrim
    200000 placed foreign_state_ready (by decide) grew enough⟩

/-- With no mapping allowed, a request for 200000 bytes gets memory enough, gives most of it
back and fails. -/
theorem foreign_break_starves :
    ¬∀ (state : MainState) (mp : Parameters) (answers : Answers) (trimAnswers : TrimAnswers)
      (nb : Nat) (placed : Arena), Ready state mp answers nb → nb % mallocAlignment = 0 →
        state.arena.grow nb mp.topPad answers = some placed → nb + minSize ≤ placed.topSize →
          Served state mp answers trimAnswers nb placed := by
  intro claimed
  obtain ⟨placed, grew, enough⟩ := foreign_state_grows
  obtain ⟨next, served, _⟩ := claimed foreignState defaultParameters granted grantedTrim 200000
    placed foreign_state_ready (by decide) grew enough
  have starved : (foreignState.sysmalloc defaultParameters granted grantedTrim 200000).map
      Prod.fst = some none := by decide +kernel
  rw [served] at starved
  cases starved

end SriGlibcMalloc.MainArena
