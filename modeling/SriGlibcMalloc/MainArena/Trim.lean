import SriGlibcMalloc.MainArena.Coverage

/-!
# Trimming only shrinks

`systrim` takes a multiple of the page size off top, off `system_mem` and off the
bound of `sbrk_regions[0]`, or changes none of them. It goes wrong when top has
exactly the minimal size: the amount above the minimal size and one more byte is
then -1, which passes for the largest word. It also goes wrong when foreign moves of
the break have left a bound that is smaller than the amount given back.
-/

namespace SriGlibcMalloc.MainArena

open ArenaLookup

set_option autoImplicit false

/-- The bound that `lookup_arena_index` compares an address with. -/
def Sbrk.hi (sbrk : Sbrk) : Nat := (sbrk.lookup.sbrkRegions 0).hi

/-- A main arena with a top; `system_mem` and the bound of `sbrk_regions[0]` are words. -/
structure TopState (sbrk : Sbrk) (top topSize : Nat) : Prop where
  room : minSize ≤ topSize
  whole : topSize % 4 = 0
  word : top + topSize < 2 ^ 63
  memory : sbrk.systemMem < 2 ^ 64
  bound : sbrk.hi < 2 ^ 64

/-- Top ends at the break, as far as `systrim` gets to know. -/
abbrev Reaches (sbrk : Sbrk) (answers : TrimAnswers) (topEnd : Nat) : Prop :=
  sbrk.moves answers.query 0 = true ∧ sbrk.brk = topEnd

/-- The amount that `MORECORE` is asked for, if `systrim` comes to that point. -/
def askedAmount (sbrk : Sbrk) (answers : TrimAnswers) (pad topEnd topSize : Nat) : Option Int :=
  match trimAmount topSize pad with
  | none => none
  | some extra =>
      if Reaches sbrk answers topEnd then some (-extra) else none

/-- Top, `system_mem` and the bound lose the same whole number of pages, and the minimal
size and the pad stay in top; or nothing changes. -/
def Trimmed (sbrk : Sbrk) (pad topSize : Nat) : Option Nat × Sbrk → Prop
  | (some size, after) => ∃ pages, 0 < pages ∧ size + pages * pageSize = topSize ∧
      after.systemMem + pages * pageSize = sbrk.systemMem ∧
      after.hi + pages * pageSize = sbrk.hi ∧ minSize + pad ≤ size
  | (none, after) => after.systemMem = sbrk.systemMem ∧ after.hi = sbrk.hi

def OnlyShrinks (sbrk : Sbrk) (answers : TrimAnswers) (pad top topSize : Nat) : Prop :=
  (∀ amount, askedAmount sbrk answers pad (top + topSize) topSize = some amount → amount ≤ 0) ∧
    Trimmed sbrk pad topSize (systrim sbrk answers pad (top + topSize) topSize)

/-- Top has the minimal size and ends at the break; and the difference that is taken for
a large word is negative as a `long`, or it is positive and the break is moved by it. -/
def Runaway (sbrk : Sbrk) (answers : TrimAnswers) (pad top topSize : Nat) : Prop :=
  topSize = minSize ∧ answers.query = true ∧ sbrk.brk = top + topSize ∧
    (pad < 2 ^ 63 ∨ ∃ extra, trimAmount topSize pad = some extra ∧
      sbrk.moves answers.release (-extra) = true ∧ answers.probe = true)

/-- More is given back, and seen to be, than `system_mem` or the bound has. -/
def Overdrawn (sbrk : Sbrk) (answers : TrimAnswers) (pad top topSize : Nat) : Prop :=
  Reaches sbrk answers (top + topSize) ∧ ∃ extra, trimAmount topSize pad = some extra ∧
    sbrk.moves answers.release (-extra) = true ∧ answers.probe = true ∧
      ((sbrk.systemMem : Int) < extra ∨ (sbrk.hi : Int) < extra)

variable {sbrk : Sbrk} {answers : TrimAnswers} {pad top topSize topEnd : Nat} {extra : Int}

theorem trim_amount_large (large : minSize < topSize) (word : topSize < 2 ^ 63)
    (wanted : trimAmount topSize pad = some extra) :
    ∃ pages amount : Nat, 0 < pages ∧ amount = pages * pageSize ∧ extra = amount ∧
      33 + pad + amount ≤ topSize := by
  have area : wrapSub topSize (minSize + 1) = topSize - 33 := by
    simp only [wrapSub, wrap, minSize] at large ⊢
    omega
  unfold trimAmount at wanted
  rw [area] at wanted
  dsimp only at wanted
  by_cases small : topSize - 33 ≤ pad
  · rw [if_pos small] at wanted
    cases wanted
  · rw [if_neg small] at wanted
    have rest : wrapSub (topSize - 33) pad = topSize - 33 - pad :=
      wrap_sub_exact (by omega) (by omega)
    have positive : signed (alignDown (topSize - 33 - pad) pageSize) =
        (alignDown (topSize - 33 - pad) pageSize : Nat) := by
      rw [signed, if_pos]
      simp only [alignDown]
      omega
    rw [rest, positive] at wanted
    by_cases nothing : ((alignDown (topSize - 33 - pad) pageSize : Nat) : Int) = 0
    · rw [if_pos nothing] at wanted
      cases wanted
    · rw [if_neg nothing] at wanted
      refine ⟨(topSize - 33 - pad) / pageSize, alignDown (topSize - 33 - pad) pageSize, ?_, ?_,
        (Option.some.inj wanted).symm, ?_⟩
      · simp only [alignDown, pageSize] at nothing ⊢
        omega
      · simp only [alignDown, pageSize]
        omega
      · have below : alignDown (topSize - 33 - pad) pageSize ≤ topSize - 33 - pad := Nat.sub_le ..
        simp only [minSize] at large
        omega

/-- With a top of the minimal size the amount has the sign of the pad as a `long`. -/
theorem trim_amount_minimal :
    (pad < 2 ^ 63 → ∃ extra, trimAmount minSize pad = some extra ∧ extra < 0) ∧
      (2 ^ 63 ≤ pad → ∀ extra, trimAmount minSize pad = some extra → 0 < extra) := by
  have area : wrapSub minSize (minSize + 1) = 2 ^ 64 - 1 := by decide
  unfold trimAmount
  rw [area]
  constructor
  · intro low
    have rest : wrapSub (2 ^ 64 - 1) pad = 2 ^ 64 - 1 - pad := wrap_sub_exact (by omega) (by omega)
    have negative : signed (alignDown (2 ^ 64 - 1 - pad) pageSize) < 0 := by
      have high : ¬alignDown (2 ^ 64 - 1 - pad) pageSize < 2 ^ 63 := by
        simp only [alignDown, pageSize]
        omega
      have below : alignDown (2 ^ 64 - 1 - pad) pageSize ≤ 2 ^ 64 - 1 - pad := Nat.sub_le ..
      rw [signed, if_neg high]
      omega
    dsimp only
    rw [if_neg (by omega), rest, if_neg (Int.ne_of_lt negative)]
    exact ⟨_, rfl, negative⟩
  · intro high extra wanted
    dsimp only at wanted
    by_cases refused : 2 ^ 64 - 1 ≤ pad
    · rw [if_pos refused] at wanted
      cases wanted
    · have rest : wrapSub (2 ^ 64 - 1) pad = 2 ^ 64 - 1 - pad :=
        wrap_sub_exact (by omega) (by omega)
      rw [if_neg refused, rest] at wanted
      have low : alignDown (2 ^ 64 - 1 - pad) pageSize < 2 ^ 63 := by
        simp only [alignDown]
        omega
      rw [signed, if_pos low] at wanted
      by_cases nothing : ((alignDown (2 ^ 64 - 1 - pad) pageSize : Nat) : Int) = 0
      · rw [if_pos nothing] at wanted
        cases wanted
      · rw [if_neg nothing] at wanted
        rw [← Option.some.inj wanted]
        omega

theorem morecore_zero_eq {granted : Bool} :
    morecore sbrk granted 0 = (if sbrk.moves granted 0 then some sbrk.brk else none, sbrk) := by
  unfold morecore
  by_cases moves : sbrk.moves granted 0 = true
  · rw [if_pos moves, if_pos moves]
    simp
  · rw [if_neg moves, if_neg moves]

theorem record_release_eq {probe : Bool} {currentBrk : Nat} :
    recordRelease sbrk probe currentBrk topSize =
      if sbrk.moves probe 0 = true ∧ currentBrk ≠ sbrk.brk then
        (some (chunksize (wrapSub topSize (wrapSub currentBrk sbrk.brk))),
          { sbrk with
            systemMem := wrapSub sbrk.systemMem (wrapSub currentBrk sbrk.brk)
            lookup := lookupDecrSbrkHi sbrk.lookup (wrapSub currentBrk sbrk.brk) })
      else (none, sbrk) := by
  unfold recordRelease
  rw [morecore_zero_eq]
  by_cases moves : sbrk.moves probe 0 = true
  · rw [if_pos moves]
    by_cases same : currentBrk = sbrk.brk
    · simp [same]
    · simp [moves, same]
  · rw [if_neg moves, if_neg fun both => moves both.1]

theorem release_top_eq :
    releaseTop sbrk answers extra topEnd topSize =
      if Reaches sbrk answers topEnd then
        recordRelease (morecore sbrk answers.release (-extra)).2 answers.probe sbrk.brk topSize
      else (none, sbrk) := by
  unfold releaseTop
  rw [morecore_zero_eq]
  by_cases moves : sbrk.moves answers.query 0 = true
  · rw [if_pos moves]
    by_cases meets : sbrk.brk = topEnd
    · rw [if_pos ⟨moves, meets⟩]
      simp [meets]
    · rw [if_neg fun both => meets both.2]
      simp [meets]
  · rw [if_neg moves, if_neg fun both => moves both.1]

theorem unreached_shrinks (unreached : ¬Reaches sbrk answers (top + topSize)) :
    OnlyShrinks sbrk answers pad top topSize := by
  unfold OnlyShrinks askedAmount systrim
  cases wanted : trimAmount topSize pad with
  | none => exact ⟨(fun _ impossible => nomatch impossible), ⟨rfl, rfl⟩⟩
  | some extra =>
      dsimp only
      rw [release_top_eq, if_neg unreached, if_neg unreached]
      exact ⟨(fun _ impossible => nomatch impossible), ⟨rfl, rfl⟩⟩

theorem idle_shrinks (idle : trimAmount topSize pad = none) :
    OnlyShrinks sbrk answers pad top topSize := by
  unfold OnlyShrinks askedAmount systrim
  rw [idle]
  exact ⟨(fun _ impossible => nomatch impossible), ⟨rfl, rfl⟩⟩

theorem reached_shrinks_iff (wanted : trimAmount topSize pad = some extra)
    (reached : Reaches sbrk answers (top + topSize)) :
    OnlyShrinks sbrk answers pad top topSize ↔ 0 ≤ extra ∧
      Trimmed sbrk pad topSize
        (recordRelease (morecore sbrk answers.release (-extra)).2 answers.probe sbrk.brk
          topSize) := by
  unfold OnlyShrinks askedAmount systrim
  rw [wanted]
  dsimp only
  rw [release_top_eq, if_pos reached, if_pos reached]
  apply and_congr_left'
  constructor
  · intro bounded
    have asked := bounded (-extra) rfl
    omega
  · intro positive amount asked
    cases asked
    omega

theorem kept_trimmed (kept : sbrk.moves answers.release (-extra) = false ∨ answers.probe = false) :
    Trimmed sbrk pad topSize
      (recordRelease (morecore sbrk answers.release (-extra)).2 answers.probe sbrk.brk topSize) := by
  rw [record_release_eq]
  unfold morecore
  by_cases moves : sbrk.moves answers.release (-extra) = true
  · have unseen : answers.probe = false := by
      cases kept with
      | inl still => rw [still] at moves; cases moves
      | inr unseen => exact unseen
    rw [if_pos moves, if_neg]
    · exact ⟨rfl, rfl⟩
    · intro seen
      rw [moves_iff, unseen] at seen
      exact absurd seen.1.1 Bool.false_ne_true
  · rw [if_neg moves, if_neg fun seen => seen.2 rfl]
    exact ⟨rfl, rfl⟩

/-- The pages that are released are taken off everywhere, as far as they are there. -/
theorem released_trimmed_iff {pages amount : Nat} (state : TopState sbrk top topSize)
    (meets : sbrk.brk = top + topSize) (some' : 0 < pages) (whole : amount = pages * pageSize)
    (rest : 33 + pad + amount ≤ topSize)
    (moves : sbrk.moves answers.release (-(amount : Int)) = true) (seen : answers.probe = true) :
    Trimmed sbrk pad topSize
      (recordRelease (morecore sbrk answers.release (-(amount : Int))).2 answers.probe
        sbrk.brk topSize) ↔ amount ≤ sbrk.systemMem ∧ amount ≤ sbrk.hi := by
  have word := state.word
  have memory := state.memory
  have bound := state.bound
  have quarters := state.whole
  have positive : 0 < amount ∧ amount % 4 = 0 := by
    simp only [pageSize] at whole
    omega
  obtain ⟨_, low, high⟩ := moves_iff.mp moves
  have newBrk : ((sbrk.brk : Int) + -(amount : Int)).toNat = top + topSize - amount := by omega
  have released : wrapSub sbrk.brk (top + topSize - amount) = amount := by
    rw [wrap_sub_exact (by omega) (by omega)]
    omega
  have probed : Sbrk.moves { sbrk with brk := top + topSize - amount } answers.probe 0 = true := by
    refine moves_iff.mpr ⟨seen, ?_⟩
    dsimp only
    omega
  have left : chunksize (wrapSub topSize amount) = topSize - amount := by
    rw [wrap_sub_exact (by omega) (by omega), chunksize]
    omega
  have differs : sbrk.brk ≠ top + topSize - amount := by omega
  rw [record_release_eq]
  unfold morecore
  rw [if_pos moves, newBrk]
  dsimp only
  rw [if_pos ⟨probed, differs⟩, released]
  have lowered : Sbrk.hi { sbrk with
      brk := top + topSize - amount
      systemMem := wrapSub sbrk.systemMem amount
      lookup := lookupDecrSbrkHi sbrk.lookup amount } =
        (sbrk.hi + (2 ^ 64 - amount % 2 ^ 64)) % 2 ^ 64 := by
    simp only [Sbrk.hi, lookupDecrSbrkHi, Lookup.setRegion, Function.update_self]
  constructor
  · rintro ⟨others, _, size, counted, bounded, _⟩
    have same : others * pageSize = amount := by
      rw [left] at size
      omega
    rw [same] at counted bounded
    rw [lowered] at bounded
    change wrapSub sbrk.systemMem amount + amount = sbrk.systemMem at counted
    omega
  · rintro ⟨counted, bounded⟩
    refine ⟨pages, some', ?_, ?_, ?_, ?_⟩
    · rw [left, ← whole]
      omega
    · change wrapSub sbrk.systemMem amount + _ = _
      rw [wrap_sub_exact (by omega) (by omega), ← whole]
      omega
    · rw [lowered, ← whole]
      omega
    · rw [left, minSize]
      omega

theorem large_shrinks_iff (state : TopState sbrk top topSize) (large : minSize < topSize) :
    OnlyShrinks sbrk answers pad top topSize ↔ ¬Overdrawn sbrk answers pad top topSize := by
  by_cases reached : Reaches sbrk answers (top + topSize)
  · cases wanted : trimAmount topSize pad with
    | none =>
        refine iff_of_true (idle_shrinks wanted) ?_
        rintro ⟨_, extra, impossible, _⟩
        rw [wanted] at impossible
        cases impossible
    | some extra =>
        have word : topSize < 2 ^ 63 := by
          have word := state.word
          omega
        obtain ⟨pages, amount, some', whole, exact, rest⟩ := trim_amount_large large word wanted
        subst exact
        have kept : sbrk.moves answers.release (-(amount : Int)) = false ∨ answers.probe = false →
            (OnlyShrinks sbrk answers pad top topSize ↔
              ¬Overdrawn sbrk answers pad top topSize) := by
          intro kept
          rw [reached_shrinks_iff wanted reached]
          refine iff_of_true ⟨Int.natCast_nonneg _, kept_trimmed kept⟩ ?_
          rintro ⟨_, other, same, moves, seen, _⟩
          rw [wanted] at same
          cases same
          rw [moves, seen] at kept
          rcases kept with impossible | impossible <;> cases impossible
        cases moves : sbrk.moves answers.release (-(amount : Int)) with
        | false => exact kept (Or.inl moves)
        | true =>
            cases seen : answers.probe with
            | false => exact kept (Or.inr seen)
            | true =>
                rw [reached_shrinks_iff wanted reached,
                  released_trimmed_iff state reached.2 some' whole rest moves seen]
                constructor
                · rintro ⟨_, counted, bounded⟩ ⟨_, other, same, _, _, short⟩
                  rw [wanted] at same
                  cases same
                  omega
                · intro covered
                  refine ⟨Int.natCast_nonneg _, ?_⟩
                  by_contra short
                  exact covered ⟨reached, _, wanted, moves, seen, by omega⟩
  · exact iff_of_true (unreached_shrinks reached) fun overdrawn => reached overdrawn.1

theorem minimal_released (moves : sbrk.moves answers.release (-extra) = true)
    (positive : 0 < extra) (seen : answers.probe = true) :
    ¬Trimmed sbrk pad minSize
      (recordRelease (morecore sbrk answers.release (-extra)).2 answers.probe sbrk.brk
        minSize) := by
  obtain ⟨_, low, high⟩ := moves_iff.mp moves
  have probed : Sbrk.moves { sbrk with brk := ((sbrk.brk : Int) + -extra).toNat }
      answers.probe 0 = true := by
    refine moves_iff.mpr ⟨seen, ?_⟩
    dsimp only
    omega
  have differs : sbrk.brk ≠ ((sbrk.brk : Int) + -extra).toNat := by omega
  rw [record_release_eq]
  unfold morecore
  rw [if_pos moves]
  dsimp only
  rw [if_pos ⟨probed, differs⟩]
  rintro ⟨pages, some', size, _⟩
  simp only [pageSize, minSize] at size
  omega

theorem minimal_shrinks_iff
    (reached : Reaches sbrk answers (top + minSize)) :
    OnlyShrinks sbrk answers pad top minSize ↔
      ¬(pad < 2 ^ 63 ∨ ∃ extra, trimAmount minSize pad = some extra ∧
        sbrk.moves answers.release (-extra) = true ∧ answers.probe = true) := by
  by_cases low : pad < 2 ^ 63
  · obtain ⟨extra, wanted, negative⟩ := trim_amount_minimal.1 low
    rw [reached_shrinks_iff wanted reached]
    constructor
    · intro shrinks
      exact absurd shrinks.1 (Int.not_le.mpr negative)
    · intro right
      exact absurd (Or.inl low) right
  · cases wanted : trimAmount minSize pad with
    | none =>
        refine iff_of_true (idle_shrinks wanted) ?_
        rintro (low' | ⟨extra, impossible, _⟩)
        · exact low low'
        · cases impossible
    | some extra =>
        have positive := trim_amount_minimal.2 (Nat.not_lt.mp low) extra wanted
        rw [reached_shrinks_iff wanted reached]
        constructor
        · rintro shrinks (low' | ⟨other, same, moves, seen⟩)
          · exact low low'
          · cases same
            exact minimal_released moves positive seen shrinks.2
        · intro right
          refine ⟨Int.le_of_lt positive, kept_trimmed ?_⟩
          cases moves : sbrk.moves answers.release (-extra) with
          | false => exact Or.inl rfl
          | true =>
              cases seen : answers.probe with
              | false => exact Or.inr rfl
              | true => exact absurd (Or.inr ⟨extra, rfl, moves, seen⟩) right

/-- `systrim` only shrinks exactly when it does not run away and what it gives back is there. -/
theorem only_shrinks_iff (sbrk : Sbrk) (answers : TrimAnswers) (pad top topSize : Nat)
    (state : TopState sbrk top topSize) :
    OnlyShrinks sbrk answers pad top topSize ↔
      ¬Runaway sbrk answers pad top topSize ∧ ¬Overdrawn sbrk answers pad top topSize := by
  by_cases large : minSize < topSize
  · rw [large_shrinks_iff state large]
    exact (and_iff_right fun runaway => Nat.ne_of_gt large runaway.1).symm
  · have minimal : topSize = minSize := Nat.le_antisymm (Nat.not_lt.mp large) state.room
    subst minimal
    by_cases reached : Reaches sbrk answers (top + minSize)
    · rw [minimal_shrinks_iff reached]
      constructor
      · intro right
        refine ⟨fun runaway => right runaway.2.2.2, ?_⟩
        rintro ⟨_, extra, wanted, moves, seen, _⟩
        exact right (Or.inr ⟨extra, wanted, moves, seen⟩)
      · rintro ⟨right, _⟩ wrong
        exact right ⟨rfl, (moves_iff.mp reached.1).1, reached.2, wrong⟩
    · refine iff_of_true (unreached_shrinks reached) ⟨?_, fun overdrawn => reached overdrawn.1⟩
      intro runaway
      have word := state.word
      apply reached
      refine ⟨moves_iff.mpr ⟨runaway.2.1, ?_⟩, runaway.2.2.1⟩
      rw [runaway.2.2.1]
      simp only [minSize] at *
      omega

def grownSbrk : Sbrk where
  brk := 0x602000
  lookup := (lookupInit (2 ^ 26)).setRegion ⟨false, 0x600000, 0x602000, 0x602000⟩
  sbrkBase := 0x600000
  contiguous := true
  systemMem := 0x2000

def grantedTrim : TrimAnswers := ⟨true, true, true⟩

theorem grown_top_state (top topSize : Nat) (ends : top + topSize = 0x602000)
    (room : minSize ≤ topSize) (whole : topSize % 4 = 0) : TopState grownSbrk top topSize where
  room := room
  whole := whole
  word := by
    rw [ends]
    decide
  memory := by decide
  bound := by decide

theorem whole_heap_shrinks :
    OnlyShrinks grownSbrk grantedTrim 0 0x600000 0x2000 ↔
      ¬Runaway grownSbrk grantedTrim 0 0x600000 0x2000 ∧
        ¬Overdrawn grownSbrk grantedTrim 0 0x600000 0x2000 :=
  only_shrinks_iff grownSbrk grantedTrim 0 0x600000 0x2000
    (grown_top_state _ _ rfl (by decide) (by decide))

/-- `malloc_trim (0)` with a top of 32 bytes asks for one more page, and gets it. -/
theorem minimal_top_grows :
    ¬∀ (sbrk : Sbrk) (answers : TrimAnswers) (pad top topSize : Nat),
      TopState sbrk top topSize → OnlyShrinks sbrk answers pad top topSize := by
  intro claimed
  have state := grown_top_state (0x602000 - 32) 32 rfl (by decide) (by decide)
  have shrinks := (claimed grownSbrk grantedTrim 0 _ _ state).1 4096 (by decide)
  exact absurd shrinks (by decide)

end SriGlibcMalloc.MainArena
