import SriGlibcMalloc.MainArena.Growth

/-!
# The regions of the main arena

Growing the main arena moves the upper bound of `sbrk_regions[0]` by sizes only.
So the bound follows the break as long as it was equal to the break whenever
`MORECORE` succeeded. A backup mapping becomes a region of its own.
-/

namespace SriGlibcMalloc.MainArena

open ArenaLookup

set_option autoImplicit false

def Listed (lookup : Lookup) (byte : Nat) : Prop :=
  ∃ i, i ≤ lookup.sbrkRegionCount ∧
    (lookup.sbrkRegions i).lo ≤ byte ∧ byte < (lookup.sbrkRegions i).hi

/-! ## Regions that grow -/

def Elsewhere (lookup : Lookup) (byte : Nat) : Prop :=
  ∃ i, 0 < i ∧ i ≤ lookup.sbrkRegionCount ∧
    (lookup.sbrkRegions i).lo ≤ byte ∧ byte < (lookup.sbrkRegions i).hi

structure Widened (before after : Lookup) (start stop : Nat) : Prop where
  keeps : ∀ byte, Listed before byte → Listed after byte
  elsewhere : ∀ byte, Elsewhere before byte → Elsewhere after byte
  covers : ∀ byte, start ≤ byte → byte < stop → Listed after byte
  separate : ∀ byte, Listed before byte → start ≤ byte → byte < stop → Elsewhere after byte

structure Bounds (sbrk : Sbrk) : Prop where
  positive : 0 < sbrk.brk
  word : sbrk.brk < 2 ^ 63
  ordered : (sbrk.lookup.sbrkRegions 0).hi ≠ 0 →
    (sbrk.lookup.sbrkRegions 0).lo ≤ (sbrk.lookup.sbrkRegions 0).hi
  unset : sbrk.sbrkBase = 0 → (sbrk.lookup.sbrkRegions 0).hi = 0

variable {sbrk after : Sbrk} {lookup : Lookup} {region : SbrkRegion} {start middle stop byte : Nat}

theorem listed_iff : Listed lookup byte ↔
    Elsewhere lookup byte ∨
      ((lookup.sbrkRegions 0).lo ≤ byte ∧ byte < (lookup.sbrkRegions 0).hi) := by
  constructor
  · intro listed
    obtain ⟨i, counted, low, high⟩ := listed
    rcases Nat.eq_zero_or_pos i with zero | positive
    · subst zero
      exact Or.inr ⟨low, high⟩
    · exact Or.inl ⟨i, positive, counted, low, high⟩
  · intro either
    rcases either with ⟨i, _, counted, low, high⟩ | ⟨low, high⟩
    · exact ⟨i, counted, low, high⟩
    · exact ⟨0, Nat.zero_le _, low, high⟩

theorem set_region_zero (lookup : Lookup) (region : SbrkRegion) :
    (lookup.setRegion region).sbrkRegions 0 = region := by
  simp [Lookup.setRegion]

theorem elsewhere_set_region :
    Elsewhere (lookup.setRegion region) byte ↔ Elsewhere lookup byte := by
  have same : ∀ i, 0 < i → (lookup.setRegion region).sbrkRegions i = lookup.sbrkRegions i := by
    intro i positive
    exact Function.update_of_ne (Nat.ne_of_gt positive) ..
  constructor <;> intro found <;> obtain ⟨i, positive, counted, inside⟩ := found
  · rw [same i positive] at inside
    exact ⟨i, positive, counted, inside⟩
  · rw [← same i positive] at inside
    exact ⟨i, positive, counted, inside⟩

theorem widened_set_region
    (grows : ∀ byte, (lookup.sbrkRegions 0).lo ≤ byte → byte < (lookup.sbrkRegions 0).hi →
      region.lo ≤ byte ∧ byte < region.hi ∧ byte < start)
    (low : region.lo ≤ start) (high : stop ≤ region.hi) :
    Widened lookup (lookup.setRegion region) start stop := by
  constructor
  · intro byte listed
    rw [listed_iff, elsewhere_set_region, set_region_zero]
    rcases listed_iff.mp listed with away | inside
    · exact Or.inl away
    · have larger := grows byte inside.1 inside.2
      exact Or.inr ⟨larger.1, larger.2.1⟩
  · intro byte away
    exact elsewhere_set_region.mpr away
  · intro byte above before
    rw [listed_iff, set_region_zero]
    exact Or.inr ⟨Nat.le_trans low above, Nat.lt_of_lt_of_le before high⟩
  · intro byte listed above _
    rcases listed_iff.mp listed with away | inside
    · exact elsewhere_set_region.mpr away
    · exact absurd (grows byte inside.1 inside.2).2.2 (Nat.not_lt.mpr above)

theorem Widened.append {before between later : Lookup} (first : Widened before between start middle)
    (second : Widened between later middle stop) : Widened before later start stop := by
  constructor
  · intro byte listed
    exact second.keeps byte (first.keeps byte listed)
  · intro byte away
    exact second.elsewhere byte (first.elsewhere byte away)
  · intro byte above before
    rcases Nat.lt_or_ge byte middle with early | late
    · exact second.keeps byte (first.covers byte above early)
    · exact second.covers byte late before
  · intro byte listed above before
    rcases Nat.lt_or_ge byte middle with early | late
    · exact second.elsewhere byte (first.separate byte listed above early)
    · exact second.separate byte (first.keeps byte listed) late before

theorem Widened.shrink {before later : Lookup} {low high : Nat}
    (widened : Widened before later start stop) (above : start ≤ low) (below : high ≤ stop) :
    Widened before later low high := by
  constructor
  · exact widened.keeps
  · exact widened.elsewhere
  · intro byte lower upper
    exact widened.covers byte (Nat.le_trans above lower) (Nat.lt_of_lt_of_le upper below)
  · intro byte listed lower upper
    exact widened.separate byte listed (Nat.le_trans above lower) (Nat.lt_of_lt_of_le upper below)

/-! ## The bookkeeping of `sysmalloc` -/

theorem moves_iff {granted : Bool} {amount : Int} : sbrk.moves granted amount = true ↔
    granted = true ∧ 0 < (sbrk.brk : Int) + amount ∧ (sbrk.brk : Int) + amount < 2 ^ 63 := by
  simp [Sbrk.moves, and_assoc]

theorem incr_sbrk_hi (bounds : Bounds sbrk) (size : Nat)
    (meets : sbrk.brk = (sbrk.lookup.sbrkRegions 0).hi) (room : sbrk.brk + size < 2 ^ 63) :
    Widened sbrk.lookup (lookupIncrSbrkHi sbrk.lookup size) sbrk.brk (sbrk.brk + size) ∧
      Bounds { sbrk with
        brk := sbrk.brk + size
        lookup := lookupIncrSbrkHi sbrk.lookup size } ∧
      ((lookupIncrSbrkHi sbrk.lookup size).sbrkRegions 0).hi = sbrk.brk + size := by
  have positive := bounds.positive
  have used : (sbrk.lookup.sbrkRegions 0).hi ≠ 0 := by omega
  have ordered := bounds.ordered used
  have exact : ((sbrk.lookup.sbrkRegions 0).hi + size) % 2 ^ 64 = sbrk.brk + size := by omega
  have high : ((lookupIncrSbrkHi sbrk.lookup size).sbrkRegions 0).hi = sbrk.brk + size := by
    simp only [lookupIncrSbrkHi, set_region_zero, if_neg used]
    exact exact
  have low : ((lookupIncrSbrkHi sbrk.lookup size).sbrkRegions 0).lo =
      (sbrk.lookup.sbrkRegions 0).lo := by
    simp only [lookupIncrSbrkHi, set_region_zero]
  refine ⟨?_, ⟨?_, room, ?_, ?_⟩, high⟩
  · apply widened_set_region
    · intro byte above before
      simp only [if_neg used, exact]
      exact ⟨above, by omega, by omega⟩
    · show (sbrk.lookup.sbrkRegions 0).lo ≤ sbrk.brk
      omega
    · simp only [if_neg used, exact]
      exact Nat.le_refl _
  · exact Nat.add_pos_left positive size
  · intro _
    rw [high, low]
    omega
  · intro unset
    exact absurd (bounds.unset unset) used

theorem first_sbrk_region (size : Nat)
    (unset : (sbrk.lookup.sbrkRegions 0).hi = 0) (room : sbrk.brk + size < 2 ^ 63) :
    Widened sbrk.lookup (lookupIncrSbrkHi (lookupSetSbrkLo sbrk.lookup sbrk.brk) size)
        sbrk.brk (sbrk.brk + size) ∧
      ((lookupIncrSbrkHi (lookupSetSbrkLo sbrk.lookup sbrk.brk) size).sbrkRegions 0).lo =
        sbrk.brk ∧
      ((lookupIncrSbrkHi (lookupSetSbrkLo sbrk.lookup sbrk.brk) size).sbrkRegions 0).hi =
        sbrk.brk + size := by
  have exact : (sbrk.brk + size) % 2 ^ 64 = sbrk.brk + size := by omega
  have lowered : (lookupSetSbrkLo sbrk.lookup sbrk.brk).sbrkRegions 0 =
      { sbrk.lookup.sbrkRegions 0 with lo := sbrk.brk } := set_region_zero ..
  have once : ∀ region, (lookupSetSbrkLo sbrk.lookup sbrk.brk).setRegion region =
      sbrk.lookup.setRegion region := by
    intro region
    simp [lookupSetSbrkLo, Lookup.setRegion]
  have shape : lookupIncrSbrkHi (lookupSetSbrkLo sbrk.lookup sbrk.brk) size =
      sbrk.lookup.setRegion { sbrk.lookup.sbrkRegions 0 with
        lo := sbrk.brk
        hi := sbrk.brk + size
        max := if (sbrk.lookup.sbrkRegions 0).max < sbrk.brk + size then sbrk.brk + size
          else (sbrk.lookup.sbrkRegions 0).max } := by
    rw [lookupIncrSbrkHi, once]
    simp only [lowered, unset, if_true, exact]
  rw [shape, set_region_zero]
  refine ⟨?_, rfl, rfl⟩
  apply widened_set_region
  · intro byte _ before
    rw [unset] at before
    cases before
  · exact Nat.le_refl _
  · exact Nat.le_refl _

theorem record_sbrk (bounds : Bounds sbrk) (size : Nat) (room : sbrk.brk + size < 2 ^ 63)
    (meets : sbrk.sbrkBase = 0 ∨ sbrk.brk = (sbrk.lookup.sbrkRegions 0).hi)
    (recorded : recordGrant { sbrk with brk := sbrk.brk + size } ⟨sbrk.brk, size, none⟩ = after) :
    Widened sbrk.lookup after.lookup sbrk.brk (sbrk.brk + size) ∧ Bounds after ∧
      (after.lookup.sbrkRegions 0).hi = after.brk ∧ after.brk = sbrk.brk + size ∧
      after.sbrkBase ≠ 0 := by
  have positive := bounds.positive
  have same : after.brk = sbrk.brk + size := by
    subst recorded
    rfl
  by_cases unset : sbrk.sbrkBase = 0
  · obtain ⟨widened, low, high⟩ := first_sbrk_region size (bounds.unset unset) room
    have looked : after.lookup =
        lookupIncrSbrkHi (lookupSetSbrkLo sbrk.lookup sbrk.brk) size := by
      subst recorded
      simp only [recordGrant, unset, if_true]
    have based : after.sbrkBase = sbrk.brk := by
      subst recorded
      simp only [recordGrant, unset, if_true]
    rw [← looked] at widened low high
    refine ⟨widened, ⟨?_, ?_, ?_, ?_⟩, high.trans same.symm, same, ?_⟩ <;> omega
  · have meeting := meets.resolve_left unset
    obtain ⟨widened, later, high⟩ := incr_sbrk_hi bounds size meeting room
    have looked : after.lookup = lookupIncrSbrkHi sbrk.lookup size := by
      subst recorded
      simp only [recordGrant, unset, if_false]
    have based : after.sbrkBase = sbrk.sbrkBase := by
      subst recorded
      simp only [recordGrant, unset, if_false]
    have ordered := later.ordered
    rw [← looked] at widened high ordered
    refine ⟨widened, ⟨?_, ?_, ordered, ?_⟩, high.trans same.symm, same, ?_⟩ <;> omega

theorem record_mmap (bounds : Bounds sbrk) (mbrk size : Nat) (mapped : 0 < mbrk)
    (roomy : ¬(sbrk.lookup.sbrkRegionCount + 1 = sbrk.lookup.sbrkRegionCurrentMax ∧
      maxSbrkTableSize ≤ sbrk.lookup.sbrkRegionCurrentMax))
    (recorded : recordGrant { sbrk with contiguous := false }
      ⟨mbrk, size, some (mbrk + size)⟩ = after) :
    Widened sbrk.lookup after.lookup mbrk (mbrk + size) ∧ Bounds after ∧ after.sbrkBase ≠ 0 ∧
      after.contiguous = false := by
  have counts : after.lookup.sbrkRegionCount = sbrk.lookup.sbrkRegionCount + 1 := by
    subst recorded
    simp only [recordGrant, lookupAddSbrkRegion, if_neg roomy]
  have regions : after.lookup.sbrkRegions = Function.update sbrk.lookup.sbrkRegions
      (sbrk.lookup.sbrkRegionCount + 1) ⟨true, mbrk, mbrk + size, mbrk + size⟩ := by
    subst recorded
    simp only [recordGrant, lookupAddSbrkRegion, if_neg roomy]
  have last : after.lookup.sbrkRegions (sbrk.lookup.sbrkRegionCount + 1) =
      ⟨true, mbrk, mbrk + size, mbrk + size⟩ := by
    simp [regions]
  have kept : ∀ i, i ≤ sbrk.lookup.sbrkRegionCount →
      after.lookup.sbrkRegions i = sbrk.lookup.sbrkRegions i := by
    intro i counted
    rw [regions]
    exact Function.update_of_ne (Nat.ne_of_lt (Nat.lt_succ_of_le counted)) ..
  have added : ∀ byte, mbrk ≤ byte → byte < mbrk + size → Elsewhere after.lookup byte := by
    intro byte above before
    refine ⟨sbrk.lookup.sbrkRegionCount + 1, Nat.succ_pos _, counts.ge, ?_⟩
    rw [last]
    exact ⟨above, before⟩
  have same : after.brk = sbrk.brk := by
    subst recorded
    rfl
  have based : after.sbrkBase = if sbrk.sbrkBase = 0 then mbrk else sbrk.sbrkBase := by
    subst recorded
    rfl
  have nonzero : after.sbrkBase ≠ 0 := by
    rw [based]
    split
    · exact Nat.ne_of_gt mapped
    · assumption
  refine ⟨⟨?_, ?_, ?_, ?_⟩, ⟨?_, ?_, ?_, ?_⟩, nonzero, ?_⟩
  · intro byte listed
    obtain ⟨i, counted, inside⟩ := listed
    rw [← kept i counted] at inside
    exact ⟨i, counts ▸ Nat.le_succ_of_le counted, inside⟩
  · intro byte away
    obtain ⟨i, positive, counted, inside⟩ := away
    rw [← kept i counted] at inside
    exact ⟨i, positive, counts ▸ Nat.le_succ_of_le counted, inside⟩
  · intro byte above before
    exact listed_iff.mpr (Or.inl (added byte above before))
  · intro byte _ above before
    exact added byte above before
  · rw [same]
    exact bounds.positive
  · rw [same]
    exact bounds.word
  · rw [kept 0 (Nat.zero_le _)]
    exact bounds.ordered
  · intro none
    exact absurd none nonzero
  · subst recorded
    rfl

/-! ## Where top ends up -/

/-- The bytes that a placement gives to top have become listed. -/
def Reached (before after : Lookup) (oldEnd oldSize : Nat) : Placement → Prop
  | .extended size => ∃ stop, Widened before after oldEnd stop ∧ oldEnd ≤ stop ∧ stop < 2 ^ 63 ∧
      size ≤ oldSize + (stop - oldEnd) ∧ minSize ≤ size
  | .moved alignedBrk size => Widened before after alignedBrk (alignedBrk + size) ∧
      alignedBrk + size < 2 ^ 63 ∧ minSize ≤ size
  | .kept => Widened before after 0 0

variable {answers : Answers} {grant : Grant} {placement : Placement} {before : Lookup}
variable {oldEnd oldSize : Nat}

theorem Widened.forget (widened : Widened before lookup start stop) : Widened before lookup 0 0 := by
  refine ⟨widened.keeps, widened.elsewhere, ?_, ?_⟩
  · intro byte _ none
    cases none
  · intro byte _ _ none
    cases none

theorem wrap_sub_exact {left right : Nat} (ordered : right ≤ left) (word : left < 2 ^ 64) :
    wrapSub left right = left - right := by
  simp only [wrapSub, wrap]
  omega

theorem chunksize_le (size : Nat) : chunksize size ≤ size := Nat.sub_le ..

theorem chunksize_ge (size : Nat) : size ≤ chunksize size + 7 := by
  simp only [chunksize]
  omega

theorem morecore_cases {granted : Bool} {amount : Int} {answer : Option Nat}
    (called : morecore sbrk granted amount = (answer, after)) :
    (answer = some sbrk.brk ∧ sbrk.moves granted amount = true ∧
        after = { sbrk with brk := ((sbrk.brk : Int) + amount).toNat }) ∨
      (answer = none ∧ after = sbrk) := by
  rw [morecore] at called
  split at called
  case isTrue moved =>
    cases called
    exact Or.inl ⟨rfl, moved, rfl⟩
  case isFalse =>
    cases called
    exact Or.inr ⟨rfl, rfl⟩

theorem morecore_zero {granted : Bool} {answer : Option Nat}
    (called : morecore sbrk granted 0 = (answer, after)) :
    after = sbrk ∧ ∀ brk, answer = some brk → brk = sbrk.brk := by
  rcases morecore_cases called with ⟨found, _, same⟩ | ⟨found, same⟩
  · refine ⟨?_, ?_⟩
    · rw [same]
      simp
    · intro brk answered
      rw [found] at answered
      exact (Option.some.inj answered).symm
  · refine ⟨same, ?_⟩
    intro brk answered
    rw [found] at answered
    cases answered

theorem Widened.refl (lookup : Lookup) (start : Nat) : Widened lookup lookup start start := by
  refine ⟨fun _ listed => listed, fun _ away => away, ?_, ?_⟩
  · intro byte above before
    exact absurd above (Nat.not_le.mpr before)
  · intro byte _ above before
    exact absurd above (Nat.not_le.mpr before)

theorem record_correction (bounds : Bounds sbrk) (correction : Nat)
    (meets : (sbrk.lookup.sbrkRegions 0).hi = sbrk.brk)
    (room : sbrk.brk + correction < 2 ^ 63) (brk : after.brk = sbrk.brk + correction)
    (looked : after.lookup =
      if 0 < correction then lookupIncrSbrkHi sbrk.lookup correction else sbrk.lookup)
    (based : after.sbrkBase = sbrk.sbrkBase) :
    Bounds after ∧ Widened sbrk.lookup after.lookup sbrk.brk (sbrk.brk + correction) := by
  by_cases some : 0 < correction
  · rw [if_pos some] at looked
    obtain ⟨widened, later, _⟩ := incr_sbrk_hi bounds correction meets.symm room
    have ordered := later.ordered
    have unset := later.unset
    rw [← looked] at widened ordered unset
    rw [← based] at unset
    refine ⟨⟨?_, ?_, ordered, unset⟩, widened⟩
    · rw [brk]
      exact later.positive
    · rw [brk]
      exact room
  · have zero : correction = 0 := Nat.eq_zero_of_not_pos some
    rw [zero, Nat.add_zero] at brk
    rw [if_neg some] at looked
    refine ⟨⟨?_, ?_, ?_, ?_⟩, ?_⟩
    · rw [brk]
      exact bounds.positive
    · rw [brk]
      exact bounds.word
    · rw [looked]
      exact bounds.ordered
    · rw [looked, based]
      exact bounds.unset
    · rw [zero, looked]
      exact Widened.refl ..

theorem correct_top_spec (bounds : Bounds sbrk)
    (meets : (sbrk.lookup.sbrkRegions 0).hi = sbrk.brk)
    (ends : sbrk.brk = grant.brk + grant.size) (page : pageSize ≤ grant.size)
    (widened : Widened before sbrk.lookup grant.brk sbrk.brk)
    (corrected : correctTop sbrk answers grant oldEnd oldSize = (placement, after)) :
    Bounds after ∧ after.sbrkBase = sbrk.sbrkBase ∧
      Reached before after.lookup oldEnd oldSize placement := by
  have word := bounds.word
  simp only [pageSize] at page
  obtain ⟨counted, countedIs⟩ : ∃ counted, (if oldSize ≠ 0 then
      { sbrk with systemMem := wrap (sbrk.systemMem + (grant.brk - oldEnd)) } else sbrk) =
        counted := ⟨_, rfl⟩
  have sameBrk : counted.brk = sbrk.brk := by
    rw [← countedIs]
    split <;> rfl
  have sameLookup : counted.lookup = sbrk.lookup := by
    rw [← countedIs]
    split <;> rfl
  have sameBase : counted.sbrkBase = sbrk.sbrkBase := by
    rw [← countedIs]
    split <;> rfl
  obtain ⟨skipped, skippedIs⟩ : ∃ skipped, (if 0 < grant.brk % mallocAlignment then
      mallocAlignment - grant.brk % mallocAlignment else 0) = skipped := ⟨_, rfl⟩
  have few : skipped < 16 := by
    have unit : mallocAlignment = 16 := rfl
    by_cases misaligned : 0 < grant.brk % mallocAlignment
    · rw [if_pos misaligned] at skippedIs
      omega
    · rw [if_neg misaligned] at skippedIs
      omega
  obtain ⟨correction, correctionIs⟩ : ∃ correction, skipped + oldSize +
      wrapSub (alignUp (wrap (grant.brk + grant.size + skipped + oldSize)) pageSize)
        (wrap (grant.brk + grant.size + skipped + oldSize)) = correction := ⟨_, rfl⟩
  have enough : skipped ≤ correction := by omega
  simp only [correctTop, countedIs, skippedIs, correctionIs] at corrected
  have countedBounds : Bounds counted := by
    refine ⟨?_, ?_, ?_, ?_⟩
    · rw [sameBrk]
      exact bounds.positive
    · rw [sameBrk]
      exact bounds.word
    · rw [sameLookup]
      exact bounds.ordered
    · rw [sameBase, sameLookup]
      exact bounds.unset
  rw [← sameLookup] at widened
  split at corrected
  case h_1 sndBrk grown called =>
    rcases morecore_cases called with ⟨found, moved, later⟩ | ⟨found, _⟩
    · obtain ⟨placed, final⟩ := Prod.mk.inj corrected
      cases found
      rw [moves_iff, sameBrk] at moved
      have brk : after.brk = counted.brk + correction := by
        rw [← final, later]
        show ((counted.brk : Int) + correction).toNat = counted.brk + correction
        omega
      have looked : after.lookup =
          if 0 < correction then lookupIncrSbrkHi counted.lookup correction
          else counted.lookup := by rw [← final, later]
      have based : after.sbrkBase = counted.sbrkBase := by rw [← final, later]
      obtain ⟨settled, wider⟩ := record_correction countedBounds correction
        (by rw [sameLookup, sameBrk, meets]) (by omega) brk looked based
      rw [sameBrk] at wider
      have size : wrap (wrapSub counted.brk (grant.brk + skipped) + correction) =
          grant.size + correction - skipped := by
        rw [wrap_sub_exact (by omega) (by omega), wrap]
        omega
      refine ⟨settled, based.trans sameBase, ?_⟩
      rw [← placed, Reached, size]
      have low := chunksize_le (grant.size + correction - skipped)
      have high := chunksize_ge (grant.size + correction - skipped)
      refine ⟨(widened.append wider).shrink (by omega) (by omega), by omega, ?_⟩
      simp only [minSize]
      omega
    · cases found
  case h_2 failed called =>
    rcases morecore_cases called with ⟨found, _⟩ | ⟨_, same⟩
    · cases found
    · subst same
      split at corrected
      case h_1 sndBrk probed asked =>
        obtain ⟨same, found⟩ := morecore_zero asked
        obtain ⟨placed, final⟩ := Prod.mk.inj corrected
        subst same
        subst final
        have size : wrapSub sndBrk (grant.brk + skipped) = grant.size - skipped := by
          rw [found sndBrk rfl, wrap_sub_exact (by omega) (by omega)]
          omega
        refine ⟨countedBounds, sameBase, ?_⟩
        rw [← placed, Reached, size]
        have low := chunksize_le (grant.size - skipped)
        have high := chunksize_ge (grant.size - skipped)
        refine ⟨widened.shrink (by omega) (by omega), by omega, ?_⟩
        simp only [minSize]
        omega
      case h_2 probed asked =>
        obtain ⟨same, _⟩ := morecore_zero asked
        obtain ⟨placed, final⟩ := Prod.mk.inj corrected
        subst same
        subst final
        refine ⟨countedBounds, sameBase, ?_⟩
        rw [← placed, Reached]
        exact widened.forget

theorem place_sbrk_spec (bounds : Bounds sbrk)
    (meets : (sbrk.lookup.sbrkRegions 0).hi = sbrk.brk)
    (ends : sbrk.brk = grant.brk + grant.size) (page : pageSize ≤ grant.size)
    (widened : Widened before sbrk.lookup grant.brk sbrk.brk) (direct : grant.sndBrk = none)
    (old : oldSize ≤ oldEnd)
    (result : placeTop sbrk answers grant oldEnd oldSize = some (placement, after)) :
    Bounds after ∧ after.sbrkBase = sbrk.sbrkBase ∧
      Reached before after.lookup oldEnd oldSize placement := by
  have word := bounds.word
  rw [placeTop] at result
  split at result
  case isTrue adjacent =>
    obtain ⟨placed, final⟩ := Prod.mk.inj (Option.some.inj result)
    subst final
    have size : wrap (grant.size + oldSize) = grant.size + oldSize := by
      rw [wrap]
      omega
    have low := chunksize_le (grant.size + oldSize)
    have high := chunksize_ge (grant.size + oldSize)
    refine ⟨bounds, rfl, ?_⟩
    rw [← placed, Reached, size, ← adjacent.1]
    simp only [pageSize, minSize] at page ⊢
    refine ⟨sbrk.brk, widened, by omega, word, by omega, by omega⟩
  case isFalse =>
    split at result
    case isTrue => cases result
    case isFalse =>
      split at result
      case isTrue =>
        exact correct_top_spec bounds meets ends page widened (Option.some.inj result)
      case isFalse =>
        rw [direct] at result
        simp only at result
        split at result
        case h_1 sndBrk probed asked =>
          obtain ⟨same, found⟩ := morecore_zero asked
          obtain ⟨placed, final⟩ := Prod.mk.inj (Option.some.inj result)
          subst same
          subst final
          have size : wrapSub sndBrk grant.brk = grant.size := by
            rw [found sndBrk rfl, wrap_sub_exact (by omega) (by omega)]
            omega
          refine ⟨bounds, rfl, ?_⟩
          have low := chunksize_le grant.size
          have high := chunksize_ge grant.size
          rw [← placed, Reached, size]
          simp only [pageSize, minSize] at page ⊢
          refine ⟨widened.shrink (Nat.le_refl _) (by omega), by omega, by omega⟩
        case h_2 probed asked =>
          obtain ⟨same, _⟩ := morecore_zero asked
          obtain ⟨placed, final⟩ := Prod.mk.inj (Option.some.inj result)
          subst same
          subst final
          refine ⟨bounds, rfl, ?_⟩
          rw [← placed, Reached]
          exact widened.forget

theorem place_mmap_spec {mbrk size : Nat} (bounds : Bounds sbrk)
    (fresh : sbrk.contiguous = false) (page : pageSize ≤ size) (room : mbrk + size < 2 ^ 63)
    (widened : Widened before sbrk.lookup mbrk (mbrk + size))
    (result : placeTop sbrk answers ⟨mbrk, size, some (mbrk + size)⟩ oldEnd oldSize =
      some (placement, after)) :
    Bounds after ∧ after.sbrkBase = sbrk.sbrkBase ∧
      Reached before after.lookup oldEnd oldSize placement := by
  simp only [placeTop, fresh, reduceCtorEq, and_false, if_false, Bool.false_eq_true,
    false_and] at result
  obtain ⟨placed, final⟩ := Prod.mk.inj (Option.some.inj result)
  subst final
  have exact : wrapSub (mbrk + size) mbrk = size := by
    rw [wrap_sub_exact (by omega) (by omega), Nat.add_sub_cancel_left]
  refine ⟨bounds, rfl, ?_⟩
  have low := chunksize_le size
  have high := chunksize_ge size
  rw [← placed, Reached, exact]
  simp only [pageSize, minSize] at page ⊢
  refine ⟨widened.shrink (Nat.le_refl _) (by omega), by omega, by omega⟩

theorem signed_pos {word : Nat} (bound : word < 2 ^ 64) (positive : 0 < signed word) :
    signed word = word ∧ 0 < word := by
  rw [signed] at positive ⊢
  split at positive
  case isTrue low =>
    rw [if_pos low]
    exact ⟨rfl, by omega⟩
  case isFalse => omega

theorem growth_request_page {contiguous : Bool} {nb topPad oldSize : Nat}
    (positive : 0 < signed (growthRequest contiguous nb topPad oldSize)) :
    pageSize ≤ growthRequest contiguous nb topPad oldSize := by
  obtain ⟨base, shape⟩ : ∃ base, wrap ((if contiguous then
      wrapSub (wrap (nb + topPad + minSize)) oldSize else wrap (nb + topPad + minSize)) +
        pageSize - 1) = base := ⟨_, rfl⟩
  have request : growthRequest contiguous nb topPad oldSize = base - base % 4096 := by
    rw [← shape]
    simp only [growthRequest, alignUp, alignDown, pageSize]
  have bound : base < 2 ^ 64 := by
    rw [← shape]
    exact Nat.mod_lt _ (Nat.two_pow_pos 64)
  rw [request] at positive ⊢
  have some := (signed_pos (Nat.lt_of_le_of_lt (Nat.sub_le ..) bound) positive).2
  simp only [pageSize]
  omega

theorem backup_request_page (contiguous : Bool) (size oldSize : Nat) :
    pageSize ≤ backupRequest contiguous size oldSize := by
  unfold backupRequest
  generalize (if contiguous then alignUp (wrap (size + oldSize)) pageSize else size) = asked
  dsimp only
  have page : pageSize ≤ mmapAsMorecoreSize := by decide
  by_cases small : asked < mmapAsMorecoreSize
  · rw [if_pos small]
    exact page
  · rw [if_neg small]
    exact Nat.le_trans page (Nat.not_lt.mp small)

theorem ask_morecore_cases {granted : Bool} {size : Nat} {answer : Option Nat}
    (called : askMorecore sbrk granted size = (answer, after)) :
    (answer = some sbrk.brk ∧ 0 < signed size ∧ sbrk.moves granted size = true ∧
        after = { sbrk with brk := sbrk.brk + size }) ∨
      (answer = none ∧ after = sbrk) := by
  rw [askMorecore] at called
  split at called
  case isTrue positive =>
    rcases morecore_cases called with ⟨found, moved, later⟩ | refused
    · have exact : ((sbrk.brk : Int) + size).toNat = sbrk.brk + size := by omega
      rw [exact] at later
      exact Or.inl ⟨found, positive, moved, later⟩
    · exact Or.inr refused
  case isFalse =>
    cases called
    exact Or.inr ⟨rfl, rfl⟩

theorem ask_mmap_cases {backup : Option Nat} {nb size : Nat} {granted : Option Grant}
    (called : askMmap sbrk backup nb size = (granted, after)) :
    (∃ mbrk, 0 < mbrk ∧ mbrk + size < 2 ^ 63 ∧
        granted = some ⟨mbrk, size, some (mbrk + size)⟩ ∧
        recordGrant { sbrk with contiguous := false } ⟨mbrk, size, some (mbrk + size)⟩ = after) ∨
      (granted = none ∧ after = sbrk) := by
  unfold askMmap at called
  split at called
  case h_1 mbrk =>
    split at called
    case isTrue fits =>
      cases called
      simp only [mappable, Bool.and_eq_true, decide_eq_true_eq] at fits
      exact Or.inl ⟨mbrk, fits.1.2, fits.2, rfl, rfl⟩
    case isFalse =>
      cases called
      exact Or.inr ⟨rfl, rfl⟩
  case h_2 =>
    cases called
    exact Or.inr ⟨rfl, rfl⟩

theorem obtain_memory_cases {nb topPad : Nat} {granted : Option Grant}
    (obtained : obtainMemory sbrk answers nb topPad oldSize = (granted, after)) :
    (∃ size, size = growthRequest sbrk.contiguous nb topPad oldSize ∧ 0 < signed size ∧
        sbrk.moves answers.first size = true ∧ granted = some ⟨sbrk.brk, size, none⟩ ∧
        recordGrant { sbrk with brk := sbrk.brk + size } ⟨sbrk.brk, size, none⟩ = after) ∨
      (∃ mbrk size, pageSize ≤ size ∧ 0 < mbrk ∧ mbrk + size < 2 ^ 63 ∧
        granted = some ⟨mbrk, size, some (mbrk + size)⟩ ∧
        recordGrant { sbrk with contiguous := false } ⟨mbrk, size, some (mbrk + size)⟩ = after) ∨
      (granted = none ∧ after = sbrk) := by
  unfold obtainMemory at obtained
  generalize growthRequest sbrk.contiguous nb topPad oldSize = size at obtained ⊢
  dsimp only at obtained
  split at obtained
  case h_1 old brk grown called =>
    rcases ask_morecore_cases called with ⟨found, positive, moved, later⟩ | ⟨found, _⟩
    · cases found
      cases obtained
      exact Or.inl ⟨size, rfl, positive, moved, rfl, by rw [later]⟩
    · cases found
  case h_2 old grown called =>
    rcases ask_morecore_cases called with ⟨found, _⟩ | ⟨_, same⟩
    · cases found
    · subst same
      have large := backup_request_page grown.contiguous size oldSize
      rcases ask_mmap_cases obtained with ⟨mbrk, mapped, fits, shape, record⟩ | refused
      · exact Or.inr (Or.inl ⟨mbrk, _, large, mapped, fits, shape, record⟩)
      · exact Or.inr (Or.inr refused)

theorem grow_top_spec {nb topPad : Nat} (bounds : Bounds sbrk) (old : oldSize ≤ oldEnd)
    (steady : 0 < signed (growthRequest sbrk.contiguous nb topPad oldSize) →
      sbrk.moves answers.first (growthRequest sbrk.contiguous nb topPad oldSize) = true →
        sbrk.sbrkBase = 0 ∨ sbrk.brk = (sbrk.lookup.sbrkRegions 0).hi)
    (roomy : ¬(sbrk.lookup.sbrkRegionCount + 1 = sbrk.lookup.sbrkRegionCurrentMax ∧
      maxSbrkTableSize ≤ sbrk.lookup.sbrkRegionCurrentMax))
    (result : growTop sbrk answers nb topPad oldEnd oldSize = some (placement, after)) :
    Bounds after ∧ Reached sbrk.lookup after.lookup oldEnd oldSize placement ∧
      (after.sbrkBase = 0 → placement = .kept ∧ sbrk.sbrkBase = 0) := by
  unfold growTop at result
  cases obtained : obtainMemory sbrk answers nb topPad oldSize with | mk granted recorded
  rw [obtained] at result
  rcases obtain_memory_cases obtained with ⟨size, request, positive, moved, shape, record⟩ |
    ⟨mbrk, size, large, mapped, fits, shape, record⟩ | ⟨shape, same⟩ <;>
    rw [shape] at result
  · have room := (moves_iff.mp moved).2.2
    rw [← request] at steady
    obtain ⟨widened, later, meets, ends, based⟩ :=
      record_sbrk bounds size (by omega) (steady positive moved) record
    have page : pageSize ≤ size := by
      rw [request] at positive ⊢
      exact growth_request_page positive
    rw [← ends] at widened
    obtain ⟨final, sameBase, reached⟩ :=
      place_sbrk_spec later meets ends page widened rfl old result
    refine ⟨final, reached, ?_⟩
    intro unset
    exact absurd (sameBase.symm.trans unset) based
  · obtain ⟨widened, later, based, fresh⟩ := record_mmap bounds mbrk size mapped roomy record
    obtain ⟨final, sameBase, reached⟩ := place_mmap_spec later fresh large fits widened result
    refine ⟨final, reached, ?_⟩
    intro unset
    exact absurd (sameBase.symm.trans unset) based
  · obtain ⟨placed, final⟩ := Prod.mk.inj (Option.some.inj result)
    subst final
    subst same
    refine ⟨bounds, ?_, fun unset => ⟨placed.symm, unset⟩⟩
    rw [← placed]
    exact Widened.refl ..

end SriGlibcMalloc.MainArena
