import SriGlibcMalloc.Bins.Model

/-!
# What the scan of the bit map finds

The invariant of the loop: the bit that is looked at belongs to the bin that is looked
at, the cached word is the word of its block, and the bins passed so far are empty.
-/

namespace SriGlibcMalloc.Bins

open BitMask EntryPoints

set_option autoImplicit false

variable {bins : Nat → List FreeChunk} {binmap : Nat → BitVec 32} {cursor next : Cursor}
variable {start block fuel i : Nat}

theorem mark_bin_eq (binmap : Nat → BitVec 32) (i : Nat) : markBin binmap i = mark binmap i := by
  unfold markBin mark idx2block idx2bit
  rw [Nat.shiftRight_eq_div_pow]

/-- A bin whose bit is zero is empty. -/
abbrev Indicated (bins : Nat → List FreeChunk) (binmap : Nat → BitVec 32) : Prop :=
  ∀ i, bins i ≠ [] → marked binmap i = true

abbrev Empty (bins : Nat → List FreeChunk) (start stop : Nat) : Prop :=
  ∀ i, start ≤ i → i < stop → bins i = []

theorem empty_of_unmarked (indicated : Indicated bins binmap) (unmarked : marked binmap i = false) :
    bins i = [] := by
  by_contra occupied
  exact Bool.false_ne_true (unmarked.symm.trans (indicated i occupied))

theorem Empty.append {middle stop : Nat} (first : Empty bins start middle)
    (second : Empty bins middle stop) : Empty bins start stop := by
  intro i above below
  by_cases low : i < middle
  · exact first i above low
  · exact second i (Nat.not_lt.mp low) below

structure Cursor.Located (cursor : Cursor) (bins : Nat → List FreeChunk) (start place : Nat) :
    Prop where
  within : place ≤ 32
  bin : cursor.bin = cursor.block * 32 + place
  bit : cursor.bit = 1#32 <<< place
  block : cursor.block < binmapSize
  map : cursor.map = cursor.binmap cursor.block
  after : start ≤ cursor.bin
  passed : Empty bins start cursor.bin
  indicated : Indicated bins cursor.binmap

variable {place : Nat}

theorem Cursor.Located.empty_bin (located : cursor.Located bins start place) (inside : i < 32)
    (unset : cursor.map.getLsbD i = false) : bins (cursor.block * 32 + i) = [] := by
  apply empty_of_unmarked located.indicated
  rw [marked_at inside, ← located.map]
  exact unset

theorem empty_block (indicated : Indicated bins binmap) (zero : binmap block = 0) :
    Empty bins (block * 32) ((block + 1) * 32) := by
  intro i above below
  obtain ⟨place, rfl⟩ := Nat.exists_eq_add_of_le above
  have inside : place < 32 := by omega
  apply empty_of_unmarked indicated
  rw [marked_at inside, zero]
  exact BitVec.getLsbD_zero

/-- The blocks that are skipped are empty, and the last of them has bits or is the last. -/
theorem skip_blocks_spec (indicated : Indicated bins binmap)
    (passed : Empty bins start ((block + 1) * 32)) (enough : binmapSize ≤ block + fuel)
    (inside : block < binmapSize) :
    ∃ answer, skipBlocks binmap fuel block = some answer ∧
      (answer = none → Empty bins start (binmapSize * 32)) ∧
      ∀ found, answer = some found → block < found ∧ found < binmapSize ∧ binmap found ≠ 0 ∧
        Empty bins start (found * 32) := by
  induction fuel generalizing block with
  | zero => omega
  | succ fuel ih =>
      rw [skipBlocks]
      by_cases out : binmapSize ≤ block + 1
      · rw [if_pos out]
        refine ⟨none, rfl, fun _ => ?_, fun _ impossible => nomatch impossible⟩
        have last : block + 1 = binmapSize := by omega
        rw [← last]
        exact passed
      · rw [if_neg out]
        by_cases zero : binmap (block + 1) = 0
        · rw [if_pos zero]
          obtain ⟨answer, result, nothing, something⟩ :=
            ih (passed.append (empty_block indicated zero)) (by omega) (by omega)
          refine ⟨answer, result, nothing, fun found same => ?_⟩
          obtain ⟨above, rest⟩ := something found same
          exact ⟨by omega, rest⟩
        · rw [if_neg zero]
          refine ⟨some (block + 1), rfl, (fun impossible => nomatch impossible), ?_⟩
          intro found same
          cases same
          exact ⟨by omega, by omega, zero, passed⟩

theorem Cursor.Located.rest_empty (located : cursor.Located bins start place)
    (done : cursor.map < cursor.bit ∨ cursor.bit = 0) :
    Empty bins start ((cursor.block + 1) * 32) := by
  apply located.passed.append
  intro i above below
  have bin := located.bin
  obtain ⟨offset, rfl⟩ := Nat.exists_eq_add_of_le (by omega : cursor.block * 32 ≤ i)
  have inside : offset < 32 := by omega
  have low : place < 32 := by omega
  apply located.empty_bin inside
  rw [located.bit] at done
  rcases done with below | zero
  · exact unset_of_lt_unit low below (by omega)
  · have positive := unit_to_nat low
    rw [zero] at positive
    exact absurd positive (Nat.ne_of_lt (Nat.two_pow_pos place))

theorem nonzero_bit {word : BitVec 32} (nonzero : word ≠ 0) : ¬word < 1#32 <<< 0 := by
  intro below
  apply nonzero
  apply BitVec.eq_of_getLsbD_eq
  intro i inside
  rw [unset_of_lt_unit (by decide) below (Nat.zero_le i)]
  exact BitVec.getLsbD_zero.symm

/-- After a skip the cursor is at a place with a bit from there on, or every bin is empty. -/
theorem skip_spec (located : cursor.Located bins start place) (enough : binmapSize ≤ fuel) :
    ∃ answer, cursor.skip fuel = some answer ∧
      (answer = none → Empty bins start (binmapSize * 32)) ∧
      ∀ next, answer = some next → cursor.bin ≤ next.bin ∧
        ∃ place, place < 32 ∧ next.Located bins start place ∧ ¬next.map < 1#32 <<< place := by
  unfold Cursor.skip
  have bin := located.bin
  have within := located.within
  by_cases done : cursor.map < cursor.bit ∨ cursor.bit = 0
  · rw [if_pos done]
    obtain ⟨answer, result, nothing, something⟩ :=
      skip_blocks_spec located.indicated (located.rest_empty done)
        (Nat.le_trans enough (Nat.le_add_left _ _)) located.block
    rw [result, Option.map_some]
    refine ⟨_, rfl, ?_, ?_⟩
    · intro none'
      exact nothing (Option.map_eq_none_iff.mp none')
    · intro next same
      obtain ⟨block, found, rfl⟩ := Option.map_eq_some_iff.mp same
      obtain ⟨above, inside, nonzero, empty⟩ := something block found
      have shifted : block <<< 5 = block * 32 := Nat.shiftLeft_eq block 5
      refine ⟨by dsimp only; omega, 0, by decide, ?_, nonzero_bit nonzero⟩
      constructor
      · exact Nat.zero_le 32
      · exact shifted
      · rfl
      · exact inside
      · rfl
      · have after := located.after
        dsimp only
        omega
      · dsimp only
        rw [shifted]
        exact empty
      · exact located.indicated
  · rw [if_neg done]
    refine ⟨_, rfl, (fun impossible => nomatch impossible), ?_⟩
    intro next same
    cases same
    have low : place < 32 := by
      by_contra high
      have end' : place = 32 := by omega
      apply done
      right
      rw [located.bit, end']
      rfl
    refine ⟨Nat.le_refl _, place, low, located, fun below => ?_⟩
    apply done
    left
    rw [located.bit]
    exact below

theorem advance_spec (located : cursor.Located bins start place) (low : place < 32)
    (reaches : ¬cursor.map < 1#32 <<< place) (enough : 32 ≤ place + fuel) :
    ∃ next, cursor.advance fuel = some next ∧ cursor.bin ≤ next.bin ∧
      ∃ place, place < 32 ∧ next.Located bins start place := by
  induction fuel generalizing cursor place with
  | zero => omega
  | succ fuel ih =>
      rw [Cursor.advance]
      by_cases zero : cursor.bit &&& cursor.map = 0
      · rw [if_pos zero]
        rw [located.bit] at zero
        have unset : cursor.map.getLsbD place = false := (unit_and_eq_zero low).mp zero
        obtain ⟨above, from', inside, one⟩ := set_of_unit_le low reaches
        have further : place + 1 ≤ above := by
          by_contra close
          have same : above = place := by omega
          rw [same, unset] at one
          exact Bool.false_ne_true one
        have still : ¬cursor.map < 1#32 <<< (place + 1) := by
          intro below
          have none' := unset_of_lt_unit (by omega) below further
          exact Bool.false_ne_true (none'.symm.trans one)
        have bin := located.bin
        have after := located.after
        have moved : Cursor.Located { cursor with
            bin := cursor.bin + 1, bit := cursor.bit <<< 1 } bins start (place + 1) := by
          constructor
          · exact low
          · dsimp only
            omega
          · dsimp only
            rw [located.bit, BitVec.shiftLeft_add]
          · exact located.block
          · exact located.map
          · exact Nat.le_succ_of_le after
          · apply located.passed.append
            intro i above below
            have here : i = cursor.block * 32 + place := by
              dsimp only at below
              omega
            rw [here]
            exact located.empty_bin low unset
          · exact located.indicated
        obtain ⟨next, result, ahead, rest⟩ := ih moved (by omega) still (by omega)
        exact ⟨next, result, Nat.le_of_succ_le ahead, rest⟩
      · rw [if_neg zero]
        exact ⟨cursor, rfl, Nat.le_refl _, place, low, located⟩

theorem false_alarm_located (located : cursor.Located bins start place) (low : place < 32)
    (empty : bins cursor.bin = []) : cursor.falseAlarm.Located bins start (place + 1) := by
  have bin := located.bin
  have cleared : cursor.falseAlarm.binmap = clear cursor.binmap cursor.bin := by
    have block : cursor.bin / 32 = cursor.block := by omega
    have offset : cursor.bin % 32 = place := by omega
    unfold Cursor.falseAlarm clear
    rw [block, offset, located.map, located.bit]
  constructor
  · exact low
  · dsimp only [Cursor.falseAlarm]
    omega
  · dsimp only [Cursor.falseAlarm]
    rw [located.bit, BitVec.shiftLeft_add]
  · exact located.block
  · dsimp only [Cursor.falseAlarm]
    rw [Function.update_self]
  · exact Nat.le_succ_of_le located.after
  · apply located.passed.append
    intro i above below
    have here : i = cursor.bin := by
      dsimp only [Cursor.falseAlarm] at below
      omega
    rw [here]
    exact empty
  · intro i occupied
    have other : i ≠ cursor.bin := by
      intro same
      rw [same] at occupied
      exact occupied empty
    rw [cleared, marked_clear (by decide), decide_eq_false other]
    exact located.indicated i occupied

/-- What the scan has to find: the lowest bin that is not empty, from a bin on. -/
structure Lowest (bins : Nat → List FreeChunk) (start : Nat) (found : Found) : Prop where
  indicated : Indicated bins found.binmap
  nothing : found.place = none → Empty bins start (binmapSize * 32)
  something : ∀ bin victim, found.place = some (bin, victim) →
    start ≤ bin ∧ bin < binmapSize * 32 ∧ (bins bin).getLast? = some victim ∧
      Empty bins start bin

def scanFuel : Nat := 162

/-- The scan ends, and finds the lowest bin. -/
theorem scan_loop_spec (located : cursor.Located bins start place)
    (enough : scanFuel ≤ cursor.bin + fuel) :
    ∃ found, scanLoop bins fuel cursor = some found ∧ Lowest bins start found := by
  induction fuel generalizing cursor place with
  | zero =>
      have bin := located.bin
      have block := located.block
      have within := located.within
      simp only [scanFuel, binmapSize] at *
      omega
  | succ fuel ih =>
      have bin := located.bin
      have block := located.block
      have within := located.within
      have rest : 32 ≤ fuel := by
        simp only [scanFuel, binmapSize] at *
        omega
      rw [scanLoop]
      obtain ⟨skipped, skip, nothing, something⟩ :=
        skip_spec located (Nat.le_trans (by decide) rest)
      rw [skip]
      cases skipped with
      | none =>
          refine ⟨_, rfl, located.indicated, fun _ => nothing rfl, ?_⟩
          exact fun _ _ impossible => nomatch impossible
      | some entered =>
          obtain ⟨ahead, _, low, placed, reaches⟩ := something entered rfl
          obtain ⟨stopped, advance, further, stop, inside, here⟩ :=
            advance_spec placed low reaches (Nat.le_trans rest (Nat.le_add_left _ _))
          dsimp only
          rw [advance]
          dsimp only
          cases last : (bins stopped.bin).getLast? with
          | none =>
              have empty : bins stopped.bin = [] := List.getLast?_eq_none_iff.mp last
              apply ih (false_alarm_located here inside empty)
              dsimp only [Cursor.falseAlarm]
              omega
          | some victim =>
              have stopBin := here.bin
              have stopBlock := here.block
              refine ⟨_, rfl, here.indicated, (fun impossible => nomatch impossible), ?_⟩
              intro bin' victim' same
              cases same
              refine ⟨here.after, ?_, last, here.passed⟩
              omega

theorem start_located (indicated : Indicated bins binmap) (start : Nat)
    (inside : start < binmapSize * 32) :
    (startCursor binmap start).Located bins start (start % 32) := by
  have block : idx2block start = start / 32 := Nat.shiftRight_eq_div_pow start 5
  constructor
  · omega
  · dsimp only [startCursor]
    rw [block]
    omega
  · rfl
  · dsimp only [startCursor]
    rw [block]
    omega
  · rfl
  · exact Nat.le_refl _
  · intro i above below
    exact absurd below (Nat.not_lt.mpr above)
  · exact indicated

end SriGlibcMalloc.Bins
