import Mathlib.Data.Finset.Card
import Mathlib.Data.Nat.ModEq
import Mathlib.Logic.Function.Basic

/-!
# Linear probing

The slots of a table are visited in cyclic order from the slot where the search
for a key starts. A table is `Placed` when no key occurs twice and no empty slot
lies between the start of a key and the slot of the key. Then a search that
stops at the key or at the first empty slot decides whether the key is there,
and a new key may be put where its search stops.
-/

namespace OpenAddressing

set_option autoImplicit false

def slotAt (max start distance : Nat) : Nat := (start + distance) % max

/-- The slots from a distance on, in the order in which they are visited. -/
def slotsFrom (max start distance : Nat) : List Nat :=
  (List.range' distance (max - distance)).map (slotAt max start)

def tally (max : Nat) (holds : Nat → Bool) : Nat :=
  ((Finset.range max).filter fun slot => holds slot).card

variable {max start distance slot : Nat}

theorem slot_at_lt (positive : 0 < max) (start distance : Nat) :
    slotAt max start distance < max := Nat.mod_lt _ positive

theorem slot_at_zero (inside : start < max) : slotAt max start 0 = start := Nat.mod_eq_of_lt inside

theorem slot_at_succ (max start distance : Nat) :
    (slotAt max start distance + 1) % max = slotAt max start (distance + 1) := by
  rw [slotAt, slotAt, Nat.mod_add_mod, Nat.add_assoc]

theorem slot_at_injective {other : Nat} (near : distance < max) (far : other < max)
    (same : slotAt max start distance = slotAt max start other) : distance = other := by
  have congruent : distance ≡ other [MOD max] := Nat.ModEq.add_left_cancel' start same
  rw [Nat.ModEq, Nat.mod_eq_of_lt near, Nat.mod_eq_of_lt far] at congruent
  exact congruent

theorem slot_at_surjective (start : Nat) (inside : slot < max) :
    ∃ distance, distance < max ∧ slotAt max start distance = slot := by
  have positive : 0 < max := Nat.zero_lt_of_lt inside
  refine ⟨(slot + (max - start % max)) % max, Nat.mod_lt _ positive, ?_⟩
  have low := Nat.mod_lt start positive
  have total : start % max + (slot + (max - start % max)) = slot + max := by omega
  rw [slotAt, Nat.add_mod_mod, ← Nat.mod_add_mod, total, Nat.add_mod_right,
    Nat.mod_eq_of_lt inside]

theorem slots_from_cons (inside : distance < max) :
    slotsFrom max start distance = slotAt max start distance :: slotsFrom max start (distance + 1) := by
  have length : max - distance = (max - (distance + 1)) + 1 := by omega
  rw [slotsFrom, slotsFrom, length, List.range'_succ, List.map_cons]

theorem slots_from_end : slotsFrom max start max = [] := by simp [slotsFrom]

theorem mem_slots_from : slot ∈ slotsFrom max start distance ↔
    ∃ further, distance ≤ further ∧ further < max ∧ slotAt max start further = slot := by
  simp only [slotsFrom, List.mem_map, List.mem_range'_1]
  constructor
  · intro visited
    obtain ⟨further, ⟨low, high⟩, same⟩ := visited
    exact ⟨further, low, by omega, same⟩
  · intro visited
    obtain ⟨further, low, high, same⟩ := visited
    exact ⟨further, ⟨low, by omega⟩, same⟩

section Tally

variable {before after : Nat → Bool}

theorem tally_le (max : Nat) (holds : Nat → Bool) : tally max holds ≤ max :=
  (Finset.card_filter_le _ _).trans (Finset.card_range _).le

theorem tally_gain (inside : slot < max) (clear : before slot = false) (marked : after slot = true)
    (elsewhere : ∀ other, other ≠ slot → after other = before other) :
    tally max after = tally max before + 1 := by
  have grown : (Finset.range max).filter (fun other => after other) =
      insert slot ((Finset.range max).filter fun other => before other) := by
    apply Finset.ext
    intro other
    by_cases same : other = slot
    · subst same
      simp [inside, marked]
    · simp [same, elsewhere other same]
  rw [tally, grown, Finset.card_insert_of_notMem (by simp [clear]), tally]

theorem tally_congr (same : ∀ slot, slot < max → after slot = before slot) :
    tally max after = tally max before := by
  have equal : (Finset.range max).filter (fun slot => after slot) =
      (Finset.range max).filter fun slot => before slot := by
    apply Finset.filter_congr
    intro slot inside
    rw [same slot (Finset.mem_range.mp inside)]
  rw [tally, equal, tally]

theorem tally_mono (implied : ∀ slot, slot < max → before slot = true → after slot = true) :
    tally max before ≤ tally max after := by
  apply Finset.card_le_card
  intro slot member
  rw [Finset.mem_filter] at member ⊢
  exact ⟨member.1, implied slot (Finset.mem_range.mp member.1) member.2⟩

theorem tally_zero (never : ∀ slot, slot < max → before slot = false) : tally max before = 0 := by
  apply Finset.card_eq_zero.mpr
  apply Finset.filter_eq_empty_iff.mpr
  intro slot inside
  simp [never slot (Finset.mem_range.mp inside)]

theorem none_of_tally_zero (empty : tally max before = 0) (inside : slot < max) :
    before slot = false := by
  have nothing := Finset.filter_eq_empty_iff.mp (Finset.card_eq_zero.mp empty)
  simpa using nothing (Finset.mem_range.mpr inside)

theorem exists_clear (room : tally max before < max) : ∃ slot, slot < max ∧ before slot = false := by
  by_contra absent
  have everywhere : (Finset.range max).filter (fun slot => before slot) = Finset.range max := by
    apply Finset.filter_true_of_mem
    intro slot inside
    by_contra clear
    exact absent ⟨slot, Finset.mem_range.mp inside, by simpa using clear⟩
  rw [tally, everywhere, Finset.card_range] at room
  exact Nat.lt_irrefl max room

end Tally

section Keys

variable {Key : Type}

structure Placed (max : Nat) (startOf : Key → Nat) (keyAt : Nat → Option Key) : Prop where
  unique : ∀ left right key, left < max → right < max → keyAt left = some key →
    keyAt right = some key → left = right
  gapless : ∀ key distance earlier, distance < max → earlier < distance →
    keyAt (slotAt max (startOf key) distance) = some key →
      keyAt (slotAt max (startOf key) earlier) ≠ none

variable {startOf : Key → Nat} {keyAt : Nat → Option Key} {key : Key}

theorem placed_empty : Placed max startOf fun _ => none where
  unique := by
    intro left right key _ _ occupied
    cases occupied
  gapless := by
    intro key distance earlier _ _ occupied
    cases occupied

/-- A search that meets an empty slot will not meet the key later. -/
theorem Placed.absent_after (placed : Placed max startOf keyAt)
    (empty : keyAt (slotAt max (startOf key) distance) = none)
    (missed : ∀ earlier, earlier < distance → keyAt (slotAt max (startOf key) earlier) ≠ some key)
    (inside : slot < max) : keyAt slot ≠ some key := by
  intro present
  obtain ⟨further, near, same⟩ := slot_at_surjective (startOf key) inside
  subst same
  rcases Nat.lt_trichotomy further distance with before | equal | beyond
  · exact missed further before present
  · rw [equal, empty] at present
    cases present
  · exact placed.gapless key further distance near beyond present empty

variable [DecidableEq Key]

def search (max : Nat) (startOf : Key → Nat) (keyAt : Nat → Option Key) (key : Key) : Option Nat :=
  (slotsFrom max (startOf key) 0).find? fun slot => keyAt slot = none || keyAt slot = some key

theorem search_cases (found : search max startOf keyAt key = some slot) :
    ∃ distance, distance < max ∧ slotAt max (startOf key) distance = slot ∧
      (keyAt slot = none ∨ keyAt slot = some key) ∧
      ∀ earlier, earlier < distance → keyAt (slotAt max (startOf key) earlier) ≠ none ∧
        keyAt (slotAt max (startOf key) earlier) ≠ some key := by
  rw [search, List.find?_eq_some_iff_getElem] at found
  obtain ⟨stops, distance, bound, same, missed⟩ := found
  have length : (slotsFrom max (startOf key) 0).length = max := by simp [slotsFrom]
  have slotOf : ∀ index (valid : index < (slotsFrom max (startOf key) 0).length),
      (slotsFrom max (startOf key) 0)[index] = slotAt max (startOf key) index := by
    intro index valid
    simp [slotsFrom]
  refine ⟨distance, length ▸ bound, (slotOf distance bound).symm.trans same, ?_, ?_⟩
  · simpa using stops
  · intro earlier before
    have skipped := missed earlier before
    rw [slotOf] at skipped
    simpa using skipped

theorem search_none (lost : search max startOf keyAt key = none) (inside : slot < max) :
    keyAt slot ≠ none ∧ keyAt slot ≠ some key := by
  rw [search, List.find?_eq_none] at lost
  obtain ⟨distance, near, same⟩ := slot_at_surjective (startOf key) inside
  have skipped := lost slot (mem_slots_from.mpr ⟨distance, Nat.zero_le _, near, same⟩)
  simpa using skipped

theorem Placed.search_present (placed : Placed max startOf keyAt) (inside : slot < max)
    (present : keyAt slot = some key) : search max startOf keyAt key = some slot := by
  cases found : search max startOf keyAt key with
  | none => exact absurd present (search_none found inside).2
  | some other =>
      obtain ⟨distance, near, same, stops, missed⟩ := search_cases found
      rcases stops with empty | holding
      · have absent := placed.absent_after (same ▸ empty) (fun earlier before =>
          (missed earlier before).2) inside
        exact absurd present absent
      · have bound := same ▸ slot_at_lt (Nat.zero_lt_of_lt near) (startOf key) distance
        rw [placed.unique other slot key bound inside holding present]

theorem Placed.search_absent (absent : ∀ slot, slot < max → keyAt slot ≠ some key)
    (room : ∃ slot, slot < max ∧ keyAt slot = none) :
    ∃ slot, slot < max ∧ search max startOf keyAt key = some slot ∧ keyAt slot = none := by
  obtain ⟨hole, inside, empty⟩ := room
  cases found : search max startOf keyAt key with
  | none => exact absurd empty (search_none found inside).1
  | some slot =>
      obtain ⟨distance, near, same, stops, _⟩ := search_cases found
      have bound := same ▸ slot_at_lt (Nat.zero_lt_of_lt near) (startOf key) distance
      rcases stops with clear | holding
      · exact ⟨slot, bound, rfl, clear⟩
      · exact absurd holding (absent slot bound)

theorem Placed.insert (placed : Placed max startOf keyAt)
    (found : search max startOf keyAt key = some slot) (empty : keyAt slot = none) :
    Placed max startOf (Function.update keyAt slot (some key)) := by
  obtain ⟨distance, near, same, _, missed⟩ := search_cases found
  have absent : ∀ other, other < max → keyAt other ≠ some key := by
    intro other inside
    exact placed.absent_after (same ▸ empty) (fun earlier before => (missed earlier before).2)
      inside
  constructor
  · intro left right other leftInside rightInside leftHolds rightHolds
    by_cases sameLeft : left = slot <;> by_cases sameRight : right = slot
    · rw [sameLeft, sameRight]
    · rw [sameLeft, Function.update_self] at leftHolds
      rw [Function.update_of_ne sameRight] at rightHolds
      cases leftHolds
      exact absurd rightHolds (absent right rightInside)
    · rw [sameRight, Function.update_self] at rightHolds
      rw [Function.update_of_ne sameLeft] at leftHolds
      cases rightHolds
      exact absurd leftHolds (absent left leftInside)
    · rw [Function.update_of_ne sameLeft] at leftHolds
      rw [Function.update_of_ne sameRight] at rightHolds
      exact placed.unique left right other leftInside rightInside leftHolds rightHolds
  · intro other far earlier inside before holds
    have kept : ∀ visited, keyAt visited ≠ none →
        Function.update keyAt slot (some key) visited ≠ none := by
      intro visited occupied
      by_cases sameSlot : visited = slot
      · rw [sameSlot, Function.update_self]
        simp
      · rwa [Function.update_of_ne sameSlot]
    by_cases sameSlot : slotAt max (startOf other) far = slot
    · rw [sameSlot, Function.update_self] at holds
      cases holds
      have equal : far = distance := slot_at_injective inside near (sameSlot.trans same.symm)
      exact kept _ (missed earlier (equal ▸ before)).1
    · rw [Function.update_of_ne sameSlot] at holds
      exact kept _ (placed.gapless other far earlier inside before holds)

end Keys

end OpenAddressing
