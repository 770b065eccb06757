import Mathlib.Data.List.Find
import SriGlibcMalloc.LockFreeTable.Model
import SriGlibcMalloc.OpenAddressing.Probe

/-!
# One table of the chain

A table places the keys it owns by linear probing; an assimilated key still
owns its slot. The loops of the source then search as `OpenAddressing.search`
does, and storing a binding keeps the table sound.
-/

namespace SriGlibcMalloc.LockFreeTable

open OpenAddressing

set_option autoImplicit false

/-- The key that a word of a slot stands for, assimilated or not. -/
def baseOf (key : Word) : Word := key - key % keyAlignment

def ownerAt (hdr : Hdr) (slot : Nat) : Option Word :=
  if (hdr.table slot).key = 0 then none else some (baseOf (hdr.table slot).key)

def occupied (hdr : Hdr) (slot : Nat) : Bool := (hdr.table slot).key ≠ 0

/-- A binding that has not been moved to the next table. -/
def unmoved (hdr : Hdr) (slot : Nat) : Bool :=
  occupied hdr slot && !isAssimilated (hdr.table slot).key

def owed (hdr : Hdr) (slot : Nat) : Bool :=
  unmoved hdr slot && (hdr.table slot).val ≠ tombstone

def startOf (env : Env) (max : Nat) (key : Word) : Nat := env.hash key % max

structure Key (key : Word) : Prop where
  positive : 0 < key
  aligned : key % keyAlignment = 0

structure Sound (env : Env) (hdr : Hdr) : Prop where
  power : ∃ bits, bits ≤ 31 ∧ hdr.max = 2 ^ bits
  cut : hdr.threshold = 6 * hdr.max / 10
  words : ∀ slot, slot < hdr.max →
    (hdr.table slot).key % keyAlignment ≤ 1 ∧ (hdr.table slot).key ≠ 1
  placed : Placed hdr.max (startOf env hdr.max) (ownerAt hdr)
  counted : hdr.count = tally hdr.max (occupied hdr)

/-- The table in use: none of its keys is assimilated. -/
structure Current (env : Env) (hdr : Hdr) : Prop extends Sound env hdr where
  unfinished : hdr.assimilated = false
  aligned : ∀ slot, slot < hdr.max → (hdr.table slot).key % keyAlignment = 0

variable {env : Env} {hdr : Hdr} {key : Word} {slot : Nat}

theorem is_assimilated_iff : isAssimilated key = true ↔ key % keyAlignment ≠ 0 := by
  have mask : key &&& (keyAlignment - 1) = key % keyAlignment :=
    Nat.and_two_pow_sub_one_eq_mod key 4
  simp [isAssimilated, mask]

theorem set_assimilated (aligned : key % keyAlignment = 0) : setAssimilated key = key + 1 := by
  obtain ⟨quotient, rfl⟩ := Nat.dvd_of_mod_eq_zero aligned
  exact (Nat.two_pow_add_eq_or_of_lt (by decide : 1 < 2 ^ 4) quotient).symm

theorem base_of_aligned (aligned : key % keyAlignment = 0) : baseOf key = key := by
  rw [baseOf, aligned, Nat.sub_zero]

theorem base_of_assimilated (aligned : key % keyAlignment = 0) : baseOf (key + 1) = key := by
  have rest : (key + 1) % keyAlignment = 1 := by
    rw [Nat.add_mod, aligned]
    decide
  rw [baseOf, rest, Nat.add_sub_cancel]

theorem Key.word (valid : Key key) : key % keyAlignment ≤ 1 ∧ key ≠ 1 := by
  constructor
  · rw [valid.aligned]
    exact Nat.zero_le 1
  · intro one
    have aligned := valid.aligned
    rw [one] at aligned
    cases aligned

theorem owner_at_none : ownerAt hdr slot = none ↔ (hdr.table slot).key = 0 := by
  rw [ownerAt]
  split <;> simp_all

theorem occupied_iff : occupied hdr slot = true ↔ (hdr.table slot).key ≠ 0 := by
  simp [occupied]

theorem unmoved_iff : unmoved hdr slot = true ↔
    (hdr.table slot).key ≠ 0 ∧ (hdr.table slot).key % keyAlignment = 0 := by
  rw [unmoved, Bool.and_eq_true, occupied_iff, Bool.not_eq_true', ← Bool.not_eq_true,
    is_assimilated_iff, not_not]

theorem Sound.positive (sound : Sound env hdr) : 0 < hdr.max := by
  obtain ⟨bits, _, size⟩ := sound.power
  rw [size]
  exact Nat.two_pow_pos bits

theorem Sound.owner_unmoved (valid : Key key) (present : (hdr.table slot).key = key) :
    ownerAt hdr slot = some key := by
  rw [ownerAt, present, if_neg (Nat.ne_of_gt valid.positive), base_of_aligned valid.aligned]

theorem Current.owner_iff (current : Current env hdr) (valid : Key key) (inside : slot < hdr.max) :
    ownerAt hdr slot = some key ↔ (hdr.table slot).key = key := by
  have aligned := current.aligned slot inside
  constructor
  · intro owner
    rw [ownerAt] at owner
    split at owner
    · cases owner
    · rw [base_of_aligned aligned] at owner
      exact Option.some.inj owner
  · intro present
    exact Sound.owner_unmoved valid present

theorem and_mask {max : Nat} (power : ∃ bits, bits ≤ 31 ∧ max = 2 ^ bits) (word : Nat) :
    word &&& (max - 1) = word % max := by
  obtain ⟨bits, _, size⟩ := power
  rw [size, Nat.and_two_pow_sub_one_eq_mod]

theorem probe_eq {max : Nat} (power : ∃ bits, bits ≤ 31 ∧ max = 2 ^ bits)
    (table : Nat → Entry) (key : Word) {j : Nat} (start : j < max) :
    ∀ fuel distance, 0 < fuel → distance + fuel = max →
      probe table (max - 1) j key fuel (slotAt max j distance) =
        .ok ((slotsFrom max j distance).find? fun slot =>
          (table slot).key = 0 || (table slot).key = key) := by
  intro fuel
  induction fuel with
  | zero =>
      intro distance positive
      cases positive
  | succ fuel ih =>
      intro distance _ total
      have inside : distance < max := by omega
      rw [slots_from_cons inside, List.find?_cons, probe]
      by_cases stops : ((table (slotAt max j distance)).key = 0 ||
          (table (slotAt max j distance)).key = key) = true
      · rw [if_pos stops, stops]
      · rw [if_neg stops, Bool.eq_false_iff.mpr stops]
        simp only [and_mask power, slot_at_succ]
        cases fuel with
        | zero =>
            have round : distance + 1 = max := by omega
            rw [round, slots_from_end, slotAt, Nat.add_mod_right, Nat.mod_eq_of_lt start]
            simp
        | succ fuel =>
            have away : slotAt max j (distance + 1) ≠ j := by
              intro same
              have back := slot_at_injective (by omega : distance + 1 < max)
                (Nat.zero_lt_of_lt inside) (same.trans (slot_at_zero start).symm)
              omega
            rw [if_neg away]
            exact ih (distance + 1) (Nat.succ_pos fuel) (by omega)

theorem Current.probe (current : Current env hdr) (valid : Key key) :
    probeHdr env hdr key = .ok (search hdr.max (startOf env hdr.max) (ownerAt hdr) key) := by
  have start : startOf env hdr.max key < hdr.max := Nat.mod_lt _ current.positive
  have run := probe_eq current.power hdr.table key start hdr.max 0 current.positive
    (Nat.zero_add _)
  rw [slot_at_zero start] at run
  rw [probeHdr, and_mask current.power]
  refine run.trans (congrArg Except.ok ?_)
  apply List.find?_congr
  intro slot visited
  obtain ⟨distance, _, near, same⟩ := mem_slots_from.mp visited
  have inside : slot < hdr.max := same ▸ slot_at_lt current.positive _ distance
  simp only [owner_at_none, current.owner_iff valid inside]

def Hdr.bindNew (hdr : Hdr) (slot : Nat) (key val : Word) : Hdr :=
  { hdr with
    table := Function.update hdr.table slot ⟨key, val⟩
    count := (hdr.count + 1) % 2 ^ 32 }

def Hdr.setEntry (hdr : Hdr) (slot : Nat) (entry : Entry) : Hdr :=
  { hdr with table := Function.update hdr.table slot entry }

theorem Sound.count_bound (sound : Sound env hdr) : hdr.count ≤ hdr.max := by
  rw [sound.counted]
  exact tally_le ..

theorem Sound.max_bound (sound : Sound env hdr) : hdr.max ≤ 2 ^ 31 := by
  obtain ⟨bits, low, size⟩ := sound.power
  rw [size]
  exact Nat.pow_le_pow_right (by decide) low

theorem Sound.count_exact (sound : Sound env hdr) : (hdr.count + 1) % 2 ^ 32 = hdr.count + 1 := by
  apply Nat.mod_eq_of_lt
  have bound := Nat.le_trans sound.count_bound sound.max_bound
  omega

theorem Current.bind_new (current : Current env hdr) (valid : Key key) (val : Word)
    (found : search hdr.max (startOf env hdr.max) (ownerAt hdr) key = some slot)
    (empty : (hdr.table slot).key = 0) (inside : slot < hdr.max) :
    Current env (hdr.bindNew slot key val) := by
  have stored : key ≠ 0 := Nat.ne_of_gt valid.positive
  have elsewhere : ∀ other, other ≠ slot →
      (hdr.bindNew slot key val).table other = hdr.table other := by
    intro other different
    exact Function.update_of_ne different ..
  have here : (hdr.bindNew slot key val).table slot = ⟨key, val⟩ := Function.update_self ..
  refine ⟨⟨current.power, current.cut, ?_, ?_, ?_⟩, current.unfinished, ?_⟩
  · intro other bound
    by_cases same : other = slot
    · rw [same, here]
      exact valid.word
    · rw [elsewhere other same]
      exact current.words other bound
  · have inserted := current.placed.insert found (owner_at_none.mpr empty)
    rw [← base_of_aligned valid.aligned] at inserted
    have owners : ownerAt (hdr.bindNew slot key val) =
        Function.update (ownerAt hdr) slot (some (baseOf key)) := by
      funext other
      by_cases same : other = slot
      · subst same
        simp [ownerAt, here, stored]
      · simp [ownerAt, elsewhere other same, Function.update_of_ne same]
    rw [owners]
    exact inserted
  · have gained : tally hdr.max (occupied (hdr.bindNew slot key val)) =
        tally hdr.max (occupied hdr) + 1 := by
      apply tally_gain inside
      · simp [occupied, empty]
      · simp [occupied, here, stored]
      · intro other different
        simp [occupied, elsewhere other different]
    exact current.count_exact.trans ((congrArg (· + 1) current.counted).trans gained.symm)
  · intro other bound
    by_cases same : other = slot
    · rw [same, here]
      exact valid.aligned
    · rw [elsewhere other same]
      exact current.aligned other bound

/-- Writing an entry whose word stands for the same key. -/
theorem Sound.set_entry (sound : Sound env hdr) {entry : Entry}
    (occupies : (hdr.table slot).key ≠ 0) (stored : entry.key ≠ 0)
    (word : entry.key % keyAlignment ≤ 1 ∧ entry.key ≠ 1)
    (base : baseOf entry.key = baseOf (hdr.table slot).key) :
    Sound env (hdr.setEntry slot entry) := by
  have elsewhere : ∀ other, other ≠ slot →
      (hdr.setEntry slot entry).table other = hdr.table other := by
    intro other different
    exact Function.update_of_ne different ..
  have here : (hdr.setEntry slot entry).table slot = entry := Function.update_self ..
  have owners : ownerAt (hdr.setEntry slot entry) = ownerAt hdr := by
    funext other
    by_cases same : other = slot
    · subst same
      simp [ownerAt, here, stored, occupies, base]
    · simp [ownerAt, elsewhere other same]
  have filled : occupied (hdr.setEntry slot entry) = occupied hdr := by
    funext other
    by_cases same : other = slot
    · subst same
      simp [occupied, here, stored, occupies]
    · simp [occupied, elsewhere other same]
  refine ⟨sound.power, sound.cut, ?_, ?_, ?_⟩
  · intro other bound
    by_cases same : other = slot
    · rw [same, here]
      exact word
    · rw [elsewhere other same]
      exact sound.words other bound
  · rw [owners]
    exact sound.placed
  · rw [filled]
    exact sound.counted

theorem Current.set_val (current : Current env hdr) (valid : Key key)
    (present : (hdr.table slot).key = key) (val : Word) :
    Current env (hdr.setEntry slot ⟨key, val⟩) := by
  have stored : key ≠ 0 := Nat.ne_of_gt valid.positive
  have occupies : (hdr.table slot).key ≠ 0 := by
    rw [present]
    exact stored
  have sound : Sound env (hdr.setEntry slot ⟨key, val⟩) :=
    current.toSound.set_entry occupies stored valid.word (by rw [present])
  refine ⟨sound, current.unfinished, ?_⟩
  intro other bound
  by_cases same : other = slot
  · simp [Hdr.setEntry, same, valid.aligned]
  · simpa [Hdr.setEntry, Function.update_of_ne same] using current.aligned other bound

end SriGlibcMalloc.LockFreeTable
