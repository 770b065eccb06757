import SriGlibcMalloc.LockFreeTable.Tables

/-!
# Moving the old table into the new one

While the table expands, a key is bound in the table in use or is still unmoved
in the old one. Every live binding that is moved is paid for by the keys of the
old table: three units for its slot in the new table and one that is left over.
So the new table cannot reach its threshold before the old one is empty.
-/

namespace SriGlibcMalloc.LockFreeTable

open OpenAddressing

set_option autoImplicit false

/-- The map from keys to values; `0` is an unbound key. -/
abbrev Bindings := Word → Word

def leftIn (hdr : Hdr) (key : Word) : Prop :=
  ∃ slot, slot < hdr.max ∧ unmoved hdr slot = true ∧ (hdr.table slot).key = key

/-- The table in use binds the keys that are not elsewhere. -/
structure Holds (env : Env) (hdr : Hdr) (elsewhere : Word → Prop) (bound : Bindings) : Prop
    extends Current env hdr where
  stored : ∀ slot, slot < hdr.max → (hdr.table slot).key ≠ 0 →
    (hdr.table slot).val = bound (hdr.table slot).key
  disjoint : ∀ slot, slot < hdr.max → (hdr.table slot).key ≠ 0 → ¬elsewhere (hdr.table slot).key
  nothing : ∀ key, Key key → (∀ slot, slot < hdr.max → (hdr.table slot).key ≠ key) →
    ¬elsewhere key → bound key = tombstone

/-- An expansion in progress; `spare` is what has been paid beyond need. -/
structure Migrating (env : Env) (ht : Lfht) (cur old : HdrPtr) (bound : Bindings) (spare : Nat) :
    Prop where
  state : ht.state = .expanding
  installed : ht.tableHdr = cur
  link : (ht.hdr cur).next = some old
  apart : old ≠ cur
  allocated : cur < ht.mmapCalls ∧ old < ht.mmapCalls
  sound : Sound env (ht.hdr old)
  unfinished : (ht.hdr old).assimilated = false
  doubled : (ht.hdr cur).max = 2 * (ht.hdr old).max
  filled : (ht.hdr old).count ≤ (ht.hdr old).threshold + 1
  paid : 3 * (ht.hdr cur).count + 4 * tally (ht.hdr old).max (owed (ht.hdr old)) + spare ≤
    4 * (ht.hdr old).count
  holds : Holds env (ht.hdr cur) (leftIn (ht.hdr old)) bound
  pending : ∀ slot, slot < (ht.hdr old).max → unmoved (ht.hdr old) slot = true →
    ((ht.hdr old).table slot).val = bound ((ht.hdr old).table slot).key

variable {env : Env} {ht : Lfht} {hdr : Hdr} {cur old : HdrPtr} {elsewhere : Word → Prop}
variable {bound : Bindings} {key val : Word} {slot spare : Nat}

theorem Current.absent_iff (current : Current env hdr) (valid : Key key) :
    (∀ slot, slot < hdr.max → ownerAt hdr slot ≠ some key) ↔
      ∀ slot, slot < hdr.max → (hdr.table slot).key ≠ key := by
  constructor <;> intro absent slot inside same
  · exact absent slot inside ((current.owner_iff valid inside).mpr same)
  · exact absent slot inside ((current.owner_iff valid inside).mp same)

theorem Current.search_absent (current : Current env hdr) (valid : Key key)
    (absent : ∀ slot, slot < hdr.max → (hdr.table slot).key ≠ key)
    (room : hdr.count < hdr.max) :
    ∃ slot, slot < hdr.max ∧ (hdr.table slot).key = 0 ∧
      search hdr.max (startOf env hdr.max) (ownerAt hdr) key = some slot := by
  rw [current.counted] at room
  obtain ⟨hole, holeInside, clear⟩ := exists_clear room
  have empty : ownerAt hdr hole = none := by
    rw [owner_at_none]
    simpa [occupied] using clear
  have ends : ∃ slot, slot < hdr.max ∧
      search hdr.max (startOf env hdr.max) (ownerAt hdr) key = some slot ∧
        ownerAt hdr slot = none :=
    Placed.search_absent ((current.absent_iff valid).mpr absent) ⟨hole, holeInside, empty⟩
  obtain ⟨slot, inside, found, free⟩ := ends
  exact ⟨slot, inside, owner_at_none.mp free, found⟩

theorem Current.search_present (current : Current env hdr) (valid : Key key)
    (inside : slot < hdr.max) (present : (hdr.table slot).key = key) :
    search hdr.max (startOf env hdr.max) (ownerAt hdr) key = some slot :=
  current.placed.search_present inside ((current.owner_iff valid inside).mpr present)

theorem Current.unique (current : Current env hdr) (valid : Key key) {other : Nat}
    (inside : slot < hdr.max) (otherInside : other < hdr.max)
    (present : (hdr.table slot).key = key) (otherPresent : (hdr.table other).key = key) :
    slot = other :=
  current.placed.unique slot other key inside otherInside
    ((current.owner_iff valid inside).mpr present)
    ((current.owner_iff valid otherInside).mpr otherPresent)

theorem Holds.set_val (holds : Holds env hdr elsewhere bound) (valid : Key key)
    (inside : slot < hdr.max) (present : (hdr.table slot).key = key) (val : Word) :
    Holds env (hdr.setEntry slot ⟨key, val⟩) elsewhere (Function.update bound key val) := by
  have stored : key ≠ 0 := Nat.ne_of_gt valid.positive
  have keys : ∀ other, ((hdr.setEntry slot ⟨key, val⟩).table other).key = (hdr.table other).key := by
    intro other
    by_cases same : other = slot
    · simp [Hdr.setEntry, same, present]
    · simp [Hdr.setEntry, Function.update_of_ne same]
  refine ⟨holds.toCurrent.set_val valid present val, ?_, ?_, ?_⟩
  · intro other otherInside occupies
    rw [keys] at occupies ⊢
    by_cases same : other = slot
    · simp [Hdr.setEntry, same, present]
    · have different : (hdr.table other).key ≠ key := by
        intro equal
        exact same (holds.toCurrent.unique valid otherInside inside equal present)
      rw [Function.update_of_ne different, ← holds.stored other otherInside occupies]
      simp [Hdr.setEntry, Function.update_of_ne same]
  · intro other otherInside occupies
    rw [keys] at occupies ⊢
    exact holds.disjoint other otherInside occupies
  · intro third thirdValid absent away
    have different : third ≠ key := by
      intro equal
      exact absent slot inside ((keys slot).trans (present.trans equal.symm))
    rw [Function.update_of_ne different]
    apply holds.nothing third thirdValid _ away
    intro other otherInside
    rw [← keys other]
    exact absent other otherInside

theorem Holds.bind_new (holds : Holds env hdr elsewhere bound) (valid : Key key)
    (found : search hdr.max (startOf env hdr.max) (ownerAt hdr) key = some slot)
    (empty : (hdr.table slot).key = 0) (inside : slot < hdr.max)
    (absent : ∀ slot, slot < hdr.max → (hdr.table slot).key ≠ key) (val : Word)
    {later : Word → Prop} (moved : ∀ other, later other ↔ elsewhere other ∧ other ≠ key) :
    Holds env (hdr.bindNew slot key val) later (Function.update bound key val) := by
  have here : (hdr.bindNew slot key val).table slot = ⟨key, val⟩ := Function.update_self ..
  have apart : ∀ other, other ≠ slot →
      (hdr.bindNew slot key val).table other = hdr.table other := by
    intro other different
    exact Function.update_of_ne different ..
  refine ⟨holds.toCurrent.bind_new valid val found empty inside, ?_, ?_, ?_⟩
  · intro other otherInside occupies
    by_cases same : other = slot
    · rw [same, here, Function.update_self]
    · rw [apart other same] at occupies ⊢
      rw [Function.update_of_ne (absent other otherInside)]
      exact holds.stored other otherInside occupies
  · intro other otherInside occupies away
    by_cases same : other = slot
    · rw [same, here] at away
      exact ((moved key).mp away).2 rfl
    · rw [apart other same] at occupies away
      exact holds.disjoint other otherInside occupies ((moved _).mp away).1
  · intro third thirdValid missing away
    have different : third ≠ key := by
      intro equal
      apply missing slot inside
      rw [here, equal]
    rw [Function.update_of_ne different]
    apply holds.nothing third thirdValid
    · intro other otherInside equal
      apply missing other otherInside
      by_cases same : other = slot
      · rw [same, empty] at equal
        exact absurd equal (Nat.ne_of_lt thirdValid.positive)
      · rw [apart other same, equal]
    · intro before
      exact away ((moved third).mpr ⟨before, different⟩)

@[simp] theorem hdr_set_hdr (ht : Lfht) (ptr : HdrPtr) (hdr : Hdr) :
    (ht.setHdr ptr hdr).hdr ptr = hdr := Function.update_self ..

theorem hdr_set_hdr_of_ne {ptr other : HdrPtr} (different : other ≠ ptr) :
    (ht.setHdr ptr hdr).hdr other = ht.hdr other := Function.update_of_ne different ..

theorem set_entry_eq (ht : Lfht) (ptr : HdrPtr) (slot : Nat) (entry : Entry) :
    ht.setEntry ptr slot entry = ht.setHdr ptr ((ht.hdr ptr).setEntry slot entry) := rfl

theorem add_attempt_new (inUse : ht.hdr ht.tableHdr = hdr) (current : Current env hdr)
    (valid : Key key)
    (found : search hdr.max (startOf env hdr.max) (ownerAt hdr) key = some slot)
    (empty : (hdr.table slot).key = 0) :
    addAttempt env key val ht =
      if hdr.threshold < hdr.count + 1 then do
        let (_, grown) ← growTable env (ht.setHdr ht.tableHdr (hdr.bindNew slot key val))
          ht.tableHdr
        .ok (true, grown)
      else .ok (true, ht.setHdr ht.tableHdr (hdr.bindNew slot key val)) := by
  subst inUse
  have same : (ht.setEntry ht.tableHdr slot ⟨key, val⟩).setHdr ht.tableHdr
      { (ht.setEntry ht.tableHdr slot ⟨key, val⟩).hdr ht.tableHdr with
        count := ((ht.hdr ht.tableHdr).count + 1) % 2 ^ 32 } =
      ht.setHdr ht.tableHdr ((ht.hdr ht.tableHdr).bindNew slot key val) := by
    simp [set_entry_eq, Lfht.setHdr, Hdr.setEntry, Hdr.bindNew]
  have counts : ((ht.setEntry ht.tableHdr slot ⟨key, val⟩).hdr ht.tableHdr).count =
      (ht.hdr ht.tableHdr).count := by
    simp [set_entry_eq, Hdr.setEntry]
  rw [addAttempt, current.probe valid, found]
  simp only [ok_bind, empty, if_true, counts, same]
  simp only [hdr_set_hdr, current.count_exact]
  rfl

theorem add_attempt_present (inUse : ht.hdr ht.tableHdr = hdr) (current : Current env hdr)
    (valid : Key key) (inside : slot < hdr.max) (present : (hdr.table slot).key = key) :
    addAttempt env key val ht =
      .ok (true, ht.setHdr ht.tableHdr (hdr.setEntry slot ⟨key, val⟩)) := by
  subst inUse
  have stored : ((ht.hdr ht.tableHdr).table slot).key ≠ 0 := by
    rw [present]
    exact Nat.ne_of_gt valid.positive
  rw [addAttempt, current.probe valid, current.search_present valid inside present]
  simp only [ok_bind, if_neg stored, set_entry_eq]

theorem check_binding (valid : Key key) (live : val ≠ tombstone) :
    checkBinding key val = .ok () := by
  have nonzero : key ≠ 0 := Nat.ne_of_gt valid.positive
  have clear : isAssimilated key = false := by
    rw [Bool.eq_false_iff, ne_eq, is_assimilated_iff, not_not]
    exact valid.aligned
  simp [checkBinding, nonzero, clear, live]

def Hdr.mark (hdr : Hdr) (slot : Nat) : Hdr :=
  if unmoved hdr slot then
    hdr.setEntry slot ⟨setAssimilated (hdr.table slot).key, (hdr.table slot).val⟩
  else hdr

theorem key_of_unmoved (held : unmoved hdr slot = true) : Key (hdr.table slot).key := by
  rw [unmoved_iff] at held
  exact ⟨Nat.pos_of_ne_zero held.1, held.2⟩

theorem mark_table_of_ne {other : Nat} (different : other ≠ slot) :
    (hdr.mark slot).table other = hdr.table other := by
  rw [Hdr.mark]
  split
  · exact Function.update_of_ne different ..
  · rfl

theorem mark_max (hdr : Hdr) (slot : Nat) : (hdr.mark slot).max = hdr.max := by
  rw [Hdr.mark]
  split <;> rfl

theorem mark_table_of_unmoved (held : unmoved hdr slot = true) :
    (hdr.mark slot).table slot = ⟨(hdr.table slot).key + 1, (hdr.table slot).val⟩ := by
  rw [Hdr.mark, if_pos held, ← set_assimilated (key_of_unmoved held).aligned]
  exact Function.update_self ..

theorem unmoved_mark_self (hdr : Hdr) (slot : Nat) : unmoved (hdr.mark slot) slot = false := by
  cases held : unmoved hdr slot with
  | false => rw [Hdr.mark, held, if_neg Bool.false_ne_true, held]
  | true =>
      rw [Bool.eq_false_iff, ne_eq, unmoved_iff, mark_table_of_unmoved held]
      intro both
      have aligned := (key_of_unmoved held).aligned
      have rest : ((hdr.table slot).key + 1) % keyAlignment = 1 := by
        rw [Nat.add_mod, aligned]
        decide
      rw [rest] at both
      cases both.2

theorem unmoved_mark_of_ne {other : Nat} (different : other ≠ slot) :
    unmoved (hdr.mark slot) other = unmoved hdr other := by
  simp [unmoved, occupied, mark_table_of_ne different]

theorem Sound.mark (sound : Sound env hdr) (slot : Nat) : Sound env (hdr.mark slot) := by
  rw [Hdr.mark]
  split
  case isFalse => exact sound
  case isTrue held =>
    have valid := key_of_unmoved held
    have word : setAssimilated (hdr.table slot).key = (hdr.table slot).key + 1 :=
      set_assimilated valid.aligned
    apply sound.set_entry
    · exact Nat.ne_of_gt valid.positive
    · simp [word]
    · simp only [word]
      constructor
      · rw [Nat.add_mod, valid.aligned]
        decide
      · exact Nat.ne_of_gt (Nat.succ_lt_succ valid.positive)
    · simp only [word]
      rw [base_of_assimilated valid.aligned, base_of_aligned valid.aligned]

theorem mark_count (hdr : Hdr) (slot : Nat) : (hdr.mark slot).count = hdr.count := by
  rw [Hdr.mark]
  split <;> rfl

theorem mark_threshold (hdr : Hdr) (slot : Nat) :
    (hdr.mark slot).threshold = hdr.threshold := by
  rw [Hdr.mark]
  split <;> rfl

theorem mark_assimilated (hdr : Hdr) (slot : Nat) :
    (hdr.mark slot).assimilated = hdr.assimilated := by
  rw [Hdr.mark]
  split <;> rfl

/-- Marking a slot takes its key, and no other, out of the old table. -/
theorem Sound.left_in_mark (sound : Sound env hdr) (held : unmoved hdr slot = true)
    (inside : slot < hdr.max) (key : Word) :
    leftIn (hdr.mark slot) key ↔ leftIn hdr key ∧ key ≠ (hdr.table slot).key := by
  constructor
  · intro left
    obtain ⟨other, otherInside, unmovedOther, same⟩ := left
    rw [mark_max] at otherInside
    have different : other ≠ slot := by
      intro equal
      rw [equal, unmoved_mark_self] at unmovedOther
      cases unmovedOther
    rw [unmoved_mark_of_ne different] at unmovedOther
    rw [mark_table_of_ne different] at same
    refine ⟨⟨other, otherInside, unmovedOther, same⟩, ?_⟩
    intro equal
    have valid := key_of_unmoved held
    exact different (sound.placed.unique other slot (hdr.table slot).key otherInside inside
      (Sound.owner_unmoved valid (same.trans equal)) (Sound.owner_unmoved valid rfl))
  · intro left
    obtain ⟨⟨other, otherInside, unmovedOther, same⟩, away⟩ := left
    have different : other ≠ slot := by
      intro equal
      exact away (same.symm.trans (congrArg (fun index => (hdr.table index).key) equal))
    refine ⟨other, (mark_max hdr slot).symm ▸ otherInside, ?_, ?_⟩
    · rw [unmoved_mark_of_ne different]
      exact unmovedOther
    · rw [mark_table_of_ne different]
      exact same

theorem tally_owed_mark_live (held : unmoved hdr slot = true) (inside : slot < hdr.max)
    (live : (hdr.table slot).val ≠ tombstone) :
    tally hdr.max (owed hdr) = tally hdr.max (owed (hdr.mark slot)) + 1 := by
  apply tally_gain inside
  · simp [owed, unmoved_mark_self]
  · simp [owed, held, live]
  · intro other different
    simp [owed, unmoved_mark_of_ne different, mark_table_of_ne different]

theorem tally_owed_mark_le (hdr : Hdr) (slot : Nat) :
    tally hdr.max (owed (hdr.mark slot)) ≤ tally hdr.max (owed hdr) := by
  apply tally_mono
  intro other _ owing
  by_cases same : other = slot
  · rw [same, owed, unmoved_mark_self] at owing
    cases owing
  · simpa [owed, unmoved_mark_of_ne same, mark_table_of_ne same] using owing

end SriGlibcMalloc.LockFreeTable
