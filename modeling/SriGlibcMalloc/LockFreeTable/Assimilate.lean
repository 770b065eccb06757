import SriGlibcMalloc.LockFreeTable.Migration
import SriGlibcMalloc.Outcome.Ensures

/-!
# The migration loop

One round of the loop of `assimilate` marks the entry of a slot and moves its
binding when it is live. The loop ends with the key of the caller gone from the
old table, and with the whole table swept when fewer bindings than asked for
were moved.
-/

namespace SriGlibcMalloc.LockFreeTable

open OpenAddressing Outcome

set_option autoImplicit false

variable {env : Env} {ht : Lfht} {hdr : Hdr} {cur old : HdrPtr} {elsewhere : Word → Prop}
variable {bound : Bindings} {key : Word} {slot spare : Nat}

/-- The new table has room for everything that the old one still owes. -/
theorem paid_below_threshold {count owing max : Nat}
    (power : ∃ bits, bits ≤ 31 ∧ max = 2 ^ bits)
    (paid : 3 * count + 4 * owing ≤ 4 * (6 * max / 10 + 1)) :
    count + owing ≤ 6 * (2 * max) / 10 := by
  obtain ⟨bits, _, size⟩ := power
  rcases Nat.lt_or_ge bits 3 with few | many
  · have small : bits = 0 ∨ bits = 1 ∨ bits = 2 := by omega
    rcases small with same | same | same <;> rw [same] at size <;> omega
  · have large : 8 ≤ max := by
      rw [size]
      exact Nat.pow_le_pow_right (by decide : 0 < 2) many
    omega

theorem Migrating.room (migrating : Migrating env ht cur old bound spare) :
    (ht.hdr cur).count + tally (ht.hdr old).max (owed (ht.hdr old)) ≤ (ht.hdr cur).threshold := by
  have filled := migrating.filled
  rw [migrating.sound.cut] at filled
  rw [migrating.holds.cut, migrating.doubled]
  apply paid_below_threshold migrating.sound.power
  have paid := migrating.paid
  omega

theorem Current.threshold_lt (current : Current env hdr) : hdr.threshold < hdr.max := by
  rw [current.cut]
  have positive := current.positive
  omega

theorem Holds.narrow {later : Word → Prop} (holds : Holds env hdr elsewhere bound)
    (fewer : ∀ key, later key → elsewhere key)
    (unbound : ∀ key, elsewhere key → ¬later key → bound key = tombstone) :
    Holds env hdr later bound := by
  refine ⟨holds.toCurrent, holds.stored, ?_, ?_⟩
  · intro slot inside occupies away
    exact holds.disjoint slot inside occupies (fewer _ away)
  · intro key valid absent away
    by_cases before : elsewhere key
    · exact unbound key before away
    · exact holds.nothing key valid absent before

theorem Migrating.absent (migrating : Migrating env ht cur old bound spare)
    (inside : slot < (ht.hdr old).max) (held : unmoved (ht.hdr old) slot = true) :
    ∀ other, other < (ht.hdr cur).max →
      ((ht.hdr cur).table other).key ≠ ((ht.hdr old).table slot).key := by
  intro other otherInside same
  have occupies : ((ht.hdr cur).table other).key ≠ 0 := by
    rw [same]
    exact Nat.ne_of_gt (key_of_unmoved held).positive
  apply migrating.holds.disjoint other otherInside occupies
  exact ⟨slot, inside, held, same.symm⟩

theorem Migrating.advance (migrating : Migrating env ht cur old bound spare) {next : Hdr}
    (moved : Nat) (holds : Holds env next (leftIn ((ht.hdr old).mark slot)) bound)
    (link : next.next = some old) (size : next.max = (ht.hdr cur).max)
    (counted : next.count = (ht.hdr cur).count + moved)
    (owing : tally (ht.hdr old).max (owed ((ht.hdr old).mark slot)) + moved ≤
      tally (ht.hdr old).max (owed (ht.hdr old))) :
    Migrating env ((ht.setHdr old ((ht.hdr old).mark slot)).setHdr cur next) cur old bound
      (spare + moved) := by
  have oldHdr : (((ht.setHdr old ((ht.hdr old).mark slot)).setHdr cur next).hdr old) =
      (ht.hdr old).mark slot := by
    rw [hdr_set_hdr_of_ne migrating.apart, hdr_set_hdr]
  constructor
  · exact migrating.state
  · exact migrating.installed
  · rw [hdr_set_hdr]
    exact link
  · exact migrating.apart
  · exact migrating.allocated
  · rw [oldHdr]
    exact migrating.sound.mark slot
  · rw [oldHdr, mark_assimilated]
    exact migrating.unfinished
  · rw [oldHdr, hdr_set_hdr, mark_max, size]
    exact migrating.doubled
  · rw [oldHdr, mark_count, mark_threshold]
    exact migrating.filled
  · rw [oldHdr, hdr_set_hdr, mark_count, mark_max, counted]
    have paid := migrating.paid
    omega
  · rw [oldHdr, hdr_set_hdr]
    exact holds
  · rw [oldHdr, mark_max]
    intro other inside held
    have different : other ≠ slot := by
      intro same
      rw [same, unmoved_mark_self] at held
      cases held
    rw [unmoved_mark_of_ne different] at held
    rw [mark_table_of_ne different]
    exact migrating.pending other inside held

/-- A tombstone of the old table is only marked. -/
theorem Migrating.drop (migrating : Migrating env ht cur old bound spare)
    (inside : slot < (ht.hdr old).max) (held : unmoved (ht.hdr old) slot = true)
    (dead : ((ht.hdr old).table slot).val = tombstone) :
    Migrating env (ht.setHdr old ((ht.hdr old).mark slot)) cur old bound spare := by
  have narrowed : Holds env (ht.hdr cur) (leftIn ((ht.hdr old).mark slot)) bound := by
    apply migrating.holds.narrow
    · intro key left
      exact ((migrating.sound.left_in_mark held inside key).mp left).1
    · intro key left gone
      have same : key = ((ht.hdr old).table slot).key := by
        by_contra different
        exact gone ((migrating.sound.left_in_mark held inside key).mpr ⟨left, different⟩)
      rw [same, ← migrating.pending slot inside held, dead]
  have advanced := migrating.advance 0 narrowed migrating.link rfl rfl
    (tally_owed_mark_le _ slot)
  have unchanged : (ht.setHdr old ((ht.hdr old).mark slot)).setHdr cur (ht.hdr cur) =
      ht.setHdr old ((ht.hdr old).mark slot) := by
    have same : ht.hdr cur = (ht.setHdr old ((ht.hdr old).mark slot)).hdr cur :=
      (hdr_set_hdr_of_ne migrating.apart.symm).symm
    rw [same, Lfht.setHdr, Function.update_eq_self]
  rwa [unchanged] at advanced

theorem Migrating.move (migrating : Migrating env ht cur old bound spare)
    (inside : slot < (ht.hdr old).max) (held : unmoved (ht.hdr old) slot = true)
    (live : ((ht.hdr old).table slot).val ≠ tombstone) :
    ∃ after, internalAdd env (ht.setHdr old ((ht.hdr old).mark slot))
        ((ht.hdr old).table slot).key ((ht.hdr old).table slot).val = .ok (true, after) ∧
      Migrating env after cur old bound (spare + 1) ∧
      after.hdr old = (ht.hdr old).mark slot := by
  have valid := key_of_unmoved held
  have absent := migrating.absent inside held
  have owing := tally_owed_mark_live held inside live
  have room : (ht.hdr cur).count + 1 ≤ (ht.hdr cur).threshold := by
    have below := migrating.room
    omega
  have current := migrating.holds.toCurrent
  obtain ⟨free, freeInside, empty, found⟩ := current.search_absent valid absent
    (Nat.lt_of_lt_of_le (Nat.lt_of_lt_of_le (Nat.lt_succ_self _) room) current.threshold_lt.le)
  have moved := migrating.holds.bind_new valid found empty freeInside absent
    ((ht.hdr old).table slot).val (migrating.sound.left_in_mark held inside)
  rw [migrating.pending slot inside held, Function.update_eq_self] at moved
  have inUse : (ht.setHdr old ((ht.hdr old).mark slot)).hdr
      (ht.setHdr old ((ht.hdr old).mark slot)).tableHdr = ht.hdr cur := by
    rw [← migrating.installed]
    exact hdr_set_hdr_of_ne (migrating.installed.symm ▸ migrating.apart.symm)
  refine ⟨_, ?_, migrating.advance 1 moved migrating.link rfl current.count_exact owing.ge, ?_⟩
  · rw [internalAdd, check_binding valid live, ok_bind,
      add_attempt_new inUse current valid found empty, if_neg (Nat.not_lt.mpr room),
      migrating.pending slot inside held, ← migrating.installed]
    rfl
  · rw [hdr_set_hdr_of_ne migrating.apart, hdr_set_hdr]

theorem assimilate_entry_eq (env : Env) (old : HdrPtr) (slot : Nat) (ht : Lfht) (retval : Nat) :
    assimilateEntry env old slot ht retval =
      if unmoved (ht.hdr old) slot then
        if ((ht.hdr old).table slot).val = tombstone then
          .ok (retval, ht.setHdr old ((ht.hdr old).mark slot))
        else do
          let (_, moved) ← internalAdd env (ht.setHdr old ((ht.hdr old).mark slot))
            ((ht.hdr old).table slot).key ((ht.hdr old).table slot).val
          .ok (retval + 1, moved)
      else .ok (retval, ht) := by
  have condition : (((ht.hdr old).table slot).key ≠ 0 &&
      !isAssimilated ((ht.hdr old).table slot).key) = unmoved (ht.hdr old) slot := rfl
  cases held : unmoved (ht.hdr old) slot with
  | false =>
      simp only [assimilateEntry, condition, held]
      rfl
  | true =>
      have marked : ht.setEntry old slot
          ⟨setAssimilated ((ht.hdr old).table slot).key, ((ht.hdr old).table slot).val⟩ =
          ht.setHdr old ((ht.hdr old).mark slot) := by
        rw [Hdr.mark, if_pos held, set_entry_eq]
      simp only [assimilateEntry, condition, held, if_true, marked]
      by_cases dead : ((ht.hdr old).table slot).val = tombstone <;> simp [dead]

theorem Migrating.entry (migrating : Migrating env ht cur old bound spare)
    (inside : slot < (ht.hdr old).max) (retval : Nat) :
    ∃ moved after, assimilateEntry env old slot ht retval = .ok (retval + moved, after) ∧
      moved ≤ 1 ∧ Migrating env after cur old bound (spare + moved) ∧
      after.hdr old = (ht.hdr old).mark slot := by
  rw [assimilate_entry_eq]
  cases held : unmoved (ht.hdr old) slot with
  | false =>
      refine ⟨0, ht, rfl, Nat.zero_le 1, migrating, ?_⟩
      rw [Hdr.mark, held, if_neg Bool.false_ne_true]
  | true =>
      rw [if_pos rfl]
      by_cases dead : ((ht.hdr old).table slot).val = tombstone
      · rw [if_pos dead]
        exact ⟨0, _, rfl, Nat.zero_le 1, migrating.drop inside held dead, hdr_set_hdr ..⟩
      · obtain ⟨after, added, moved, oldHdr⟩ := migrating.move inside held dead
        rw [if_neg dead, added]
        exact ⟨1, after, rfl, Nat.le_refl 1, moved, oldHdr⟩

/-- The loop of `assimilate` has visited the slots up to a distance. -/
structure Scanned (env : Env) (hdr : Hdr) (key : Word) (count retval : Nat) (success : Bool)
    (distance : Nat) : Prop where
  past : ∀ earlier, earlier < distance →
    (hdr.table (slotAt hdr.max (startOf env hdr.max key) earlier)).key ≠ key
  swept : retval < count → ∀ earlier, earlier < distance →
    unmoved hdr (slotAt hdr.max (startOf env hdr.max key) earlier) = false
  sure : success = true → ∃ earlier, earlier < distance ∧
    (ownerAt hdr (slotAt hdr.max (startOf env hdr.max key) earlier) = none ∨
      ownerAt hdr (slotAt hdr.max (startOf env hdr.max key) earlier) = some key)

variable {count retval distance : Nat} {success : Bool}

theorem ne_of_moved (valid : Key key) (moved : unmoved hdr slot = false) :
    (hdr.table slot).key ≠ key := by
  intro same
  rw [Bool.eq_false_iff, ne_eq, unmoved_iff, same] at moved
  exact moved ⟨Nat.ne_of_gt valid.positive, valid.aligned⟩

theorem owner_at_mark (hdr : Hdr) (slot : Nat) : ownerAt (hdr.mark slot) = ownerAt hdr := by
  cases held : unmoved hdr slot with
  | false => rw [Hdr.mark, held, if_neg Bool.false_ne_true]
  | true =>
      have valid := key_of_unmoved held
      funext other
      by_cases same : other = slot
      · rw [same, ownerAt, ownerAt, mark_table_of_unmoved held, if_neg (Nat.succ_ne_zero _),
          if_neg (Nat.ne_of_gt valid.positive), base_of_aligned valid.aligned,
          base_of_assimilated valid.aligned]
      · rw [ownerAt, ownerAt, mark_table_of_ne same]

theorem owner_of_stop (valid : Key key)
    (stop : (hdr.table slot).key = 0 ∨ (hdr.table slot).key = setAssimilated key ∨
      (hdr.table slot).key = key) : ownerAt hdr slot = none ∨ ownerAt hdr slot = some key := by
  rcases stop with empty | marked | present
  · exact Or.inl (owner_at_none.mpr empty)
  · rw [set_assimilated valid.aligned] at marked
    have occupies : (hdr.table slot).key ≠ 0 := by
      rw [marked]
      exact Nat.succ_ne_zero key
    right
    rw [ownerAt, if_neg occupies, marked, base_of_assimilated valid.aligned]
  · exact Or.inr (Sound.owner_unmoved valid present)

theorem Scanned.start (env : Env) (hdr : Hdr) (key : Word) (count : Nat) :
    Scanned env hdr key count 0 false 0 where
  past := by
    intro earlier before
    cases before
  swept := by
    intro _ earlier before
    cases before
  sure := by
    intro impossible
    cases impossible

theorem Scanned.skip (scanned : Scanned env hdr key count retval success distance)
    (enough : count ≤ retval)
    (other : (hdr.table (slotAt hdr.max (startOf env hdr.max key) distance)).key ≠ key)
    {now : Bool} (sure : now = true → success = true ∨
      ownerAt hdr (slotAt hdr.max (startOf env hdr.max key) distance) = none ∨
      ownerAt hdr (slotAt hdr.max (startOf env hdr.max key) distance) = some key) :
    Scanned env hdr key count retval now (distance + 1) := by
  constructor
  · intro earlier before
    rcases Nat.lt_succ_iff_lt_or_eq.mp before with visited | last
    · exact scanned.past earlier visited
    · rw [last]
      exact other
  · intro few
    exact absurd enough (Nat.not_le.mpr few)
  · intro found
    rcases sure found with before | here
    · obtain ⟨earlier, visited, stop⟩ := scanned.sure before
      exact ⟨earlier, Nat.lt_succ_of_lt visited, stop⟩
    · exact ⟨distance, Nat.lt_succ_self _, here⟩

theorem Scanned.mark (scanned : Scanned env hdr key count retval success distance)
    (valid : Key key) (inside : distance < hdr.max) {later : Nat} (more : retval ≤ later)
    {now : Bool} (sure : now = true → success = true ∨
      ownerAt hdr (slotAt hdr.max (startOf env hdr.max key) distance) = none ∨
      ownerAt hdr (slotAt hdr.max (startOf env hdr.max key) distance) = some key) :
    Scanned env (hdr.mark (slotAt hdr.max (startOf env hdr.max key) distance)) key count later now
      (distance + 1) := by
  have apart : ∀ earlier, earlier < distance →
      slotAt hdr.max (startOf env hdr.max key) earlier ≠
        slotAt hdr.max (startOf env hdr.max key) distance := by
    intro earlier before same
    exact Nat.ne_of_lt before (slot_at_injective (Nat.lt_trans before inside) inside same)
  constructor
  · intro earlier before
    rw [mark_max]
    rcases Nat.lt_succ_iff_lt_or_eq.mp before with visited | last
    · rw [mark_table_of_ne (apart earlier visited)]
      exact scanned.past earlier visited
    · rw [last]
      exact ne_of_moved valid (unmoved_mark_self ..)
  · intro few earlier before
    rw [mark_max]
    rcases Nat.lt_succ_iff_lt_or_eq.mp before with visited | last
    · rw [unmoved_mark_of_ne (apart earlier visited)]
      exact scanned.swept (Nat.lt_of_le_of_lt more few) earlier visited
    · rw [last]
      exact unmoved_mark_self ..
  · intro found
    rw [mark_max, owner_at_mark]
    rcases sure found with before | here
    · obtain ⟨earlier, visited, stop⟩ := scanned.sure before
      exact ⟨earlier, Nat.lt_succ_of_lt visited, stop⟩
    · exact ⟨distance, Nat.lt_succ_self _, here⟩

/-- Once the loop is sure, the key is not in the part it has not visited. -/
theorem Scanned.absent (scanned : Scanned env hdr key count retval true distance)
    (sound : Sound env hdr) (valid : Key key) :
    ∀ slot, slot < hdr.max → (hdr.table slot).key ≠ key := by
  intro slot inside present
  have owner := Sound.owner_unmoved valid present
  obtain ⟨further, near, same⟩ := slot_at_surjective (startOf env hdr.max key) inside
  subst same
  have beyond : distance ≤ further := by
    by_contra before
    exact scanned.past further (Nat.not_le.mp before) present
  obtain ⟨earlier, visited, stop⟩ := scanned.sure rfl
  have before := Nat.lt_of_lt_of_le visited beyond
  rcases stop with empty | holding
  · exact sound.placed.gapless key further earlier near before owner empty
  · have equal := sound.placed.unique _ _ key
      (slot_at_lt sound.positive _ earlier) (slot_at_lt sound.positive _ further) holding owner
    exact Nat.ne_of_lt before (slot_at_injective (Nat.lt_trans before near) near equal)

theorem Scanned.round (scanned : Scanned env hdr key count retval success hdr.max) :
    (∀ slot, slot < hdr.max → (hdr.table slot).key ≠ key) ∧
      (retval < count → ∀ slot, slot < hdr.max → unmoved hdr slot = false) := by
  constructor
  · intro slot inside
    obtain ⟨further, near, same⟩ := slot_at_surjective (startOf env hdr.max key) inside
    subst same
    exact scanned.past further near
  · intro few slot inside
    obtain ⟨further, near, same⟩ := slot_at_surjective (startOf env hdr.max key) inside
    subst same
    exact scanned.swept few further near

structure Assimilated (env : Env) (after : Lfht) (cur old : HdrPtr) (bound : Bindings)
    (key : Word) (count spare max retval : Nat) : Prop where
  migrating : Migrating env after cur old bound (spare + retval)
  size : (after.hdr old).max = max
  gone : ∀ slot, slot < (after.hdr old).max → ((after.hdr old).table slot).key ≠ key
  swept : retval < count → ∀ slot, slot < (after.hdr old).max →
    unmoved (after.hdr old) slot = false

def ends (word key : Word) : Bool := word = 0 || word = setAssimilated key

def takes (word key : Word) : Bool := !ends word key && word = key

/-- The loop of `assimilate`, by an invariant of its rounds: what a round that visits the
slot does, what a round that leaves it alone does, and where the loop may stop. -/
theorem assimilate_loop_ensures {max : Nat} (power : ∃ bits, bits ≤ 31 ∧ max = 2 ^ bits)
    (inside : slot < max) (key : Word) (count : Nat)
    (invariant : Nat → Lfht → Nat → Bool → Prop) (post : Nat → Lfht → Prop)
    (allowed : Fault → Prop)
    (visits : ∀ distance ht retval success, distance < max →
      invariant distance ht retval success →
        Ensures (fun result => invariant (distance + 1) result.2 result.1 (success ||
            ends ((ht.hdr old).table (slotAt max slot distance)).key key ||
            takes ((ht.hdr old).table (slotAt max slot distance)).key key)) allowed
          (assimilateEntry env old (slotAt max slot distance) ht retval))
    (passes : ∀ distance ht retval success, distance < max → count ≤ retval →
      takes ((ht.hdr old).table (slotAt max slot distance)).key key = false →
        invariant distance ht retval success →
          invariant (distance + 1) ht retval (success ||
            ends ((ht.hdr old).table (slotAt max slot distance)).key key))
    (stops : ∀ distance ht retval, count ≤ retval → invariant distance ht retval true →
      post retval ht)
    (round : ∀ ht retval success, invariant max ht retval success → post retval ht) :
    ∀ fuel distance ht retval success, 0 < fuel → distance + fuel = max →
      invariant distance ht retval success →
        Ensures (fun result => post result.1 result.2) allowed
          (assimilateLoop env old (max - 1) slot key count fuel (slotAt max slot distance) ht
            retval success) := by
  intro fuel
  induction fuel with
  | zero =>
      intro distance ht retval success positive
      cases positive
  | succ fuel ih =>
      intro distance ht retval success _ total holds
      have near : distance < max := by omega
      have onward : ∀ later state now, invariant (distance + 1) state later now →
          Ensures (fun result => post result.1 result.2) allowed
            (if (slotAt max slot distance + 1) &&& (max - 1) = slot then Except.ok (later, state)
              else assimilateLoop env old (max - 1) slot key count fuel
                ((slotAt max slot distance + 1) &&& (max - 1)) state later now) := by
        intro later state now next
        rw [and_mask power, slot_at_succ]
        cases fuel with
        | zero =>
            have whole : distance + 1 = max := by omega
            have back : slotAt max slot (distance + 1) = slot := by
              rw [whole, slotAt, Nat.add_mod_right, Nat.mod_eq_of_lt inside]
            rw [if_pos back]
            exact round state later now (whole ▸ next)
        | succ fuel =>
            have away : slotAt max slot (distance + 1) ≠ slot := by
              intro same
              have back := slot_at_injective (by omega : distance + 1 < max)
                (Nat.zero_lt_of_lt near) (same.trans (slot_at_zero inside).symm)
              omega
            rw [if_neg away]
            exact ih (distance + 1) state later now (Nat.succ_pos fuel) (by omega) next
      obtain ⟨word, read⟩ : ∃ word,
        ((ht.hdr old).table (slotAt max slot distance)).key = word := ⟨_, rfl⟩
      rw [assimilateLoop]
      simp only [read]
      have ended : (decide (word = 0) || decide (word = setAssimilated key)) = ends word key := rfl
      rw [ended]
      have taken : (!ends word key && decide (word = key)) = takes word key := rfl
      rw [taken]
      by_cases visit : (takes word key || decide (retval < count)) = true
      · have visited := visits distance ht retval success near holds
        rw [read] at visited
        simp only [visit, Bool.not_true, Bool.false_and, Bool.false_eq_true, if_false, if_true]
        apply visited.bind
        intro result next
        exact onward result.1 result.2 _ next
      · rw [Bool.not_eq_true, Bool.or_eq_false_iff, decide_eq_false_iff_not, Nat.not_lt] at visit
        obtain ⟨left, enough⟩ := visit
        have next := passes distance ht retval success near enough (read.symm ▸ left) holds
        rw [read] at next
        have few : decide (retval < count) = false :=
          decide_eq_false_iff_not.mpr (Nat.not_lt.mpr enough)
        simp only [left, few, enough, Bool.or_false, Bool.not_false, Bool.true_and, decide_true,
          Bool.and_true, Bool.false_eq_true, if_false, ok_bind]
        cases now : success || ends word key with
        | true =>
            rw [now] at next
            exact stops (distance + 1) ht retval enough next
        | false =>
            rw [now] at next
            exact onward retval ht false next

theorem assimilate_ensures (power : ∃ bits, bits ≤ 31 ∧ (ht.hdr old).max = 2 ^ bits)
    (unfinished : (ht.hdr old).assimilated = false) (key : Word) (count : Nat)
    (invariant : Nat → Lfht → Nat → Bool → Prop) (post : Nat → Lfht → Prop)
    (allowed : Fault → Prop)
    (visits : ∀ distance state retval success, distance < (ht.hdr old).max →
      invariant distance state retval success →
        Ensures (fun result => invariant (distance + 1) result.2 result.1 (success ||
            ends ((state.hdr old).table (slotAt (ht.hdr old).max
              (startOf env (ht.hdr old).max key) distance)).key key ||
            takes ((state.hdr old).table (slotAt (ht.hdr old).max
              (startOf env (ht.hdr old).max key) distance)).key key)) allowed
          (assimilateEntry env old (slotAt (ht.hdr old).max (startOf env (ht.hdr old).max key)
            distance) state retval))
    (passes : ∀ distance state retval success, distance < (ht.hdr old).max → count ≤ retval →
      takes ((state.hdr old).table (slotAt (ht.hdr old).max (startOf env (ht.hdr old).max key)
          distance)).key key = false →
        invariant distance state retval success →
          invariant (distance + 1) state retval (success ||
            ends ((state.hdr old).table (slotAt (ht.hdr old).max
              (startOf env (ht.hdr old).max key) distance)).key key))
    (stops : ∀ distance state retval, count ≤ retval → invariant distance state retval true →
      post retval state)
    (round : ∀ state retval success, invariant (ht.hdr old).max state retval success →
      post retval state)
    (starts : invariant 0 ht 0 false) :
    Ensures (fun result => post result.1 result.2) allowed (assimilate env ht old key count) := by
  have positive : 0 < (ht.hdr old).max := by
    obtain ⟨bits, _, size⟩ := power
    rw [size]
    exact Nat.two_pow_pos bits
  have inside : startOf env (ht.hdr old).max key < (ht.hdr old).max := Nat.mod_lt _ positive
  have ran := assimilate_loop_ensures power inside key count invariant post allowed visits passes
    stops round (ht.hdr old).max 0 ht 0 false positive (Nat.zero_add _) starts
  rw [slot_at_zero inside] at ran
  simp only [assimilate, unfinished, if_neg Bool.false_ne_true, and_mask power]
  exact ran

theorem sure_of_round (valid : Key key) {now : Bool}
    (found : (now || ends (hdr.table slot).key key || takes (hdr.table slot).key key) = true) :
    now = true ∨ ownerAt hdr slot = none ∨ ownerAt hdr slot = some key := by
  simp only [takes, ends, Bool.or_eq_true, Bool.and_eq_true, decide_eq_true_eq] at found
  rcases found with (before | empty | marked) | present
  · exact Or.inl before
  · exact Or.inr (owner_of_stop valid (Or.inl empty))
  · exact Or.inr (owner_of_stop valid (Or.inr (Or.inl marked)))
  · exact Or.inr (owner_of_stop valid (Or.inr (Or.inr present.2)))

theorem takes_key (valid : Key key) : takes key key = true := by
  have nonzero : key ≠ 0 := Nat.ne_of_gt valid.positive
  simp [takes, ends, nonzero, set_assimilated valid.aligned]

structure Rounds (env : Env) (cur old : HdrPtr) (bound : Bindings) (key : Word)
    (count spare max distance : Nat) (ht : Lfht) (retval : Nat) (success : Bool) : Prop where
  size : (ht.hdr old).max = max
  migrating : Migrating env ht cur old bound (spare + retval)
  scanned : Scanned env (ht.hdr old) key count retval success distance

theorem Rounds.visit {max : Nat} (valid : Key key) (inside : distance < max)
    (rounds : Rounds env cur old bound key count spare max distance ht retval success) :
    ∃ moved after, assimilateEntry env old (slotAt max (startOf env max key) distance) ht retval =
        .ok (retval + moved, after) ∧
      Rounds env cur old bound key count spare max (distance + 1) after (retval + moved)
        (success ||
          ends ((ht.hdr old).table (slotAt max (startOf env max key) distance)).key key ||
          takes ((ht.hdr old).table (slotAt max (startOf env max key) distance)).key key) := by
  obtain ⟨size, migrating, scanned⟩ := rounds
  subst size
  obtain ⟨moved, after, visited, _, advanced, oldHdr⟩ :=
    migrating.entry (slot_at_lt migrating.sound.positive _ distance) retval
  refine ⟨moved, after, visited, ?_, ?_, ?_⟩
  · rw [oldHdr, mark_max]
  · rw [← Nat.add_assoc]
    exact advanced
  · rw [oldHdr]
    exact scanned.mark valid inside (Nat.le_add_right ..) (sure_of_round valid)

theorem Rounds.pass {max : Nat} (valid : Key key) (enough : count ≤ retval)
    (left : takes ((ht.hdr old).table (slotAt max (startOf env max key) distance)).key key = false)
    (rounds : Rounds env cur old bound key count spare max distance ht retval success) :
    Rounds env cur old bound key count spare max (distance + 1) ht retval (success ||
      ends ((ht.hdr old).table (slotAt max (startOf env max key) distance)).key key) := by
  obtain ⟨size, migrating, scanned⟩ := rounds
  subst size
  refine ⟨rfl, migrating, scanned.skip enough ?_ ?_⟩
  · intro same
    rw [same, takes_key valid] at left
    cases left
  · intro found
    apply sure_of_round valid
    rw [left, Bool.or_false]
    exact found

theorem Migrating.assimilate (migrating : Migrating env ht cur old bound spare) (valid : Key key)
    (count : Nat) :
    ∃ moved after, assimilate env ht old key count = .ok (moved, after) ∧
      Assimilated env after cur old bound key count spare (ht.hdr old).max moved := by
  have ran : Ensures (fun result =>
        Assimilated env result.2 cur old bound key count spare (ht.hdr old).max result.1)
      (fun _ => False) (LockFreeTable.assimilate env ht old key count) := by
    apply assimilate_ensures migrating.sound.power migrating.unfinished key count
      (Rounds env cur old bound key count spare (ht.hdr old).max)
      (fun moved after =>
        Assimilated env after cur old bound key count spare (ht.hdr old).max moved)
    · intro distance state retval success inside rounds
      obtain ⟨moved, after, visited, next⟩ := rounds.visit valid inside
      exact ensures_of_ok visited next
    · intro distance state retval success inside enough left rounds
      exact rounds.pass valid enough left
    · intro distance state retval enough rounds
      exact ⟨rounds.migrating, rounds.size,
        rounds.scanned.absent rounds.migrating.sound valid,
        fun few => absurd enough (Nat.not_le.mpr few)⟩
    · intro state retval success rounds
      obtain ⟨size, migrating, scanned⟩ := rounds
      rw [← size] at scanned ⊢
      exact ⟨migrating, rfl, scanned.round.1, scanned.round.2⟩
    · exact ⟨rfl, migrating, Scanned.start env _ key count⟩
  obtain ⟨⟨moved, after⟩, returned, done⟩ := ran.returns fun _ impossible => impossible
  exact ⟨moved, after, returned, done⟩

end SriGlibcMalloc.LockFreeTable
