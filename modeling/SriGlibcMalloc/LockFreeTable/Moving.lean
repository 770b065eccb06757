import SriGlibcMalloc.LockFreeTable.Sequential

/-!
# Moving out of a table that is fuller than it should be

When `mmap` fails a table is filled beyond its threshold, up to its last slot, before it
grows. The moves are then paid for by the live bindings it had when it grew: the budget.
Nothing is said of the answers here, so that a key need not even be aligned.
-/

namespace SriGlibcMalloc.LockFreeTable

open OpenAddressing Outcome

set_option autoImplicit false

def Emptied (hdr : Hdr) : Prop := ∀ slot, slot < hdr.max → unmoved hdr slot = false

/-- An expansion that a budget pays for: three units for a slot of the new table, and one
that is left over for each binding that is moved. -/
structure Moving (env : Env) (ht : Lfht) (cur old : HdrPtr) (budget spare : Nat) : Prop where
  state : ht.state = .expanding
  installed : ht.tableHdr = cur
  link : (ht.hdr cur).next = some old
  apart : old ≠ cur
  allocated : cur < ht.mmapCalls ∧ old < ht.mmapCalls
  unfinished : (ht.hdr old).assimilated = false
  power : ∃ bits, bits ≤ 31 ∧ (ht.hdr old).max = 2 ^ bits
  current : Current env (ht.hdr cur)
  paid : 3 * (ht.hdr cur).count + 4 * tally (ht.hdr old).max (owed (ht.hdr old)) + spare ≤
    4 * budget
  roomy : budget + budget / 3 ≤ (ht.hdr cur).threshold ∨ maxTableSize ≤ (ht.hdr cur).max
  tidy : ∀ ptr, ptr ≠ cur → ptr ≠ old → Emptied (ht.hdr ptr)

/-- No expansion is in progress, however full the table is. -/
structure Idle (env : Env) (ht : Lfht) : Prop where
  state : ht.state ≠ .expanding
  allocated : ht.tableHdr < ht.mmapCalls
  finished : ∀ predecessor, (ht.hdr ht.tableHdr).next = some predecessor →
    predecessor < ht.mmapCalls ∧ (ht.hdr predecessor).assimilated = true
  current : Current env (ht.hdr ht.tableHdr)
  tidy : ∀ ptr, ptr ≠ ht.tableHdr → Emptied (ht.hdr ptr)

/-- The table between two calls, with what has been paid beyond need. -/
inductive Ordered (env : Env) (ht : Lfht) (spare : Nat) : Prop
  | idle (idle : Idle env ht)
  | moving (old : HdrPtr) (budget : Nat) (moving : Moving env ht ht.tableHdr old budget spare)

variable {env : Env} {ht : Lfht} {hdr next : Hdr} {cur old : HdrPtr} {key val : Word}
variable {slot budget spare count retval distance : Nat} {success : Bool}

/-- The table in use after one of its slots has been written, or none. -/
structure Stored (env : Env) (hdr next : Hdr) : Prop where
  current : Current env next
  link : next.next = hdr.next
  size : next.max = hdr.max

theorem Stored.threshold (stored : Stored env hdr next) (current : Current env hdr) :
    next.threshold = hdr.threshold := by
  rw [stored.current.cut, stored.size, current.cut]

theorem set_hdr_self (ht : Lfht) (ptr : HdrPtr) : ht.setHdr ptr (ht.hdr ptr) = ht := by
  rw [Lfht.setHdr, Function.update_eq_self]

/-- The call inserts a new key, and asks for a larger table above the threshold. -/
structure Inserted (env : Env) (ht : Lfht) (hdr next : Hdr) (key val : Word) : Prop
    extends Stored env hdr next where
  counted : next.count = hdr.count + 1
  live : tally next.max (owed next) = tally hdr.max (owed hdr) + 1
  probed : ∃ slot, probeHdr env hdr key = .ok (some slot) ∧ (hdr.table slot).key = 0
  ran : addAttempt env key val ht =
    if hdr.threshold < hdr.count + 1 then do
      let (_, grown) ← growTable env (ht.setHdr ht.tableHdr next) ht.tableHdr
      .ok (true, grown)
    else .ok (true, ht.setHdr ht.tableHdr next)

theorem add_attempt_inserts (inUse : ht.hdr ht.tableHdr = hdr) (current : Current env hdr)
    (valid : Key key) (live : val ≠ tombstone) (inside : slot < hdr.max)
    (found : search hdr.max (startOf env hdr.max) (ownerAt hdr) key = some slot)
    (empty : (hdr.table slot).key = 0) :
    Inserted env ht hdr (hdr.bindNew slot key val) key val where
  current := current.bind_new valid val found empty inside
  link := rfl
  size := rfl
  counted := current.count_exact
  live := by
    apply tally_gain inside
    · simp [owed, unmoved, occupied, empty]
    · have here : (hdr.bindNew slot key val).table slot = ⟨key, val⟩ := Function.update_self ..
      have held : unmoved (hdr.bindNew slot key val) slot = true := by
        rw [unmoved_iff, here]
        exact ⟨Nat.ne_of_gt valid.positive, valid.aligned⟩
      rw [owed, held, here]
      simp [live]
    · intro other different
      simp [owed, unmoved, occupied, Hdr.bindNew, Function.update_of_ne different]
  probed := ⟨slot, by rw [current.probe valid, found], empty⟩
  ran := add_attempt_new inUse current valid found empty

theorem add_attempt_cases (inUse : ht.hdr ht.tableHdr = hdr) (current : Current env hdr)
    (valid : Key key) (live : val ≠ tombstone) :
    (∃ next, Inserted env ht hdr next key val) ∨
      ∃ answer next, Stored env hdr next ∧ next.count = hdr.count ∧
        addAttempt env key val ht = .ok (answer, ht.setHdr ht.tableHdr next) := by
  cases found : search hdr.max (startOf env hdr.max) (ownerAt hdr) key with
  | none =>
      right
      refine ⟨false, hdr, ⟨current, rfl, rfl⟩, rfl, ?_⟩
      subst inUse
      rw [addAttempt, current.probe valid, found, set_hdr_self]
      rfl
  | some slot =>
      obtain ⟨distance, _, same, stops, _⟩ := search_cases found
      have inside : slot < hdr.max := same ▸ slot_at_lt current.positive _ distance
      rcases stops with free | holding
      · left
        exact ⟨_, add_attempt_inserts inUse current valid live inside found (owner_at_none.mp free)⟩
      · right
        have present := (current.owner_iff valid inside).mp holding
        exact ⟨true, hdr.setEntry slot ⟨key, val⟩, ⟨current.set_val valid present val, rfl, rfl⟩, rfl,
          add_attempt_present inUse current valid inside present⟩

theorem grow_table_largest (large : maxTableSize ≤ (ht.hdr ht.tableHdr).max) :
    growTable env ht ht.tableHdr = .ok (false, ht) := by
  rw [growTable]
  simp only [ne_eq, not_true_eq_false, if_false, if_neg (Nat.not_lt.mpr large)]

theorem Moving.replace (moving : Moving env ht cur old budget spare) {marked : Hdr} {later : Nat}
    (stored : Stored env (ht.hdr cur) next) (size : marked.max = (ht.hdr old).max)
    (unfinished : marked.assimilated = false)
    (paid : 3 * next.count + 4 * tally marked.max (owed marked) + later ≤ 4 * budget) :
    Moving env ((ht.setHdr old marked).setHdr cur next) cur old budget later := by
  have inUse : ((ht.setHdr old marked).setHdr cur next).hdr cur = next := hdr_set_hdr ..
  have oldHdr : ((ht.setHdr old marked).setHdr cur next).hdr old = marked := by
    rw [hdr_set_hdr_of_ne moving.apart, hdr_set_hdr]
  constructor
  case state => exact moving.state
  case installed => exact moving.installed
  case link => exact (congrArg Hdr.next inUse).trans (stored.link.trans moving.link)
  case apart => exact moving.apart
  case allocated => exact moving.allocated
  case unfinished => exact (congrArg Hdr.assimilated oldHdr).trans unfinished
  case power =>
      rw [oldHdr, size]
      exact moving.power
  case current =>
      rw [inUse]
      exact stored.current
  case paid =>
      rw [inUse, oldHdr]
      exact paid
  case roomy =>
      rw [inUse, stored.threshold moving.current, stored.size]
      exact moving.roomy
  case tidy =>
      intro ptr notCur notOld
      rw [hdr_set_hdr_of_ne notCur, hdr_set_hdr_of_ne notOld]
      exact moving.tidy ptr notCur notOld

theorem Moving.no_growth (moving : Moving env ht cur old budget spare)
    (inserted : Stored env hdr (ht.hdr cur)) (current : Current env hdr)
    (counted : (ht.hdr cur).count = hdr.count + 1) :
    (if hdr.threshold < hdr.count + 1 then do
        let (_, grown) ← growTable env ht cur
        .ok (true, grown)
      else .ok (true, ht)) = (.ok (true, ht) : Exec (Bool × Lfht)) := by
  have installed := moving.installed
  subst installed
  have paid := moving.paid
  have same := inserted.threshold current
  rcases moving.roomy with below | large
  · rw [if_neg (by omega)]
  · rw [grow_table_largest large]
    split <;> rfl

theorem Moving.move (moving : Moving env ht cur old budget spare)
    (inside : slot < (ht.hdr old).max) (held : unmoved (ht.hdr old) slot = true)
    (live : ((ht.hdr old).table slot).val ≠ tombstone) :
    ∃ answer after, internalAdd env (ht.setHdr old ((ht.hdr old).mark slot))
        ((ht.hdr old).table slot).key ((ht.hdr old).table slot).val = .ok (answer, after) ∧
      Moving env after cur old budget (spare + 1) ∧ after.hdr old = (ht.hdr old).mark slot := by
  have installed := moving.installed
  subst installed
  have valid := key_of_unmoved held
  have owing := tally_owed_mark_live held inside live
  have unfinished : ((ht.hdr old).mark slot).assimilated = false :=
    (mark_assimilated _ _).trans moving.unfinished
  have paid := moving.paid
  have inUse : (ht.setHdr old ((ht.hdr old).mark slot)).hdr
      (ht.setHdr old ((ht.hdr old).mark slot)).tableHdr = ht.hdr ht.tableHdr :=
    hdr_set_hdr_of_ne moving.apart.symm
  have kept (next : Hdr) : ((ht.setHdr old ((ht.hdr old).mark slot)).setHdr ht.tableHdr next).hdr
      old = (ht.hdr old).mark slot := by
    rw [hdr_set_hdr_of_ne moving.apart, hdr_set_hdr]
  rw [internalAdd, check_binding valid live, ok_bind]
  rcases add_attempt_cases inUse moving.current valid live with
    ⟨next, inserted⟩ | ⟨answer, next, stored, counted, ran⟩
  · have moved : Moving env ((ht.setHdr old ((ht.hdr old).mark slot)).setHdr ht.tableHdr next)
        ht.tableHdr old budget (spare + 1) := by
      apply moving.replace inserted.toStored (mark_max _ _) unfinished
      rw [inserted.counted, mark_max]
      omega
    refine ⟨true, _, inserted.ran.trans (moved.no_growth ?_ moving.current ?_), moved, kept next⟩
    · rw [hdr_set_hdr]
      exact inserted.toStored
    · rw [hdr_set_hdr]
      exact inserted.counted
  · refine ⟨answer, _, ran, ?_, kept next⟩
    apply moving.replace stored (mark_max _ _) unfinished
    rw [counted, mark_max]
    omega

theorem Moving.mark (moving : Moving env ht cur old budget spare) (slot : Nat) :
    Moving env (ht.setHdr old ((ht.hdr old).mark slot)) cur old budget spare := by
  have fewer := tally_owed_mark_le (ht.hdr old) slot
  have paid := moving.paid
  have marked : Moving env ((ht.setHdr old ((ht.hdr old).mark slot)).setHdr cur (ht.hdr cur)) cur
      old budget spare := by
    apply moving.replace ⟨moving.current, rfl, rfl⟩ (mark_max _ _)
    · exact (mark_assimilated _ _).trans moving.unfinished
    · rw [mark_max]
      omega
  have same : ht.hdr cur = (ht.setHdr old ((ht.hdr old).mark slot)).hdr cur :=
    (hdr_set_hdr_of_ne moving.apart.symm).symm
  rwa [same, set_hdr_self] at marked

theorem Moving.entry (moving : Moving env ht cur old budget spare)
    (inside : slot < (ht.hdr old).max) (retval : Nat) :
    ∃ moved after, assimilateEntry env old slot ht retval = .ok (retval + moved, after) ∧
      Moving env after cur old budget (spare + moved) ∧
      after.hdr old = (ht.hdr old).mark slot := by
  rw [assimilate_entry_eq]
  cases held : unmoved (ht.hdr old) slot with
  | false =>
      refine ⟨0, ht, rfl, moving, ?_⟩
      rw [Hdr.mark, held, if_neg Bool.false_ne_true]
  | true =>
      rw [if_pos rfl]
      by_cases dead : ((ht.hdr old).table slot).val = tombstone
      · rw [if_pos dead]
        exact ⟨0, _, rfl, moving.mark slot, hdr_set_hdr ..⟩
      · obtain ⟨answer, after, added, moved, oldHdr⟩ := moving.move inside held dead
        rw [if_neg dead, added]
        exact ⟨1, after, rfl, moved, oldHdr⟩

theorem swept_mark {start max : Nat}
    (swept : ∀ earlier, earlier < distance → unmoved hdr (slotAt max start earlier) = false) :
    ∀ earlier, earlier < distance + 1 →
      unmoved (hdr.mark (slotAt max start distance)) (slotAt max start earlier) = false := by
  intro earlier before
  by_cases same : slotAt max start earlier = slotAt max start distance
  · rw [same]
    exact unmoved_mark_self ..
  · rw [unmoved_mark_of_ne same]
    apply swept
    apply Nat.lt_of_le_of_ne (Nat.le_of_lt_succ before)
    intro equal
    exact same (congrArg _ equal)

/-- The state between two rounds: until enough is moved, all visited slots are done with. -/
structure Sweeping (env : Env) (cur old : HdrPtr) (budget spare start max count distance : Nat)
    (ht : Lfht) (retval : Nat) : Prop where
  size : (ht.hdr old).max = max
  moving : Moving env ht cur old budget (spare + retval)
  swept : retval < count → ∀ earlier, earlier < distance →
    unmoved (ht.hdr old) (slotAt max start earlier) = false

theorem Sweeping.visit {start max : Nat} (inside : distance < max)
    (sweeping : Sweeping env cur old budget spare start max count distance ht retval) :
    ∃ moved after, assimilateEntry env old (slotAt max start distance) ht retval =
        .ok (retval + moved, after) ∧
      Sweeping env cur old budget spare start max count (distance + 1) after (retval + moved) := by
  obtain ⟨size, moving, swept⟩ := sweeping
  have near : slotAt max start distance < (ht.hdr old).max := by
    rw [size]
    exact slot_at_lt (Nat.zero_lt_of_lt inside) start distance
  obtain ⟨moved, after, visited, advanced, oldHdr⟩ := moving.entry near retval
  refine ⟨moved, after, visited, ?_, ?_, ?_⟩
  · rw [oldHdr, mark_max, size]
  · rw [← Nat.add_assoc]
    exact advanced
  · intro few
    rw [oldHdr]
    exact swept_mark (swept (Nat.lt_of_le_of_lt (Nat.le_add_right ..) few))

theorem Sweeping.emptied {start max : Nat}
    (sweeping : Sweeping env cur old budget spare start max count max ht retval)
    (few : retval < count) : Emptied (ht.hdr old) := by
  intro slot inside
  rw [sweeping.size] at inside
  obtain ⟨further, near, same⟩ := slot_at_surjective start inside
  rw [← same]
  exact sweeping.swept few further near

/-- What `assimilate` leaves, for any key at all. -/
theorem Moving.assimilate (moving : Moving env ht cur old budget spare) (key : Word)
    (count : Nat) :
    ∃ moved after, assimilate env ht old key count = .ok (moved, after) ∧
      Moving env after cur old budget (spare + moved) ∧
      (moved < count → Emptied (after.hdr old)) := by
  have ran : Ensures (fun result => Moving env result.2 cur old budget (spare + result.1) ∧
        (result.1 < count → Emptied (result.2.hdr old)))
      (fun _ => False) (LockFreeTable.assimilate env ht old key count) := by
    apply assimilate_ensures moving.power moving.unfinished key count
      (fun distance state retval _ => Sweeping env cur old budget spare
        (startOf env (ht.hdr old).max key) (ht.hdr old).max count distance state retval)
      (fun moved after => Moving env after cur old budget (spare + moved) ∧
        (moved < count → Emptied (after.hdr old)))
    · intro distance state retval success inside sweeping
      obtain ⟨moved, after, visited, next⟩ := sweeping.visit inside
      exact ensures_of_ok visited next
    · intro distance state retval success inside enough left sweeping
      exact ⟨sweeping.size, sweeping.moving, fun few => absurd enough (Nat.not_le.mpr few)⟩
    · intro distance state retval enough sweeping
      exact ⟨sweeping.moving, fun few => absurd enough (Nat.not_le.mpr few)⟩
    · intro state retval success sweeping
      exact ⟨sweeping.moving, sweeping.emptied⟩
    · exact ⟨rfl, moving, fun _ earlier before => absurd before (Nat.not_lt_zero earlier)⟩
  obtain ⟨⟨moved, after⟩, returned, holds⟩ := ran.returns fun _ impossible => impossible
  exact ⟨moved, after, returned, holds⟩

theorem idle_finished (installed : ht.tableHdr = cur) (link : (ht.hdr cur).next = some old)
    (apart : old ≠ cur) (allocated : cur < ht.mmapCalls ∧ old < ht.mmapCalls)
    (current : Current env (ht.hdr cur)) (emptied : Emptied (ht.hdr old))
    (tidy : ∀ ptr, ptr ≠ cur → ptr ≠ old → Emptied (ht.hdr ptr)) :
    Idle env { ht.setHdr old { ht.hdr old with assimilated := true } with state := .expanded } := by
  subst installed
  have inUse : (ht.setHdr old { ht.hdr old with assimilated := true }).hdr ht.tableHdr =
      ht.hdr ht.tableHdr := hdr_set_hdr_of_ne apart.symm
  constructor
  case state =>
      intro impossible
      cases impossible
  case allocated => exact allocated.1
  case finished =>
      intro predecessor linked
      have same : some old = some predecessor :=
        link.symm.trans ((congrArg Hdr.next inUse).symm.trans linked)
      cases same
      exact ⟨allocated.2, congrArg Hdr.assimilated (hdr_set_hdr ..)⟩
  case current => exact inUse.symm ▸ current
  case tidy =>
      intro ptr notCur
      by_cases same : ptr = old
      · subst same
        dsimp only
        rw [hdr_set_hdr]
        exact emptied
      · dsimp only
        rw [hdr_set_hdr_of_ne same]
        exact tidy ptr notCur same

theorem Moving.finish (moving : Moving env ht cur old budget spare)
    (emptied : Emptied (ht.hdr old)) :
    Idle env { ht.setHdr old { ht.hdr old with assimilated := true } with state := .expanded } :=
  idle_finished moving.installed moving.link moving.apart moving.allocated moving.current emptied
    moving.tidy

/-- The migration tax: the old table is given up, or three bindings have been moved. -/
theorem Ordered.migrate (ordered : Ordered env ht 0) (key : Word) :
    ∃ after, migrateTable env ht key = .ok after ∧ Ordered env after migrationsPerAccess := by
  cases ordered with
  | idle idle =>
      refine ⟨ht, ?_, .idle idle⟩
      rw [migrateTable, if_neg idle.state]
  | moving old budget moving =>
      obtain ⟨moved, after, ran, later, emptied⟩ := moving.assimilate key migrationsPerAccess
      by_cases few : moved < migrationsPerAccess
      · refine ⟨_, ?_, .idle (later.finish (emptied few))⟩
        simp only [migrateTable, moving.state, moving.link, ran, ok_bind, if_pos few, if_true]
        exact if_pos later.installed
      · refine ⟨after, ?_, .moving old budget ?_⟩
        · simp only [migrateTable, moving.state, moving.link, ran, ok_bind, if_neg few, if_true]
        · have paid := later.paid
          rw [later.installed]
          exact { later with paid := by omega }

end SriGlibcMalloc.LockFreeTable
