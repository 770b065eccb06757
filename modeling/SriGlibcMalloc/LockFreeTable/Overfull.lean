import SriGlibcMalloc.LockFreeTable.Moving

/-!
# The migration loop, however full the tables are

Moving a binding may ask for a larger table. While the table expands nobody may grant that:
`_grow_table` asserts that no expansion is in progress. Up to such a grant, the loop copies
every live binding that it marks, and writes nothing else to the table in use.
-/

namespace SriGlibcMalloc.LockFreeTable

open OpenAddressing Outcome

set_option autoImplicit false

/-- An expansion in progress. The new table has twice the slots of the old one, which pay for
what is stored in it: the bindings that are moved, and a third as many that are added. -/
structure Expanding (env : Env) (ht : Lfht) (cur old : HdrPtr) (spare : Nat) : Prop where
  state : ht.state = .expanding
  installed : ht.tableHdr = cur
  link : (ht.hdr cur).next = some old
  apart : old ≠ cur
  allocated : cur < ht.mmapCalls ∧ old < ht.mmapCalls
  sound : Sound env (ht.hdr old)
  unfinished : (ht.hdr old).assimilated = false
  doubled : (ht.hdr cur).max = 2 * (ht.hdr old).max
  current : Current env (ht.hdr cur)
  disjoint : ∀ slot, slot < (ht.hdr cur).max → ((ht.hdr cur).table slot).key ≠ 0 →
    ¬leftIn (ht.hdr old) ((ht.hdr cur).table slot).key
  paid : 3 * (ht.hdr cur).count + 4 * tally (ht.hdr old).max (owed (ht.hdr old)) + spare ≤
    4 * (ht.hdr old).max
  tidy : ∀ ptr, ptr ≠ cur → ptr ≠ old → Emptied (ht.hdr ptr)

/-- A new key in the table makes the call ask for a larger one. -/
def asks (hdr : Hdr) : Bool := hdr.threshold < hdr.count + 1 && hdr.max < maxTableSize

/-- How often moving bindings to the table asks for a larger one. -/
def requests (hdr : Hdr) (moved : Nat) : Nat :=
  if hdr.max < maxTableSize then min moved (hdr.count + moved - hdr.threshold) else 0

/-- What a visit of a slot may do, with the number of bindings it moves. -/
inductive Visited (env : Env) (ht : Lfht) (cur old : HdrPtr) (slot : Nat) : Nat → Lfht → Prop
  | passed (held : unmoved (ht.hdr old) slot = false) : Visited env ht cur old slot 0 ht
  | dropped (held : unmoved (ht.hdr old) slot = true)
      (dead : ((ht.hdr old).table slot).val = tombstone) :
      Visited env ht cur old slot 0 (ht.setHdr old ((ht.hdr old).mark slot))
  | moved (free : Nat) (owing : owed (ht.hdr old) slot = true)
      (inside : free < (ht.hdr cur).max) (empty : ((ht.hdr cur).table free).key = 0)
      (found : search (ht.hdr cur).max (startOf env (ht.hdr cur).max) (ownerAt (ht.hdr cur))
        ((ht.hdr old).table slot).key = some free)
      (refused : asks (ht.hdr cur) = true → env.mmap ht.mmapCalls = false) :
      Visited env ht cur old slot 1
        { (ht.setHdr old ((ht.hdr old).mark slot)).setHdr cur ((ht.hdr cur).bindNew free
            ((ht.hdr old).table slot).key ((ht.hdr old).table slot).val) with
          mmapCalls := ht.mmapCalls + requests (ht.hdr cur) 1 }

/-- The old table has been marked in places, and the table in use has got the live bindings
that were marked and nothing else. -/
structure Copied (before after : Lfht) (cur old : HdrPtr) : Prop where
  oldSize : (after.hdr old).max = (before.hdr old).max
  curSize : (after.hdr cur).max = (before.hdr cur).max
  marks : ∀ slot, (after.hdr old).table slot = (before.hdr old).table slot ∨
    unmoved (before.hdr old) slot = true ∧ (after.hdr old).table slot =
      ⟨setAssimilated ((before.hdr old).table slot).key, ((before.hdr old).table slot).val⟩
  added : ∀ slot, slot < (before.hdr old).max → owed (before.hdr old) slot = true →
    unmoved (after.hdr old) slot = false → ∃ place, place < (after.hdr cur).max ∧
      (after.hdr cur).table place = (before.hdr old).table slot
  kept : ∀ place, ((before.hdr cur).table place).key ≠ 0 →
    (after.hdr cur).table place = (before.hdr cur).table place
  fresh : ∀ place, ((before.hdr cur).table place).key = 0 →
    ((after.hdr cur).table place).key ≠ 0 → ∃ slot, slot < (before.hdr old).max ∧
      owed (before.hdr old) slot = true ∧ unmoved (after.hdr old) slot = false ∧
        (after.hdr cur).table place = (before.hdr old).table slot

/-- What the visits since `before` have done; every request for a larger table was refused. -/
structure Progress (env : Env) (before ht : Lfht) (cur old : HdrPtr) (spare moved : Nat) : Prop
    extends Copied before ht cur old where
  expanding : Expanding env ht cur old (spare + moved)
  cut : (ht.hdr cur).threshold = (before.hdr cur).threshold
  counted : (ht.hdr cur).count = (before.hdr cur).count + moved
  owing : tally (ht.hdr old).max (owed (ht.hdr old)) + moved =
    tally (before.hdr old).max (owed (before.hdr old))
  calls : ht.mmapCalls = before.mmapCalls + requests (before.hdr cur) moved
  refused : ∀ call, call < requests (before.hdr cur) moved →
    env.mmap (before.mmapCalls + call) = false

variable {env : Env} {ht after before : Lfht} {hdr next : Hdr} {cur old : HdrPtr}
variable {key val : Word} {slot spare count retval distance moved : Nat} {success : Bool}

@[simp] theorem requests_zero (hdr : Hdr) : requests hdr 0 = 0 := by
  rw [requests, Nat.zero_min, ite_self]

theorem requests_one (hdr : Hdr) : requests hdr 1 = if asks hdr then 1 else 0 := by
  by_cases small : hdr.max < maxTableSize <;> by_cases beyond : hdr.threshold < hdr.count + 1 <;>
    simp only [requests, asks, small, beyond, decide_true, decide_false, Bool.and_true,
      Bool.and_false, Bool.false_eq_true, if_true, if_false] <;> omega

theorem requests_succ (sized : next.max = hdr.max) (cut : next.threshold = hdr.threshold)
    (counted : next.count = hdr.count + moved) :
    requests hdr (moved + 1) = requests hdr moved + requests next 1 := by
  rw [requests, requests, requests, sized, cut, counted]
  split
  · omega
  · rfl

theorem requests_mono (hdr : Hdr) {fewer more : Nat} (least : fewer ≤ more) :
    requests hdr fewer ≤ requests hdr more := by
  rw [requests, requests]
  split
  · omega
  · exact Nat.le_refl 0

theorem owed_iff : owed hdr slot = true ↔
    unmoved hdr slot = true ∧ (hdr.table slot).val ≠ tombstone := by
  rw [owed, Bool.and_eq_true, decide_eq_true_eq]

theorem grow_table_expanding (state : ht.state = .expanding) :
    growTable env ht ht.tableHdr =
      if (ht.hdr ht.tableHdr).max < maxTableSize then
        if env.mmap ht.mmapCalls then .error .assertState
        else .ok (false, { ht with mmapCalls := ht.mmapCalls + 1 })
      else .ok (false, ht) := by
  by_cases small : (ht.hdr ht.tableHdr).max < maxTableSize <;>
    cases granted : env.mmap ht.mmapCalls <;>
      simp [growTable, small, granted, Lfht.setHdr, state, assert]

theorem add_attempt_expanding (state : ht.state = .expanding) (inUse : ht.hdr ht.tableHdr = hdr)
    (current : Current env hdr) (valid : Key key)
    (found : search hdr.max (startOf env hdr.max) (ownerAt hdr) key = some slot)
    (empty : (hdr.table slot).key = 0) :
    addAttempt env key val ht =
      if asks hdr && env.mmap ht.mmapCalls then .error .assertState
      else .ok (true, { ht.setHdr ht.tableHdr (hdr.bindNew slot key val) with
        mmapCalls := ht.mmapCalls + requests hdr 1 }) := by
  have stored : (ht.setHdr ht.tableHdr (hdr.bindNew slot key val)).state = .expanding := state
  have grow : growTable env (ht.setHdr ht.tableHdr (hdr.bindNew slot key val)) ht.tableHdr = _ :=
    grow_table_expanding stored
  have sized : ((ht.setHdr ht.tableHdr (hdr.bindNew slot key val)).hdr
      (ht.setHdr ht.tableHdr (hdr.bindNew slot key val)).tableHdr).max = hdr.max :=
    (congrArg Hdr.max (hdr_set_hdr ht ht.tableHdr (hdr.bindNew slot key val))).trans rfl
  rw [add_attempt_new inUse current valid found empty, requests_one, grow, sized]
  by_cases beyond : hdr.threshold < hdr.count + 1 <;> by_cases small : hdr.max < maxTableSize <;>
    cases granted : env.mmap ht.mmapCalls <;> simp [asks, beyond, small, granted, Lfht.setHdr]

theorem Expanding.room (expanding : Expanding env ht cur old spare)
    (inside : slot < (ht.hdr old).max) (owing : owed (ht.hdr old) slot = true) :
    (ht.hdr cur).count < (ht.hdr cur).max := by
  obtain ⟨held, live⟩ := owed_iff.mp owing
  have some_owed := tally_owed_mark_live held inside live
  have paid := expanding.paid
  rw [expanding.doubled]
  omega

theorem Expanding.absent (expanding : Expanding env ht cur old spare)
    (inside : slot < (ht.hdr old).max) (held : unmoved (ht.hdr old) slot = true) :
    ∀ other, other < (ht.hdr cur).max →
      ((ht.hdr cur).table other).key ≠ ((ht.hdr old).table slot).key := by
  intro other otherInside same
  apply expanding.disjoint other otherInside
  · rw [same]
    exact Nat.ne_of_gt (key_of_unmoved held).positive
  · exact ⟨slot, inside, held, same.symm⟩

/-- A live binding is inserted in the table in use, unless a larger table is granted. -/
theorem Expanding.move (expanding : Expanding env ht cur old spare)
    (inside : slot < (ht.hdr old).max) (owing : owed (ht.hdr old) slot = true) :
    Ensures (fun result => Visited env ht cur old slot 1 result.2)
      (fun _ => asks (ht.hdr cur) = true ∧ env.mmap ht.mmapCalls = true)
      (internalAdd env (ht.setHdr old ((ht.hdr old).mark slot)) ((ht.hdr old).table slot).key
        ((ht.hdr old).table slot).val) := by
  have installed := expanding.installed
  subst installed
  obtain ⟨held, live⟩ := owed_iff.mp owing
  have valid := key_of_unmoved held
  have current := expanding.current
  obtain ⟨free, freeInside, empty, found⟩ := current.search_absent valid
    (expanding.absent inside held) (expanding.room inside owing)
  have inUse : (ht.setHdr old ((ht.hdr old).mark slot)).hdr
      (ht.setHdr old ((ht.hdr old).mark slot)).tableHdr = ht.hdr ht.tableHdr :=
    hdr_set_hdr_of_ne expanding.apart.symm
  have busy : (ht.setHdr old ((ht.hdr old).mark slot)).state = .expanding := expanding.state
  have calls : (ht.setHdr old ((ht.hdr old).mark slot)).mmapCalls = ht.mmapCalls := rfl
  rw [internalAdd, check_binding valid live, ok_bind,
    add_attempt_expanding busy inUse current valid found empty, calls]
  by_cases granted : (asks (ht.hdr ht.tableHdr) && env.mmap ht.mmapCalls) = true
  · rw [if_pos granted]
    exact Bool.and_eq_true_iff.mp granted
  · rw [if_neg granted]
    apply Visited.moved free owing freeInside empty found
    intro asked
    rw [asked, Bool.true_and, Bool.not_eq_true] at granted
    exact granted

theorem Expanding.visit (expanding : Expanding env ht cur old spare)
    (inside : slot < (ht.hdr old).max) (retval : Nat) :
    Ensures (fun result => ∃ moved, result.1 = retval + moved ∧
        Visited env ht cur old slot moved result.2)
      (fun _ => owed (ht.hdr old) slot = true ∧ asks (ht.hdr cur) = true ∧
        env.mmap ht.mmapCalls = true)
      (assimilateEntry env old slot ht retval) := by
  rw [assimilate_entry_eq]
  cases held : unmoved (ht.hdr old) slot with
  | false => exact ⟨0, rfl, .passed held⟩
  | true =>
      rw [if_pos rfl]
      by_cases dead : ((ht.hdr old).table slot).val = tombstone
      · rw [if_pos dead]
        exact ⟨0, rfl, .dropped held dead⟩
      · have owing : owed (ht.hdr old) slot = true := owed_iff.mpr ⟨held, dead⟩
        rw [if_neg dead]
        apply ((expanding.move inside owing).allowing fun _ granted => ⟨owing, granted⟩).bind
        intro result visited
        exact ⟨1, rfl, visited⟩

theorem unmoved_of_mark {other : Nat} (held : unmoved (hdr.mark slot) other = true) :
    other ≠ slot ∧ unmoved hdr other = true := by
  have different : other ≠ slot := by
    intro same
    rw [same, unmoved_mark_self] at held
    cases held
  rw [unmoved_mark_of_ne different] at held
  exact ⟨different, held⟩

theorem moved_mark {other : Nat} (gone : unmoved hdr other = false) :
    unmoved (hdr.mark slot) other = false := by
  rw [Bool.eq_false_iff] at gone ⊢
  intro held
  exact gone (unmoved_of_mark held).2

theorem owed_mark_dead (dead : (hdr.table slot).val = tombstone) :
    owed (hdr.mark slot) = owed hdr := by
  funext other
  by_cases same : other = slot
  · rw [same, owed, owed, unmoved_mark_self, dead]
    simp
  · rw [owed, owed, unmoved_mark_of_ne same, mark_table_of_ne same]

theorem Copied.start (ht : Lfht) (cur old : HdrPtr) : Copied ht ht cur old where
  oldSize := rfl
  curSize := rfl
  marks := fun _ => Or.inl rfl
  added := by
    intro slot inside owing gone
    rw [(owed_iff.mp owing).1] at gone
    cases gone
  kept := fun _ _ => rfl
  fresh := by
    intro place empty occupies
    exact absurd empty occupies

theorem Copied.untouched (copied : Copied before ht cur old)
    (held : unmoved (ht.hdr old) slot = true) :
    (ht.hdr old).table slot = (before.hdr old).table slot := by
  rcases copied.marks slot with same | ⟨unmovedBefore, marked⟩
  · exact same
  · have valid := key_of_unmoved unmovedBefore
    have aligned := (unmoved_iff.mp held).2
    rw [marked, set_assimilated valid.aligned, Nat.add_mod, valid.aligned] at aligned
    cases aligned

theorem Copied.unmoved_before (copied : Copied before ht cur old)
    (held : unmoved (ht.hdr old) slot = true) : unmoved (before.hdr old) slot = true := by
  have same := copied.untouched held
  rw [unmoved_iff, same] at held
  exact unmoved_iff.mpr held

theorem Copied.mark (copied : Copied before ht cur old) (slot other : Nat) :
    ((ht.hdr old).mark slot).table other = (before.hdr old).table other ∨
      unmoved (before.hdr old) other = true ∧ ((ht.hdr old).mark slot).table other =
        ⟨setAssimilated ((before.hdr old).table other).key,
          ((before.hdr old).table other).val⟩ := by
  by_cases same : other = slot
  · subst same
    cases held : unmoved (ht.hdr old) other with
    | false =>
        rw [Hdr.mark, held, if_neg Bool.false_ne_true]
        exact copied.marks other
    | true =>
        right
        refine ⟨copied.unmoved_before held, ?_⟩
        rw [Hdr.mark, if_pos held, ← copied.untouched held]
        exact Function.update_self ..
  · rw [mark_table_of_ne same]
    exact copied.marks other

theorem Copied.drop (copied : Copied before ht cur old)
    (held : unmoved (ht.hdr old) slot = true) (dead : ((ht.hdr old).table slot).val = tombstone)
    (oldHdr : after.hdr old = (ht.hdr old).mark slot) (curHdr : after.hdr cur = ht.hdr cur) :
    Copied before after cur old where
  oldSize := by rw [oldHdr, mark_max, copied.oldSize]
  curSize := by rw [curHdr, copied.curSize]
  marks := by
    rw [oldHdr]
    exact copied.mark slot
  added := by
    rw [oldHdr, curHdr]
    intro other inside owing gone
    have different : other ≠ slot := by
      intro same
      rw [same, owed_iff, ← copied.untouched held] at owing
      exact owing.2 dead
    rw [unmoved_mark_of_ne different] at gone
    exact copied.added other inside owing gone
  kept := by
    rw [curHdr]
    exact copied.kept
  fresh := by
    rw [oldHdr, curHdr]
    intro place empty occupies
    obtain ⟨other, inside, owing, gone, same⟩ := copied.fresh place empty occupies
    exact ⟨other, inside, owing, moved_mark gone, same⟩

theorem Copied.move (copied : Copied before ht cur old) {free : Nat}
    (inside : slot < (ht.hdr old).max) (owing : owed (ht.hdr old) slot = true)
    (freeInside : free < (ht.hdr cur).max) (empty : ((ht.hdr cur).table free).key = 0)
    (oldHdr : after.hdr old = (ht.hdr old).mark slot)
    (curHdr : after.hdr cur = (ht.hdr cur).bindNew free ((ht.hdr old).table slot).key
      ((ht.hdr old).table slot).val) :
    Copied before after cur old := by
  have held := (owed_iff.mp owing).1
  have untouched := copied.untouched held
  have here : (after.hdr cur).table free = (before.hdr old).table slot := by
    rw [curHdr, ← untouched]
    exact Function.update_self ..
  have elsewhere : ∀ place, place ≠ free →
      (after.hdr cur).table place = (ht.hdr cur).table place := by
    intro place different
    rw [curHdr]
    exact Function.update_of_ne different ..
  have size : (after.hdr cur).max = (ht.hdr cur).max := by
    rw [curHdr]
    rfl
  constructor
  case oldSize => rw [oldHdr, mark_max, copied.oldSize]
  case curSize => rw [size, copied.curSize]
  case marks =>
      rw [oldHdr]
      exact copied.mark slot
  case added =>
      intro other otherInside otherOwing gone
      by_cases same : other = slot
      · rw [same, size]
        exact ⟨free, freeInside, here⟩
      · rw [oldHdr, unmoved_mark_of_ne same] at gone
        obtain ⟨place, placeInside, stored⟩ := copied.added other otherInside otherOwing gone
        have apart : place ≠ free := by
          intro equal
          have occupies := (unmoved_iff.mp (owed_iff.mp otherOwing).1).1
          rw [← stored, equal] at occupies
          exact occupies empty
        rw [size]
        exact ⟨place, placeInside, (elsewhere place apart).trans stored⟩
  case kept =>
      intro place occupies
      have apart : place ≠ free := by
        intro equal
        have same := copied.kept place occupies
        rw [equal] at same
        rw [equal, ← same] at occupies
        exact occupies empty
      rw [elsewhere place apart]
      exact copied.kept place occupies
  case fresh =>
      intro place clear occupies
      by_cases equal : place = free
      · refine ⟨slot, copied.oldSize ▸ inside, ?_, ?_, equal ▸ here⟩
        · rw [owed_iff, ← untouched]
          exact ⟨copied.unmoved_before held, (owed_iff.mp owing).2⟩
        · rw [oldHdr]
          exact unmoved_mark_self ..
      · rw [elsewhere place equal] at occupies
        obtain ⟨other, otherInside, otherOwing, gone, same⟩ := copied.fresh place clear occupies
        refine ⟨other, otherInside, otherOwing, ?_, (elsewhere place equal).trans same⟩
        rw [oldHdr]
        exact moved_mark gone

theorem Expanding.replace (expanding : Expanding env ht cur old spare) {marked : Hdr}
    {calls later : Nat} (stored : Stored env (ht.hdr cur) next) (sound : Sound env marked)
    (size : marked.max = (ht.hdr old).max) (unfinished : marked.assimilated = false)
    (disjoint : ∀ slot, slot < next.max → (next.table slot).key ≠ 0 →
      ¬leftIn marked (next.table slot).key)
    (paid : 3 * next.count + 4 * tally marked.max (owed marked) + later ≤ 4 * marked.max)
    (more : ht.mmapCalls ≤ calls) :
    Expanding env { (ht.setHdr old marked).setHdr cur next with mmapCalls := calls } cur old
      later := by
  have inUse : ((ht.setHdr old marked).setHdr cur next).hdr cur = next := hdr_set_hdr ..
  have oldHdr : ((ht.setHdr old marked).setHdr cur next).hdr old = marked := by
    rw [hdr_set_hdr_of_ne expanding.apart, hdr_set_hdr]
  constructor
  case state => exact expanding.state
  case installed => exact expanding.installed
  case link => exact (congrArg Hdr.next inUse).trans (stored.link.trans expanding.link)
  case apart => exact expanding.apart
  case allocated =>
      exact ⟨Nat.lt_of_lt_of_le expanding.allocated.1 more,
        Nat.lt_of_lt_of_le expanding.allocated.2 more⟩
  case sound => exact oldHdr.symm ▸ sound
  case unfinished => exact (congrArg Hdr.assimilated oldHdr).trans unfinished
  case doubled =>
      dsimp only
      rw [inUse, oldHdr, stored.size, size]
      exact expanding.doubled
  case current => exact inUse.symm ▸ stored.current
  case disjoint =>
      dsimp only
      rw [inUse, oldHdr]
      exact disjoint
  case paid =>
      dsimp only
      rw [inUse, oldHdr]
      exact paid
  case tidy =>
      intro ptr notCur notOld
      dsimp only
      rw [hdr_set_hdr_of_ne notCur, hdr_set_hdr_of_ne notOld]
      exact expanding.tidy ptr notCur notOld

theorem Expanding.drop (expanding : Expanding env ht cur old spare) (inside : slot < (ht.hdr old).max)
    (held : unmoved (ht.hdr old) slot = true) :
    Expanding env (ht.setHdr old ((ht.hdr old).mark slot)) cur old spare := by
  have fewer := tally_owed_mark_le (ht.hdr old) slot
  have paid := expanding.paid
  have replaced : Expanding env { (ht.setHdr old ((ht.hdr old).mark slot)).setHdr cur (ht.hdr cur)
      with mmapCalls := ht.mmapCalls } cur old spare := by
    apply expanding.replace ⟨expanding.current, rfl, rfl⟩ (expanding.sound.mark slot) (mark_max ..)
    · exact (mark_assimilated ..).trans expanding.unfinished
    · intro other otherInside occupies left
      apply expanding.disjoint other otherInside occupies
      exact ((expanding.sound.left_in_mark held inside _).mp left).1
    · rw [mark_max]
      omega
    · exact Nat.le_refl _
  have same : ht.hdr cur = (ht.setHdr old ((ht.hdr old).mark slot)).hdr cur :=
    (hdr_set_hdr_of_ne expanding.apart.symm).symm
  rwa [same, set_hdr_self] at replaced

theorem Expanding.insert (expanding : Expanding env ht cur old spare) {free calls : Nat}
    (inside : slot < (ht.hdr old).max) (owing : owed (ht.hdr old) slot = true)
    (freeInside : free < (ht.hdr cur).max) (empty : ((ht.hdr cur).table free).key = 0)
    (found : search (ht.hdr cur).max (startOf env (ht.hdr cur).max) (ownerAt (ht.hdr cur))
      ((ht.hdr old).table slot).key = some free) (more : ht.mmapCalls ≤ calls) :
    Expanding env
      { (ht.setHdr old ((ht.hdr old).mark slot)).setHdr cur ((ht.hdr cur).bindNew free
          ((ht.hdr old).table slot).key ((ht.hdr old).table slot).val) with
        mmapCalls := calls } cur old (spare + 1) := by
  obtain ⟨held, live⟩ := owed_iff.mp owing
  have valid := key_of_unmoved held
  have owes := tally_owed_mark_live held inside live
  have paid := expanding.paid
  have bound := expanding.current.bind_new valid ((ht.hdr old).table slot).val found empty freeInside
  apply expanding.replace ⟨bound, rfl, rfl⟩ (expanding.sound.mark slot) (mark_max ..)
  · exact (mark_assimilated ..).trans expanding.unfinished
  · intro other otherInside occupies left
    obtain ⟨before, different⟩ := (expanding.sound.left_in_mark held inside _).mp left
    by_cases same : other = free
    · subst same
      apply different
      exact congrArg Entry.key (Function.update_self ..)
    · have kept : ((ht.hdr cur).bindNew free ((ht.hdr old).table slot).key
          ((ht.hdr old).table slot).val).table other = (ht.hdr cur).table other :=
        Function.update_of_ne same ..
      rw [kept] at before occupies
      exact expanding.disjoint other otherInside occupies before
  · have counted : ((ht.hdr cur).bindNew free ((ht.hdr old).table slot).key
        ((ht.hdr old).table slot).val).count = (ht.hdr cur).count + 1 :=
      expanding.current.count_exact
    rw [counted, mark_max]
    omega
  · exact more

theorem Visited.old_hdr (visited : Visited env ht cur old slot moved after) (apart : old ≠ cur) :
    after.hdr old = (ht.hdr old).mark slot := by
  cases visited with
  | passed held => rw [Hdr.mark, held, if_neg Bool.false_ne_true]
  | dropped held dead => exact hdr_set_hdr ..
  | moved free owing inside empty found refused =>
      dsimp only
      rw [hdr_set_hdr_of_ne apart, hdr_set_hdr]

theorem Progress.start (expanding : Expanding env ht cur old spare) :
    Progress env ht ht cur old spare 0 where
  toCopied := Copied.start ht cur old
  expanding := expanding
  cut := rfl
  counted := rfl
  owing := rfl
  calls := by rw [requests_zero, Nat.add_zero]
  refused := by
    intro call below
    rw [requests_zero] at below
    cases below

theorem Progress.requests_succ (progress : Progress env before ht cur old spare moved) :
    requests (before.hdr cur) (moved + 1) =
      requests (before.hdr cur) moved + requests (ht.hdr cur) 1 :=
  LockFreeTable.requests_succ progress.curSize progress.cut progress.counted

theorem Progress.visit (progress : Progress env before ht cur old spare moved) {more : Nat}
    (inside : slot < (ht.hdr old).max) (visited : Visited env ht cur old slot more after) :
    Progress env before after cur old spare (moved + more) := by
  have apart := progress.expanding.apart
  have oldHdr := visited.old_hdr apart
  cases visited with
  | passed held => exact progress
  | dropped held dead =>
      have curHdr : (ht.setHdr old ((ht.hdr old).mark slot)).hdr cur = ht.hdr cur :=
        hdr_set_hdr_of_ne apart.symm
      constructor
      case toCopied => exact progress.drop held dead oldHdr curHdr
      case expanding => exact progress.expanding.drop inside held
      case cut => exact (congrArg Hdr.threshold curHdr).trans progress.cut
      case counted => exact (congrArg Hdr.count curHdr).trans progress.counted
      case owing =>
          rw [oldHdr, mark_max, owed_mark_dead dead]
          exact progress.owing
      case calls => exact progress.calls
      case refused => exact progress.refused
  | moved free owing freeInside empty found refused =>
      obtain ⟨held, live⟩ := owed_iff.mp owing
      have owes := tally_owed_mark_live held inside live
      have owed := progress.owing
      have curHdr := hdr_set_hdr (ht.setHdr old ((ht.hdr old).mark slot)) cur
        ((ht.hdr cur).bindNew free ((ht.hdr old).table slot).key ((ht.hdr old).table slot).val)
      constructor
      case toCopied => exact progress.move inside owing freeInside empty oldHdr curHdr
      case expanding =>
          exact progress.expanding.insert inside owing freeInside empty found (Nat.le_add_right ..)
      case cut => exact (congrArg Hdr.threshold curHdr).trans progress.cut
      case counted =>
          rw [← Nat.add_assoc, ← progress.counted]
          exact (congrArg Hdr.count curHdr).trans progress.expanding.current.count_exact
      case owing =>
          rw [oldHdr, mark_max]
          omega
      case calls =>
          rw [progress.requests_succ, ← Nat.add_assoc, ← progress.calls]
      case refused =>
          intro call below
          rw [progress.requests_succ] at below
          by_cases earlier : call < requests (before.hdr cur) moved
          · exact progress.refused call earlier
          · rw [requests_one] at below
            cases asked : asks (ht.hdr cur) with
            | false =>
                rw [asked, if_neg Bool.false_ne_true] at below
                omega
            | true =>
                rw [asked, if_pos rfl] at below
                have last : before.mmapCalls + call = ht.mmapCalls := by
                  rw [progress.calls]
                  omega
                rw [last]
                exact refused asked

/-- A larger table is granted before everything that the old one owes is moved. -/
def Granted (env : Env) (ht : Lfht) (old : HdrPtr) : Prop :=
  ∃ call, call < requests (ht.hdr ht.tableHdr) (tally (ht.hdr old).max (owed (ht.hdr old))) ∧
    env.mmap (ht.mmapCalls + call) = true

theorem Progress.granted (progress : Progress env before ht before.tableHdr old spare moved)
    (inside : slot < (ht.hdr old).max) (owing : owed (ht.hdr old) slot = true)
    (asked : asks (ht.hdr before.tableHdr) = true) (granted : env.mmap ht.mmapCalls = true) :
    Granted env before old := by
  obtain ⟨held, live⟩ := owed_iff.mp owing
  have owes := tally_owed_mark_live held inside live
  refine ⟨requests (before.hdr before.tableHdr) moved, ?_, progress.calls ▸ granted⟩
  have next : requests (before.hdr before.tableHdr) moved <
      requests (before.hdr before.tableHdr) (moved + 1) := by
    rw [progress.requests_succ, requests_one, asked, if_pos rfl]
    exact Nat.lt_succ_self _
  apply Nat.lt_of_lt_of_le next
  apply requests_mono
  have total := progress.owing
  omega

/-- The state between two rounds; the key need not be one that a client may use. -/
structure Between (env : Env) (before : Lfht) (old : HdrPtr) (key : Word)
    (spare max count distance : Nat) (ht : Lfht) (retval : Nat) (success : Bool) : Prop where
  progress : Progress env before ht before.tableHdr old spare retval
  size : (ht.hdr old).max = max
  swept : retval < count → ∀ earlier, earlier < distance →
    unmoved (ht.hdr old) (slotAt max (startOf env max key) earlier) = false
  scanned : Key key → Scanned env (ht.hdr old) key count retval success distance

theorem Between.visit {max : Nat} (inside : distance < max)
    (between : Between env before old key spare max count distance ht retval success) :
    Ensures (fun result => Between env before old key spare max count (distance + 1) result.2
        result.1 (success ||
          ends ((ht.hdr old).table (slotAt max (startOf env max key) distance)).key key ||
          takes ((ht.hdr old).table (slotAt max (startOf env max key) distance)).key key))
      (fun _ => Granted env before old)
      (assimilateEntry env old (slotAt max (startOf env max key) distance) ht retval) := by
  obtain ⟨progress, size, swept, scanned⟩ := between
  subst size
  have near := slot_at_lt (Nat.zero_lt_of_lt inside) (startOf env (ht.hdr old).max key) distance
  apply (progress.expanding.visit near retval).weaken
  · intro result visit
    obtain ⟨moved, count, visited⟩ := visit
    have oldHdr := visited.old_hdr progress.expanding.apart
    rw [count]
    constructor
    case progress => exact progress.visit near visited
    case size => rw [oldHdr, mark_max]
    case swept =>
        intro few
        rw [oldHdr]
        exact swept_mark (swept (Nat.lt_of_le_of_lt (Nat.le_add_right ..) few))
    case scanned =>
        intro valid
        rw [oldHdr]
        exact (scanned valid).mark valid inside (Nat.le_add_right ..) (sure_of_round valid)
  · intro _ request
    obtain ⟨owing, asked, granted⟩ := request
    exact progress.granted near owing asked granted

theorem Between.pass {max : Nat} (enough : count ≤ retval)
    (left : takes ((ht.hdr old).table (slotAt max (startOf env max key) distance)).key key = false)
    (between : Between env before old key spare max count distance ht retval success) :
    Between env before old key spare max count (distance + 1) ht retval (success ||
      ends ((ht.hdr old).table (slotAt max (startOf env max key) distance)).key key) := by
  obtain ⟨progress, size, swept, scanned⟩ := between
  subst size
  refine ⟨progress, rfl, fun few => absurd enough (Nat.not_le.mpr few), ?_⟩
  intro valid
  apply (scanned valid).skip enough
  · intro same
    rw [same, takes_key valid] at left
    cases left
  · intro found
    apply sure_of_round valid
    rw [left, Bool.or_false]
    exact found

structure Swept (env : Env) (before : Lfht) (old : HdrPtr) (key : Word) (spare count moved : Nat)
    (after : Lfht) : Prop where
  progress : Progress env before after before.tableHdr old spare moved
  emptied : moved < count → Emptied (after.hdr old)
  gone : Key key → ∀ slot, slot < (after.hdr old).max → ((after.hdr old).table slot).key ≠ key

theorem Between.stop {max : Nat} (enough : count ≤ retval)
    (between : Between env before old key spare max count distance ht retval true) :
    Swept env before old key spare count retval ht where
  progress := between.progress
  emptied := fun few => absurd enough (Nat.not_le.mpr few)
  gone := fun valid => (between.scanned valid).absent between.progress.expanding.sound valid

theorem Between.round {max : Nat}
    (between : Between env before old key spare max count max ht retval success) :
    Swept env before old key spare count retval ht where
  progress := between.progress
  emptied := by
    intro few slot inside
    rw [between.size] at inside
    obtain ⟨further, near, same⟩ := slot_at_surjective (startOf env max key) inside
    rw [← same]
    exact between.swept few further near
  gone := by
    intro valid
    have scanned := between.scanned valid
    rw [← between.size] at scanned
    exact scanned.round.1

theorem Expanding.assimilate (expanding : Expanding env ht ht.tableHdr old spare) (key : Word)
    (count : Nat) :
    Ensures (fun result => Swept env ht old key spare count result.1 result.2)
      (fun _ => Granted env ht old) (assimilate env ht old key count) := by
  apply assimilate_ensures expanding.sound.power expanding.unfinished key count
    (Between env ht old key spare (ht.hdr old).max count)
    (fun moved after => Swept env ht old key spare count moved after)
  · intro distance state retval success inside between
    exact between.visit inside
  · intro distance state retval success inside enough left between
    exact between.pass enough left
  · intro distance state retval enough between
    exact between.stop enough
  · intro state retval success between
    exact between.round
  · refine ⟨Progress.start expanding, rfl, ?_, fun _ => Scanned.start env _ key count⟩
    intro _ earlier before
    exact absurd before (Nat.not_lt_zero earlier)

end SriGlibcMalloc.LockFreeTable
