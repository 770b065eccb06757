import SriGlibcMalloc.LockFreeTable.Assimilate
import SriGlibcMalloc.Transition.Run

/-!
# The table as a map

Every operation first pays its migration tax, after which the key it is about
is no longer in the old table; then it works on the table in use alone. So the
answers are those of a map, at every point of every expansion.
-/

namespace SriGlibcMalloc.LockFreeTable

open OpenAddressing Transition

set_option autoImplicit false

structure Settled (env : Env) (ht : Lfht) (bound : Bindings) : Prop where
  state : ht.state ≠ .expanding
  allocated : ht.tableHdr < ht.mmapCalls
  finished : ∀ predecessor, (ht.hdr ht.tableHdr).next = some predecessor →
    predecessor < ht.mmapCalls ∧ (ht.hdr predecessor).assimilated = true
  below : (ht.hdr ht.tableHdr).count ≤ (ht.hdr ht.tableHdr).threshold
  holds : Holds env (ht.hdr ht.tableHdr) (fun _ => False) bound

inductive Represents (env : Env) (ht : Lfht) (bound : Bindings) : Prop
  | settled (settled : Settled env ht bound)
  | migrating (old : HdrPtr) (migrating : Migrating env ht ht.tableHdr old bound 0)

inductive Ready (env : Env) (ht : Lfht) (bound : Bindings) (key : Word) : Prop
  | settled (settled : Settled env ht bound)
  | migrating (old : HdrPtr) (migrating : Migrating env ht ht.tableHdr old bound 3)
      (gone : ∀ slot, slot < (ht.hdr old).max → ((ht.hdr old).table slot).key ≠ key)

variable {env : Env} {ht : Lfht} {cur old : HdrPtr} {bound : Bindings} {key val : Word}
variable {slot spare : Nat}

theorem Migrating.weaken (migrating : Migrating env ht cur old bound spare) {less : Nat}
    (fewer : less ≤ spare) : Migrating env ht cur old bound less :=
  { migrating with paid := Nat.le_trans (Nat.add_le_add_left fewer _) migrating.paid }

theorem Migrating.finish (migrating : Migrating env ht cur old bound spare)
    (swept : ∀ slot, slot < (ht.hdr old).max → unmoved (ht.hdr old) slot = false) :
    Settled env { ht.setHdr old { ht.hdr old with assimilated := true } with state := .expanded }
      bound := by
  have installed := migrating.installed
  subst installed
  have inUse : (ht.setHdr old { ht.hdr old with assimilated := true }).hdr ht.tableHdr =
      ht.hdr ht.tableHdr := hdr_set_hdr_of_ne migrating.apart.symm
  constructor
  · intro impossible
    cases impossible
  · exact migrating.allocated.1
  · intro predecessor link
    have same : some old = some predecessor :=
      migrating.link.symm.trans ((congrArg Hdr.next inUse).symm.trans link)
    cases same
    exact ⟨migrating.allocated.2, congrArg Hdr.assimilated (hdr_set_hdr ..)⟩
  · have below := Nat.le_trans (Nat.le_add_right ..) migrating.room
    exact (congrArg Hdr.count inUse).le.trans
      (below.trans (congrArg Hdr.threshold inUse).symm.le)
  · apply inUse.symm.subst (motive := fun hdr => Holds env hdr (fun _ => False) bound)
    apply migrating.holds.narrow
    · intro key impossible
      exact absurd impossible not_false
    · intro key left
      obtain ⟨slot, inside, held, _⟩ := left
      rw [swept slot inside] at held
      cases held

theorem migrate_spec (represents : Represents env ht bound) (valid : Key key) :
    ∃ after, migrateTable env ht key = .ok after ∧ Ready env after bound key ∧
      (after.hdr after.tableHdr).max = (ht.hdr ht.tableHdr).max := by
  cases represents with
  | settled settled =>
      refine ⟨ht, ?_, .settled settled, rfl⟩
      rw [migrateTable, if_neg settled.state]
  | migrating old migrating =>
      obtain ⟨moved, after, ran, done⟩ := migrating.assimilate valid migrationsPerAccess
      have installed := done.migrating.installed
      have size : (after.hdr after.tableHdr).max = (ht.hdr ht.tableHdr).max := by
        rw [installed, done.migrating.doubled, done.size, migrating.doubled]
      by_cases few : moved < migrationsPerAccess
      · refine ⟨_, ?_, .settled (done.migrating.finish (done.swept few)), ?_⟩
        · simp only [migrateTable, migrating.state, migrating.link, ran, ok_bind, if_pos few,
            if_true]
          exact if_pos installed
        · have apart : after.tableHdr ≠ old := installed ▸ done.migrating.apart.symm
          exact (congrArg Hdr.max (hdr_set_hdr_of_ne apart)).trans size
      · refine ⟨after, ?_, .migrating old ?_ done.gone, size⟩
        · simp only [migrateTable, migrating.state, migrating.link, ran, ok_bind, if_neg few,
            if_true]
        · rw [installed]
          exact done.migrating.weaken (Nat.le_trans (Nat.not_lt.mp few) (Nat.le_add_left ..))

theorem alloc_current (env : Env) {max : Nat} (power : ∃ bits, bits ≤ 31 ∧ max = 2 ^ bits)
    (next : Option HdrPtr) : Current env (allocLfhtHdr max next) := by
  have empty : ownerAt (allocLfhtHdr max next) = fun _ => none := by
    funext slot
    rfl
  refine ⟨⟨power, rfl, ?_, ?_, ?_⟩, rfl, ?_⟩
  · intro slot _
    exact ⟨Nat.zero_le 1, Nat.zero_ne_one⟩
  · rw [empty]
    exact placed_empty
  · symm
    apply tally_zero
    intro slot _
    rfl
  · intro slot _
    rfl

theorem Sound.doubled_power {hdr : Hdr} (sound : Sound env hdr) (small : hdr.max < maxTableSize) :
    ∃ bits, bits ≤ 31 ∧ 2 * hdr.max = 2 ^ bits := by
  obtain ⟨bits, _, size⟩ := sound.power
  rw [size] at small ⊢
  have fewer := (Nat.pow_lt_pow_iff_right Nat.one_lt_two).mp small
  exact ⟨bits + 1, fewer, (Nat.pow_succ' ..).symm⟩

def Lfht.grown (ht : Lfht) : Lfht :=
  { ht.setHdr ht.mmapCalls (allocLfhtHdr (2 * (ht.hdr ht.tableHdr).max) (some ht.tableHdr)) with
    state := .expanding
    tableHdr := ht.mmapCalls
    mmapCalls := ht.mmapCalls + 1 }

theorem grown_hdr {ptr : HdrPtr} (below : ptr < ht.mmapCalls) : ht.grown.hdr ptr = ht.hdr ptr :=
  hdr_set_hdr_of_ne (Nat.ne_of_lt below)

theorem grown_cur (ht : Lfht) : ht.grown.hdr ht.mmapCalls =
    allocLfhtHdr (2 * (ht.hdr ht.tableHdr).max) (some ht.tableHdr) := hdr_set_hdr ..

theorem grow_table_eq (state : ht.state ≠ .expanding) (allocated : ht.tableHdr < ht.mmapCalls)
    (finished : ∀ predecessor, (ht.hdr ht.tableHdr).next = some predecessor →
      predecessor < ht.mmapCalls ∧ (ht.hdr predecessor).assimilated = true)
    (small : (ht.hdr ht.tableHdr).max < maxTableSize) (granted : env.mmap ht.mmapCalls = true) :
    growTable env ht ht.tableHdr = .ok (true, ht.grown) := by
  have idle : (decide (ht.state = .initial) || decide (ht.state = .expanded)) = true := by
    cases current : ht.state with
    | initial => rfl
    | expanding => exact absurd current state
    | expanded => rfl
  have done : predecessorDone ht.grown ht.tableHdr = true := by
    rw [predecessorDone, grown_hdr allocated]
    cases next : (ht.hdr ht.tableHdr).next with
    | none => rfl
    | some predecessor =>
        obtain ⟨below, assimilated⟩ := finished predecessor next
        simp only [grown_hdr below, assimilated]
  have linked : decide ((ht.grown.hdr ht.grown.tableHdr).next = some ht.tableHdr) = true := by
    rw [decide_eq_true_eq]
    exact congrArg Hdr.next (grown_cur ht)
  rw [growTable]
  simp only [ne_eq, not_true_eq_false, if_false, small, if_true, granted]
  show (do
    assert (decide (ht.state = .initial) || decide (ht.state = .expanded)) .assertState
    assert (predecessorDone ht.grown ht.tableHdr) .assertPredecessor
    assert (decide ((ht.grown.hdr ht.grown.tableHdr).next = some ht.tableHdr)) .assertLinked
    .ok (true, ht.grown)) = (.ok (true, ht.grown) : Exec (Bool × Lfht))
  rw [idle, done, linked]
  rfl

theorem grown_migrating (allocated : ht.tableHdr < ht.mmapCalls)
    (filled : (ht.hdr ht.tableHdr).count ≤ (ht.hdr ht.tableHdr).threshold + 1)
    (holds : Holds env (ht.hdr ht.tableHdr) (fun _ => False) bound)
    (small : (ht.hdr ht.tableHdr).max < maxTableSize) :
    Migrating env ht.grown ht.mmapCalls ht.tableHdr bound 0 := by
  have power := holds.toSound.doubled_power small
  have held : ∀ slot, slot < (ht.hdr ht.tableHdr).max →
      ((ht.hdr ht.tableHdr).table slot).key ≠ 0 → unmoved (ht.hdr ht.tableHdr) slot = true := by
    intro slot inside occupies
    exact unmoved_iff.mpr ⟨occupies, holds.aligned slot inside⟩
  constructor
  · rfl
  · rfl
  · exact congrArg Hdr.next (grown_cur ht)
  · exact Nat.ne_of_lt allocated
  · exact ⟨Nat.lt_succ_self _, Nat.lt_succ_of_lt allocated⟩
  · rw [grown_hdr allocated]
    exact holds.toSound
  · rw [grown_hdr allocated]
    exact holds.unfinished
  · rw [grown_hdr allocated, grown_cur]
    rfl
  · rw [grown_hdr allocated]
    exact filled
  · have fewer : tally (ht.hdr ht.tableHdr).max (owed (ht.hdr ht.tableHdr)) ≤
        (ht.hdr ht.tableHdr).count := by
      rw [holds.counted]
      apply tally_mono
      intro slot _ owing
      simp only [owed, unmoved, Bool.and_eq_true] at owing
      exact owing.1.1
    rw [grown_hdr allocated, grown_cur]
    show 3 * 0 + 4 * tally (ht.hdr ht.tableHdr).max (owed (ht.hdr ht.tableHdr)) + 0 ≤ _
    omega
  · rw [grown_hdr allocated, grown_cur]
    refine ⟨alloc_current env power _, ?_, ?_, ?_⟩
    · intro slot _ occupies
      exact absurd rfl occupies
    · intro slot _ occupies
      exact absurd rfl occupies
    · intro key valid _ away
      apply holds.nothing key valid _ not_false
      intro slot inside present
      apply away
      exact ⟨slot, inside, held slot inside (present ▸ Nat.ne_of_gt valid.positive), present⟩
  · rw [grown_hdr allocated]
    intro slot inside moved
    exact holds.stored slot inside (unmoved_iff.mp moved).1

theorem Ready.holds (ready : Ready env ht bound key) :
    ∃ elsewhere, Holds env (ht.hdr ht.tableHdr) elsewhere bound ∧ ¬elsewhere key := by
  cases ready with
  | settled settled => exact ⟨_, settled.holds, not_false⟩
  | migrating old migrating gone =>
      refine ⟨_, migrating.holds, ?_⟩
      intro left
      obtain ⟨slot, inside, _, same⟩ := left
      exact gone slot inside same

theorem Ready.represents (ready : Ready env ht bound key) : Represents env ht bound := by
  cases ready with
  | settled settled => exact .settled settled
  | migrating old migrating gone => exact .migrating old (migrating.weaken (Nat.zero_le 3))

/-- An attempt that leaves the header in use unassimilated is not repeated. -/
theorem retrying_once {Value : Type} {attempt : Lfht → Exec (Value × Lfht)} {value : Value}
    {after : Lfht} (ran : attempt ht = .ok (value, after))
    (unfinished : (after.hdr ht.tableHdr).assimilated = false) (fuel : Nat) :
    retrying attempt (fuel + 1) ht = .ok (value, after) := by
  rw [retrying, ran]
  simp only [ok_bind, unfinished, Bool.false_eq_true, if_false]

theorem Settled.finished_replace (settled : Settled env ht bound) {next : Hdr}
    (link : next.next = (ht.hdr ht.tableHdr).next) (predecessor : HdrPtr)
    (linked : ((ht.setHdr ht.tableHdr next).hdr ht.tableHdr).next = some predecessor) :
    predecessor < ht.mmapCalls ∧
      ((ht.setHdr ht.tableHdr next).hdr predecessor).assimilated = true := by
  rw [hdr_set_hdr, link] at linked
  obtain ⟨allocated, done⟩ := settled.finished predecessor linked
  have apart : predecessor ≠ ht.tableHdr := by
    intro same
    rw [same, settled.holds.unfinished] at done
    cases done
  rw [hdr_set_hdr_of_ne apart]
  exact ⟨allocated, done⟩

theorem Settled.replace (settled : Settled env ht bound) {next : Hdr} {later : Bindings}
    (link : next.next = (ht.hdr ht.tableHdr).next) (below : next.count ≤ next.threshold)
    (holds : Holds env next (fun _ => False) later) :
    Settled env (ht.setHdr ht.tableHdr next) later := by
  have inUse := hdr_set_hdr ht ht.tableHdr next
  constructor
  · exact settled.state
  · exact settled.allocated
  · exact settled.finished_replace link
  · exact (congrArg Hdr.count inUse).le.trans (below.trans (congrArg Hdr.threshold inUse).symm.le)
  · exact inUse.symm.subst (motive := fun hdr => Holds env hdr (fun _ => False) later) holds

theorem Migrating.replace (migrating : Migrating env ht cur old bound spare) {next : Hdr}
    {later : Bindings} {added : Nat} (link : next.next = some old)
    (size : next.max = (ht.hdr cur).max) (counted : next.count = (ht.hdr cur).count + added)
    (afforded : 3 * added ≤ spare) (holds : Holds env next (leftIn (ht.hdr old)) later)
    (pending : ∀ slot, slot < (ht.hdr old).max → unmoved (ht.hdr old) slot = true →
      ((ht.hdr old).table slot).val = later ((ht.hdr old).table slot).key) :
    Migrating env (ht.setHdr cur next) cur old later 0 := by
  have inUse := hdr_set_hdr ht cur next
  have kept : (ht.setHdr cur next).hdr old = ht.hdr old := hdr_set_hdr_of_ne migrating.apart
  constructor
  · exact migrating.state
  · exact migrating.installed
  · exact (congrArg Hdr.next inUse).trans link
  · exact migrating.apart
  · exact migrating.allocated
  · rw [kept]
    exact migrating.sound
  · rw [kept]
    exact migrating.unfinished
  · rw [kept, inUse, size]
    exact migrating.doubled
  · rw [kept]
    exact migrating.filled
  · rw [kept, inUse, counted]
    have paid := migrating.paid
    omega
  · rw [kept, inUse]
    exact holds
  · rw [kept]
    exact pending

/-- The bindings that are left in the old table are not about the key. -/
theorem Migrating.pending_update (migrating : Migrating env ht cur old bound spare)
    (gone : ∀ slot, slot < (ht.hdr old).max → ((ht.hdr old).table slot).key ≠ key) (val : Word) :
    ∀ slot, slot < (ht.hdr old).max → unmoved (ht.hdr old) slot = true →
      ((ht.hdr old).table slot).val =
        Function.update bound key val ((ht.hdr old).table slot).key := by
  intro slot inside held
  rw [Function.update_of_ne (gone slot inside)]
  exact migrating.pending slot inside held

theorem Ready.set_val (ready : Ready env ht bound key) (valid : Key key)
    (inside : slot < (ht.hdr ht.tableHdr).max)
    (present : ((ht.hdr ht.tableHdr).table slot).key = key) (val : Word) :
    Represents env (ht.setHdr ht.tableHdr ((ht.hdr ht.tableHdr).setEntry slot ⟨key, val⟩))
      (Function.update bound key val) := by
  cases ready with
  | settled settled =>
      apply Represents.settled
      exact settled.replace rfl settled.below (settled.holds.set_val valid inside present val)
  | migrating old migrating gone =>
      apply Represents.migrating old
      exact migrating.replace migrating.link rfl (Nat.add_zero _).symm (Nat.zero_le 3)
        (migrating.holds.set_val valid inside present val) (migrating.pending_update gone val)

/-- Adding a key that the table in use does not have may start an expansion. -/
theorem Settled.add_new (settled : Settled env ht bound) (valid : Key key)
    (absent : ∀ slot, slot < (ht.hdr ht.tableHdr).max →
      ((ht.hdr ht.tableHdr).table slot).key ≠ key) (val : Word)
    (granted : ∀ call, env.mmap call = true)
    (small : (ht.hdr ht.tableHdr).max < maxTableSize) :
    ∃ after, addAttempt env key val ht = .ok (true, after) ∧
      (after.hdr ht.tableHdr).assimilated = false ∧
      Represents env after (Function.update bound key val) := by
  have current := settled.holds.toCurrent
  obtain ⟨slot, inside, empty, found⟩ := current.search_absent valid absent
    (Nat.lt_of_le_of_lt settled.below current.threshold_lt)
  obtain ⟨next, shape⟩ : ∃ next, (ht.hdr ht.tableHdr).bindNew slot key val = next := ⟨_, rfl⟩
  have count : next.count = (ht.hdr ht.tableHdr).count + 1 := shape ▸ current.count_exact
  have link : next.next = (ht.hdr ht.tableHdr).next := shape ▸ rfl
  have size : next.max = (ht.hdr ht.tableHdr).max := shape ▸ rfl
  have cut : next.threshold = (ht.hdr ht.tableHdr).threshold := shape ▸ rfl
  have holds : Holds env next (fun _ => False) (Function.update bound key val) := by
    rw [← shape]
    apply settled.holds.bind_new valid found empty inside absent val
    intro other
    rw [false_and]
  have inUse := hdr_set_hdr ht ht.tableHdr next
  rw [add_attempt_new rfl current valid found empty, shape]
  by_cases beyond : (ht.hdr ht.tableHdr).threshold < (ht.hdr ht.tableHdr).count + 1
  · have fits : ((ht.setHdr ht.tableHdr next).hdr ht.tableHdr).max < maxTableSize := by
      rw [inUse, size]
      exact small
    have grows : growTable env (ht.setHdr ht.tableHdr next) ht.tableHdr =
        .ok (true, (ht.setHdr ht.tableHdr next).grown) :=
      grow_table_eq settled.state settled.allocated (settled.finished_replace link) fits (granted _)
    have filled : ((ht.setHdr ht.tableHdr next).hdr ht.tableHdr).count ≤
        ((ht.setHdr ht.tableHdr next).hdr ht.tableHdr).threshold + 1 := by
      rw [inUse, count, cut]
      exact Nat.succ_le_succ settled.below
    rw [if_pos beyond, grows, ok_bind]
    refine ⟨_, rfl, ?_, .migrating ht.tableHdr (grown_migrating settled.allocated filled ?_ fits)⟩
    · have kept : (ht.setHdr ht.tableHdr next).grown.hdr ht.tableHdr =
          (ht.setHdr ht.tableHdr next).hdr ht.tableHdr := grown_hdr settled.allocated
      rw [kept, inUse]
      exact holds.unfinished
    · exact inUse.symm.subst
        (motive := fun hdr => Holds env hdr (fun _ => False) (Function.update bound key val)) holds
  · rw [if_neg beyond]
    refine ⟨_, rfl, ?_, .settled (settled.replace link ?_ holds)⟩
    · rw [inUse]
      exact holds.unfinished
    · rw [count, cut]
      exact Nat.not_lt.mp beyond

/-- Three bindings have been moved for one that is added, so no growth is due. -/
theorem Migrating.add_new (migrating : Migrating env ht ht.tableHdr old bound 3)
    (gone : ∀ slot, slot < (ht.hdr old).max → ((ht.hdr old).table slot).key ≠ key)
    (valid : Key key) (absent : ∀ slot, slot < (ht.hdr ht.tableHdr).max →
      ((ht.hdr ht.tableHdr).table slot).key ≠ key) (val : Word) :
    ∃ after, addAttempt env key val ht = .ok (true, after) ∧
      (after.hdr ht.tableHdr).assimilated = false ∧
      Represents env after (Function.update bound key val) := by
  have current := migrating.holds.toCurrent
  obtain ⟨slot, inside, empty, found⟩ := current.search_absent valid absent
    (Nat.lt_of_le_of_lt (Nat.le_trans (Nat.le_add_right ..) migrating.room) current.threshold_lt)
  have holds : Holds env ((ht.hdr ht.tableHdr).bindNew slot key val) (leftIn (ht.hdr old))
      (Function.update bound key val) := by
    apply migrating.holds.bind_new valid found empty inside absent val
    intro other
    constructor
    · intro left
      refine ⟨left, ?_⟩
      intro equal
      obtain ⟨third, thirdInside, _, same⟩ := left
      exact gone third thirdInside (same.trans equal)
    · intro left
      exact left.1
  have later : Migrating env
      (ht.setHdr ht.tableHdr ((ht.hdr ht.tableHdr).bindNew slot key val)) ht.tableHdr old
      (Function.update bound key val) 0 :=
    migrating.replace migrating.link rfl current.count_exact (Nat.le_refl 3) holds
      (migrating.pending_update gone val)
  have room : (ht.hdr ht.tableHdr).count + 1 ≤ (ht.hdr ht.tableHdr).threshold := by
    have below := Nat.le_trans (Nat.le_add_right ..) later.room
    rw [hdr_set_hdr] at below
    exact current.count_exact.ge.trans below
  rw [add_attempt_new rfl current valid found empty, if_neg (Nat.not_lt.mpr room)]
  refine ⟨_, rfl, ?_, .migrating old later⟩
  rw [hdr_set_hdr]
  exact current.unfinished

theorem add_spec (ready : Ready env ht bound key) (valid : Key key) (val : Word)
    (granted : ∀ call, env.mmap call = true)
    (small : (ht.hdr ht.tableHdr).max < maxTableSize) :
    ∃ after, addAttempt env key val ht = .ok (true, after) ∧
      (after.hdr ht.tableHdr).assimilated = false ∧
      Represents env after (Function.update bound key val) := by
  by_cases present : ∃ slot, slot < (ht.hdr ht.tableHdr).max ∧
      ((ht.hdr ht.tableHdr).table slot).key = key
  · obtain ⟨elsewhere, holds, _⟩ := ready.holds
    obtain ⟨slot, inside, same⟩ := present
    refine ⟨_, add_attempt_present rfl holds.toCurrent valid inside same, ?_,
      ready.set_val valid inside same val⟩
    rw [hdr_set_hdr]
    exact holds.unfinished
  · have absent : ∀ slot, slot < (ht.hdr ht.tableHdr).max →
        ((ht.hdr ht.tableHdr).table slot).key ≠ key := by
      intro slot inside same
      exact present ⟨slot, inside, same⟩
    cases ready with
    | settled settled => exact settled.add_new valid absent val granted small
    | migrating old migrating gone => exact migrating.add_new gone valid absent val

theorem Ready.search (ready : Ready env ht bound key) (valid : Key key) :
    ∃ slot, slot < (ht.hdr ht.tableHdr).max ∧
      probeHdr env (ht.hdr ht.tableHdr) key = .ok (some slot) ∧
      (((ht.hdr ht.tableHdr).table slot).key = key ∧
          ((ht.hdr ht.tableHdr).table slot).val = bound key ∨
        ((ht.hdr ht.tableHdr).table slot).key = 0 ∧ bound key = tombstone) := by
  obtain ⟨elsewhere, holds, away⟩ := ready.holds
  have current := holds.toCurrent
  by_cases present : ∃ slot, slot < (ht.hdr ht.tableHdr).max ∧
      ((ht.hdr ht.tableHdr).table slot).key = key
  · obtain ⟨slot, inside, same⟩ := present
    have stored := holds.stored slot inside (same ▸ Nat.ne_of_gt valid.positive)
    rw [same] at stored
    exact ⟨slot, inside, by rw [current.probe valid, current.search_present valid inside same],
      Or.inl ⟨same, stored⟩⟩
  · have absent : ∀ slot, slot < (ht.hdr ht.tableHdr).max →
        ((ht.hdr ht.tableHdr).table slot).key ≠ key := by
      intro slot inside same
      exact present ⟨slot, inside, same⟩
    have room : (ht.hdr ht.tableHdr).count < (ht.hdr ht.tableHdr).max := by
      apply Nat.lt_of_le_of_lt _ current.threshold_lt
      cases ready with
      | settled settled => exact settled.below
      | migrating old migrating gone => exact Nat.le_trans (Nat.le_add_right ..) migrating.room
    obtain ⟨slot, inside, empty, found⟩ := current.search_absent valid absent room
    exact ⟨slot, inside, by rw [current.probe valid, found],
      Or.inr ⟨empty, holds.nothing key valid absent away⟩⟩

theorem lfht_add_spec (represents : Represents env ht bound) (valid : Key key)
    (live : val ≠ tombstone) (granted : ∀ call, env.mmap call = true)
    (small : (ht.hdr ht.tableHdr).max < maxTableSize) :
    ∃ after, lfhtAdd env ht key val = .ok (true, after) ∧
      Represents env after (Function.update bound key val) := by
  obtain ⟨migrated, ran, ready, size⟩ := migrate_spec represents valid
  rw [← size] at small
  obtain ⟨after, added, unfinished, later⟩ := add_spec ready valid val granted small
  refine ⟨after, ?_, later⟩
  rw [lfhtAdd, check_binding valid live, ok_bind, ran, ok_bind]
  exact retrying_once added unfinished env.retries

/-- `lfht_remove` unbinds the key, and answers true if it was bound. -/
theorem lfht_remove_spec (represents : Represents env ht bound) (valid : Key key) :
    ∃ answer after, lfhtRemove env ht key = .ok (answer, after) ∧
      (bound key ≠ tombstone → answer = true) ∧
      Represents env after (Function.update bound key tombstone) := by
  obtain ⟨migrated, ran, ready, _⟩ := migrate_spec represents valid
  obtain ⟨elsewhere, holds, _⟩ := ready.holds
  obtain ⟨slot, inside, probed, found⟩ := ready.search valid
  have nonzero : key ≠ 0 := Nat.ne_of_gt valid.positive
  rw [lfhtRemove, if_neg nonzero, ran, ok_bind]
  rcases found with ⟨present, _⟩ | ⟨empty, unbound⟩
  · refine ⟨true, _, retrying_once ?_ ?_ env.retries, fun _ => rfl,
      ready.set_val valid inside present tombstone⟩
    · simp only [removeAttempt, probed, ok_bind, if_pos present, set_entry_eq]
    · rw [hdr_set_hdr]
      exact holds.unfinished
  · have other : ((migrated.hdr migrated.tableHdr).table slot).key ≠ key := by
      rw [empty]
      exact nonzero.symm
    refine ⟨false, migrated, retrying_once ?_ holds.unfinished env.retries, ?_, ?_⟩
    · simp only [removeAttempt, probed, ok_bind, if_neg other]
    · intro isBound
      exact absurd unbound isBound
    · rw [← unbound, Function.update_eq_self]
      exact ready.represents

/-- `lfht_find` stores a live value exactly for a bound key. -/
theorem lfht_find_spec (represents : Represents env ht bound) (valid : Key key) :
    ∃ answer after, lfhtFind env ht key = .ok (answer, after) ∧
      (answer.getD tombstone = bound key) ∧ Represents env after bound := by
  obtain ⟨migrated, ran, ready, _⟩ := migrate_spec represents valid
  obtain ⟨elsewhere, holds, _⟩ := ready.holds
  obtain ⟨slot, inside, probed, found⟩ := ready.search valid
  have nonzero : key ≠ 0 := Nat.ne_of_gt valid.positive
  rw [lfhtFind, if_neg nonzero, ran, ok_bind]
  rcases found with ⟨present, stored⟩ | ⟨empty, unbound⟩
  · have occupies : ((migrated.hdr migrated.tableHdr).table slot).key ≠ 0 := by
      rw [present]
      exact nonzero
    refine ⟨some ((migrated.hdr migrated.tableHdr).table slot).val, migrated,
      retrying_once ?_ holds.unfinished env.retries, stored, ready.represents⟩
    simp only [findAttempt, probed, ok_bind, if_neg occupies]
  · refine ⟨none, migrated, retrying_once ?_ holds.unfinished env.retries, unbound.symm,
      ready.represents⟩
    simp only [findAttempt, probed, ok_bind, if_pos empty]

end SriGlibcMalloc.LockFreeTable
