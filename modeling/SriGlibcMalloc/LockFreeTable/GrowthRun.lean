import SriGlibcMalloc.LockFreeTable.MapRun
import SriGlibcMalloc.LockFreeTable.Moving

/-!
# When a table grows

Growth starts at the threshold only if its `mmap` succeeds at the first attempt. A table
that has been filled further may have more live bindings than the migration tax can move
before the next table reaches its own threshold.
-/

namespace SriGlibcMalloc.LockFreeTable

open OpenAddressing Transition

set_option autoImplicit false

/-- Only the predecessor of the table in use has bindings to be moved, and only while the
table expands. -/
def OneUnmigrated (ht : Lfht) : Prop :=
  ∀ ptr slot, ptr ≠ ht.tableHdr → slot < (ht.hdr ptr).max → unmoved (ht.hdr ptr) slot = true →
    ht.state = .expanding ∧ (ht.hdr ht.tableHdr).next = some ptr

/-- The live bindings of a table and a third of them fit below the threshold of the next
table, or the next table is never replaced. -/
def movable (live max : Nat) : Bool :=
  live + live / 3 ≤ 6 * (2 * max) / 10 || maxTableSize ≤ 2 * max

/-- If the key is new, a larger table is due and `mmap` grants it, then the bindings of the
table in use can be moved in time. -/
def growsInTime (env : Env) (key : Word) (ht : Lfht) : Bool :=
  let hdr := ht.hdr ht.tableHdr
  match probeHdr env hdr key with
  | .ok (some slot) =>
      (hdr.table slot).key ≠ 0 || hdr.count + 1 ≤ hdr.threshold || maxTableSize ≤ hdr.max ||
        !env.mmap ht.mmapCalls || movable (tally hdr.max (owed hdr) + 1) hdr.max
  | _ => true

def timely (env : Env) (ht : Lfht) (key : Word) : Bool :=
  match migrateTable env ht key with
  | .ok paid => growsInTime env key paid
  | .error _ => true

def Asserted : Op → Prop
  | .add key val => Key key ∧ val ≠ tombstone
  | .remove _ => True
  | .find _ => True

/-- A call that may start a growth starts it in time. -/
def Paced (env : Env) (ht : Lfht) (op : Op) : Prop :=
  Asserted op ∧ ∀ key val, op = .add key val → timely env ht key = true

variable {env : Env} {ht : Lfht} {hdr next : Hdr} {old : HdrPtr} {key val : Word}
variable {slot spare : Nat} {op : Op}

theorem Ordered.one_unmigrated (ordered : Ordered env ht spare) : OneUnmigrated ht := by
  intro ptr slot notCur inside held
  cases ordered with
  | idle idle =>
      rw [idle.tidy ptr notCur slot inside] at held
      cases held
  | moving old budget moving =>
      by_cases same : ptr = old
      · exact ⟨moving.state, same ▸ moving.link⟩
      · rw [moving.tidy ptr notCur same slot inside] at held
        cases held

theorem Ordered.current (ordered : Ordered env ht spare) : Current env (ht.hdr ht.tableHdr) := by
  cases ordered with
  | idle idle => exact idle.current
  | moving old budget moving => exact moving.current

theorem Idle.store (idle : Idle env ht) (stored : Stored env (ht.hdr ht.tableHdr) next) :
    Idle env (ht.setHdr ht.tableHdr next) := by
  have inUse := hdr_set_hdr ht ht.tableHdr next
  constructor
  case state => exact idle.state
  case allocated => exact idle.allocated
  case finished =>
      intro predecessor link
      have before := (congrArg Hdr.next inUse).symm.trans link
      rw [stored.link] at before
      obtain ⟨allocated, done⟩ := idle.finished predecessor before
      have apart : predecessor ≠ ht.tableHdr := by
        intro same
        rw [same, idle.current.unfinished] at done
        cases done
      exact ⟨allocated, (congrArg Hdr.assimilated (hdr_set_hdr_of_ne apart)).trans done⟩
  case current => exact inUse.symm ▸ stored.current
  case tidy =>
      intro ptr notCur
      have apart : ptr ≠ ht.tableHdr := notCur
      rw [hdr_set_hdr_of_ne apart]
      exact idle.tidy ptr apart

theorem Moving.store {budget later : Nat} (moving : Moving env ht ht.tableHdr old budget spare)
    (stored : Stored env (ht.hdr ht.tableHdr) next)
    (paid : 3 * next.count + later ≤ 3 * (ht.hdr ht.tableHdr).count + spare) :
    Moving env (ht.setHdr ht.tableHdr next) ht.tableHdr old budget later := by
  have before := moving.paid
  have replaced := moving.replace stored rfl moving.unfinished (by omega : _ + later ≤ _)
  rwa [set_hdr_self] at replaced

theorem Ordered.store (ordered : Ordered env ht spare)
    (stored : Stored env (ht.hdr ht.tableHdr) next)
    (counted : next.count = (ht.hdr ht.tableHdr).count) :
    Ordered env (ht.setHdr ht.tableHdr next) 0 := by
  cases ordered with
  | idle idle => exact .idle (idle.store stored)
  | moving old budget moving =>
      apply Ordered.moving old budget
      apply moving.store stored
      omega

theorem Idle.grown (idle : Idle env ht) (small : (ht.hdr ht.tableHdr).max < maxTableSize)
    (fits : movable (tally (ht.hdr ht.tableHdr).max (owed (ht.hdr ht.tableHdr)))
      (ht.hdr ht.tableHdr).max = true) :
    Moving env ht.grown ht.mmapCalls ht.tableHdr
      (tally (ht.hdr ht.tableHdr).max (owed (ht.hdr ht.tableHdr))) 0 := by
  have kept := grown_hdr idle.allocated
  have fresh := grown_cur ht
  have power := idle.current.toSound.doubled_power small
  constructor
  case state => rfl
  case installed => rfl
  case link => exact congrArg Hdr.next fresh
  case apart => exact Nat.ne_of_lt idle.allocated
  case allocated => exact ⟨Nat.lt_succ_self _, Nat.lt_succ_of_lt idle.allocated⟩
  case unfinished =>
      rw [kept]
      exact idle.current.unfinished
  case power =>
      rw [kept]
      exact idle.current.power
  case current =>
      rw [fresh]
      exact alloc_current env power _
  case paid =>
      rw [kept, fresh]
      exact Nat.le_of_eq (Nat.zero_add _)
  case roomy =>
      rw [fresh]
      simp only [movable, Bool.or_eq_true, decide_eq_true_eq] at fits
      exact fits
  case tidy =>
      intro ptr notNew notOld
      have same : ht.grown.hdr ptr = ht.hdr ptr := hdr_set_hdr_of_ne notNew
      rw [same]
      exact idle.tidy ptr notOld

theorem Idle.grow_cases (idle : Idle env ht) :
    ∃ answer after, growTable env ht ht.tableHdr = .ok (answer, after) ∧
      after.hdr ht.tableHdr = ht.hdr ht.tableHdr ∧
      (Idle env after ∨ (ht.hdr ht.tableHdr).max < maxTableSize ∧
        env.mmap ht.mmapCalls = true ∧ after = ht.grown) := by
  by_cases small : (ht.hdr ht.tableHdr).max < maxTableSize
  · by_cases granted : env.mmap ht.mmapCalls = true
    · exact ⟨true, ht.grown,
        grow_table_eq idle.state idle.allocated idle.finished small granted,
        grown_hdr idle.allocated, Or.inr ⟨small, granted, rfl⟩⟩
    · refine ⟨false, { ht with mmapCalls := ht.mmapCalls + 1 }, ?_, rfl, Or.inl ?_⟩
      · rw [growTable]
        simp only [ne_eq, not_true_eq_false, if_false, small, if_true, granted,
          Bool.false_eq_true]
      · exact { idle with
          allocated := Nat.lt_succ_of_lt idle.allocated
          finished := fun predecessor link =>
            ⟨Nat.lt_succ_of_lt (idle.finished predecessor link).1,
              (idle.finished predecessor link).2⟩ }
  · exact ⟨false, ht, grow_table_largest (Nat.not_lt.mp small), rfl, Or.inl idle⟩

theorem Idle.grow (idle : Idle env ht)
    (fits : (ht.hdr ht.tableHdr).max < maxTableSize → env.mmap ht.mmapCalls = true →
      movable (tally (ht.hdr ht.tableHdr).max (owed (ht.hdr ht.tableHdr)))
        (ht.hdr ht.tableHdr).max = true) :
    ∃ answer after, growTable env ht ht.tableHdr = .ok (answer, after) ∧
      after.hdr ht.tableHdr = ht.hdr ht.tableHdr ∧ Ordered env after 0 := by
  obtain ⟨answer, after, grew, kept, outcome⟩ := idle.grow_cases
  refine ⟨answer, after, grew, kept, ?_⟩
  rcases outcome with later | ⟨small, granted, same⟩
  · exact .idle later
  · rw [same]
    exact .moving ht.tableHdr _ (idle.grown small (fits small granted))

theorem Idle.add_new (idle : Idle env ht)
    (inserted : Inserted env ht (ht.hdr ht.tableHdr) next key val)
    (paced : growsInTime env key ht = true) :
    ∃ after, addAttempt env key val ht = .ok (true, after) ∧
      (after.hdr ht.tableHdr).assimilated = false ∧ Ordered env after 0 := by
  have inUse := hdr_set_hdr ht ht.tableHdr next
  have stored := idle.store inserted.toStored
  rw [inserted.ran]
  by_cases beyond : (ht.hdr ht.tableHdr).threshold < (ht.hdr ht.tableHdr).count + 1
  · have below : ¬(ht.hdr ht.tableHdr).count + 1 ≤ (ht.hdr ht.tableHdr).threshold :=
      Nat.not_le.mpr beyond
    obtain ⟨slot, probed, empty⟩ := inserted.probed
    have fits : ((ht.setHdr ht.tableHdr next).hdr ht.tableHdr).max < maxTableSize →
        env.mmap (ht.setHdr ht.tableHdr next).mmapCalls = true →
          movable (tally ((ht.setHdr ht.tableHdr next).hdr ht.tableHdr).max
            (owed ((ht.setHdr ht.tableHdr next).hdr ht.tableHdr)))
            ((ht.setHdr ht.tableHdr next).hdr ht.tableHdr).max = true := by
      rw [inUse, inserted.live, inserted.size]
      intro small granted
      have asked : env.mmap ht.mmapCalls = true := granted
      have due : ¬maxTableSize ≤ (ht.hdr ht.tableHdr).max := Nat.not_le.mpr small
      simpa [growsInTime, probed, empty, below, due, asked] using paced
    obtain ⟨answer, after, grew, kept, ordered⟩ := stored.grow fits
    refine ⟨after, ?_, ?_, ordered⟩
    · rw [if_pos beyond]
      exact congrArg (fun run => run >>= fun result => Except.ok (true, result.2)) grew
    · have same : after.hdr ht.tableHdr = next := kept.trans inUse
      rw [same]
      exact inserted.current.unfinished
  · rw [if_neg beyond]
    refine ⟨_, rfl, ?_, .idle stored⟩
    rw [inUse]
    exact inserted.current.unfinished

/-- Three bindings have been moved for the one that is added. -/
theorem Moving.add_new {budget : Nat} (moving : Moving env ht ht.tableHdr old budget 3)
    (inserted : Inserted env ht (ht.hdr ht.tableHdr) next key val) :
    ∃ after, addAttempt env key val ht = .ok (true, after) ∧
      (after.hdr ht.tableHdr).assimilated = false ∧ Ordered env after 0 := by
  have inUse := hdr_set_hdr ht ht.tableHdr next
  have later : Moving env (ht.setHdr ht.tableHdr next) ht.tableHdr old budget 0 := by
    apply moving.store inserted.toStored
    rw [inserted.counted]
    omega
  have same := later.no_growth (inUse.symm ▸ inserted.toStored) moving.current
    (inUse.symm ▸ inserted.counted)
  refine ⟨_, inserted.ran.trans same, ?_, .moving old budget later⟩
  rw [inUse]
  exact inserted.current.unfinished

theorem Ordered.add (ordered : Ordered env ht 3) (valid : Key key) (live : val ≠ tombstone)
    (paced : growsInTime env key ht = true) :
    ∃ answer after, addAttempt env key val ht = .ok (answer, after) ∧
      (after.hdr ht.tableHdr).assimilated = false ∧ Ordered env after 0 := by
  rcases add_attempt_cases rfl ordered.current valid live with
    ⟨next, inserted⟩ | ⟨answer, next, stored, counted, ran⟩
  · apply Exists.intro true
    cases ordered with
    | idle idle => exact idle.add_new inserted paced
    | moving old budget moving => exact moving.add_new inserted
  · refine ⟨answer, _, ran, ?_, ordered.store stored counted⟩
    rw [hdr_set_hdr]
    exact stored.current.unfinished

/-- The loops of the source return for any key. -/
theorem Current.probe_any (current : Current env hdr) (key : Word) :
    ∃ result, probeHdr env hdr key = .ok result ∧
      ∀ slot, result = some slot → slot < hdr.max := by
  have start : startOf env hdr.max key < hdr.max := Nat.mod_lt _ current.positive
  have ran := probe_eq current.power hdr.table key start hdr.max 0 current.positive
    (Nat.zero_add _)
  rw [slot_at_zero start] at ran
  rw [probeHdr, and_mask current.power]
  refine ⟨_, ran, ?_⟩
  intro slot found
  obtain ⟨distance, _, _, same⟩ := mem_slots_from.mp (List.mem_of_find?_eq_some found)
  rw [← same]
  exact slot_at_lt current.positive _ distance

theorem Ordered.weaken (ordered : Ordered env ht spare) : Ordered env ht 0 := by
  cases ordered with
  | idle idle => exact .idle idle
  | moving old budget moving =>
      have paid := moving.paid
      exact .moving old budget { moving with paid := by omega }

theorem Ordered.remove (ordered : Ordered env ht spare) (nonzero : key ≠ 0) :
    ∃ answer after, removeAttempt env key ht = .ok (answer, after) ∧
      (after.hdr ht.tableHdr).assimilated = false ∧ Ordered env after 0 := by
  have current := ordered.current
  obtain ⟨result, probed, within⟩ := current.probe_any key
  cases result with
  | none =>
      refine ⟨false, ht, ?_, current.unfinished, ordered.weaken⟩
      simp only [removeAttempt, probed, ok_bind]
  | some slot =>
      by_cases present : ((ht.hdr ht.tableHdr).table slot).key = key
      · have valid : Key key :=
          ⟨Nat.pos_of_ne_zero nonzero, present ▸ current.aligned slot (within slot rfl)⟩
        have written := current.set_val valid present tombstone
        refine ⟨true, _, ?_, ?_, ordered.store ⟨written, rfl, rfl⟩ rfl⟩
        · simp only [removeAttempt, probed, ok_bind, if_pos present, set_entry_eq]
        · rw [hdr_set_hdr]
          exact written.unfinished
      · refine ⟨false, ht, ?_, current.unfinished, ordered.weaken⟩
        simp only [removeAttempt, probed, ok_bind, if_neg present]

theorem Current.find (current : Current env (ht.hdr ht.tableHdr)) (key : Word) :
    ∃ answer, findAttempt env key ht = .ok (answer, ht) := by
  obtain ⟨result, probed, _⟩ := current.probe_any key
  cases result with
  | none =>
      refine ⟨none, ?_⟩
      simp only [findAttempt, probed, ok_bind]
  | some slot =>
      by_cases empty : ((ht.hdr ht.tableHdr).table slot).key = 0
      · refine ⟨none, ?_⟩
        simp only [findAttempt, probed, ok_bind, if_pos empty]
      · refine ⟨some ((ht.hdr ht.tableHdr).table slot).val, ?_⟩
        simp only [findAttempt, probed, ok_bind, if_neg empty]

/-- Every call returns, so that none of its assertions fails. -/
theorem Ordered.perform (ordered : Ordered env ht 0) (paced : Paced env ht op) :
    ∃ reply after, perform env ht op = .ok (reply, after) ∧ Ordered env after 0 := by
  cases op with
  | add key val =>
      obtain ⟨valid, live⟩ := paced.1
      have fits := paced.2 key val rfl
      obtain ⟨paid, tax, ready⟩ := ordered.migrate key
      rw [timely, tax] at fits
      obtain ⟨answer, after, added, unfinished, later⟩ := ready.add valid live fits
      refine ⟨.added answer, after, ?_, later⟩
      rw [LockFreeTable.perform, lfhtAdd, check_binding valid live, ok_bind, tax, ok_bind,
        retrying_once added unfinished env.retries, ok_bind]
  | remove key =>
      by_cases zero : key = 0
      · refine ⟨.removed false, ht, ?_, ordered⟩
        rw [LockFreeTable.perform, lfhtRemove, if_pos zero, ok_bind]
      · obtain ⟨paid, tax, ready⟩ := ordered.migrate key
        obtain ⟨answer, after, removed, unfinished, later⟩ := ready.remove zero
        refine ⟨.removed answer, after, ?_, later⟩
        rw [LockFreeTable.perform, lfhtRemove, if_neg zero, tax, ok_bind,
          retrying_once removed unfinished env.retries, ok_bind]
  | find key =>
      by_cases zero : key = 0
      · refine ⟨.found none, ht, ?_, ordered⟩
        rw [LockFreeTable.perform, lfhtFind, if_pos zero, ok_bind]
      · obtain ⟨paid, tax, ready⟩ := ordered.migrate key
        obtain ⟨answer, found⟩ := ready.current.find key
        refine ⟨.found answer, paid, ?_, ready.weaken⟩
        rw [LockFreeTable.perform, lfhtFind, if_neg zero, tax, ok_bind,
          retrying_once found ready.current.unfinished env.retries, ok_bind]

theorem run_ordered (ops : List Op) (ordered : Ordered env ht 0)
    (permitted : Permitted (advance env) (Paced env) ht ops) :
    ∃ final, run (advance env) ht ops = some final ∧ Ordered env final 0 := by
  have progress : ∀ count state op, count < ops.length → Ordered env state 0 →
      Paced env state op → ∃ next, advance env state op = some next ∧ Ordered env next 0 := by
    intro count state op _ holds paced
    obtain ⟨reply, after, ran, later⟩ := holds.perform paced
    refine ⟨after, ?_, later⟩
    rw [advance, ran]
  exact run_goes_through (fun _ state => Ordered env state 0) ops.length progress ops ht 0
    (Nat.zero_add _).le ordered permitted

theorem init_ordered {max bits : Nat} {table : Lfht} (small : bits ≤ 31) (power : max = 2 ^ bits)
    (started : initLfht env max = some table) : Ordered env table 0 := by
  rw [initLfht, Option.ite_none_right_eq_some] at started
  cases started.2
  apply Ordered.idle
  constructor
  case state =>
      intro impossible
      cases impossible
  case allocated => exact Nat.zero_lt_one
  case finished =>
      intro predecessor link
      cases link
  case current => exact alloc_current env ⟨bits, small, power⟩ none
  case tidy =>
      intro ptr _ slot _
      rfl

/-- Whatever `mmap` refuses, the assertions of `_grow_table` hold at every point of a run
in which growth is timely, and one table at most has bindings to be moved. -/
theorem growth_waits (env : Env) (max bits : Nat) (small : bits ≤ 31) (power : max = 2 ^ bits)
    (table : Lfht) (started : initLfht env max = some table) (ops : List Op) (op : Op)
    (permitted : Permitted (advance env) (Paced env) table (ops ++ [op])) :
    ∃ before reply after, run (advance env) table ops = some before ∧
      perform env before op = .ok (reply, after) ∧ OneUnmigrated before ∧ OneUnmigrated after := by
  obtain ⟨earlier, last⟩ := permitted_concat permitted
  obtain ⟨before, ran, ordered⟩ := run_ordered ops (init_ordered small power started) earlier
  obtain ⟨reply, after, performed, later⟩ := ordered.perform (last before ran)
  exact ⟨before, reply, after, ran, performed, ordered.one_unmigrated, later.one_unmigrated⟩

instance (key : Word) : Decidable (Key key) :=
  decidable_of_iff (0 < key ∧ key % keyAlignment = 0)
    ⟨fun both => ⟨both.1, both.2⟩, fun valid => ⟨valid.positive, valid.aligned⟩⟩

instance (op : Op) : Decidable (Asserted op) :=
  match op with
  | .add key val => inferInstanceAs (Decidable (Key key ∧ val ≠ tombstone))
  | .remove _ => inferInstanceAs (Decidable True)
  | .find _ => inferInstanceAs (Decidable True)

instance (env : Env) (ht : Lfht) (op : Op) : Decidable (Paced env ht op) :=
  match op with
  | .add key val => decidable_of_iff (Asserted (.add key val) ∧ timely env ht key = true)
      ⟨fun both => ⟨both.1, fun _ _ same => by cases same; exact both.2⟩,
        fun paced => ⟨paced.1, paced.2 key val rfl⟩⟩
  | .remove _ => .isTrue ⟨trivial, fun _ _ impossible => by cases impossible⟩
  | .find _ => .isTrue ⟨trivial, fun _ _ impossible => by cases impossible⟩

/-- The second call of `mmap` fails. -/
def oneRefusal : Env := ⟨id, fun call => decide (call ≠ 1), 0⟩

def smallTable : Lfht := ⟨.initial, 0, fun _ => allocLfhtHdr 4 none, 1⟩

/-- A table of four slots that is full when it grows, with three live bindings. -/
theorem growth_waits_after_refusal :
    ∃ before reply after, run (advance oneRefusal) smallTable
        [.add 16 7, .add 32 7, .add 48 7, .remove 16] = some before ∧
      perform oneRefusal before (.add 64 7) = .ok (reply, after) ∧ OneUnmigrated before ∧
      OneUnmigrated after :=
  growth_waits oneRefusal 4 2 (by decide) rfl smallTable rfl
    [.add 16 7, .add 32 7, .add 48 7, .remove 16] (.add 64 7) (by decide +kernel)

def faultOf {Value : Type} : Exec Value → Option Fault
  | .ok _ => none
  | .error fault => some fault

/-- With four live bindings the next table passes its threshold before they are moved. -/
theorem growth_before_emptied :
    ¬∀ (env : Env) (max bits : Nat), bits ≤ 31 → max = 2 ^ bits → ∀ table : Lfht,
      initLfht env max = some table → ∀ (ops : List Op) (op : Op),
        (∀ each ∈ ops ++ [op], Asserted each) →
          ∃ before reply after, run (advance env) table ops = some before ∧
            perform env before op = .ok (reply, after) ∧ OneUnmigrated before ∧
            OneUnmigrated after := by
  intro claimed
  obtain ⟨before, reply, after, ran, performed, _⟩ := claimed oneRefusal 4 2 (by decide) rfl
    smallTable rfl [.add 16 7, .add 32 7, .add 48 7, .add 64 7, .add 80 7] (.add 96 7)
    (by decide)
  have fails : (run (advance oneRefusal) smallTable
      [.add 16 7, .add 32 7, .add 48 7, .add 64 7, .add 80 7]).map
        (fun state => faultOf (perform oneRefusal state (.add 96 7))) =
      some (some .assertState) := by decide +kernel
  rw [ran, Option.map_some, performed] at fails
  cases fails

end SriGlibcMalloc.LockFreeTable
