import SriGlibcMalloc.LockFreeTable.GrowthRun
import SriGlibcMalloc.LockFreeTable.Overfull

/-!
# What the migration loop promises

The comment on `assimilate` promises that the key of interest is no longer in the old table,
and its caller takes the old table for finished when fewer bindings than asked for were moved.
In every state that one thread can reach, this holds for all keys and counts exactly when no
larger table is granted while the old one is emptied.
-/

namespace SriGlibcMalloc.LockFreeTable

open OpenAddressing Outcome Transition

set_option autoImplicit false

/-- What `assimilate` promises of a call that has returned. -/
structure Promised (before after : Lfht) (old : HdrPtr) (key : Word) (count moved : Nat) : Prop
    extends Copied before after before.tableHdr old where
  installed : after.tableHdr = before.tableHdr
  gone : ∀ slot, slot < (after.hdr old).max → ((after.hdr old).table slot).key ≠ key
  emptied : moved < count → Emptied (after.hdr old)

/-- The table between two calls, whatever `mmap` has refused. -/
inductive Chained (env : Env) (ht : Lfht) : Prop
  | idle (idle : Idle env ht)
  | expanding (old : HdrPtr) (expanding : Expanding env ht ht.tableHdr old 0)

inductive Taxed (env : Env) (ht : Lfht) (key : Word) : Prop
  | idle (idle : Idle env ht)
  | expanding (old : HdrPtr) (expanding : Expanding env ht ht.tableHdr old 3)
      (gone : Key key → ∀ slot, slot < (ht.hdr old).max → ((ht.hdr old).table slot).key ≠ key)

variable {env : Env} {ht : Lfht} {hdr next : Hdr} {cur old : HdrPtr} {key val : Word}
variable {slot spare : Nat} {op : Op}

theorem Expanding.finish (expanding : Expanding env ht cur old spare)
    (emptied : Emptied (ht.hdr old)) :
    Idle env { ht.setHdr old { ht.hdr old with assimilated := true } with state := .expanded } :=
  idle_finished expanding.installed expanding.link expanding.apart expanding.allocated
    expanding.current emptied expanding.tidy

theorem Expanding.weaken (expanding : Expanding env ht cur old spare) {less : Nat}
    (fewer : less ≤ spare) : Expanding env ht cur old less := by
  have paid := expanding.paid
  exact { expanding with paid := by omega }

theorem Chained.migrate (chained : Chained env ht) (key : Word) :
    Ensures (fun after => Taxed env after key) (fun _ => True) (migrateTable env ht key) := by
  cases chained with
  | idle idle =>
      rw [migrateTable, if_neg idle.state]
      exact .idle idle
  | expanding old expanding =>
      simp only [migrateTable, expanding.state, expanding.link, if_true]
      have spec := expanding.assimilate key migrationsPerAccess
      apply (spec.allowing fun _ _ => trivial).bind
      intro result swept
      have later := swept.progress.expanding
      by_cases few : result.1 < migrationsPerAccess
      · have installed : (result.2.setHdr old { result.2.hdr old with
            assimilated := true }).tableHdr = ht.tableHdr := later.installed
        simp only [if_pos few]
        rw [if_pos installed]
        exact .idle (later.finish (swept.emptied few))
      · simp only [if_neg few]
        have paid : 3 ≤ 0 + result.1 := by
          rw [Nat.zero_add]
          exact Nat.not_lt.mp few
        rw [← later.installed] at later
        exact .expanding old (later.weaken paid) swept.gone

theorem Idle.expand (idle : Idle env ht) (small : (ht.hdr ht.tableHdr).max < maxTableSize) :
    Expanding env ht.grown ht.mmapCalls ht.tableHdr 0 := by
  have kept := grown_hdr idle.allocated
  have fresh := grown_cur ht
  constructor
  case state => rfl
  case installed => rfl
  case link => exact congrArg Hdr.next fresh
  case apart => exact Nat.ne_of_lt idle.allocated
  case allocated => exact ⟨Nat.lt_succ_self _, Nat.lt_succ_of_lt idle.allocated⟩
  case sound => exact kept.symm ▸ idle.current.toSound
  case unfinished => exact (congrArg Hdr.assimilated kept).trans idle.current.unfinished
  case doubled =>
      rw [kept, fresh]
      rfl
  case current =>
      rw [fresh]
      exact alloc_current env (idle.current.toSound.doubled_power small) _
  case disjoint =>
      rw [fresh]
      intro slot _ occupies
      exact absurd rfl occupies
  case paid =>
      rw [kept, fresh]
      have fewer := tally_le (ht.hdr ht.tableHdr).max (owed (ht.hdr ht.tableHdr))
      show 3 * 0 + 4 * tally (ht.hdr ht.tableHdr).max (owed (ht.hdr ht.tableHdr)) + 0 ≤ _
      omega
  case tidy =>
      intro ptr notNew notOld
      have same : ht.grown.hdr ptr = ht.hdr ptr := hdr_set_hdr_of_ne notNew
      rw [same]
      exact idle.tidy ptr notOld

theorem Idle.grow_chained (idle : Idle env ht) :
    ∃ answer after, growTable env ht ht.tableHdr = .ok (answer, after) ∧
      after.hdr ht.tableHdr = ht.hdr ht.tableHdr ∧ Chained env after := by
  obtain ⟨answer, after, grew, kept, outcome⟩ := idle.grow_cases
  refine ⟨answer, after, grew, kept, ?_⟩
  rcases outcome with later | ⟨small, _, same⟩
  · exact .idle later
  · rw [same]
    exact .expanding ht.tableHdr (idle.expand small)

/-- An attempt has left the header that it used unassimilated. -/
def Settles {Value : Type} (env : Env) (ht : Lfht) (result : Value × Lfht) : Prop :=
  (result.2.hdr ht.tableHdr).assimilated = false ∧ Chained env result.2

theorem Idle.add (idle : Idle env ht) (valid : Key key) (live : val ≠ tombstone) :
    Ensures (Settles env ht) (fun _ => True) (addAttempt env key val ht) := by
  rcases add_attempt_cases rfl idle.current valid live with
    ⟨next, inserted⟩ | ⟨answer, next, stored, _, ran⟩
  · have inUse := hdr_set_hdr ht ht.tableHdr next
    have later := idle.store inserted.toStored
    rw [inserted.ran]
    by_cases beyond : (ht.hdr ht.tableHdr).threshold < (ht.hdr ht.tableHdr).count + 1
    · obtain ⟨answer, after, grew, kept, chained⟩ := later.grow_chained
      have grown : growTable env (ht.setHdr ht.tableHdr next) ht.tableHdr = .ok (answer, after) :=
        grew
      have same : after.hdr ht.tableHdr = next := kept.trans inUse
      rw [if_pos beyond, grown]
      exact ⟨same ▸ inserted.current.unfinished, chained⟩
    · rw [if_neg beyond]
      exact ⟨inUse.symm ▸ inserted.current.unfinished, .idle later⟩
  · rw [ran]
    exact ⟨(hdr_set_hdr ..).symm ▸ stored.current.unfinished, .idle (idle.store stored)⟩

theorem Expanding.store {later calls : Nat}
    (expanding : Expanding env ht ht.tableHdr old spare)
    (stored : Stored env (ht.hdr ht.tableHdr) next)
    (disjoint : ∀ slot, slot < next.max → (next.table slot).key ≠ 0 →
      ¬leftIn (ht.hdr old) (next.table slot).key)
    (paid : 3 * next.count + later ≤ 3 * (ht.hdr ht.tableHdr).count + spare)
    (more : ht.mmapCalls ≤ calls) :
    Expanding env { ht.setHdr ht.tableHdr next with mmapCalls := calls } ht.tableHdr old later := by
  have before := expanding.paid
  have replaced := expanding.replace stored expanding.sound rfl expanding.unfinished disjoint
    (by omega : _ + later ≤ _) more
  rwa [set_hdr_self] at replaced

theorem Chained.current (chained : Chained env ht) : Current env (ht.hdr ht.tableHdr) := by
  cases chained with
  | idle idle => exact idle.current
  | expanding old expanding => exact expanding.current

theorem Taxed.chained (taxed : Taxed env ht key) : Chained env ht := by
  cases taxed with
  | idle idle => exact .idle idle
  | expanding old expanding gone => exact .expanding old (expanding.weaken (Nat.zero_le 3))

theorem set_entry_key (present : (hdr.table slot).key = key) (val : Word) (other : Nat) :
    ((hdr.setEntry slot ⟨key, val⟩).table other).key = (hdr.table other).key := by
  by_cases same : other = slot
  · simp [Hdr.setEntry, same, present]
  · simp [Hdr.setEntry, Function.update_of_ne same]

theorem Chained.overwrite (chained : Chained env ht) (valid : Key key)
    (present : ((ht.hdr ht.tableHdr).table slot).key = key) (val : Word) :
    Chained env (ht.setHdr ht.tableHdr ((ht.hdr ht.tableHdr).setEntry slot ⟨key, val⟩)) := by
  have stored : Stored env (ht.hdr ht.tableHdr)
      ((ht.hdr ht.tableHdr).setEntry slot ⟨key, val⟩) :=
    ⟨chained.current.set_val valid present val, rfl, rfl⟩
  cases chained with
  | idle idle => exact .idle (idle.store stored)
  | expanding old expanding =>
      apply Chained.expanding old
      apply expanding.store stored _ (Nat.le_refl _) (Nat.le_refl _)
      intro other inside occupies
      rw [set_entry_key present] at occupies ⊢
      exact expanding.disjoint other inside occupies

/-- The key that is added is not in the old table. -/
theorem Expanding.add (expanding : Expanding env ht ht.tableHdr old 3) (valid : Key key)
    (gone : ∀ slot, slot < (ht.hdr old).max → ((ht.hdr old).table slot).key ≠ key) :
    Ensures (Settles env ht) (fun _ => True) (addAttempt env key val ht) := by
  have current := expanding.current
  by_cases present : ∃ slot, slot < (ht.hdr ht.tableHdr).max ∧
      ((ht.hdr ht.tableHdr).table slot).key = key
  · obtain ⟨slot, inside, same⟩ := present
    have chained : Chained env ht := .expanding old (expanding.weaken (Nat.zero_le 3))
    rw [add_attempt_present rfl current valid inside same]
    refine ⟨?_, chained.overwrite valid same val⟩
    rw [hdr_set_hdr]
    exact current.unfinished
  · have absent : ∀ slot, slot < (ht.hdr ht.tableHdr).max →
        ((ht.hdr ht.tableHdr).table slot).key ≠ key := by
      intro slot inside same
      exact present ⟨slot, inside, same⟩
    have room : (ht.hdr ht.tableHdr).count < (ht.hdr ht.tableHdr).max := by
      have paid := expanding.paid
      have positive := expanding.sound.positive
      rw [expanding.doubled]
      omega
    obtain ⟨slot, inside, empty, found⟩ := current.search_absent valid absent room
    rw [add_attempt_expanding expanding.state rfl current valid found empty]
    split
    · trivial
    · have inUse := hdr_set_hdr ht ht.tableHdr ((ht.hdr ht.tableHdr).bindNew slot key val)
      refine ⟨(congrArg Hdr.assimilated inUse).trans current.unfinished, .expanding old ?_⟩
      apply expanding.store ⟨current.bind_new valid val found empty inside, rfl, rfl⟩
      · intro other otherInside occupies left
        by_cases same : other = slot
        · have here : ((ht.hdr ht.tableHdr).bindNew slot key val).table other = ⟨key, val⟩ :=
            same ▸ Function.update_self ..
          obtain ⟨third, thirdInside, _, equal⟩ := left
          rw [here] at equal
          exact gone third thirdInside equal
        · have elsewhere : ((ht.hdr ht.tableHdr).bindNew slot key val).table other =
              (ht.hdr ht.tableHdr).table other := Function.update_of_ne same ..
          rw [elsewhere] at occupies left
          exact expanding.disjoint other otherInside occupies left
      · have counted : ((ht.hdr ht.tableHdr).bindNew slot key val).count =
            (ht.hdr ht.tableHdr).count + 1 := current.count_exact
        rw [counted]
        omega
      · exact Nat.le_add_right ..

theorem Taxed.add (taxed : Taxed env ht key) (valid : Key key) (live : val ≠ tombstone) :
    Ensures (Settles env ht) (fun _ => True) (addAttempt env key val ht) := by
  cases taxed with
  | idle idle => exact idle.add valid live
  | expanding old expanding gone => exact expanding.add valid (gone valid)

theorem Chained.remove (chained : Chained env ht) (nonzero : key ≠ 0) :
    Ensures (Settles env ht) (fun _ => True) (removeAttempt env key ht) := by
  have current := chained.current
  obtain ⟨result, probed, within⟩ := current.probe_any key
  cases result with
  | none =>
      simp only [removeAttempt, probed, ok_bind]
      exact ⟨current.unfinished, chained⟩
  | some slot =>
      simp only [removeAttempt, probed, ok_bind]
      by_cases present : ((ht.hdr ht.tableHdr).table slot).key = key
      · have valid : Key key :=
          ⟨Nat.pos_of_ne_zero nonzero, present ▸ current.aligned slot (within slot rfl)⟩
        rw [if_pos present, set_entry_eq]
        refine ⟨?_, chained.overwrite valid present tombstone⟩
        rw [hdr_set_hdr]
        exact current.unfinished
      · rw [if_neg present]
        exact ⟨current.unfinished, chained⟩

theorem Chained.find (chained : Chained env ht) (key : Word) :
    Ensures (Settles env ht) (fun _ => True) (findAttempt env key ht) := by
  obtain ⟨answer, found⟩ := chained.current.find key
  rw [found]
  exact ⟨chained.current.unfinished, chained⟩

theorem Settles.retrying {Value : Type} {attempt : Lfht → Exec (Value × Lfht)}
    (spec : Ensures (Settles env ht) (fun _ => True) (attempt ht)) (fuel : Nat) :
    Ensures (fun result => Chained env result.2) (fun _ => True)
      (retrying attempt (fuel + 1) ht) := by
  rw [LockFreeTable.retrying]
  apply spec.bind
  intro result settles
  simp only [settles.1, Bool.false_eq_true, if_false]
  exact settles.2

theorem Chained.perform (chained : Chained env ht) (asserted : Asserted op) :
    Ensures (fun result => Chained env result.2) (fun _ => True) (perform env ht op) := by
  cases op with
  | add key val =>
      obtain ⟨valid, live⟩ := asserted
      rw [LockFreeTable.perform, lfhtAdd, check_binding valid live, ok_bind]
      apply Ensures.bind _ fun result later => later
      apply (chained.migrate key).bind
      intro after taxed
      exact Settles.retrying (taxed.add valid live) env.retries
  | remove key =>
      rw [LockFreeTable.perform, lfhtRemove]
      apply Ensures.bind _ fun result later => later
      by_cases zero : key = 0
      · rw [if_pos zero]
        exact chained
      · rw [if_neg zero]
        apply (chained.migrate key).bind
        intro after taxed
        exact Settles.retrying (taxed.chained.remove zero) env.retries
  | find key =>
      rw [LockFreeTable.perform, lfhtFind]
      apply Ensures.bind _ fun result later => later
      by_cases zero : key = 0
      · rw [if_pos zero]
        exact chained
      · rw [if_neg zero]
        apply (chained.migrate key).bind
        intro after taxed
        exact Settles.retrying (taxed.chained.find key) env.retries

theorem Chained.advance (chained : Chained env ht) (asserted : Asserted op) {after : Lfht}
    (stepped : advance env ht op = some after) : Chained env after := by
  have spec := chained.perform asserted
  rw [LockFreeTable.advance] at stepped
  cases ran : LockFreeTable.perform env ht op with
  | error fault =>
      rw [ran] at stepped
      cases stepped
  | ok result =>
      rw [ran] at stepped spec
      cases stepped
      exact spec

theorem run_chained (ops : List Op) (asserted : ∀ op ∈ ops, Asserted op)
    (chained : Chained env ht) {final : Lfht} (ran : run (advance env) ht ops = some final) :
    Chained env final := by
  induction ops generalizing ht with
  | nil =>
      cases ran
      exact chained
  | cons op later ih =>
      obtain ⟨next, stepped, rest⟩ := run_cons ran
      apply ih _ (chained.advance (asserted op (List.mem_cons_self ..)) stepped) rest
      intro other member
      exact asserted other (List.mem_cons_of_mem op member)

theorem init_chained {max bits : Nat} {table : Lfht} (small : bits ≤ 31) (power : max = 2 ^ bits)
    (started : initLfht env max = some table) : Chained env table := by
  cases init_ordered small power started with
  | idle idle => exact .idle idle
  | moving old budget moving =>
      rw [initLfht, Option.ite_none_right_eq_some] at started
      cases started.2
      cases moving.state

theorem Emptied.owes_nothing (emptied : Emptied hdr) : tally hdr.max (owed hdr) = 0 := by
  apply tally_zero
  intro slot inside
  rw [owed, emptied slot inside, Bool.false_and]

theorem Swept.promised {count moved : Nat} {after : Lfht} (valid : Key key)
    (swept : Swept env ht old key spare count moved after) :
    Promised ht after old key count moved where
  toCopied := swept.progress.toCopied
  installed := swept.progress.expanding.installed
  gone := swept.gone valid
  emptied := swept.emptied

theorem Idle.given_up (idle : Idle env ht) (link : (ht.hdr ht.tableHdr).next = some old) :
    (ht.hdr old).assimilated = true ∧ Emptied (ht.hdr old) := by
  obtain ⟨_, finished⟩ := idle.finished old link
  refine ⟨finished, idle.tidy old ?_⟩
  intro same
  rw [same, idle.current.unfinished] at finished
  cases finished

theorem Idle.promised (idle : Idle env ht) (link : (ht.hdr ht.tableHdr).next = some old)
    (valid : Key key) (count : Nat) :
    assimilate env ht old key count = .ok (0, ht) ∧ Promised ht ht old key count 0 := by
  obtain ⟨finished, emptied⟩ := idle.given_up link
  constructor
  · simp only [assimilate, finished, if_true]
  · exact ⟨Copied.start .., rfl, fun slot inside => ne_of_moved valid (emptied slot inside),
      fun _ => emptied⟩

theorem Idle.not_granted (idle : Idle env ht) (link : (ht.hdr ht.tableHdr).next = some old) :
    ¬Granted env ht old := by
  intro granted
  obtain ⟨call, below, _⟩ := granted
  rw [(idle.given_up link).2.owes_nothing, requests_zero] at below
  cases below

/-- All bindings are moved by a call that may move more than there are. -/
theorem Expanding.not_granted (expanding : Expanding env ht ht.tableHdr old 0) {moved : Nat}
    {after : Lfht}
    (ran : LockFreeTable.assimilate env ht old key
      (tally (ht.hdr old).max (owed (ht.hdr old)) + 1) = .ok (moved, after)) :
    ¬Granted env ht old := by
  have spec := expanding.assimilate key (tally (ht.hdr old).max (owed (ht.hdr old)) + 1)
  rw [ran] at spec
  have progress : Progress env ht after ht.tableHdr old 0 moved := spec.progress
  have total := progress.owing
  have emptied := spec.emptied (by omega)
  rw [emptied.owes_nothing, Nat.zero_add] at total
  intro granted
  obtain ⟨call, below, answer⟩ := granted
  rw [← total] at below
  rw [progress.refused call below] at answer
  cases answer

end SriGlibcMalloc.LockFreeTable
