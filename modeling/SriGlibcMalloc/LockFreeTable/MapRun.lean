import SriGlibcMalloc.LockFreeTable.Sequential

/-!
# Runs of one thread

A run starts with `init_lfht`. Every call in it returns, and answers as a map
that is changed by the calls before it would.
-/

namespace SriGlibcMalloc.LockFreeTable

open Transition

set_option autoImplicit false

inductive Op
  | add (key val : Word)
  | remove (key : Word)
  | find (key : Word)
  deriving DecidableEq, Repr

inductive Reply
  | added (answer : Bool)
  | removed (answer : Bool)
  | found (answer : Option Word)
  deriving DecidableEq, Repr

def perform (env : Env) (ht : Lfht) : Op → Exec (Reply × Lfht)
  | .add key val => do
      let (answer, ht) ← lfhtAdd env ht key val
      .ok (.added answer, ht)
  | .remove key => do
      let (answer, ht) ← lfhtRemove env ht key
      .ok (.removed answer, ht)
  | .find key => do
      let (answer, ht) ← lfhtFind env ht key
      .ok (.found answer, ht)

def advance (env : Env) (ht : Lfht) (op : Op) : Option Lfht :=
  match perform env ht op with
  | .ok (_, after) => some after
  | .error _ => none

def bindStep (bound : Bindings) : Op → Bindings
  | .add key val => Function.update bound key val
  | .remove key => Function.update bound key tombstone
  | .find _ => bound

def bindings (ops : List Op) : Bindings := ops.foldl bindStep fun _ => tombstone

/-- The answer of a call, given the map before it. -/
def Answers (bound : Bindings) : Op → Reply → Prop
  | .add _ _, reply => reply = .added true
  | .remove key, reply => ∃ answer, reply = .removed answer ∧ (bound key ≠ tombstone → answer = true)
  | .find key, reply => ∃ answer, reply = .found answer ∧
      ∀ val, val ≠ tombstone → (answer = some val ↔ bound key = val)

/-- Keys are nonzero and aligned, and values are not the tombstone. -/
def Valid : Op → Prop
  | .add key val => Key key ∧ val ≠ tombstone
  | .remove key => Key key
  | .find key => Key key

def Fits (ht : Lfht) (op : Op) : Prop :=
  Valid op ∧ (ht.hdr ht.tableHdr).max < maxTableSize

variable {env : Env} {ht : Lfht} {bound : Bindings} {op : Op}

theorem perform_spec (granted : ∀ call, env.mmap call = true)
    (represents : Represents env ht bound) (fits : Fits ht op) :
    ∃ reply after, perform env ht op = .ok (reply, after) ∧ Answers bound op reply ∧
      Represents env after (bindStep bound op) := by
  cases op with
  | add key val =>
      obtain ⟨valid, live⟩ := fits.1
      obtain ⟨after, ran, later⟩ := lfht_add_spec represents valid live granted fits.2
      refine ⟨.added true, after, ?_, rfl, later⟩
      rw [perform, ran, ok_bind]
  | remove key =>
      obtain ⟨answer, after, ran, told, later⟩ := lfht_remove_spec represents fits.1
      refine ⟨.removed answer, after, ?_, ⟨answer, rfl, told⟩, later⟩
      rw [perform, ran, ok_bind]
  | find key =>
      obtain ⟨answer, after, ran, stored, later⟩ := lfht_find_spec represents fits.1
      refine ⟨.found answer, after, ?_, ⟨answer, rfl, ?_⟩, later⟩
      · rw [perform, ran, ok_bind]
      · intro val live
        rw [← stored]
        cases answer with
        | none => simp [Ne.symm live]
        | some other => simp

theorem run_represents (granted : ∀ call, env.mmap call = true) (ops : List Op)
    (represents : Represents env ht bound) (permitted : Permitted (advance env) Fits ht ops) :
    ∃ final, run (advance env) ht ops = some final ∧
      Represents env final (ops.foldl bindStep bound) := by
  induction ops generalizing ht bound with
  | nil => exact ⟨ht, rfl, represents⟩
  | cons op later ih =>
      obtain ⟨reply, after, ran, _, next⟩ := perform_spec granted represents permitted.1
      have stepped : advance env ht op = some after := by
        rw [advance, ran]
      obtain ⟨final, rest, holds⟩ := ih next (permitted.2 after stepped)
      refine ⟨final, ?_, holds⟩
      rw [run, stepped, Option.bind_some, rest]

theorem init_represents {max bits : Nat} {table : Lfht} (small : bits ≤ 31)
    (power : max = 2 ^ bits) (started : initLfht env max = some table) :
    Represents env table fun _ => tombstone := by
  rw [initLfht, Option.ite_none_right_eq_some] at started
  cases started.2
  apply Represents.settled
  constructor
  · intro impossible
    cases impossible
  · exact Nat.zero_lt_one
  · intro predecessor link
    cases link
  · exact Nat.zero_le _
  · refine ⟨alloc_current env ⟨bits, small, power⟩ none, ?_, ?_, ?_⟩
    · intro slot _ occupies
      exact absurd rfl occupies
    · intro slot _ occupies
      exact absurd rfl occupies
    · intro key _ _ _
      rfl

/-- At every point of every run of one thread the next call returns, and answers
as the map left by the calls before it. -/
theorem lfht_is_map (env : Env) (granted : ∀ call, env.mmap call = true) (max bits : Nat)
    (small : bits ≤ 31) (power : max = 2 ^ bits) (table : Lfht)
    (started : initLfht env max = some table) (ops : List Op) (op : Op)
    (permitted : Permitted (advance env) Fits table (ops ++ [op])) :
    ∃ before reply after, run (advance env) table ops = some before ∧
      perform env before op = .ok (reply, after) ∧ Answers (bindings ops) op reply := by
  obtain ⟨earlier, last⟩ := permitted_concat permitted
  obtain ⟨before, ran, represents⟩ :=
    run_represents granted ops (init_represents small power started) earlier
  obtain ⟨reply, after, answered, told, _⟩ :=
    perform_spec granted represents (last before ran)
  exact ⟨before, reply, after, ran, answered, told⟩

/-- A table of one slot that grows in the first call. -/
theorem lfht_is_map_while_growing :
    ∃ before reply after, run (advance ⟨id, fun _ => true, 0⟩)
        ⟨.initial, 0, fun _ => allocLfhtHdr 1 none, 1⟩ [.add 16 7] = some before ∧
      perform ⟨id, fun _ => true, 0⟩ before (.find 16) = .ok (reply, after) ∧
      Answers (bindings [.add 16 7]) (.find 16) reply := by
  apply lfht_is_map ⟨id, fun _ => true, 0⟩ (fun _ => rfl) 1 0 (Nat.zero_le 31) rfl _ rfl
    [.add 16 7] (.find 16)
  refine ⟨⟨⟨⟨by decide, by decide⟩, by decide⟩, by decide⟩, ?_⟩
  intro next stepped
  cases stepped
  exact ⟨⟨⟨by decide, by decide⟩, by decide⟩, fun _ _ => trivial⟩

end SriGlibcMalloc.LockFreeTable
