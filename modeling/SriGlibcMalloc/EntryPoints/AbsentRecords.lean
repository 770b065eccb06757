import SriGlibcMalloc.EntryPoints.Threads

/-!
# Exhaustion and the records that are not there

`_int_malloc`, `_int_memalign` and `_int_realloc` answer NULL for a record when they
fail. Most of their callers pass the answer to `chunkinfo2chunk` before they test it,
which reads a field of the record.
-/

namespace SriGlibcMalloc.EntryPoints

set_option autoImplicit false

/-- The functions that read an answer, after their hooks. The thread of `mallocAtfork`
is the one that forks. -/
inductive Caller
  | calloc (sz : Nat)
  | realloc (oldmem : Chunk) (bytes : Nat)
  | mallocCheck (sz : Nat)
  | memalignCheck (alignment bytes : Nat)
  | mallocAtfork (saved : Hook) (sz : Nat)
  deriving DecidableEq, Repr

def Caller.run (env : Env) : Caller → M Unit
  | .calloc sz => do let _ ← callocBody env sz
  | .realloc oldmem bytes => reallocBody env oldmem bytes
  | .mallocCheck sz => do let _ ← EntryPoints.mallocCheck env sz
  | .memalignCheck alignment bytes => do let _ ← EntryPoints.memalignCheck env alignment bytes
  | .mallocAtfork saved sz => do let _ ← EntryPoints.mallocAtfork env true saved sz

def Ends {Result : Type} (routine : M Result) (state : State) (result : Result) (next : State) :
    Prop :=
  routine.run state = .ok (result, next)

def Fails (routine : M (Option Victim)) (state : State) : Prop :=
  ∃ next, Ends routine state none next

/-- The first attempt of `__libc_calloc` is made and fails. -/
def CallocExhausted (env : Env) (sz : Nat) (state : State) : Prop :=
  (∃ chosen, Ends (arenaGet env .calloc) state none chosen ∧
    Fails (intMalloc env none sz) chosen) ∨
  ∃ a chosen filled, Ends (arenaGet env .calloc) state (some a) chosen ∧
    Ends (replenishMetadataCache env a) chosen true filled ∧
    (filled.world.arena a).mdTop = true ∧ Fails (intMalloc env (some a) sz) filled

/-- `__libc_realloc` comes to `_int_realloc`, which fails. -/
def ReallocExhausted (env : Env) (oldmem : Chunk) (bytes : Nat) (state : State) : Prop :=
  oldmem ≠ 0 ∧ bytes ≠ 0 ∧ ∃ index a nb found chosen locked filled,
    Ends (askNumber env) state index found ∧ Ends (arenaFromIndex index) found a chosen ∧
    Ends (lockArena env .realloc a) chosen () locked ∧
    (locked.world.arena a).record oldmem = some false ∧
    Ends (replenishMetadataCache env a) locked true filled ∧
    env.answer .corruption filled.clock = false ∧ checkedRequest2size bytes = some nb ∧
    Fails (intRealloc env a oldmem nb) ⟨filled.world, filled.clock + 1⟩

def Caller.Exhausted (env : Env) : Caller → State → Prop
  | .calloc sz, state => CallocExhausted env sz state
  | .realloc oldmem bytes, state => ReallocExhausted env oldmem bytes state
  | .mallocCheck sz, state => sz + 1 ≠ 2 ^ 64 ∧ Fails (mallocCheckVictim env sz) state
  | .memalignCheck alignment bytes, state =>
      16 < alignment ∧ ∃ actual, Ends (alignmentFor alignment bytes) state (some actual) state ∧
        Fails (memalignCheckVictim env actual bytes) state
  | .mallocAtfork saved sz, state =>
      if saved = .check then ∃ checked, Ends (topCheck env) state true checked ∧
        Fails (intMalloc env (some mainArena) ((sz + 1) % 2 ^ 64)) checked
      else Fails (intMalloc env (some mainArena) sz) state

/-- The only caller that leaves the answer to `chunkinfo2mem`, which knows NULL. -/
def Caller.Careful : Caller → Prop
  | .mallocAtfork saved _ => saved ≠ .check
  | _ => False

/-- `chunkinfo2chunk` has no value for NULL. -/
def Env.Partial (env : Env) : Prop := ∀ clock, env.answer .nullReadSurvives clock = false

variable {env : Env} {state next : State} {First Second Result : Type}

theorem ends_bind {first : M First} {rest : First → M Result} {value : First}
    (ends : Ends first state value next) :
    (first >>= rest).run state = (rest value).run next := by
  rw [StateT.run_bind, ends]
  rfl

theorem read_null_halts (absent : env.Partial) :
    (readNull env).run state = .error .absentRecord := by
  have asked : (ask env .nullReadSurvives).run state =
      .ok (env.answer .nullReadSurvives state.clock, { state with clock := state.clock + 1 }) := rfl
  unfold readNull
  rw [StateT.run_bind, asked, absent]
  rfl

theorem reading_halts (absent : env.Partial) {routine : M (Option Victim)}
    {rest : Option Victim → Unit → M Result} (fails : Fails routine state) :
    (do
      let victim ← routine
      let read ← readUnless env victim.isSome
      rest victim read).run state = .error .absentRecord := by
  obtain ⟨next, ends⟩ := fails
  have halted : (readUnless env (none : Option Victim).isSome).run next = .error .absentRecord :=
    read_null_halts absent
  rw [ends_bind ends, StateT.run_bind, halted]
  rfl

/-- The rest of a function does not matter once it has halted. -/
theorem halted_bind {routine : M First} {rest : First → M Result} {why : Halt}
    (halted : routine.run state = .error why) :
    (routine >>= rest).run state = .error why := by
  rw [StateT.run_bind, halted]
  rfl

theorem calloc_exhausted (absent : env.Partial) {sz : Nat}
    (exhausted : CallocExhausted env sz state) :
    (callocBody env sz).run state = .error .absentRecord := by
  unfold callocBody
  rcases exhausted with ⟨chosen, got, fails⟩ | ⟨a, chosen, filled, got, replenished, top, fails⟩
  · rw [ends_bind got]
    exact reading_halts absent fails
  · rw [ends_bind got, ends_bind replenished]
    have read : (getArena a).run filled = .ok (filled.world.arena a, filled) := rfl
    obtain ⟨next, ends⟩ := fails
    have ready : (readUnless env true).run filled = .ok ((), filled) := rfl
    rw [if_pos rfl, ends_bind read, top, ends_bind ready, ends_bind ends]
    exact halted_bind (read_null_halts absent)

theorem realloc_heap_exhausted (absent : env.Partial) {a : ArenaId} {oldmem : Chunk}
    {bytes nb : Nat} (fails : Fails (intRealloc env a oldmem nb) state) :
    (reallocHeap env a oldmem bytes nb).run state = .error .absentRecord :=
  reading_halts absent fails

theorem realloc_exhausted (absent : env.Partial) {oldmem : Chunk} {bytes : Nat}
    (exhausted : ReallocExhausted env oldmem bytes state) :
    (reallocBody env oldmem bytes).run state = .error .absentRecord := by
  obtain ⟨present, positive, index, a, nb, found, chosen, locked, filled, looked, named, taken,
    record, replenished, sane, sized, fails⟩ := exhausted
  have read : (getArena a).run locked = .ok (locked.world.arena a, locked) := rfl
  have asked : (ask env .corruption).run filled =
      .ok (env.answer .corruption filled.clock, ⟨filled.world, filled.clock + 1⟩) := rfl
  have zero : ¬(bytes = 0 ∧ oldmem ≠ 0) := fun both => positive both.1
  unfold reallocBody
  rw [if_neg zero, if_neg present, ends_bind looked, ends_bind named, ends_bind taken,
    ends_bind read, record]
  change (reallocRecord env a oldmem false bytes).run locked = _
  unfold reallocRecord
  rw [ends_bind replenished, if_pos rfl, ends_bind asked, sane, sized]
  exact realloc_heap_exhausted absent fails

theorem malloc_check_exhausted (absent : env.Partial) {sz : Nat} (small : sz + 1 ≠ 2 ^ 64)
    (fails : Fails (mallocCheckVictim env sz) state) :
    (mallocCheck env sz).run state = .error .absentRecord := by
  unfold mallocCheck
  rw [if_neg small]
  exact reading_halts absent fails

theorem memalign_check_exhausted (absent : env.Partial) {alignment actual bytes : Nat}
    (large : 16 < alignment)
    (chosen : Ends (alignmentFor alignment bytes) state (some actual) state)
    (fails : Fails (memalignCheckVictim env actual bytes) state) :
    (memalignCheck env alignment bytes).run state = .error .absentRecord := by
  unfold memalignCheck
  rw [if_neg (Nat.not_le.mpr large), ends_bind chosen]
  exact reading_halts absent fails

theorem atfork_checked_exhausted (absent : env.Partial) {sz : Nat} {checked : State}
    (intact : Ends (topCheck env) state true checked)
    (fails : Fails (intMalloc env (some mainArena) ((sz + 1) % 2 ^ 64)) checked) :
    (mallocAtfork env true .check sz).run state = .error .absentRecord := by
  unfold mallocAtfork
  rw [if_pos rfl, if_pos rfl, ends_bind intact]
  exact reading_halts absent fails

theorem atfork_plain_returns {saved : Hook} {sz : Nat} (plain : saved ≠ .check)
    (fails : Fails (intMalloc env (some mainArena) sz) state) :
    Fails (mallocAtfork env true saved sz) state := by
  unfold mallocAtfork
  rw [if_pos rfl, if_neg plain]
  exact fails

/-- When the routine fails, the function reads the record that is not there, except in
`malloc_atfork` without the checking hook. -/
theorem absent_record_unread_iff (caller : Caller) (env : Env) (state : State)
    (absent : env.Partial) (exhausted : caller.Exhausted env state) :
    (caller.run env).run state ≠ .error .absentRecord ↔ caller.Careful := by
  cases caller with
  | calloc sz =>
      refine ⟨fun unread => unread ?_, False.elim⟩
      exact halted_bind (calloc_exhausted absent exhausted)
  | realloc oldmem bytes =>
      refine ⟨fun unread => unread ?_, False.elim⟩
      exact realloc_exhausted absent exhausted
  | mallocCheck sz =>
      refine ⟨fun unread => unread ?_, False.elim⟩
      exact halted_bind (malloc_check_exhausted absent exhausted.1 exhausted.2)
  | memalignCheck alignment bytes =>
      obtain ⟨large, actual, chosen, fails⟩ := exhausted
      refine ⟨fun unread => unread ?_, False.elim⟩
      exact halted_bind (memalign_check_exhausted absent large chosen fails)
  | mallocAtfork saved sz =>
      by_cases checked : saved = .check
      · subst checked
        obtain ⟨middle, intact, fails⟩ := exhausted
        refine ⟨fun unread => (unread ?_).elim, fun careful => absurd rfl careful⟩
        exact halted_bind (atfork_checked_exhausted absent intact fails)
      · have fails : Fails (intMalloc env (some mainArena) sz) state := by
          simpa [Caller.Exhausted, checked] using exhausted
        obtain ⟨next, ends⟩ := atfork_plain_returns checked fails
        refine iff_of_true ?_ checked
        intro impossible
        unfold Caller.run at impossible
        rw [ends_bind ends] at impossible
        cases impossible

/-- A system that grants metadata and nothing else. -/
def refusingEnv : Env := loneEnv 1 fun question _ =>
  question = .initMetadata ∨ question = .replenishing ∨ question = .metadataAdd

/-- The first `malloc` of the process returns NULL. -/
def refusedWorld : World := ((PublicCall.malloc 8).next refusingEnv ⟨World.initial, 0⟩).world

theorem refused_world_run :
    Evolves (fun _ => True) (fun _ => False) World.initial refusedWorld := by
  apply lone_call refusingEnv 0 (.malloc 8) trivial id rfl
  · decide +kernel
  · exact Evolves.done _ _

def endsWith {Result : Type} [DecidableEq Result] (routine : M Result) (state : State)
    (result : Result) : Bool :=
  match routine.run state with
  | .ok (value, _) => value = result
  | .error _ => false

def stateAfter {Result : Type} (routine : M Result) (state : State) : State :=
  match routine.run state with
  | .ok (_, next) => next
  | .error _ => state

theorem ends_of {Result : Type} [DecidableEq Result] {routine : M Result} {result : Result}
    (ended : endsWith routine state result = true) :
    Ends routine state result (stateAfter routine state) := by
  unfold endsWith at ended
  unfold Ends stateAfter
  cases ran : routine.run state with
  | ok outcome =>
      rw [ran] at ended
      rw [← of_decide_eq_true ended]
  | error why => simp [ran] at ended

theorem refused_calloc_exhausted : CallocExhausted refusingEnv 8 ⟨refusedWorld, 0⟩ :=
  let chosen := stateAfter (arenaGet refusingEnv .calloc) ⟨refusedWorld, 0⟩
  let filled := stateAfter (replenishMetadataCache refusingEnv mainArena) chosen
  Or.inr ⟨mainArena, chosen, filled, ends_of (by decide +kernel), ends_of (by decide +kernel),
    by decide +kernel, _, ends_of (by decide +kernel)⟩

/-- The answer of `malloc_atfork` is not read, that of `calloc` is. -/
theorem refused_answers_unread :
    (((Caller.mallocAtfork .null (2 ^ 64 - 1)).run refusingEnv).run ⟨World.initial, 0⟩ ≠
      .error .absentRecord ↔ (Caller.mallocAtfork .null (2 ^ 64 - 1)).Careful) ∧
    (((Caller.calloc 8).run refusingEnv).run ⟨refusedWorld, 0⟩ ≠
      .error .absentRecord ↔ (Caller.calloc 8).Careful) :=
  ⟨absent_record_unread_iff (.mallocAtfork .null (2 ^ 64 - 1)) refusingEnv ⟨World.initial, 0⟩
    (fun _ => rfl) ⟨⟨World.initial, 0⟩, rfl⟩,
  absent_record_unread_iff (.calloc 8) refusingEnv ⟨refusedWorld, 0⟩ (fun _ => rfl)
    refused_calloc_exhausted⟩

def callocReads (env : Env) (n elemSize : Nat) (state : State) : Bool :=
  match (libcCalloc env n elemSize).run state with
  | .ok _ => false
  | .error why => why = .absentRecord

theorem calloc_reads_eq {n elemSize : Nat} (reads : callocReads env n elemSize state = true) :
    (libcCalloc env n elemSize).run state = .error .absentRecord := by
  unfold callocReads at reads
  cases ran : (libcCalloc env n elemSize).run state with
  | ok result => simp [ran] at reads
  | error why =>
      rw [ran] at reads
      rw [of_decide_eq_true reads]

/-- The `calloc` after it reads the record that it did not get. -/
theorem refused_calloc_reads :
    ¬∀ (env : Env) (world : World) (clock n elemSize : Nat), env.Partial →
      Evolves (fun _ => True) (fun _ => False) World.initial world →
      (libcCalloc env n elemSize).run ⟨world, clock⟩ ≠ .error .absentRecord := by
  intro claimed
  have reads : callocReads refusingEnv 1 8 ⟨refusedWorld, 0⟩ = true := by decide +kernel
  exact claimed refusingEnv refusedWorld 0 1 8 (fun _ => rfl) refused_world_run
    (calloc_reads_eq reads)

end SriGlibcMalloc.EntryPoints
