import SriGlibcMalloc.Outcome.Ensures

/-!
# Routines with a state

A routine reads and writes a state and may fail. Its specification speaks of what
can be seen of the state: a state seen in `before` leads to a result and a state
seen in `after`, or to an allowed failure. The rules follow the text of a `do`
block.
-/

namespace Outcome

set_option autoImplicit false

variable {State Seen Error Value Other : Type}

abbrev Routine (State Error Value : Type) := StateT State (Except Error) Value

def Meets (view : State → Seen) (allowed : Error → Prop) (before : Seen → Prop)
    (routine : Routine State Error Value) (after : Value → Seen → Prop) : Prop :=
  ∀ state, before (view state) →
    Ensures (fun result => after result.1 (view result.2)) allowed (routine.run state)

variable {view : State → Seen} {allowed : Error → Prop} {before : Seen → Prop}
variable {routine : Routine State Error Value} {after : Value → Seen → Prop}

theorem Meets.weaken {sooner : Seen → Prop} {later : Value → Seen → Prop}
    (meets : Meets view allowed before routine after)
    (first : ∀ seen, sooner seen → before seen)
    (last : ∀ value seen, after value seen → later value seen) :
    Meets view allowed sooner routine later := by
  intro state holds
  apply (meets state (first (view state) holds)).weaken
  · intro result
    exact last result.1 (view result.2)
  · intro error permitted
    exact permitted

theorem Meets.from_before {sooner : Seen → Prop}
    (meets : Meets view allowed before routine after)
    (first : ∀ seen, sooner seen → before seen) :
    Meets view allowed sooner routine after :=
  meets.weaken first fun _ _ holds => holds

theorem Meets.to_after {later : Value → Seen → Prop}
    (meets : Meets view allowed before routine after)
    (last : ∀ value seen, after value seen → later value seen) :
    Meets view allowed before routine later :=
  meets.weaken (fun _ holds => holds) last

/-- What follows from the state before may be used in the proof. -/
theorem Meets.assume {fact : Prop} (implied : ∀ seen, before seen → fact)
    (meets : fact → Meets view allowed before routine after) :
    Meets view allowed before routine after := by
  intro state holds
  exact meets (implied (view state) holds) state holds

/-- It is enough to look at each state before on its own. -/
theorem Meets.from_each
    (meets : ∀ seen, before seen → Meets view allowed (fun other => other = seen) routine after) :
    Meets view allowed before routine after := by
  intro state holds
  exact meets (view state) holds state rfl

theorem meets_pure {value : Value} (holds : ∀ seen, before seen → after value seen) :
    Meets view allowed before (pure value : Routine State Error Value) after := by
  intro state initially
  exact holds (view state) initially

theorem meets_throw {error : Error} (permitted : allowed error) :
    Meets view allowed before (throw error : Routine State Error Value) after := by
  intro state _
  exact permitted

theorem Meets.bind {middle : Value → Seen → Prop} {final : Other → Seen → Prop}
    {rest : Value → Routine State Error Other}
    (first : Meets view allowed before routine middle)
    (second : ∀ value, Meets view allowed (middle value) (rest value) final) :
    Meets view allowed before (routine >>= rest) final := by
  intro state holds
  rw [StateT.run_bind]
  apply (first state holds).bind
  intro result reached
  exact second result.1 result.2 reached

/-- A step that only reads: its value is a function of what is seen. -/
theorem Meets.read {final : Other → Seen → Prop} {rest : Value → Routine State Error Other}
    (reads : Seen → Value)
    (reading : ∀ state, routine.run state = .ok (reads (view state), state))
    (second : ∀ value, Meets view allowed
      (fun seen => before seen ∧ reads seen = value) (rest value) final) :
    Meets view allowed before (routine >>= rest) final := by
  intro state holds
  rw [StateT.run_bind, reading state]
  exact second (reads (view state)) state ⟨holds, rfl⟩

theorem meets_if {condition : Prop} [Decidable condition]
    {other : Routine State Error Value}
    (positive : condition → Meets view allowed before routine after)
    (negative : ¬condition → Meets view allowed before other after) :
    Meets view allowed before (if condition then routine else other) after := by
  split
  next holds => exact positive holds
  next fails => exact negative fails

theorem Meets.value {state : State} {result : Value × State}
    (meets : Meets view allowed before routine after) (holds : before (view state))
    (ran : routine.run state = .ok result) : after result.1 (view result.2) :=
  (meets state holds).value ran

end Outcome
