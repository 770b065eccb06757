/-!
# Runs of a deterministic step function

A system takes one action after the other; an action that is not enabled, or
that ends the process, has no next state. A run may be asked to meet a
condition on each action in the state the action is taken in.
-/

namespace Transition

set_option autoImplicit false

variable {State Action : Type}

def run (step : State → Action → Option State) : State → List Action → Option State
  | state, [] => some state
  | state, action :: later => (step state action).bind fun next => run step next later

/-- Every action of the run is permitted in the state it is taken in. -/
def Permitted (step : State → Action → Option State) (permit : State → Action → Prop) :
    State → List Action → Prop
  | _, [] => True
  | state, action :: later =>
      permit state action ∧
        ∀ next, step state action = some next → Permitted step permit next later

instance permittedDecidable (step : State → Action → Option State)
    (permit : State → Action → Prop) [∀ state action, Decidable (permit state action)] :
    ∀ state actions, Decidable (Permitted step permit state actions)
  | _, [] => inferInstanceAs (Decidable True)
  | state, action :: later =>
      have onward : Decidable (∀ next, step state action = some next →
          Permitted step permit next later) :=
        match step state action with
        | none => .isTrue fun _ impossible => by cases impossible
        | some next =>
            have := permittedDecidable step permit next later
            decidable_of_iff (Permitted step permit next later)
              ⟨fun holds _ same => by cases same; exact holds, fun all => all next rfl⟩
      inferInstanceAs (Decidable (_ ∧ _))

variable {step : State → Action → Option State} {permit : State → Action → Prop}
variable {state final : State} {action : Action} {later : List Action}

theorem run_cons (ran : run step state (action :: later) = some final) :
    ∃ next, step state action = some next ∧ run step next later = some final := by
  rw [run, Option.bind_eq_some_iff] at ran
  exact ran

/-- What the start satisfies and every permitted action preserves holds at the
end of a permitted run. -/
theorem run_invariant {invariant : State → Prop}
    (preserved : ∀ state action next, invariant state → permit state action →
      step state action = some next → invariant next)
    (actions : List Action) (start final : State) (initially : invariant start)
    (permitted : Permitted step permit start actions)
    (ran : run step start actions = some final) : invariant final := by
  induction actions generalizing start with
  | nil =>
      cases ran
      exact initially
  | cons action later ih =>
      obtain ⟨next, stepped, rest⟩ := run_cons ran
      have holds := preserved start action next initially permitted.1 stepped
      exact ih next holds (permitted.2 next stepped) rest

/-- What the start satisfies and every action preserves holds at the end of a run. -/
theorem run_preserves {invariant : State → Prop}
    (preserved : ∀ state action next, invariant state → step state action = some next →
      invariant next)
    (actions : List Action) (start final : State) (initially : invariant start)
    (ran : run step start actions = some final) : invariant final := by
  induction actions generalizing start with
  | nil =>
      cases ran
      exact initially
  | cons action later ih =>
      obtain ⟨next, stepped, rest⟩ := run_cons ran
      exact ih next (preserved start action next initially stepped) rest

/-- A permitted run goes through when every permitted action has a next state that
satisfies the invariant, which may speak of the number of actions taken. -/
theorem run_goes_through (invariant : Nat → State → Prop) (bound : Nat)
    (progress : ∀ count state action, count < bound → invariant count state →
      permit state action → ∃ next, step state action = some next ∧ invariant (count + 1) next)
    (actions : List Action) (start : State) (count : Nat)
    (enough : count + actions.length ≤ bound) (initially : invariant count start)
    (permitted : Permitted step permit start actions) :
    ∃ final, run step start actions = some final ∧ invariant (count + actions.length) final := by
  induction actions generalizing start count with
  | nil => exact ⟨start, rfl, initially⟩
  | cons action later ih =>
      rw [List.length_cons] at enough
      obtain ⟨next, stepped, holds⟩ :=
        progress count start action (by omega) initially permitted.1
      obtain ⟨final, ran, finally'⟩ :=
        ih next (count + 1) (by omega) holds (permitted.2 next stepped)
      refine ⟨final, ?_, ?_⟩
      · rw [run, stepped]
        exact ran
      · rw [List.length_cons, ← Nat.add_assoc, Nat.add_right_comm]
        exact finally'

/-- A run of what is seen of a wider state is a run of the wider system, when every permitted
action is one that the wider system can take. -/
theorem run_lifts {Wide : Type} {wide : Wide → Action → Option Wide}
    {allow : Wide → Action → Prop} (view : Wide → State) (invariant : Wide → Prop)
    (lifts : ∀ state action next, invariant state → allow state action →
      step (view state) action = some next →
        ∃ after, wide state action = some after ∧ view after = next ∧ invariant after)
    (actions : List Action) (start : Wide) (final : State) (initially : invariant start)
    (permitted : Permitted wide allow start actions)
    (ran : run step (view start) actions = some final) :
    ∃ after, run wide start actions = some after ∧ view after = final ∧ invariant after := by
  induction actions generalizing start with
  | nil =>
      cases ran
      exact ⟨start, rfl, rfl, initially⟩
  | cons action later ih =>
      obtain ⟨next, stepped, rest⟩ := run_cons ran
      obtain ⟨middle, moved, seen, holds⟩ :=
        lifts start action next initially permitted.1 stepped
      rw [← seen] at rest
      obtain ⟨after, moves, finally'⟩ := ih middle holds (permitted.2 middle moved) rest
      refine ⟨after, ?_, finally'⟩
      rw [run, moved]
      exact moves

/-- A loop over the first numbers that may stop, by an invariant of its rounds. -/
theorem loop_invariant {round : State → Nat → Option State} (invariant : Nat → State → Prop)
    (count : Nat) (start : State) (initially : invariant 0 start)
    (each : ∀ index state, index < count → invariant index state →
      ∃ next, round state index = some next ∧ invariant (index + 1) next) :
    ∃ final, (List.range count).foldlM round start = some final ∧ invariant count final := by
  induction count with
  | zero => exact ⟨start, rfl, initially⟩
  | succ count ih =>
      obtain ⟨state, ran, holds⟩ := ih (fun index state bound => each index state (by omega))
      obtain ⟨next, stepped, finally'⟩ := each count state (Nat.lt_succ_self count) holds
      refine ⟨next, ?_, finally'⟩
      rw [List.range_succ, List.foldlM_append, ran]
      simp [stepped]

theorem permitted_concat {actions : List Action}
    (permitted : Permitted step permit state (actions ++ [action])) :
    Permitted step permit state actions ∧
      ∀ final, run step state actions = some final → permit final action := by
  induction actions generalizing state with
  | nil =>
      refine ⟨trivial, ?_⟩
      intro final ran
      cases ran
      exact permitted.1
  | cons first rest ih =>
      constructor
      · refine ⟨permitted.1, ?_⟩
        intro next stepped
        exact (ih (permitted.2 next stepped)).1
      · intro final ran
        obtain ⟨next, stepped, later⟩ := run_cons ran
        exact (ih (permitted.2 next stepped)).2 final later

theorem Permitted.imp {allow : State → Action → Prop} {actions : List Action}
    (permitted : Permitted step permit state actions)
    (weaker : ∀ state action, permit state action → allow state action) :
    Permitted step allow state actions := by
  induction actions generalizing state with
  | nil => trivial
  | cons action later ih =>
      exact ⟨weaker state action permitted.1,
        fun next stepped => ih (permitted.2 next stepped)⟩

theorem permitted_append {actions : List Action} (permitted : Permitted step permit state actions)
    (rest : ∀ final, run step state actions = some final → Permitted step permit final later) :
    Permitted step permit state (actions ++ later) := by
  induction actions generalizing state with
  | nil => exact rest state rfl
  | cons action actions ih =>
      refine ⟨permitted.1, fun next stepped => ih (permitted.2 next stepped) ?_⟩
      intro final ran
      apply rest final
      rw [run, stepped]
      exact ran

end Transition
