import Mathlib.Logic.Basic

/-!
# Postconditions of a computation that may fail

`Ensures post allowed run` says what a result of `run` satisfies and which
failures it may end in. The rules below are the ones a proof follows along the
text of a `do` block.
-/

namespace Outcome

set_option autoImplicit false

variable {Error Value Other : Type}

def Ensures (post : Value → Prop) (allowed : Error → Prop) : Except Error Value → Prop
  | .ok value => post value
  | .error error => allowed error

variable {post middle : Value → Prop} {allowed permitted : Error → Prop}
variable {run : Except Error Value}

@[simp] theorem ensures_ok {value : Value} :
    Ensures post allowed (Except.ok value : Except Error Value) ↔ post value := Iff.rfl

@[simp] theorem ensures_error {error : Error} :
    Ensures post allowed (Except.error error : Except Error Value) ↔ allowed error := Iff.rfl

theorem ensures_of_ok {value : Value} (result : run = .ok value) (holds : post value) :
    Ensures post allowed run := by
  rw [result]
  exact holds

theorem Ensures.value {value : Value} (spec : Ensures post allowed run)
    (result : run = .ok value) : post value := by
  rw [result] at spec
  exact spec

theorem Ensures.failure {error : Error} (spec : Ensures post allowed run)
    (result : run = .error error) : allowed error := by
  rw [result] at spec
  exact spec

theorem Ensures.weaken (spec : Ensures middle permitted run)
    (results : ∀ value, middle value → post value)
    (failures : ∀ error, permitted error → allowed error) : Ensures post allowed run := by
  cases run with
  | ok value => exact results value spec
  | error error => exact failures error spec

theorem Ensures.allowing (spec : Ensures post permitted run)
    (failures : ∀ error, permitted error → allowed error) : Ensures post allowed run :=
  spec.weaken (fun _ holds => holds) failures

theorem Ensures.both (first : Ensures post permitted run) (second : Ensures middle allowed run) :
    Ensures (fun value => post value ∧ middle value) allowed run := by
  cases run with
  | ok value => exact ⟨first, second⟩
  | error error => exact second

theorem Ensures.bind {final : Other → Prop} {rest : Value → Except Error Other}
    (first : Ensures middle allowed run)
    (second : ∀ value, middle value → Ensures final allowed (rest value)) :
    Ensures final allowed (run >>= rest) := by
  cases run with
  | ok value => exact second value first
  | error error => exact first

/-- A run that cannot end in an allowed failure returns a value. -/
theorem Ensures.returns (spec : Ensures post allowed run) (impossible : ∀ error, ¬allowed error) :
    ∃ value, run = .ok value ∧ post value := by
  cases run with
  | ok value => exact ⟨value, rfl, spec⟩
  | error error => exact absurd spec (impossible error)

end Outcome
