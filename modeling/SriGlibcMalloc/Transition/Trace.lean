import SriGlibcMalloc.Transition.Run

/-!
# Runs of a relation

What is seen of the states of a run may itself go through a run, of a relation that says
what each action may do to it.
-/

namespace Transition

set_option autoImplicit false

variable {State Action Seen : Type}

inductive Traced (moves : Action → Seen → Seen → Prop) : Seen → List Action → Seen → Prop
  | nil (seen : Seen) : Traced moves seen [] seen
  | cons {seen next last : Seen} {action : Action} {later : List Action}
      (moved : moves action seen next) (others : Traced moves next later last) :
      Traced moves seen (action :: later) last

variable {moves : Action → Seen → Seen → Prop} {start final : Seen} {actions : List Action}

theorem Traced.preserves {invariant : Seen → Prop} (traced : Traced moves start actions final)
    (preserved : ∀ action seen next, invariant seen → moves action seen next → invariant next)
    (initially : invariant start) : invariant final := by
  induction traced with
  | nil => exact initially
  | cons moved _ ih => exact ih (preserved _ _ _ initially moved)

theorem Traced.rename {Other : Type} {moves' : Other → Seen → Seen → Prop} {name : Action → Other}
    (traced : Traced (fun action => moves' (name action)) start actions final) :
    Traced moves' start (actions.map name) final := by
  induction traced with
  | nil => exact .nil _
  | cons moved _ ih => exact .cons moved ih

theorem run_traced {step : State → Action → Option State} {permit : State → Action → Prop}
    {invariant : State → Prop} {view : State → Seen}
    (simulated : ∀ state action next, invariant state → permit state action →
      step state action = some next → invariant next ∧ moves action (view state) (view next))
    (actions : List Action) (start final : State) (initially : invariant start)
    (permitted : Permitted step permit start actions)
    (ran : run step start actions = some final) :
    invariant final ∧ Traced moves (view start) actions (view final) := by
  induction actions generalizing start with
  | nil =>
      cases ran
      exact ⟨initially, .nil _⟩
  | cons action later ih =>
      obtain ⟨next, stepped, rest⟩ := run_cons ran
      obtain ⟨holds, moved⟩ := simulated start action next initially permitted.1 stepped
      obtain ⟨finally', traced⟩ := ih next holds (permitted.2 next stepped) rest
      exact ⟨finally', .cons moved traced⟩

end Transition
