import Mathlib.Data.List.Basic
import Mathlib.Data.List.Nodup

/-!
# Keyed stacks

A keyed stack is a list of entries, newest first; the stack of one key is what
its entries hold. This is the abstract behaviour of a hash table that allows
several values for one key and serves the latest first.
-/

namespace KeyedStack

set_option autoImplicit false

variable {Key Value : Type} [DecidableEq Key]

abbrev Entries (Key Value : Type) := List (Key × Value)

def stack (entries : Entries Key Value) (key : Key) : List Value :=
  (entries.filter fun entry => entry.1 = key).map fun entry => entry.2

def push (entries : Entries Key Value) (key : Key) (value : Value) : Entries Key Value :=
  (key, value) :: entries

def pop (entries : Entries Key Value) (key : Key) : Entries Key Value :=
  entries.eraseP fun entry => entry.1 = key

def popAll (entries : Entries Key Value) (key : Key) : Entries Key Value :=
  entries.filter fun entry => entry.1 ≠ key

variable {entries : Entries Key Value} {key other : Key} {value : Value}

theorem mem_stack : value ∈ stack entries key ↔ (key, value) ∈ entries := by
  simp [stack]

@[simp] theorem stack_push_same :
    stack (push entries key value) key = value :: stack entries key := by
  simp [stack, push]

theorem stack_push_other (different : other ≠ key) :
    stack (push entries key value) other = stack entries other := by
  simp [stack, push, Ne.symm different]

theorem stack_pop_same : stack (pop entries key) key = (stack entries key).tail := by
  induction entries with
  | nil => rfl
  | cons entry entries ih =>
      by_cases same : entry.1 = key
      · simp [stack, pop, same]
      · simpa [stack, pop, same] using ih

theorem stack_pop_other (different : other ≠ key) :
    stack (pop entries key) other = stack entries other := by
  induction entries with
  | nil => rfl
  | cons entry entries ih =>
      by_cases same : entry.1 = key
      · simp [stack, pop, same, Ne.symm different]
      · by_cases mine : entry.1 = other
        · simpa [stack, pop, same, mine, different] using ih
        · simpa [stack, pop, same, mine] using ih

theorem pop_empty (empty : stack entries key = []) : pop entries key = entries := by
  apply List.eraseP_of_forall_not
  intro entry member same
  have found : entry.2 ∈ stack entries key := by
    rw [mem_stack, ← of_decide_eq_true same]
    exact member
  rw [empty] at found
  cases found

theorem length_pop (found : stack entries key ≠ []) :
    (pop entries key).length + 1 = entries.length := by
  induction entries with
  | nil => exact absurd rfl found
  | cons entry entries ih =>
      by_cases same : entry.1 = key
      · simp [pop, same]
      · have deeper : stack entries key ≠ [] := by
          simpa [stack, same] using found
        simpa [pop, same] using ih deeper

@[simp] theorem stack_pop_all_same : stack (popAll entries key) key = [] := by
  simp [stack, popAll]

theorem stack_pop_all_other (different : other ≠ key) :
    stack (popAll entries key) other = stack entries other := by
  simp only [stack, popAll, List.filter_filter]
  congr 1
  apply List.filter_congr
  intro entry _
  by_cases mine : entry.1 = other
  · simp [mine, different]
  · simp [mine]

theorem length_pop_all :
    (popAll entries key).length + (stack entries key).length = entries.length := by
  have parts := List.length_eq_length_filter_add (l := entries) (fun entry => entry.1 = key)
  simp only [popAll, stack, List.length_map, ne_eq, decide_not]
  omega

/-- Values are distinct when no stack repeats one and no value has two keys. -/
theorem nodup_values (within : ∀ key, (stack entries key).Nodup)
    (owner : ∀ left right value, (left, value) ∈ entries → (right, value) ∈ entries →
      left = right) :
    (entries.map fun entry => entry.2).Nodup := by
  induction entries with
  | nil => exact List.nodup_nil
  | cons entry entries ih =>
      obtain ⟨key, value⟩ := entry
      rw [List.map_cons, List.nodup_cons]
      constructor
      · intro again
        obtain ⟨⟨other, same⟩, member, equal⟩ := List.mem_map.mp again
        change same = value at equal
        subst equal
        have sameKey := owner key other same (by simp) (by simp [member])
        subst sameKey
        have head := within key
        rw [show (key, same) :: entries = push entries key same from rfl, stack_push_same,
          List.nodup_cons] at head
        exact head.1 (mem_stack.mpr member)
      · apply ih
        · intro other
          refine (within other).sublist ?_
          exact List.Sublist.map _ (List.Sublist.filter _ (List.sublist_cons_self _ _))
        · intro left right same inLeft inRight
          exact owner left right same (by simp [inLeft]) (by simp [inRight])

theorem values_pop (entries : Entries Key Value) (key : Key) :
    (entries.map fun entry => entry.2).Perm
      ((stack entries key).take 1 ++ (pop entries key).map fun entry => entry.2) := by
  induction entries with
  | nil => exact List.Perm.refl []
  | cons entry entries ih =>
      by_cases same : entry.1 = key
      · simp [stack, pop, same]
      · have kept : stack (entry :: entries) key = stack entries key := by simp [stack, same]
        have rest : pop (entry :: entries) key = entry :: pop entries key := by simp [pop, same]
        rw [kept, rest, List.map_cons, List.map_cons]
        exact (ih.cons entry.2).trans List.perm_middle.symm

theorem values_pop_all (entries : Entries Key Value) (key : Key) :
    (entries.map fun entry => entry.2).Perm
      (stack entries key ++ (popAll entries key).map fun entry => entry.2) := by
  induction entries with
  | nil => exact List.Perm.refl []
  | cons entry entries ih =>
      by_cases same : entry.1 = key
      · have head : stack (entry :: entries) key = entry.2 :: stack entries key := by
          simp [stack, same]
        have rest : popAll (entry :: entries) key = popAll entries key := by simp [popAll, same]
        rw [head, rest, List.map_cons]
        exact ih.cons entry.2
      · have kept : stack (entry :: entries) key = stack entries key := by simp [stack, same]
        have rest : popAll (entry :: entries) key = entry :: popAll entries key := by
          simp [popAll, same]
        rw [kept, rest, List.map_cons, List.map_cons]
        exact (ih.cons entry.2).trans List.perm_middle.symm

theorem mem_of_mem_pop {entry : Key × Value} (member : entry ∈ pop entries key) :
    entry ∈ entries := List.mem_of_mem_eraseP member

theorem mem_of_mem_pop_all {entry : Key × Value} (member : entry ∈ popAll entries key) :
    entry ∈ entries := (List.mem_filter.mp member).1

section Revalued

variable {Other : Type} {revalue : Value → Other}

theorem stack_map (entries : Entries Key Value) (key : Key) :
    stack (entries.map fun entry => (entry.1, revalue entry.2)) key =
      (stack entries key).map revalue := by
  simp [stack, List.filter_map, Function.comp_def]

theorem pop_map (entries : Entries Key Value) (key : Key) :
    pop (entries.map fun entry => (entry.1, revalue entry.2)) key =
      (pop entries key).map fun entry => (entry.1, revalue entry.2) := by
  simp [pop, List.eraseP_map, Function.comp_def]

theorem pop_all_map (entries : Entries Key Value) (key : Key) :
    popAll (entries.map fun entry => (entry.1, revalue entry.2)) key =
      (popAll entries key).map fun entry => (entry.1, revalue entry.2) := by
  simp [popAll, List.filter_map, Function.comp_def]

end Revalued

end KeyedStack
