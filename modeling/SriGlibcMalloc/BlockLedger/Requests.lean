import Mathlib.Logic.Function.Basic
import Mathlib.Tactic.SplitIfs

/-!
# What an allocator owes

A ledger says which blocks an allocator has handed out, with their sizes. A request is
served when the block that is handed out or resized is large enough, wastes little, and has
no byte in common with another block. Only an attempt may be refused. Blocks that were
separate stay separate.
-/

namespace BlockLedger

set_option autoImplicit false

abbrev Ledger := Nat → Option Nat

def Separate (ledger : Ledger) : Prop :=
  ∀ p q size size', ledger p = some size → ledger q = some size' → p ≠ q →
    p + size ≤ q ∨ q + size' ≤ p

def Clear (ledger : Ledger) (p size : Nat) : Prop :=
  ∀ q size', ledger q = some size' → p + size ≤ q ∨ q + size' ≤ p

inductive Request
  | allocate (size : Nat)
  /-- An allocation for which there may be no memory. -/
  | attempt (size : Nat)
  | release (p : Nat)
  | resize (p size : Nat)
  /-- The end of a block is released, unless it is too small. -/
  | cut (p size : Nat)
  /-- A block takes in another one, and is resized. -/
  | join (p size : Nat)
  /-- The first part of a block is released. -/
  | behead (p lead : Nat)
  | nothing
  deriving DecidableEq, Repr

/-- The size of the block that is asked for. -/
def Request.wanted : Request → Option Nat
  | .allocate size => some size
  | .attempt size => some size
  | _ => none

/-- Less than `slack` is wasted, and not more when the end of a block is cut off. -/
inductive Serves (slack : Nat) : Request → Ledger → Ledger → Prop
  | allocate {ledger : Ledger} {p size requested : Nat} (enough : requested ≤ size)
      (frugal : size < requested + slack) (clear : Clear ledger p size) :
      Serves slack (.allocate requested) ledger (Function.update ledger p (some size))
  | attempt {ledger after : Ledger} {requested : Nat}
      (served : Serves slack (.allocate requested) ledger after) :
      Serves slack (.attempt requested) ledger after
  | refuse {ledger : Ledger} {requested : Nat} :
      Serves slack (.attempt requested) ledger ledger
  | release {ledger : Ledger} {p size : Nat} (owed : ledger p = some size) :
      Serves slack (.release p) ledger (Function.update ledger p none)
  | resize {ledger : Ledger} {p old size requested : Nat} (owed : ledger p = some old)
      (enough : requested ≤ size) (frugal : size < requested + slack)
      (clear : Clear (Function.update ledger p none) p size) :
      Serves slack (.resize p requested) ledger (Function.update ledger p (some size))
  | cut {ledger : Ledger} {p old size requested : Nat} (owed : ledger p = some old)
      (enough : requested ≤ size) (frugal : size ≤ requested + slack) (inside : size ≤ old) :
      Serves slack (.cut p requested) ledger (Function.update ledger p (some size))
  | join {ledger : Ledger} {p other old old' size requested : Nat} (owed : ledger p = some old)
      (owed' : ledger other = some old') (enough : requested ≤ size)
      (frugal : size < requested + slack)
      (clear : Clear (Function.update (Function.update ledger other none) p none) p size) :
      Serves slack (.join p requested) ledger
        (Function.update (Function.update ledger other none) p (some size))
  | behead {ledger : Ledger} {p size lead : Nat} (owed : ledger p = some size)
      (inside : lead ≤ size) :
      Serves slack (.behead p lead) ledger
        (Function.update (Function.update ledger p none) (p + lead) (some (size - lead)))
  | nothing {ledger : Ledger} : Serves slack .nothing ledger ledger

variable {ledger after : Ledger} {p q size size' slack : Nat} {request : Request}

theorem separate_empty : Separate fun _ => none := by
  intro p q size size' listed
  cases listed

theorem Separate.remove (separate : Separate ledger) :
    Separate (Function.update ledger p none) := by
  intro q r size size' listed listed' differs
  rw [Function.update_apply] at listed listed'
  split_ifs at listed listed'
  exact separate q r size size' listed listed' differs

theorem Clear.remove (clear : Clear ledger p size) : Clear (Function.update ledger q none) p size := by
  intro r size' listed
  rw [Function.update_apply] at listed
  split_ifs at listed
  exact clear r size' listed

theorem Separate.add (separate : Separate ledger) (clear : Clear (Function.update ledger p none) p size) :
    Separate (Function.update ledger p (some size)) := by
  have others {q size' : Nat} (differs : q ≠ p) (listed : ledger q = some size') :
      p + size ≤ q ∨ q + size' ≤ p :=
    clear q size' (by rw [Function.update_of_ne differs]; exact listed)
  intro q r size' size'' listed listed' differs
  rw [Function.update_apply] at listed listed'
  split_ifs at listed listed' with first second second
  · exact absurd (first.trans second.symm) differs
  · cases listed
    rw [first]
    exact others second listed'
  · cases listed'
    rw [second]
    exact (others first listed).symm
  · exact separate q r size' size'' listed listed' differs

theorem clear_of_separate (separate : Separate (Function.update ledger p (some size))) :
    Clear (Function.update ledger p none) p size := by
  intro q size' listed
  rw [Function.update_apply] at listed
  split_ifs at listed with own
  refine separate p q size size' (Function.update_self _ _ _) ?_ (Ne.symm own)
  rw [Function.update_of_ne own]
  exact listed

theorem clear_of_unowed (absent : ledger p = none)
    (separate : Separate (Function.update ledger p (some size))) : Clear ledger p size := by
  have clear := clear_of_separate separate
  rw [Function.update_eq_self_iff.mpr absent.symm] at clear
  exact clear

theorem Separate.shrink {old : Nat} (separate : Separate ledger) (owed : ledger p = some old)
    (inside : size ≤ old) : Separate (Function.update ledger p (some size)) := by
  apply separate.add
  intro q size' listed
  rw [Function.update_apply] at listed
  split_ifs at listed with own
  have apart := separate p q old size' owed listed (Ne.symm own)
  omega

/-- A served request keeps blocks separate. -/
theorem Serves.separate (serves : Serves slack request ledger after) (separate : Separate ledger) :
    Separate after := by
  induction serves with
  | allocate enough frugal clear => exact separate.add clear.remove
  | attempt served ih => exact ih separate
  | refuse => exact separate
  | release owed => exact separate.remove
  | resize owed enough frugal clear => exact separate.add clear
  | cut owed enough frugal inside => exact separate.shrink owed inside
  | join owed owed' enough frugal clear => exact separate.remove.add clear
  | behead owed inside =>
      refine separate.remove.add ?_
      intro r size' listed
      rw [Function.update_apply] at listed
      split_ifs at listed
      rw [Function.update_apply] at listed
      split_ifs at listed with own
      have apart := separate _ r _ size' owed listed (Ne.symm own)
      omega
  | nothing => exact separate

end BlockLedger
