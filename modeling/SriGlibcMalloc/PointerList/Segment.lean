import Mathlib.Data.List.Basic
import Mathlib.Data.List.Nodup
import Mathlib.Logic.Function.Basic

/-!
# Singly linked lists in a pointer map

A memory of list nodes is a map `next` from a node to the pointer it stores.
`Segment next start nodes stop` says which nodes are met on the way from one
pointer to another; `Chain` is the segment that ends at the null pointer.
Everything here is about an arbitrary node type.
-/

namespace PointerList

set_option autoImplicit false

variable {Node : Type*}

/-- Following `next` from `start` visits exactly `nodes`, in order, and then
arrives at `stop`. -/
def Segment (next : Node → Option Node) : Option Node → List Node → Option Node → Prop
  | start, [], stop => start = stop
  | start, node :: nodes, stop => start = some node ∧ Segment next (next node) nodes stop

abbrev Chain (next : Node → Option Node) (start : Option Node) (nodes : List Node) : Prop :=
  Segment next start nodes none

variable {next other : Node → Option Node} {start stop : Option Node}
variable {nodes front back : List Node}

@[simp] theorem segment_nil : Segment next start [] stop ↔ start = stop := Iff.rfl

@[simp] theorem segment_cons {node : Node} :
    Segment next start (node :: nodes) stop ↔
      start = some node ∧ Segment next (next node) nodes stop := Iff.rfl

theorem segment_append :
    Segment next start (front ++ back) stop ↔
      ∃ middle, Segment next start front middle ∧ Segment next middle back stop := by
  induction front generalizing start with
  | nil => simp
  | cons node front ih =>
      simp only [List.cons_append, segment_cons, ih]
      constructor
      · rintro ⟨atNode, middle, left, right⟩
        exact ⟨middle, ⟨atNode, left⟩, right⟩
      · rintro ⟨middle, ⟨atNode, left⟩, right⟩
        exact ⟨atNode, middle, left, right⟩

/-- The frame rule: a segment only depends on the pointers its own nodes store. -/
theorem segment_frame (same : ∀ node ∈ nodes, other node = next node)
    (segment : Segment next start nodes stop) : Segment other start nodes stop := by
  induction nodes generalizing start with
  | nil => exact segment
  | cons node nodes ih =>
      obtain ⟨atNode, rest⟩ := segment
      refine ⟨atNode, ?_⟩
      rw [same node (by simp)]
      exact ih (fun later member => same later (by simp [member])) rest

variable [DecidableEq Node]

theorem segment_update_frame {node : Node} {target : Option Node} (absent : node ∉ nodes)
    (segment : Segment next start nodes stop) :
    Segment (Function.update next node target) start nodes stop := by
  apply segment_frame _ segment
  intro later member
  have different : later ≠ node := by
    intro equal
    exact absent (equal ▸ member)
  exact Function.update_of_ne different _ _

/-- Redirecting the last node moves the end of the segment. -/
theorem segment_update_last {last : Node} {target : Option Node} (absent : last ∉ front)
    (segment : Segment next start (front ++ [last]) stop) :
    Segment (Function.update next last target) start (front ++ [last]) target := by
  obtain ⟨middle, left, tail⟩ := segment_append.mp segment
  refine segment_append.mpr ⟨middle, segment_update_frame absent left, tail.1, ?_⟩
  simp

omit [DecidableEq Node]

theorem chain_none (chain : Chain next none nodes) : nodes = [] := by
  cases nodes with
  | nil => rfl
  | cons node nodes => cases chain.1

theorem chain_start (chain : Chain next start nodes) : start = nodes.head? := by
  cases nodes with
  | nil => exact chain
  | cons node nodes => exact chain.1

/-- The nodes met from `start` in at most `fuel` steps. -/
def walk (next : Node → Option Node) : Nat → Option Node → List Node
  | 0, _ => []
  | _ + 1, none => []
  | fuel + 1, some node => node :: walk next fuel (next node)

theorem walk_of_chain {fuel : Nat} (chain : Chain next start nodes)
    (enough : nodes.length ≤ fuel) : walk next fuel start = nodes := by
  induction nodes generalizing start fuel with
  | nil =>
      have atEnd : start = none := chain
      subst atEnd
      cases fuel <;> rfl
  | cons node nodes ih =>
      obtain ⟨atNode, rest⟩ := chain
      subst atNode
      cases fuel with
      | zero => simp at enough
      | succ fuel =>
          simp only [List.length_cons, Nat.succ_le_succ_iff] at enough
          rw [walk, ih rest enough]

end PointerList
