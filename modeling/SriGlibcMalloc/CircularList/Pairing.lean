import Mathlib.Data.Set.Insert
import SriGlibcMalloc.CircularList.Ring

/-!
# Pointers that come in pairs

Two pointer maps, `next` and `prev`, on a set of nodes, of which some have pointers and the
others have `null`. Where a pointer leads to, one leads back, so that the nodes with pointers
fall into rings. Nothing is said of how many rings there are, or in what order.
-/

namespace CircularList

set_option autoImplicit false

variable {Node : Type*}

/-- A node with pointers leads to nodes with pointers, which lead back to it. -/
structure Paired (null : Node) (next prev : Node → Node) (nodes : Set Node) : Prop where
  proper : null ∉ nodes
  onward : ∀ node ∈ nodes, next node ≠ null →
    next node ∈ nodes ∧ next (next node) ≠ null ∧ prev (next node) = node
  backward : ∀ node ∈ nodes, next node ≠ null → prev node ∈ nodes ∧ next (prev node) = node

variable {null : Node} {next prev next' prev' : Node → Node} {nodes : Set Node}
variable {node fresh fwd target : Node}

theorem Paired.not_null (paired : Paired null next prev nodes) (member : node ∈ nodes) :
    node ≠ null := by
  rintro rfl
  exact paired.proper member

theorem Paired.frame (paired : Paired null next prev nodes)
    (onward : ∀ node ∈ nodes, next' node = next node)
    (backward : ∀ node ∈ nodes, prev' node = prev node) : Paired null next' prev' nodes where
  proper := paired.proper
  onward := by
    intro node member used
    rw [onward node member] at used ⊢
    obtain ⟨inside, further, back⟩ := paired.onward node member used
    rw [onward _ inside, backward _ inside]
    exact ⟨inside, further, back⟩
  backward := by
    intro node member used
    rw [onward node member] at used
    obtain ⟨inside, ahead⟩ := paired.backward node member used
    rw [backward node member, onward _ inside]
    exact ⟨inside, ahead⟩

theorem seek_invariant {step : Node → Node} {found : Node → Bool} {holds : Node → Prop}
    {fuel : Nat} (keeps : ∀ node, holds node → holds (step node)) (start : holds node)
    (stopped : seek step found fuel node = some target) : holds target ∧ found target = true := by
  induction fuel generalizing node with
  | zero => cases stopped
  | succ fuel ih =>
      rw [seek] at stopped
      split_ifs at stopped with here
      · cases stopped
        exact ⟨start, here⟩
      · exact ih (keeps node start) stopped

theorem Paired.seek_onward (paired : Paired null next prev nodes) {found : Node → Bool}
    {fuel : Nat} (start : node ∈ nodes ∧ next node ≠ null)
    (stopped : seek next found fuel node = some target) :
    (target ∈ nodes ∧ next target ≠ null) ∧ found target = true := by
  have keeps : ∀ node, node ∈ nodes ∧ next node ≠ null →
      next node ∈ nodes ∧ next (next node) ≠ null := by
    intro node used
    obtain ⟨inside, further, _⟩ := paired.onward node used.1 used.2
    exact ⟨inside, further⟩
  exact seek_invariant keeps start stopped

theorem Paired.seek_backward (paired : Paired null next prev nodes) {found : Node → Bool}
    {fuel : Nat} (start : node ∈ nodes ∧ next node ≠ null)
    (stopped : seek prev found fuel node = some target) :
    (target ∈ nodes ∧ next target ≠ null) ∧ found target = true := by
  have keeps : ∀ node, node ∈ nodes ∧ next node ≠ null →
      prev node ∈ nodes ∧ next (prev node) ≠ null := by
    intro node used
    obtain ⟨inside, ahead⟩ := paired.backward node used.1 used.2
    rw [ahead]
    exact ⟨inside, paired.not_null used.1⟩
  exact seek_invariant keeps start stopped

theorem Paired.idle (paired : Paired null next prev nodes) (unused : next fresh = null)
    (proper : fresh ≠ null) : Paired null next prev (insert fresh nodes) where
  proper := by
    rintro (same | member)
    · exact proper same.symm
    · exact paired.proper member
  onward := by
    rintro node (rfl | member) used
    · exact absurd unused used
    · obtain ⟨inside, rest⟩ := paired.onward node member used
      exact ⟨Or.inr inside, rest⟩
  backward := by
    rintro node (rfl | member) used
    · exact absurd unused used
    · obtain ⟨inside, rest⟩ := paired.backward node member used
      exact ⟨Or.inr inside, rest⟩

theorem Paired.drop (paired : Paired null next prev nodes) (unused : next node = null) :
    Paired null next prev (nodes \ {node}) where
  proper := fun member => paired.proper member.1
  onward := by
    rintro other ⟨member, _⟩ used
    obtain ⟨inside, further, back⟩ := paired.onward other member used
    refine ⟨⟨inside, ?_⟩, further, back⟩
    rintro rfl
    exact further unused
  backward := by
    rintro other ⟨member, _⟩ used
    obtain ⟨inside, ahead⟩ := paired.backward other member used
    refine ⟨⟨inside, ?_⟩, ahead⟩
    intro same
    rw [Set.mem_singleton_iff.mp same, unused] at ahead
    exact paired.not_null member ahead.symm

variable [DecidableEq Node]

theorem Paired.own (paired : Paired null next prev nodes)
    (unused : fresh ∈ nodes → next fresh = null) (proper : fresh ≠ null) :
    Paired null (Function.update next fresh fresh) (Function.update prev fresh fresh)
      (insert fresh nodes) where
  proper := by
    rintro (same | member)
    · exact proper same.symm
    · exact paired.proper member
  onward := by
    rintro node (rfl | member) used
    · rw [Function.update_self, Function.update_self, Function.update_self]
      exact ⟨Or.inl rfl, proper, rfl⟩
    · by_cases same : node = fresh
      · rw [same, Function.update_self, Function.update_self, Function.update_self]
        exact ⟨Or.inl rfl, proper, rfl⟩
      · rw [Function.update_of_ne same] at used ⊢
        obtain ⟨inside, further, back⟩ := paired.onward node member used
        have away : next node ≠ fresh := by
          rintro equal
          rw [equal] at inside further
          exact further (unused inside)
        rw [Function.update_of_ne away, Function.update_of_ne away]
        exact ⟨Or.inr inside, further, back⟩
  backward := by
    rintro node (rfl | member) used
    · rw [Function.update_self, Function.update_self]
      exact ⟨Or.inl rfl, rfl⟩
    · by_cases same : node = fresh
      · rw [same, Function.update_self, Function.update_self]
        exact ⟨Or.inl rfl, rfl⟩
      · rw [Function.update_of_ne same] at used ⊢
        obtain ⟨inside, ahead⟩ := paired.backward node member used
        have away : prev node ≠ fresh := by
          rintro equal
          rw [equal] at inside ahead
          rw [unused inside] at ahead
          exact paired.not_null member ahead.symm
        rw [Function.update_of_ne away]
        exact ⟨Or.inr inside, ahead⟩

theorem Paired.insert (paired : Paired null next prev nodes)
    (unused : fresh ∈ nodes → next fresh = null) (proper : fresh ≠ null) (member : fwd ∈ nodes)
    (used : next fwd ≠ null) :
    Paired null (Function.update (Function.update next fresh fwd) (prev fwd) fresh)
      (Function.update (Function.update prev fresh (prev fwd)) fwd fresh)
      (Insert.insert fresh nodes) := by
  obtain ⟨before, ahead⟩ := paired.backward fwd member used
  have differs : fwd ≠ fresh := by
    rintro rfl
    exact used (unused member)
  have apart : prev fwd ≠ fresh := by
    intro same
    rw [same] at before ahead
    rw [unused before] at ahead
    exact paired.not_null member ahead.symm
  have notNull := paired.not_null member
  -- The node itself, the one before it, and the others.
  have atFresh : Function.update (Function.update next fresh fwd) (prev fwd) fresh fresh = fwd := by
    rw [Function.update_of_ne apart.symm, Function.update_self]
  have others : ∀ node ∈ nodes, node ≠ fresh → node ≠ prev fwd →
      Function.update (Function.update next fresh fwd) (prev fwd) fresh node = next node := by
    intro node _ away further
    rw [Function.update_of_ne further, Function.update_of_ne away]
  have used' : ∀ node ∈ nodes, next node ≠ null →
      Function.update (Function.update next fresh fwd) (prev fwd) fresh node ≠ null := by
    intro node inside here
    by_cases last : node = prev fwd
    · rw [last, Function.update_self]
      exact proper
    · have away : node ≠ fresh := by
        rintro rfl
        exact here (unused inside)
      rw [others node inside away last]
      exact here
  constructor
  case proper =>
    rintro (same | inside)
    · exact proper same.symm
    · exact paired.proper inside
  case onward =>
    intro node inside here
    by_cases new : node = fresh
    · rw [new, atFresh, Function.update_self]
      exact ⟨Or.inr member, used' fwd member used, rfl⟩
    have inside := inside.resolve_left new
    by_cases last : node = prev fwd
    · rw [last, Function.update_self, atFresh, Function.update_of_ne differs.symm,
        Function.update_self]
      exact ⟨Or.inl rfl, notNull, rfl⟩
    · rw [others node inside new last] at here ⊢
      obtain ⟨there, further, back⟩ := paired.onward node inside here
      have away : next node ≠ fresh := by
        intro same
        rw [same] at there further
        exact further (unused there)
      have elsewhere : next node ≠ fwd := by
        intro same
        rw [same] at back
        exact last back.symm
      rw [Function.update_of_ne elsewhere, Function.update_of_ne away]
      exact ⟨Or.inr there, used' _ there further, back⟩
  case backward =>
    intro node inside here
    by_cases new : node = fresh
    · rw [new, Function.update_of_ne differs.symm, Function.update_self, Function.update_self]
      exact ⟨Or.inr before, rfl⟩
    have inside := inside.resolve_left new
    by_cases same : node = fwd
    · rw [same, Function.update_self, atFresh]
      exact ⟨Or.inl rfl, rfl⟩
    · rw [Function.update_of_ne same, Function.update_of_ne new]
      have here : next node ≠ null := by
        by_cases last : node = prev fwd
        · rw [last, ahead]
          exact notNull
        · rw [others node inside new last] at here
          exact here
      obtain ⟨there, back⟩ := paired.backward node inside here
      have away : prev node ≠ fresh := by
        intro equal
        rw [equal] at there back
        rw [unused there] at back
        exact paired.not_null inside back.symm
      have elsewhere : prev node ≠ prev fwd := by
        intro equal
        rw [equal, ahead] at back
        exact same back.symm
      rw [others _ there away elsewhere]
      exact ⟨Or.inr there, back⟩

theorem Paired.remove (paired : Paired null next prev nodes) (member : node ∈ nodes)
    (used : next node ≠ null) :
    Paired null (Function.update next (prev node) (next node))
      (Function.update prev (next node) (prev node)) (nodes \ {node}) := by
  obtain ⟨after, further, behind⟩ := paired.onward node member used
  obtain ⟨before, ahead⟩ := paired.backward node member used
  constructor
  case proper => exact fun inside => paired.proper inside.1
  case onward =>
    rintro other ⟨inside, away⟩ here
    have away : other ≠ node := away
    by_cases last : other = prev node
    · have apart : next node ≠ node := by
        intro same
        rw [same] at behind
        exact away (last.trans behind)
      rw [last, Function.update_self, Function.update_self]
      refine ⟨⟨after, apart⟩, ?_, rfl⟩
      by_cases both : next node = prev node
      · rw [both, Function.update_self]
        exact paired.not_null before
      · rw [Function.update_of_ne both]
        exact further
    · rw [Function.update_of_ne last] at here ⊢
      obtain ⟨there, on, back⟩ := paired.onward other inside here
      have apart : next other ≠ node := by
        intro same
        rw [same] at back
        exact last back.symm
      have elsewhere : next other ≠ next node := by
        intro same
        rw [same, behind] at back
        exact away back.symm
      rw [Function.update_of_ne elsewhere]
      refine ⟨⟨there, apart⟩, ?_, back⟩
      by_cases both : next other = prev node
      · rw [both, Function.update_self]
        exact paired.not_null after
      · rw [Function.update_of_ne both]
        exact on
  case backward =>
    rintro other ⟨inside, away⟩ here
    have away : other ≠ node := away
    by_cases first : other = next node
    · have apart : prev node ≠ node := by
        intro same
        rw [same] at ahead
        exact away (first.trans ahead)
      rw [first, Function.update_self, Function.update_self]
      exact ⟨⟨before, apart⟩, rfl⟩
    · have here : next other ≠ null := by
        by_cases last : other = prev node
        · rw [last, ahead]
          exact paired.not_null member
        · rw [Function.update_of_ne last] at here
          exact here
      rw [Function.update_of_ne first]
      obtain ⟨there, back⟩ := paired.backward other inside here
      have apart : prev other ≠ node := by
        intro same
        rw [same] at back
        exact first back.symm
      have elsewhere : prev other ≠ prev node := by
        intro same
        rw [same, ahead] at back
        exact away back.symm
      rw [Function.update_of_ne elsewhere]
      exact ⟨⟨there, apart⟩, back⟩

theorem Paired.substitute (paired : Paired null next prev nodes) (member : node ∈ nodes)
    (used : next node ≠ null) (others : next node ≠ node) (inside : fresh ∈ nodes)
    (unused : next fresh = null) :
    Paired null (Function.update (Function.update next fresh (next node)) (prev node) fresh)
      (Function.update (Function.update prev fresh (prev node)) (next node) fresh)
      (nodes \ {node}) := by
  obtain ⟨after, further, behind⟩ := paired.onward node member used
  obtain ⟨before, ahead⟩ := paired.backward node member used
  have differs : fresh ≠ node := by
    rintro rfl
    exact used unused
  have apart : fresh ≠ prev node := by
    rintro rfl
    rw [unused] at ahead
    exact paired.not_null member ahead.symm
  have away : fresh ≠ next node := by
    rintro rfl
    exact further unused
  have removed := paired.remove member used
  have idle : Function.update next (prev node) (next node) fresh = null := by
    rw [Function.update_of_ne apart]
    exact unused
  have there : next node ∈ nodes \ {node} := ⟨after, others⟩
  have pointers : Function.update next (prev node) (next node) (next node) ≠ null := by
    by_cases both : next node = prev node
    · rw [← both, Function.update_self]
      exact paired.not_null after
    · rw [Function.update_of_ne both]
      exact further
  have added := removed.insert (fun _ => idle) (paired.not_null inside) there pointers
  have here : fresh ∈ nodes \ {node} := ⟨inside, differs⟩
  rw [Function.update_self, Function.update_comm apart, Function.update_idem,
    Function.update_comm away, Function.update_idem, Function.update_comm apart.symm,
    Function.update_comm away.symm, Set.insert_eq_of_mem here] at added
  exact added

/-- A node that has no pointers takes the place of one that is on a ring of its own. -/
theorem Paired.inherit (paired : Paired null next prev nodes) (member : node ∈ nodes)
    (alone : next node = node) (inside : fresh ∈ nodes) (unused : next fresh = null) :
    Paired null (Function.update next fresh fresh) (Function.update prev fresh fresh)
      (nodes \ {node}) := by
  have notNull := paired.not_null member
  have used : next node ≠ null := by
    rw [alone]
    exact notNull
  have back := (paired.onward node member used).2.2
  rw [alone] at back
  have sameNext : Function.update next node node = next :=
    Function.update_eq_self_iff.mpr alone.symm
  have samePrev : Function.update prev node node = prev :=
    Function.update_eq_self_iff.mpr back.symm
  have differs : fresh ≠ node := by
    rintro rfl
    exact used unused
  have here : fresh ∈ nodes \ {node} := ⟨inside, differs⟩
  have removed := paired.remove member used
  rw [back, alone, sameNext, samePrev] at removed
  have added := removed.own (fun _ => unused) (paired.not_null inside)
  rw [Set.insert_eq_of_mem here] at added
  exact added

end CircularList
