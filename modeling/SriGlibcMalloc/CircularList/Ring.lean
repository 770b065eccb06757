import Mathlib.Data.List.Chain
import Mathlib.Data.List.Nodup
import Mathlib.Logic.Function.Basic

/-!
# Circular doubly linked lists

Two pointer maps, `next` and `prev`, link the nodes of a list into a ring: each node to the
one after it, and the last node to the first. A ring may be read from any of its nodes.
Everything here is about an arbitrary node type.
-/

namespace CircularList

set_option autoImplicit false

variable {Node : Type*}

/-- One pointer leads from the left node to the right one, and one leads back. -/
structure Linked (next prev : Node → Node) (left right : Node) : Prop where
  next : next left = right
  prev : prev right = left

structure Ring (next prev : Node → Node) (nodes : List Node) : Prop where
  chain : nodes.IsChain (Linked next prev)
  closed : ∀ last ∈ nodes.getLast?, ∀ first ∈ nodes.head?, Linked next prev last first

variable {next prev next' prev' : Node → Node} {nodes front back rest : List Node}
variable {node first second fresh left : Node}

theorem ring_nil : Ring next prev [] := by
  constructor
  · exact .nil
  · intro last absent
    cases absent

theorem ring_singleton (own : Linked next prev node node) : Ring next prev [node] := by
  constructor
  · exact .singleton node
  · intro last isLast first isFirst
    cases isLast
    cases isFirst
    exact own

theorem Ring.rotate (ring : Ring next prev (front ++ back)) : Ring next prev (back ++ front) := by
  by_cases none : front = []
  · rw [none] at ring ⊢
    rw [List.append_nil]
    exact ring
  by_cases alone : back = []
  · rw [alone] at ring ⊢
    rw [List.append_nil] at ring
    exact ring
  obtain ⟨chain, closed⟩ := ring
  obtain ⟨left, right, middle⟩ := List.isChain_append.mp chain
  constructor
  · refine List.isChain_append.mpr ⟨right, left, ?_⟩
    intro last isLast first isFirst
    apply closed
    · rw [List.getLast?_append_of_ne_nil front alone]
      exact isLast
    · rw [List.head?_append_of_ne_nil front none]
      exact isFirst
  · intro last isLast first isFirst
    apply middle
    · rw [List.getLast?_append_of_ne_nil back none] at isLast
      exact isLast
    · rw [List.head?_append_of_ne_nil back alone] at isFirst
      exact isFirst

/-- A chain depends on the pointers that lead along it, and on no others. -/
theorem chain_frame (chain : nodes.IsChain (Linked next prev))
    (sources : ∀ node ∈ nodes.dropLast, next' node = next node)
    (targets : ∀ node ∈ nodes.tail, prev' node = prev node) :
    nodes.IsChain (Linked next' prev') := by
  induction nodes with
  | nil => exact .nil
  | cons first rest ih =>
      cases rest with
      | nil => exact .singleton first
      | cons second rest =>
          rw [List.isChain_cons_cons] at chain ⊢
          obtain ⟨⟨onward, backward⟩, chain⟩ := chain
          refine ⟨⟨?_, ?_⟩, ih chain ?_ ?_⟩
          · rw [sources first List.mem_cons_self]
            exact onward
          · rw [targets second List.mem_cons_self]
            exact backward
          · intro node member
            exact sources node (List.mem_cons_of_mem first member)
          · intro node member
            exact targets node (List.mem_cons_of_mem second member)

theorem Ring.frame (ring : Ring next prev nodes)
    (sources : ∀ node ∈ nodes, next' node = next node)
    (targets : ∀ node ∈ nodes, prev' node = prev node) : Ring next' prev' nodes := by
  constructor
  · apply chain_frame ring.chain
    · exact fun node member => sources node ((List.dropLast_sublist _).subset member)
    · exact fun node member => targets node (List.mem_of_mem_tail member)
  · intro last isLast first isFirst
    obtain ⟨onward, backward⟩ := ring.closed last isLast first isFirst
    constructor
    · rw [sources last (List.mem_of_mem_getLast? isLast)]
      exact onward
    · rw [targets first (List.mem_of_mem_head? isFirst)]
      exact backward

theorem Ring.onward (ring : Ring next prev nodes) (member : node ∈ nodes) :
    next node ∈ nodes ∧ prev (next node) = node := by
  obtain ⟨front, back, rfl⟩ := List.append_of_mem member
  have turned := ring.rotate
  rw [List.cons_append] at turned
  obtain ⟨second, rest, shape⟩ := List.exists_cons_of_ne_nil
    (show back ++ front ++ [node] ≠ [] by simp)
  have linked : Linked next prev node second := by
    cases others : back ++ front with
    | nil =>
        rw [others] at shape turned
        cases shape
        exact turned.closed node rfl node rfl
    | cons first tail =>
        rw [others] at shape turned
        cases shape
        exact (List.isChain_cons_cons.mp turned.chain).1
  rw [linked.next]
  refine ⟨?_, linked.prev⟩
  have inside : second ∈ back ++ front ++ [node] := shape ▸ List.mem_cons_self
  simp only [List.mem_append, List.mem_cons] at inside ⊢
  tauto

theorem Ring.reverse (ring : Ring next prev nodes) : Ring prev next nodes.reverse := by
  constructor
  · rw [List.isChain_reverse]
    exact ring.chain.imp fun _ _ linked => ⟨linked.prev, linked.next⟩
  · intro last isLast first isFirst
    rw [List.getLast?_reverse] at isLast
    rw [List.head?_reverse] at isFirst
    obtain ⟨onward, backward⟩ := ring.closed first isFirst last isLast
    exact ⟨backward, onward⟩

theorem Ring.backward (ring : Ring next prev nodes) (member : node ∈ nodes) :
    prev node ∈ nodes ∧ next (prev node) = node := by
  obtain ⟨inside, back⟩ := ring.reverse.onward (List.mem_reverse.mpr member)
  exact ⟨List.mem_reverse.mp inside, back⟩

theorem Ring.next_eq (ring : Ring next prev (front ++ node :: second :: back)) :
    next node = second :=
  (List.isChain_cons_cons.mp (List.isChain_append.mp ring.chain).2.1).1.next

theorem Ring.next_last (ring : Ring next prev (first :: rest ++ [node])) : next node = first :=
  (ring.closed node (List.getLast?_append_cons ..) first rfl).next

theorem Ring.next_ne (ring : Ring next prev (front ++ node :: back))
    (nodup : (front ++ node :: back).Nodup) (others : back ++ front ≠ []) : next node ≠ node := by
  have turned := ring.rotate
  have distinct := List.nodup_append_comm.mp nodup
  rw [List.cons_append] at turned distinct
  obtain ⟨second, rest, shape⟩ := List.exists_cons_of_ne_nil others
  rw [shape] at turned distinct
  rw [(List.isChain_cons_cons.mp turned.chain).1.next]
  rintro rfl
  exact (List.nodup_cons.mp distinct).1 List.mem_cons_self

theorem last_not_before {last : Node} (nodup : nodes.Nodup) (isLast : last ∈ nodes.getLast?)
    (member : node ∈ nodes.dropLast) : node ≠ last := by
  rintro rfl
  rw [← List.dropLast_append_getLast? node isLast] at nodup
  exact (List.nodup_append.mp nodup).2.2 node member node (List.mem_singleton_self node) rfl

/-- Pointers that lead on from a node and back to the start give one chain only. -/
theorem chain_unique {start : Node} {more : List Node}
    (left : (node :: rest).IsChain (Linked next prev))
    (right : (node :: more).IsChain (Linked next prev))
    (leftEnd : ∀ last ∈ (node :: rest).getLast?, next last = start)
    (rightEnd : ∀ last ∈ (node :: more).getLast?, next last = start)
    (absent : start ∉ rest) (absent' : start ∉ more) : rest = more := by
  induction rest generalizing node more with
  | nil =>
      cases more with
      | nil => rfl
      | cons second more =>
          have onward := (List.isChain_cons_cons.mp right).1.next
          rw [leftEnd node rfl] at onward
          exact absurd (onward ▸ List.mem_cons_self) absent'
  | cons first rest ih =>
      obtain ⟨ahead, left⟩ := List.isChain_cons_cons.mp left
      cases more with
      | nil =>
          have onward := ahead.next
          rw [rightEnd node rfl] at onward
          exact absurd (onward ▸ List.mem_cons_self) absent
      | cons second more =>
          obtain ⟨ahead', right⟩ := List.isChain_cons_cons.mp right
          have same : first = second := ahead.next.symm.trans ahead'.next
          subst same
          rw [List.getLast?_cons_cons] at leftEnd rightEnd
          rw [ih left right leftEnd rightEnd (fun inside => absent (List.mem_cons_of_mem _ inside))
            fun inside => absent' (List.mem_cons_of_mem _ inside)]

theorem Ring.unique {more : List Node} (left : Ring next prev (node :: rest))
    (right : Ring next prev (node :: more)) (nodup : (node :: rest).Nodup)
    (nodup' : (node :: more).Nodup) : rest = more :=
  chain_unique left.chain right.chain (fun last isLast => (left.closed last isLast node rfl).next)
    (fun last isLast => (right.closed last isLast node rfl).next) (List.nodup_cons.mp nodup).1
    (List.nodup_cons.mp nodup').1

/-- `while (!found (node)) node = next (node)`. -/
def seek (next : Node → Node) (found : Node → Bool) : Nat → Node → Option Node
  | 0, _ => none
  | fuel + 1, node => if found node then some node else seek next found fuel (next node)

theorem seek_chain {found : Node → Bool} {fuel : Nat} {target : Node}
    (chain : (node :: rest).IsChain (Linked next prev))
    (hit : (node :: rest).find? found = some target) (enough : (node :: rest).length ≤ fuel) :
    seek next found fuel node = some target := by
  induction rest generalizing node fuel with
  | nil =>
      cases fuel with
      | zero => cases enough
      | succ fuel =>
          rw [List.find?_singleton] at hit
          rw [seek]
          split_ifs at hit ⊢
          exact hit
  | cons second rest ih =>
      obtain ⟨ahead, chain⟩ := List.isChain_cons_cons.mp chain
      cases fuel with
      | zero => cases enough
      | succ fuel =>
          rw [seek]
          by_cases here : found node = true
          · rw [List.find?_cons_of_pos here] at hit
            rw [if_pos here]
            exact hit
          · rw [List.find?_cons_of_neg here] at hit
            rw [if_neg here, ahead.next]
            exact ih chain hit (Nat.le_of_succ_le_succ enough)

variable [DecidableEq Node]

theorem Ring.push (ring : Ring next prev (first :: rest)) (nodup : (first :: rest).Nodup)
    (absent : fresh ∉ first :: rest) :
    Ring (Function.update (Function.update next fresh first) (prev first) fresh)
      (Function.update (Function.update prev fresh (prev first)) first fresh)
      (fresh :: first :: rest) := by
  obtain ⟨last, isLast⟩ := Option.isSome_iff_exists.mp
    (List.getLast?_isSome.mpr (List.cons_ne_nil first rest))
  have around := ring.closed last isLast first rfl
  have inside : last ∈ first :: rest := List.mem_of_mem_getLast? isLast
  have others : ∀ node ∈ first :: rest, node ≠ fresh := by
    rintro node member rfl
    exact absent member
  rw [around.prev]
  have onward : ∀ node ∈ (first :: rest).dropLast,
      Function.update (Function.update next fresh first) last fresh node = next node := by
    intro node member
    rw [Function.update_of_ne (last_not_before nodup isLast member),
      Function.update_of_ne (others node ((List.dropLast_sublist _).subset member))]
  have backward : ∀ node ∈ rest,
      Function.update (Function.update prev fresh last) first fresh node = prev node := by
    intro node member
    have differs : node ≠ first := by
      rintro rfl
      exact (List.nodup_cons.mp nodup).1 member
    rw [Function.update_of_ne differs,
      Function.update_of_ne (others node (List.mem_cons_of_mem first member))]
  constructor
  · rw [List.isChain_cons_cons]
    refine ⟨⟨?_, Function.update_self ..⟩, chain_frame ring.chain onward backward⟩
    rw [Function.update_of_ne (others last inside).symm, Function.update_self]
  · intro final isFinal start isStart
    rw [List.getLast?_cons_cons] at isFinal
    cases Option.mem_unique isFinal isLast
    cases isStart
    refine ⟨Function.update_self .., ?_⟩
    rw [Function.update_of_ne (others first List.mem_cons_self).symm, Function.update_self]

theorem Ring.push_after (ring : Ring next prev (node :: rest)) (nodup : (node :: rest).Nodup)
    (absent : fresh ∉ node :: rest) :
    Ring (Function.update (Function.update next fresh (next node)) node fresh)
      (Function.update (Function.update prev fresh node) (next node) fresh)
      (node :: fresh :: rest) := by
  have away : fresh ∉ rest ++ [node] := by
    intro member
    rcases List.mem_append.mp member with inside | same
    · exact absent (List.mem_cons_of_mem node inside)
    · exact absent (List.mem_cons.mpr (Or.inl (List.mem_singleton.mp same)))
  have distinct : (rest ++ [node]).Nodup := List.nodup_append_comm.mp nodup
  have start : Ring next prev ([node] ++ rest) := ring
  have turned := start.rotate
  have added : Ring (Function.update (Function.update next fresh (next node)) node fresh)
      (Function.update (Function.update prev fresh node) (next node) fresh)
      (fresh :: (rest ++ [node])) := by
    obtain ⟨first, tail, shape⟩ := List.exists_cons_of_ne_nil
      (show rest ++ [node] ≠ [] by simp)
    have isLast : node ∈ (rest ++ [node]).getLast? := by simp
    have linked := turned.closed node isLast first (by rw [shape]; rfl)
    rw [shape] at turned distinct away ⊢
    have pushed := turned.push distinct away
    rw [linked.prev] at pushed
    rw [linked.next]
    exact pushed
  have whole : Ring _ _ (fresh :: rest ++ [node]) := added
  exact whole.rotate

theorem Ring.pop (ring : Ring next prev (node :: nodes)) (nodup : (node :: nodes).Nodup) :
    Ring (Function.update next (prev node) (next node))
      (Function.update prev (next node) (prev node)) nodes := by
  cases nodes with
  | nil => exact ring_nil
  | cons first rest =>
      obtain ⟨last, isLast⟩ := Option.isSome_iff_exists.mp
        (List.getLast?_isSome.mpr (List.cons_ne_nil first rest))
      obtain ⟨ahead, chain⟩ := List.isChain_cons_cons.mp ring.chain
      have around := ring.closed last (by rw [List.getLast?_cons_cons]; exact isLast) node rfl
      obtain ⟨_, nodup⟩ := List.nodup_cons.mp nodup
      rw [around.prev, ahead.next]
      constructor
      · apply chain_frame chain
        · intro other member
          exact Function.update_of_ne (last_not_before nodup isLast member) ..
        · intro other member
          have differs : other ≠ first := by
            rintro rfl
            exact (List.nodup_cons.mp nodup).1 member
          exact Function.update_of_ne differs ..
      · intro final isFinal start isStart
        cases Option.mem_unique isFinal isLast
        cases isStart
        exact ⟨Function.update_self .., Function.update_self ..⟩

theorem Ring.replace (ring : Ring next prev (node :: first :: rest))
    (nodup : (node :: first :: rest).Nodup) (absent : fresh ∉ first :: rest) :
    Ring (Function.update (Function.update next fresh (next node)) (prev node) fresh)
      (Function.update (Function.update prev fresh (prev node)) (next node) fresh)
      (fresh :: first :: rest) := by
  obtain ⟨last, isLast⟩ := Option.isSome_iff_exists.mp
    (List.getLast?_isSome.mpr (List.cons_ne_nil first rest))
  obtain ⟨ahead, chain⟩ := List.isChain_cons_cons.mp ring.chain
  have around := ring.closed last (by rw [List.getLast?_cons_cons]; exact isLast) node rfl
  have inside : last ∈ first :: rest := List.mem_of_mem_getLast? isLast
  have others : ∀ node ∈ first :: rest, node ≠ fresh := by
    rintro node member rfl
    exact absent member
  obtain ⟨_, nodup⟩ := List.nodup_cons.mp nodup
  rw [around.prev, ahead.next]
  constructor
  · rw [List.isChain_cons_cons]
    refine ⟨⟨?_, Function.update_self ..⟩, chain_frame chain ?_ ?_⟩
    · rw [Function.update_of_ne (others last inside).symm, Function.update_self]
    · intro other member
      rw [Function.update_of_ne (last_not_before nodup isLast member),
        Function.update_of_ne (others other ((List.dropLast_sublist _).subset member))]
    · intro other member
      have differs : other ≠ first := by
        rintro rfl
        exact (List.nodup_cons.mp nodup).1 member
      rw [Function.update_of_ne differs,
        Function.update_of_ne (others other (List.mem_cons_of_mem first member))]
  · intro final isFinal start isStart
    rw [List.getLast?_cons_cons] at isFinal
    cases Option.mem_unique isFinal isLast
    cases isStart
    refine ⟨Function.update_self .., ?_⟩
    rw [Function.update_of_ne (others first List.mem_cons_self).symm, Function.update_self]

theorem Ring.insert (ring : Ring next prev (front ++ node :: back))
    (nodup : (front ++ node :: back).Nodup) (absent : fresh ∉ front ++ node :: back) :
    Ring (Function.update (Function.update next fresh node) (prev node) fresh)
      (Function.update (Function.update prev fresh (prev node)) node fresh)
      (front ++ fresh :: node :: back) := by
  have turned := List.nodup_append_comm.mp nodup
  have away : fresh ∉ node :: back ++ front :=
    fun member => absent (List.mem_append.mpr (List.mem_append.mp member).symm)
  exact (ring.rotate.push turned away).rotate

theorem Ring.insert_after (ring : Ring next prev (front ++ node :: back))
    (nodup : (front ++ node :: back).Nodup) (absent : fresh ∉ front ++ node :: back) :
    Ring (Function.update (Function.update next fresh (next node)) node fresh)
      (Function.update (Function.update prev fresh node) (next node) fresh)
      (front ++ node :: fresh :: back) := by
  have turned := List.nodup_append_comm.mp nodup
  have away : fresh ∉ node :: back ++ front :=
    fun member => absent (List.mem_append.mpr (List.mem_append.mp member).symm)
  have added : Ring _ _ ((node :: fresh :: back) ++ front) := ring.rotate.push_after turned away
  exact added.rotate

theorem Ring.remove (ring : Ring next prev (front ++ node :: back))
    (nodup : (front ++ node :: back).Nodup) :
    Ring (Function.update next (prev node) (next node))
      (Function.update prev (next node) (prev node)) (front ++ back) :=
  (ring.rotate.pop (List.nodup_append_comm.mp nodup)).rotate

theorem Ring.substitute (ring : Ring next prev (front ++ node :: back))
    (nodup : (front ++ node :: back).Nodup) (others : back ++ front ≠ [])
    (absent : fresh ∉ front ++ node :: back) :
    Ring (Function.update (Function.update next fresh (next node)) (prev node) fresh)
      (Function.update (Function.update prev fresh (prev node)) (next node) fresh)
      (front ++ fresh :: back) := by
  have turned := List.nodup_append_comm.mp nodup
  have away : fresh ∉ back ++ front := by
    intro member
    apply absent
    rw [List.mem_append, List.mem_cons]
    exact (List.mem_append.mp member).symm.imp_right Or.inr
  have ring := ring.rotate
  rw [List.cons_append] at ring turned
  have replaced : Ring (Function.update (Function.update next fresh (next node)) (prev node) fresh)
      (Function.update (Function.update prev fresh (prev node)) (next node) fresh)
      (fresh :: (back ++ front)) := by
    obtain ⟨first, rest, shape⟩ := List.exists_cons_of_ne_nil others
    rw [shape] at ring turned away ⊢
    exact ring.replace turned away
  exact replaced.rotate

end CircularList
