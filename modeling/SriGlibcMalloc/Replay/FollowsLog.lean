import Mathlib.Order.Lattice.Nat
import SriGlibcMalloc.Lphash.KeyedRun
import SriGlibcMalloc.Replay.Handlers
import SriGlibcMalloc.Replay.RoundTrip
import SriGlibcMalloc.Transition.Run

/-!
# Replay follows the recorded heap

The entries of the hash table mirror the pointers that are live in the log as
long as no line records a reallocation that failed: the handler takes such a line
for a move to NULL and drops the pointer from its table.
-/

namespace SriGlibcMalloc.Replay

open ReplayTable KeyedStack

set_option autoImplicit false

/-! ## The table and the log -/

/-- The entries bind each live pointer to a local block of its own. -/
structure Mirrors (entries : Entries Key Value) (live : Finset Key) (blocks : Finset Value) :
    Prop where
  null : 0 ∉ live
  bound : ∀ key ∈ live, ∃ block ∈ blocks, block ≠ 0 ∧ stack entries key = [block]
  unbound : ∀ key, key ≠ 0 → key ∉ live → stack entries key = []
  distinct : ∀ left ∈ live, ∀ right ∈ live, stack entries left = stack entries right → left = right

variable {entries : Entries Key Value} {live : Finset Key} {blocks : Finset Value}
variable {key : Key} {value : Value}

namespace Mirrors

theorem congr {other : Entries Key Value} (mirrors : Mirrors entries live blocks)
    (same : ∀ key, key ≠ 0 → stack other key = stack entries key) : Mirrors other live blocks := by
  have here : ∀ key ∈ live, stack other key = stack entries key := by
    intro key member
    apply same
    intro zero
    rw [zero] at member
    exact mirrors.null member
  constructor
  · exact mirrors.null
  · intro key member
    rw [here key member]
    exact mirrors.bound key member
  · intro key some dead
    rw [same key some]
    exact mirrors.unbound key some dead
  · intro left inLeft right inRight equal
    rw [here left inLeft, here right inRight] at equal
    exact mirrors.distinct left inLeft right inRight equal

theorem bind (mirrors : Mirrors entries live blocks) (some : key ≠ 0) (dead : key ∉ live)
    (block : value ≠ 0) (fresh : value ∉ blocks) :
    Mirrors (push entries key value) (insert key live) (insert value blocks) := by
  have kept : ∀ other ∈ live, stack (push entries key value) other = stack entries other := by
    intro other member
    apply stack_push_other
    intro same
    rw [same] at member
    exact dead member
  have here : stack (push entries key value) key = [value] := by
    rw [stack_push_same, mirrors.unbound key some dead]
  have apart : ∀ other ∈ live, stack entries other ≠ [value] := by
    intro other member same
    obtain ⟨held, inside, _, stacked⟩ := mirrors.bound other member
    rw [stacked, List.cons.injEq] at same
    rw [same.1] at inside
    exact fresh inside
  constructor
  · rw [Finset.mem_insert]
    intro null
    rcases null with zero | member
    · exact some zero.symm
    · exact mirrors.null member
  · intro other member
    rcases Finset.mem_insert.mp member with same | member
    · rw [same, here]
      exact ⟨value, Finset.mem_insert_self .., block, rfl⟩
    · obtain ⟨held, inside, real, stacked⟩ := mirrors.bound other member
      rw [kept other member]
      exact ⟨held, Finset.mem_insert_of_mem inside, real, stacked⟩
  · intro other real outside
    rw [Finset.mem_insert, not_or] at outside
    rw [stack_push_other outside.1]
    exact mirrors.unbound other real outside.2
  · intro left inLeft right inRight equal
    rcases Finset.mem_insert.mp inLeft with first | first <;>
      rcases Finset.mem_insert.mp inRight with second | second
    · rw [first, second]
    · rw [first, here, kept right second] at equal
      exact absurd equal.symm (apart right second)
    · rw [second, here, kept left first] at equal
      exact absurd equal (apart left first)
    · rw [kept left first, kept right second] at equal
      exact mirrors.distinct left first right second equal

theorem release (mirrors : Mirrors entries live blocks) (stacked : stack entries key = [value])
    (member : key ∈ live) :
    Mirrors (pop entries key) (live.erase key) (blocks.erase value) := by
  have kept : ∀ other, other ≠ key → stack (pop entries key) other = stack entries other := by
    intro other different
    exact stack_pop_other different
  constructor
  · intro null
    exact mirrors.null (Finset.mem_of_mem_erase null)
  · intro left inLeft
    rw [Finset.mem_erase] at inLeft
    obtain ⟨held, inside, real, bound⟩ := mirrors.bound left inLeft.2
    rw [kept left inLeft.1]
    refine ⟨held, Finset.mem_erase.mpr ⟨?_, inside⟩, real, bound⟩
    intro same
    apply inLeft.1
    apply mirrors.distinct left inLeft.2 key member
    rw [bound, stacked, same]
  · intro left real outside
    by_cases same : left = key
    · rw [same, stack_pop_same, stacked]
      rfl
    · rw [kept left same]
      apply mirrors.unbound left real
      intro inside
      exact outside (Finset.mem_erase.mpr ⟨same, inside⟩)
  · intro left inLeft right inRight equal
    rw [Finset.mem_erase] at inLeft inRight
    rw [kept left inLeft.1, kept right inRight.1] at equal
    exact mirrors.distinct left inLeft.2 right inRight.2 equal

theorem push_null (mirrors : Mirrors entries live blocks) :
    Mirrors (push entries 0 value) live blocks :=
  mirrors.congr fun _ some => stack_push_other some

theorem pop_null (mirrors : Mirrors entries live blocks) : Mirrors (pop entries 0) live blocks :=
  mirrors.congr fun _ some => stack_pop_other some

theorem widen {more : Finset Value} (mirrors : Mirrors entries live blocks)
    (within : blocks ⊆ more) : Mirrors entries live more := by
  refine ⟨mirrors.null, ?_, mirrors.unbound, mirrors.distinct⟩
  intro key member
  obtain ⟨held, inside, real, stacked⟩ := mirrors.bound key member
  exact ⟨held, within inside, real, stacked⟩

end Mirrors

/-! ## Operations of the table -/

section Table

variable {htbl : Lphash} {grants : Grants}

theorem lookup_ok (represents : Represents htbl entries)
    (ample : entries.length < htbl.table.fuel) (key : Key) :
    lphashLookup true htbl key = .ok ((stack entries key).headD 0) := by
  obtain ⟨held, holds, same⟩ := represents
  rw [same, List.length_map] at ample
  rw [lookup_spec true holds ample, same, stack_map]

theorem values_of_eq (represents : Represents htbl entries)
    (ample : entries.length ≤ htbl.table.fuel) (key : Key) :
    valuesOf htbl key = stack entries key := by
  obtain ⟨held, holds, shape⟩ := represents
  rw [shape, List.length_map] at ample
  rw [valuesOf, holds.stack_of ample, shape, stack_map]

theorem insert_ok (represents : Represents htbl entries)
    (ample : entries.length + 1 < htbl.table.fuel) (fresh : grants.Fresh htbl)
    (granted : grants.Granted) (key : Key) (value : Value) :
    ∃ after, lphashInsert true htbl key value grants = .ok (true, after) ∧
      Represents after (push entries key value) ∧ after.table.fuel = htbl.table.fuel := by
  obtain ⟨⟨reply, after⟩, result, answer, kept, fuel⟩ :=
    (perform_spec true (.insert key value) represents ample fresh granted).returns
      (fun _ fault => nomatch fault.1)
  cases outcome : lphashInsert true htbl key value grants with
  | error fault =>
      rw [perform, outcome] at result
      cases result
  | ok inserted =>
      rw [perform, outcome] at result
      cases result
      have succeeded : inserted.1 = true := Reply.inserted.inj answer
      refine ⟨inserted.2, ?_, kept, fuel⟩
      rw [← succeeded]

theorem delete_ok (represents : Represents htbl entries)
    (ample : entries.length + 1 < htbl.table.fuel) (fresh : grants.Fresh htbl)
    (granted : grants.Granted) (key : Key) :
    ∃ reply after, lphashDelete true htbl key grants = .ok (reply, after) ∧
      Represents after (pop entries key) ∧ after.table.fuel = htbl.table.fuel := by
  obtain ⟨⟨reply, after⟩, result, _, kept, fuel⟩ :=
    (perform_spec true (.delete key) represents ample fresh granted).returns
      (fun _ fault => nomatch fault.1)
  cases outcome : lphashDelete true htbl key grants with
  | error fault =>
      rw [perform, outcome] at result
      cases result
  | ok answer =>
      rw [perform, outcome] at result
      cases result
      exact ⟨answer.1, answer.2, rfl, kept, fuel⟩

end Table

/-! ## The surroundings of one line -/

/-- The table gets memory for the operations that a line leads to, which it does
not use at that time. -/
def Turn.Supplies (turn : Turn) (htbl : Lphash) : Call → Prop
  | .malloc .. => turn.insertion.Fresh htbl ∧ turn.insertion.Granted
  | .calloc .. => turn.insertion.Fresh htbl ∧ turn.insertion.Granted
  | .free .. => turn.removal.Fresh htbl ∧ turn.removal.Granted
  | .realloc p _ _ _ =>
      (turn.removal.Fresh htbl ∧ turn.removal.Granted) ∧ turn.insertion.Granted ∧
        ∀ reply after, lphashDelete true htbl p.toNat turn.removal = .ok (reply, after) →
          turn.insertion.Fresh after

def Call.pointers : Call → List Word
  | .malloc _ result _ => [result]
  | .free p _ => [p]
  | .calloc _ _ result _ => [result]
  | .realloc p _ result _ => [p, result]

/-- The line does not record a reallocation that failed, nor a block for a
reallocation to no bytes when the local allocator answers the block that the
pointer is bound to with none. -/
def Call.Spared (turn : Turn) (state : State) : Call → Prop
  | .realloc p size result _ =>
      p = 0 ∨ (size ≠ 0 ∧ result ≠ 0) ∨ (size = 0 ∧ (result = 0 ∨
        ∀ block ∈ valuesOf state.htbl p.toNat,
          turn.allocator.answer state.blocks (.realloc block 0) ≠ 0))
  | _ => True

/-- The handler's fields, as far as it uses them. -/
theorem saturate_eq_zero (size : Word) : saturate size = 0 ↔ size = 0 := by
  by_cases small : size.toNat < 2 ^ 63
  · rw [saturate, if_pos small]
  · rw [saturate, if_neg small]
    constructor
    · intro zero
      exact absurd zero (by decide)
    · intro zero
      rw [zero] at small
      exact absurd (by decide) small

/-! ## One line -/

def Tracks (state : State) (live : Finset Key) (limit : Nat) : Prop :=
  ∃ entries, Represents state.htbl entries ∧ Mirrors entries live state.blocks ∧
    entries.length ≤ limit

variable {state : State} {turn : Turn} {result p size caller : Word} {block : Value}

theorem word_ne_zero {word : Word} (some : word ≠ 0) : word.toNat ≠ 0 := by
  intro zero
  apply some
  apply BitVec.eq_of_toNat_eq
  rw [zero]
  rfl

theorem Mirrors.record (mirrors : Mirrors entries live blocks)
    (free : result = 0 ∨ result.toNat ∉ live) (fresh : block ∉ blocks)
    (answered : block = 0 → result = 0) :
    Mirrors (push entries result.toNat block) (record result live) (acquire block blocks) := by
  by_cases null : result = 0
  · have within : blocks ⊆ acquire block blocks := by
      rw [acquire]
      split_ifs
      · exact Finset.Subset.refl blocks
      · exact Finset.subset_insert ..
    rw [Replay.record, if_pos null, null]
    exact mirrors.push_null.widen within
  · have real : block ≠ 0 := by
      intro zero
      exact null (answered zero)
    rw [Replay.record, if_neg null, acquire, if_neg real]
    apply mirrors.bind (word_ne_zero null) (free.resolve_left null) real fresh

theorem Mirrors.release_null (mirrors : Mirrors entries live blocks) :
    Mirrors (pop entries 0) (live.erase 0) (blocks.erase 0) := by
  have popped := mirrors.pop_null
  rw [Finset.erase_eq_of_notMem mirrors.null]
  refine ⟨popped.null, ?_, popped.unbound, popped.distinct⟩
  intro key member
  obtain ⟨held, inside, real, stacked⟩ := popped.bound key member
  exact ⟨held, Finset.mem_erase.mpr ⟨real, inside⟩, real, stacked⟩

theorem table_insert_ok (state : State) (represents : Represents state.htbl entries)
    (ample : entries.length + 1 < state.htbl.table.fuel) (fresh : turn.insertion.Fresh state.htbl)
    (granted : turn.insertion.Granted) (result : Word) (block : Value) :
    ∃ htbl, tableInsert turn state result block = .ok (true, { state with htbl := htbl }) ∧
      Represents htbl (push entries result.toNat block) ∧
      htbl.table.fuel = state.htbl.table.fuel := by
  obtain ⟨after, inserted, kept, fuel⟩ :=
    insert_ok represents ample fresh granted result.toNat block
  refine ⟨after, ?_, kept, fuel⟩
  rw [tableInsert, inserted]
  rfl

theorem rebind_ok (state : State) (represents : Represents state.htbl entries)
    (ample : entries.length + 1 < state.htbl.table.fuel)
    (supplied : turn.Supplies state.htbl (.realloc p size result caller)) (block : Value) :
    ∃ htbl, rebind turn state p result block = .ok (true, { state with htbl := htbl }) ∧
      Represents htbl (push (pop entries p.toNat) result.toNat block) ∧
      htbl.table.fuel = state.htbl.table.fuel := by
  obtain ⟨⟨fresh, granted⟩, grantedLater, freshLater⟩ := supplied
  obtain ⟨reply, removed, deleted, kept, fuel⟩ :=
    delete_ok represents ample fresh granted p.toNat
  have shorter : (pop entries p.toNat).length ≤ entries.length := List.length_eraseP_le
  have room : (pop entries p.toNat).length + 1 < removed.table.fuel := by omega
  obtain ⟨htbl, inserted, represents', fuel'⟩ := table_insert_ok { state with htbl := removed }
    kept room (freshLater reply removed deleted) grantedLater result block
  refine ⟨htbl, ?_, represents', fuel'.trans fuel⟩
  rw [rebind, tableDelete, deleted]
  exact inserted

theorem r_realloc_ok (turn : Turn) (state : State) (ptr : Value) (size : Word)
    (held : ptr = 0 ∨ ptr ∈ state.blocks)
    (answered : turn.allocator.answer state.blocks (.realloc ptr size) = 0 → size = 0) :
    rRealloc turn state ptr size =
      .ok (turn.allocator.answer state.blocks (.realloc ptr size),
        { state with
          blocks := acquire (turn.allocator.answer state.blocks (.realloc ptr size))
            (state.blocks.erase ptr) }) := by
  have moved : ¬(turn.allocator.answer state.blocks (.realloc ptr size) = 0 ∧ size ≠ 0) :=
    fun failed => failed.2 (answered failed.1)
  simp only [rRealloc, if_pos held, if_neg moved]
  rfl

theorem replay_malloc_ok (represents : Represents state.htbl entries)
    (mirrors : Mirrors entries live state.blocks)
    (ample : entries.length + 1 < state.htbl.table.fuel)
    (supplied : turn.Supplies state.htbl (.malloc size result caller))
    (free : result = 0 ∨ result.toNat ∉ live) (sz other : Word) :
    ∃ next, replayMalloc turn state [sz, result, other] = .ok (true, next) ∧
      Tracks next (record result live) (entries.length + 1) ∧
      next.htbl.table.fuel = state.htbl.table.fuel := by
  obtain ⟨real, fresh⟩ := turn.allocator.never_fails state.blocks (.malloc sz)
  obtain ⟨htbl, inserted, kept, fuel⟩ := table_insert_ok (rMalloc turn state sz).2 represents
    ample supplied.1 supplied.2 result _
  exact ⟨_, inserted, ⟨_, kept, mirrors.record free fresh (fun zero => absurd zero real),
    Nat.le_refl _⟩, fuel⟩

theorem replay_calloc_ok {nemb : Word} (represents : Represents state.htbl entries)
    (mirrors : Mirrors entries live state.blocks)
    (ample : entries.length + 1 < state.htbl.table.fuel)
    (supplied : turn.Supplies state.htbl (.calloc nemb size result caller))
    (free : result = 0 ∨ result.toNat ∉ live) (cnt sz other : Word) :
    ∃ next, replayCalloc turn state [cnt, sz, result, other] = .ok (true, next) ∧
      Tracks next (record result live) (entries.length + 1) ∧
      next.htbl.table.fuel = state.htbl.table.fuel := by
  obtain ⟨real, fresh⟩ := turn.allocator.never_fails state.blocks (.calloc cnt sz)
  obtain ⟨htbl, inserted, kept, fuel⟩ := table_insert_ok (rCalloc turn state cnt sz).2 represents
    ample supplied.1 supplied.2 result _
  exact ⟨_, inserted, ⟨_, kept, mirrors.record free fresh (fun zero => absurd zero real),
    Nat.le_refl _⟩, fuel⟩

theorem replay_free_ok (represents : Represents state.htbl entries)
    (mirrors : Mirrors entries live state.blocks)
    (ample : entries.length + 1 < state.htbl.table.fuel)
    (supplied : turn.Supplies state.htbl (.free p caller))
    (held : p = 0 ∨ p.toNat ∈ live) (other : Word) :
    ∃ next, replayFree turn state [p, other] = .ok (true, next) ∧
      Tracks next (live.erase p.toNat) (entries.length + 1) ∧
      next.htbl.table.fuel = state.htbl.table.fuel := by
  by_cases null : p = 0
  · have same : live.erase p.toNat = live := by
      rw [null]
      exact Finset.erase_eq_of_notMem mirrors.null
    rw [same]
    refine ⟨state, ?_, ⟨entries, represents, mirrors, Nat.le_succ _⟩, rfl⟩
    rw [replayFree, if_pos null]
    rfl
  · have member := held.resolve_left null
    obtain ⟨block, inside, real, stacked⟩ := mirrors.bound p.toNat member
    obtain ⟨reply, removed, deleted, kept, fuel⟩ :=
      delete_ok represents ample supplied.1 supplied.2 p.toNat
    have shorter : (pop entries p.toNat).length ≤ entries.length := List.length_eraseP_le
    have found : tableLookup state p = .ok block := by
      rw [tableLookup, lookup_ok represents (Nat.lt_of_succ_lt ample), stacked]
      rfl
    have freed : rFree state block = .ok { state with blocks := state.blocks.erase block } := by
      rw [rFree, if_neg real, if_pos inside]
      rfl
    refine ⟨⟨removed, state.blocks.erase block⟩, ?_, ⟨_, kept, mirrors.release stacked member,
      by omega⟩, fuel⟩
    have later : tableDelete turn { state with blocks := state.blocks.erase block } p =
        .ok ⟨removed, state.blocks.erase block⟩ := by
      rw [tableDelete, deleted]
      rfl
    rw [replayFree, if_neg null, found]
    show (if block ≠ 0 then _ else _) = _
    rw [if_pos real, freed]
    show (tableDelete turn _ p >>= _) = _
    rw [later]
    rfl

theorem replay_realloc_eq {moved : State} {valOld valNew : Value} {sz other : Word}
    (found : if p = 0 then valOld = 0 else valOld ≠ 0 ∧ tableLookup state p = .ok valOld)
    (called : rRealloc turn state valOld sz = .ok (valNew, moved)) :
    replayRealloc turn state [p, sz, result, other] =
      if sz ≠ 0 ∧ p = result ∧ valOld = valNew then .ok (true, moved)
      else rebind turn moved p result valNew := by
  have looked : (if p = 0 then pure 0 else tableLookup state p) = (.ok valOld : Exec Value) := by
    split_ifs at found ⊢ with null
    · rw [found]
      rfl
    · exact found.2
  have known : ¬(p ≠ 0 ∧ valOld = 0) := by
    intro lost
    rw [if_neg lost.1] at found
    exact found.1 lost.2
  have opened : replayRealloc turn state [p, sz, result, other] =
      if sz = 0 then rebind turn moved p result valNew
      else if p = result then
        if valOld = valNew then .ok (true, moved) else rebind turn moved p result valNew
      else rebind turn moved p result valNew := by
    rw [replayRealloc, looked]
    show (if p ≠ 0 ∧ valOld = 0 then _ else _) = _
    rw [if_neg known, called]
    rfl
  rw [opened]
  by_cases none : sz = 0
  · rw [if_pos none, if_neg (fun stays => stays.1 none)]
  · rw [if_neg none]
    by_cases same : p = result
    · rw [if_pos same]
      by_cases kept : valOld = valNew
      · rw [if_pos kept, if_pos ⟨none, same, kept⟩]
      · rw [if_neg kept, if_neg (fun stays => kept stays.2.2)]
    · rw [if_neg same, if_neg (fun stays => same stays.2.1)]

theorem rebound_ok {valOld valNew : Value} (represents : Represents state.htbl entries)
    (ample : entries.length + 1 < state.htbl.table.fuel)
    (supplied : turn.Supplies state.htbl (.realloc p size result caller))
    (released : Mirrors (pop entries p.toNat) (live.erase p.toNat) (state.blocks.erase valOld))
    (free : result = 0 ∨ result.toNat ∉ live.erase p.toNat)
    (fresh : valNew ∉ state.blocks.erase valOld) (answered : valNew = 0 → result = 0) :
    ∃ next, rebind turn { state with blocks := acquire valNew (state.blocks.erase valOld) }
        p result valNew = .ok (true, next) ∧
      Tracks next (record result (live.erase p.toNat)) (entries.length + 1) ∧
      next.htbl.table.fuel = state.htbl.table.fuel := by
  obtain ⟨htbl, bound, kept, fuel⟩ := rebind_ok
    { state with blocks := acquire valNew (state.blocks.erase valOld) } represents ample supplied
    valNew
  refine ⟨_, bound, ⟨_, kept, released.record free fresh answered, ?_⟩, fuel⟩
  exact Nat.succ_le_succ List.length_eraseP_le

theorem replay_realloc_ok (represents : Represents state.htbl entries)
    (mirrors : Mirrors entries live state.blocks)
    (ample : entries.length + 1 < state.htbl.table.fuel)
    (supplied : turn.Supplies state.htbl (.realloc p size result caller))
    (wellFormed : (Call.realloc p size result caller).WellFormed live)
    (spared : (Call.realloc p size result caller).Spared turn state)
    (sz other : Word) (sameSize : sz = 0 ↔ size = 0) :
    ∃ next, replayRealloc turn state [p, sz, result, other] = .ok (true, next) ∧
      Tracks next ((Call.realloc p size result caller).after live) (entries.length + 1) ∧
      next.htbl.table.fuel = state.htbl.table.fuel := by
  obtain ⟨held, free⟩ := wellFormed
  have after : (Call.realloc p size result caller).after live =
      record result (live.erase p.toNat) := by
    apply if_neg
    intro failed
    rcases spared with null | moved | freed
    · exact failed.1 null
    · exact moved.2 failed.2.2
    · exact failed.2.1 freed.1
  rw [after]
  by_cases null : p = 0
  · obtain ⟨fresh, answered⟩ := turn.allocator.never_fails state.blocks (.realloc 0 sz)
    have real := answered (Or.inl rfl)
    have called := r_realloc_ok turn state 0 sz (Or.inl rfl) (fun zero => absurd zero real)
    have released : Mirrors (pop entries p.toNat) (live.erase p.toNat) (state.blocks.erase 0) := by
      rw [null]
      exact mirrors.release_null
    rw [replay_realloc_eq (by rw [if_pos null]) called,
      if_neg (fun stays => real stays.2.2.symm)]
    exact rebound_ok represents ample supplied released free fresh
      (fun zero => absurd zero real)
  · have member := held.resolve_left null
    obtain ⟨block, inside, real, stacked⟩ := mirrors.bound p.toNat member
    obtain ⟨fresh, obtained⟩ := turn.allocator.never_fails state.blocks (.realloc block sz)
    have found : tableLookup state p = .ok block := by
      rw [tableLookup, lookup_ok represents (Nat.lt_of_succ_lt ample), stacked]
      rfl
    have bound : block ∈ valuesOf state.htbl p.toNat := by
      rw [values_of_eq represents (Nat.le_of_lt (Nat.lt_of_succ_lt ample)), stacked]
      exact List.mem_singleton_self block
    have answered : turn.allocator.answer state.blocks (.realloc block sz) = 0 →
        sz = 0 ∧ result = 0 := by
      intro zero
      have freed : sz = 0 := by
        by_contra some
        exact obtained (Or.inr some) zero
      refine ⟨freed, ?_⟩
      rcases spared with null' | moved | ⟨_, alternative⟩
      · exact absurd null' null
      · exact absurd (sameSize.mp freed) moved.1
      · rcases alternative with nothing | answers
        · exact nothing
        · rw [freed] at zero
          exact absurd zero (answers block bound)
    have called := r_realloc_ok turn state block sz (Or.inr inside) (fun zero => (answered zero).1)
    rw [replay_realloc_eq (by rw [if_neg null]; exact ⟨real, found⟩) called]
    split_ifs with stays
    · obtain ⟨_, same, kept⟩ := stays
      have blocks : acquire block (state.blocks.erase block) = state.blocks := by
        rw [acquire, if_neg real, Finset.insert_erase inside]
      have lives : record result (live.erase p.toNat) = live := by
        rw [← same, record, if_neg null, Finset.insert_erase member]
      rw [← kept, blocks, lives]
      exact ⟨state, rfl, ⟨entries, represents, mirrors, Nat.le_succ _⟩, rfl⟩
    · exact rebound_ok represents ample supplied (mirrors.release stacked member) free fresh
        (fun zero => (answered zero).2)

/-! ## One event -/

/-- The line is spared a failed reallocation, and its pointers survive `strtoll`. -/
def Event.Spared (turn : Turn) (state : State) : Event → Prop
  | .call made => made.Spared turn state ∧ ∀ pointer ∈ made.pointers, pointer.toNat < 2 ^ 63
  | _ => True

def Event.Supplied (turn : Turn) (htbl : Lphash) : Event → Prop
  | .call made => turn.Supplies htbl made
  | _ => True

theorem saturated (small : p.toNat < 2 ^ 63) : saturate p = p := if_pos small

theorem call_ok {call : Call} (represents : Represents state.htbl entries)
    (mirrors : Mirrors entries live state.blocks)
    (ample : entries.length + 1 < state.htbl.table.fuel)
    (supplied : turn.Supplies state.htbl call) (wellFormed : call.WellFormed live)
    (spared : call.Spared turn state)
    (small : ∀ pointer ∈ call.pointers, pointer.toNat < 2 ^ 63) :
    ∃ next, call.handler.replay turn state (call.fields.map saturate) = .ok (true, next) ∧
      Tracks next (call.after live) (entries.length + 1) ∧
      next.htbl.table.fuel = state.htbl.table.fuel := by
  cases call with
  | malloc size result caller =>
      have same := saturated (small result (by simp [Call.pointers]))
      show ∃ next, replayMalloc turn state [saturate size, saturate result, saturate caller] = _ ∧ _
      rw [same]
      exact replay_malloc_ok represents mirrors ample supplied wellFormed _ _
  | free p caller =>
      have same := saturated (small p (by simp [Call.pointers]))
      show ∃ next, replayFree turn state [saturate p, saturate caller] = _ ∧ _
      rw [same]
      exact replay_free_ok represents mirrors ample supplied wellFormed _
  | calloc nemb size result caller =>
      have same := saturated (small result (by simp [Call.pointers]))
      show ∃ next, replayCalloc turn state
        [saturate nemb, saturate size, saturate result, saturate caller] = _ ∧ _
      rw [same]
      exact replay_calloc_ok represents mirrors ample supplied wellFormed _ _ _
  | realloc p size result caller =>
      have same := saturated (small p (by simp [Call.pointers]))
      have same' := saturated (small result (by simp [Call.pointers]))
      show ∃ next, replayRealloc turn state
        [saturate p, saturate size, saturate result, saturate caller] = _ ∧ _
      rw [same, same']
      exact replay_realloc_ok represents mirrors ample supplied wellFormed spared _ _
        (saturate_eq_zero size)

theorem replay_call (turn : Turn) (state : State) (call : Call) :
    ∀ next, call.handler.replay turn state (call.fields.map saturate) = .ok (true, next) →
      replayEvent turn state (.call call) = some next := by
  intro next accepted
  obtain ⟨buffer, line, chosen, parsed⟩ := read_back call []
  rw [List.append_nil] at line
  have outcome : replayline turn state buffer = .ok (true, next) := by
    simp only [replayline, chosen, parsed]
    exact accepted
  have written : readline (Event.call call).write = some (buffer, []) := line
  simp only [replayEvent, written, outcome]

theorem replay_init (turn : Turn) (state : State) : replayEvent turn state .init = some state :=
  rfl

theorem replay_exit (turn : Turn) (state : State) : replayEvent turn state .exit = some state :=
  rfl

/-! ## The whole log -/

/-- The replay program and the heap that the log records. -/
structure Session where
  state : State
  live : Finset Key

def Session.step (session : Session) (line : Event × Turn) : Option Session :=
  (replayEvent line.2 session.state line.1).map fun next =>
    ⟨next, line.1.after session.live⟩

/-- The line belongs to a well-formed log and the table gets its memory. -/
def Promised (session : Session) (line : Event × Turn) : Prop :=
  line.1.WellFormed session.live ∧ line.1.Supplied line.2 session.state.htbl

def Spared (session : Session) (line : Event × Turn) : Prop :=
  line.1.Spared line.2 session.state

/-- The keys of the table other than NULL are the live pointers, each bound to its
own live local block. -/
structure Follows (session : Session) : Prop where
  keys : ∀ key, key ≠ 0 → (valuesOf session.state.htbl key ≠ [] ↔ key ∈ session.live)
  bound : ∀ key ∈ session.live, key ≠ 0 ∧ ∃ block ∈ session.state.blocks,
    block ≠ 0 ∧ valuesOf session.state.htbl key = [block]
  distinct : ∀ left ∈ session.live, ∀ right ∈ session.live,
    valuesOf session.state.htbl left = valuesOf session.state.htbl right → left = right

/-- An empty log and an allocator that has not handed out anything. -/
def startSession (htbl : Lphash) : Session := ⟨⟨htbl, ∅⟩, ∅⟩

variable {session : Session} {limit : Nat}

theorem Tracks.follows (tracks : Tracks session.state session.live limit)
    (ample : limit ≤ session.state.htbl.table.fuel) : Follows session := by
  obtain ⟨entries, represents, mirrors, few⟩ := tracks
  have values := values_of_eq represents (Nat.le_trans few ample)
  constructor
  · intro key some
    rw [values key]
    constructor
    · intro found
      by_contra dead
      exact found (mirrors.unbound key some dead)
    · intro member
      obtain ⟨block, _, _, stacked⟩ := mirrors.bound key member
      rw [stacked]
      exact List.cons_ne_nil _ _
  · intro key member
    rw [values key]
    refine ⟨?_, mirrors.bound key member⟩
    intro zero
    rw [zero] at member
    exact mirrors.null member
  · intro left inLeft right inRight equal
    rw [values left, values right] at equal
    exact mirrors.distinct left inLeft right inRight equal

theorem session_step {line : Event × Turn} (tracks : Tracks session.state session.live limit)
    (ample : limit + 1 < session.state.htbl.table.fuel) (promised : Promised session line)
    (spared : Spared session line) :
    ∃ next, session.step line = some next ∧ Tracks next.state next.live (limit + 1) ∧
      next.state.htbl.table.fuel = session.state.htbl.table.fuel := by
  obtain ⟨event, turn⟩ := line
  obtain ⟨entries, represents, mirrors, few⟩ := tracks
  have unchanged : Tracks session.state session.live (limit + 1) :=
    ⟨entries, represents, mirrors, Nat.le_succ_of_le few⟩
  cases event with
  | init =>
      refine ⟨session, ?_, unchanged, rfl⟩
      rw [Session.step, replay_init]
      rfl
  | exit =>
      refine ⟨session, ?_, unchanged, rfl⟩
      rw [Session.step, replay_exit]
      rfl
  | call made =>
      obtain ⟨next, accepted, ⟨entries', represents', mirrors', few'⟩, fuel⟩ :=
        call_ok represents mirrors (by omega) promised.2 promised.1 spared.1 spared.2
      have stepped := replay_call turn session.state made next accepted
      refine ⟨⟨next, made.after session.live⟩, ?_,
        ⟨entries', represents', mirrors', by omega⟩, fuel⟩
      rw [Session.step, stepped]
      rfl

theorem start_tracks {htbl : Lphash} (represents : Represents htbl []) :
    Tracks (startSession htbl).state (startSession htbl).live 0 := by
  refine ⟨[], represents, ⟨Finset.notMem_empty 0, ?_, ?_, ?_⟩, Nat.le_refl 0⟩
  · intro key member
    exact absurd member (Finset.notMem_empty key)
  · intro key _ _
    rfl
  · intro left member
    exact absurd member (Finset.notMem_empty left)

/-- A log whose lines are spared is accepted to its end, and the table follows it.
As every part of such a log is one, this holds after each line. -/
theorem replay_follows_log (fuel : Nat) (bucket : MetadataTable.BucketPtr → MetadataTable.Bucket)
    (value : MetadataTable.BucketPtr → Value) (directory : MetadataTable.DirectoryPtr)
    (seg : MetadataTable.SegmentPtr) (log : List (Event × Turn)) (ample : log.length + 1 < fuel)
    (permitted : Transition.Permitted Session.step (fun session line =>
      Promised session line ∧ Spared session line)
      (startSession (initLphash fuel bucket value directory seg)) log) :
    ∃ final, Transition.run Session.step
        (startSession (initLphash fuel bucket value directory seg)) log = some final ∧
      Follows final := by
  have initially := start_tracks (init_represents fuel bucket value directory seg)
  obtain ⟨final, ran, tracks, sameFuel⟩ := Transition.run_goes_through
    (fun count session => Tracks session.state session.live count ∧
      session.state.htbl.table.fuel = fuel) log.length
    (fun count session line inside holds permit => by
      obtain ⟨next, stepped, tracks, kept⟩ := session_step holds.1
        (by rw [holds.2]; omega) permit.1 permit.2
      exact ⟨next, stepped, tracks, kept.trans holds.2⟩)
    log _ 0 (Nat.le_of_eq (Nat.zero_add _)) ⟨initially, rfl⟩ permitted
  refine ⟨final, ran, tracks.follows ?_⟩
  rw [sameFuel]
  omega

/-- A local allocator that hands out addresses above all those it has handed out. -/
def bump : Allocator where
  answer blocks _ := blocks.sup id + 1
  never_fails blocks request := by
    have above : blocks.sup id + 1 ∉ blocks := by
      intro member
      have least := Finset.le_sup (f := id) member
      exact Nat.not_succ_le_self _ least
    cases request with
    | malloc size => exact ⟨Nat.succ_ne_zero _, above⟩
    | calloc count size => exact ⟨Nat.succ_ne_zero _, above⟩
    | realloc block size =>
        exact ⟨fun member => above (Finset.mem_of_mem_erase member), fun _ => Nat.succ_ne_zero _⟩

/-- The line of a reallocation that failed makes the table lose the pointer. -/
theorem failed_realloc_loses (represents : Represents state.htbl entries)
    (mirrors : Mirrors entries live state.blocks)
    (ample : entries.length + 1 < state.htbl.table.fuel)
    (supplied : turn.Supplies state.htbl (.realloc p size 0 caller)) (some : p ≠ 0)
    (member : p.toNat ∈ live) (grows : size ≠ 0) (small : p.toNat < 2 ^ 63) :
    ∃ next, replayEvent turn state (.call (.realloc p size 0 caller)) = Option.some next ∧
      valuesOf next.htbl p.toNat = [] := by
  obtain ⟨block, inside, real, stacked⟩ := mirrors.bound p.toNat member
  have grows' : saturate size ≠ 0 := by
    intro zero
    exact grows ((saturate_eq_zero size).mp zero)
  have answered := (turn.allocator.never_fails state.blocks (.realloc block (saturate size))).2
    (Or.inr grows')
  have found : tableLookup state p = .ok block := by
    rw [tableLookup, lookup_ok represents (Nat.lt_of_succ_lt ample), stacked]
    rfl
  have called := r_realloc_ok turn state block (saturate size) (Or.inr inside)
    (fun zero => absurd zero answered)
  let answer := turn.allocator.answer state.blocks (.realloc block (saturate size))
  let moved : State := { state with blocks := acquire answer (state.blocks.erase block) }
  obtain ⟨htbl, bound, kept, fuel⟩ := rebind_ok moved represents ample supplied answer
  have accepted : (Call.realloc p size 0 caller).handler.replay turn state
      ((Call.realloc p size 0 caller).fields.map saturate) =
      .ok (true, { moved with htbl := htbl }) := by
    show replayRealloc turn state [saturate p, saturate size, saturate 0, saturate caller] = _
    rw [saturated small, saturated (by decide : (0 : Word).toNat < 2 ^ 63),
      replay_realloc_eq (by rw [if_neg some]; exact ⟨real, found⟩) called,
      if_neg (fun stays => some stays.2.1)]
    exact bound
  have shorter : (pop entries p.toNat).length ≤ entries.length := List.length_eraseP_le
  have room : (push (pop entries p.toNat) (0 : Word).toNat answer).length ≤ htbl.table.fuel := by
    rw [fuel]
    exact Nat.le_of_lt (Nat.lt_of_le_of_lt (Nat.succ_le_succ shorter) ample)
  refine ⟨_, replay_call turn state _ _ accepted, ?_⟩
  have other : p.toNat ≠ (0 : Word).toNat := word_ne_zero some
  rw [values_of_eq kept room, stack_push_other other, stack_pop_same, stacked]
  rfl

/-! ## A log that is followed, and one that is not -/

def sampleTable : Lphash := initLphash 4 (fun _ => ⟨0, none⟩) (fun _ => 0) 5 6

theorem sample_represents : Represents sampleTable [] := init_represents 4 _ _ 5 6

theorem exists_turn (call : Call) (represents : Represents state.htbl entries)
    (ample : entries.length + 1 < state.htbl.table.fuel) (few : entries.length + 1 < 2 ^ 64) :
    ∃ turn : Turn, turn.allocator = bump ∧ turn.Supplies state.htbl call := by
  obtain ⟨first, granted, fresh⟩ := exists_grants represents (by omega) few
  cases call with
  | malloc size result caller => exact ⟨⟨bump, first, first⟩, rfl, fresh, granted⟩
  | free p caller => exact ⟨⟨bump, first, first⟩, rfl, fresh, granted⟩
  | calloc nemb size result caller => exact ⟨⟨bump, first, first⟩, rfl, fresh, granted⟩
  | realloc p size result caller =>
      obtain ⟨reply, removed, deleted, kept, fuel⟩ :=
        delete_ok represents ample fresh granted p.toNat
      have shorter : (pop entries p.toNat).length ≤ entries.length := List.length_eraseP_le
      obtain ⟨second, granted', fresh'⟩ := exists_grants kept (by omega) (by omega)
      refine ⟨⟨bump, first, second⟩, rfl, ⟨fresh, granted⟩, granted', ?_⟩
      intro reply' after again
      rw [deleted] at again
      cases again
      exact fresh'

/-- A reallocation of a pointer to some bytes has not failed. -/
def Call.Succeeds : Call → Prop
  | .realloc p size result _ => p = 0 ∨ size = 0 ∨ result ≠ 0
  | _ => True

/-- The call succeeded, and `strtoll` reads its pointers. -/
def Event.Harmless : Event → Prop
  | .call made => made.Succeeds ∧ made.pointers.all fun pointer => pointer.toNat < 2 ^ 63
  | _ => True

instance wellFormedDecidable (live : Finset Key) : ∀ event : Event, Decidable (event.WellFormed live)
  | .init => .isTrue trivial
  | .exit => .isTrue trivial
  | .call (.malloc _ _ _) => inferInstanceAs (Decidable (_ ∨ _))
  | .call (.free _ _) => inferInstanceAs (Decidable (_ ∨ _))
  | .call (.calloc _ _ _ _) => inferInstanceAs (Decidable (_ ∨ _))
  | .call (.realloc _ _ _ _) => inferInstanceAs (Decidable ((_ ∨ _) ∧ (_ ∨ _)))

instance harmlessDecidable : ∀ event : Event, Decidable event.Harmless
  | .init => .isTrue trivial
  | .exit => .isTrue trivial
  | .call (.malloc _ _ _) => inferInstanceAs (Decidable (True ∧ _ = true))
  | .call (.free _ _) => inferInstanceAs (Decidable (True ∧ _ = true))
  | .call (.calloc _ _ _ _) => inferInstanceAs (Decidable (True ∧ _ = true))
  | .call (.realloc _ _ _ _) => inferInstanceAs (Decidable ((_ ∨ _ ∨ _) ∧ _ = true))

/-- A well-formed log of such lines, from the pointers `live` on. -/
def Recorded (live : Finset Key) : List Event → Prop
  | [] => True
  | event :: later => event.WellFormed live ∧ event.Harmless ∧ Recorded (event.after live) later

theorem Event.Harmless.spared {event : Event} (harmless : event.Harmless)
    (bumps : turn.allocator = bump) : event.Spared turn state := by
  cases event with
  | init => trivial
  | exit => trivial
  | call made =>
      obtain ⟨moves, small⟩ := harmless
      refine ⟨?_, fun pointer member => of_decide_eq_true (List.all_eq_true.mp small pointer member)⟩
      cases made with
      | malloc size result caller => trivial
      | free p caller => trivial
      | calloc nemb size result caller => trivial
      | realloc p size result caller =>
          by_cases none : size = 0
          · refine Or.inr (Or.inr ⟨none, Or.inr fun block _ => ?_⟩)
            rw [bumps]
            exact Nat.succ_ne_zero _
          · rcases moves with null | zero | some
            · exact Or.inl null
            · exact absurd zero none
            · exact Or.inr (Or.inl ⟨none, some⟩)

instance recordedDecidable : ∀ live events, Decidable (Recorded live events)
  | _, [] => .isTrue trivial
  | live, event :: later =>
      have := recordedDecidable (event.after live) later
      inferInstanceAs (Decidable (_ ∧ _ ∧ _))

theorem exists_log {events : List Event}
    (tracks : Tracks session.state session.live limit)
    (ample : limit + events.length < session.state.htbl.table.fuel)
    (words : session.state.htbl.table.fuel < 2 ^ 64) (recorded : Recorded session.live events) :
    ∃ log, log.map Prod.fst = events ∧
      Transition.Permitted Session.step (fun session line =>
        Promised session line ∧ Spared session line) session log := by
  induction events generalizing session limit with
  | nil => exact ⟨[], rfl, trivial⟩
  | cons event later ih =>
      obtain ⟨wellFormed, harmless, onward⟩ := recorded
      rw [List.length_cons] at ample
      obtain ⟨turn, bumps, supplied⟩ : ∃ turn : Turn, turn.allocator = bump ∧
          event.Supplied turn session.state.htbl := by
        obtain ⟨entries, represents, _, few⟩ := tracks
        cases event with
        | init =>
            obtain ⟨turn, bumps, _⟩ := exists_turn (.free 0 0) represents (by omega) (by omega)
            exact ⟨turn, bumps, trivial⟩
        | exit =>
            obtain ⟨turn, bumps, _⟩ := exists_turn (.free 0 0) represents (by omega) (by omega)
            exact ⟨turn, bumps, trivial⟩
        | call made => exact exists_turn made represents (by omega) (by omega)
      have promised : Promised session (event, turn) := ⟨wellFormed, supplied⟩
      have spared : Spared session (event, turn) := harmless.spared bumps
      obtain ⟨next, stepped, tracks', fuel⟩ := session_step tracks (by omega) promised spared
      have live : next.live = event.after session.live := by
        obtain ⟨state, _, same⟩ := Option.map_eq_some_iff.mp stepped
        rw [← same]
      rw [← live] at onward
      obtain ⟨log, same, permitted⟩ := ih tracks' (by omega) (by omega) onward
      refine ⟨(event, turn) :: log, congrArg (event :: ·) same, ⟨promised, spared⟩, ?_⟩
      intro other again
      rw [stepped] at again
      cases again
      exact permitted

/-- One pointer moves and is freed; one stays, and moves in the replay all the same. -/
def movingLog : List Event :=
  [.init, .call (.malloc 16 0x1000 0x400000), .call (.calloc 2 16 0x2000 0x400000),
    .call (.realloc 0x1000 64 0x3000 0x400000), .call (.realloc 0x2000 8 0x2000 0x400000),
    .call (.free 0x3000 0x400000), .call (.realloc 0x2000 0 0 0x400000), .exit]

theorem moving_log_followed : ∃ log final, log.map Prod.fst = movingLog ∧
    Transition.run Session.step (startSession (initLphash 16 (fun _ => ⟨0, none⟩) (fun _ => 0) 5 6))
        log = some final ∧
      Follows final := by
  have recorded : Recorded ∅ movingLog := by decide +kernel
  obtain ⟨log, same, permitted⟩ := exists_log
    (start_tracks (init_represents 16 (fun _ => ⟨0, none⟩) (fun _ => 0) 5 6)) (by decide)
    (by decide) recorded
  have length : log.length = 8 := (List.length_map _).symm.trans (congrArg List.length same)
  obtain ⟨final, ran, follows⟩ := replay_follows_log 16 (fun _ => ⟨0, none⟩) (fun _ => 0) 5 6 log
    (by omega) permitted
  exact ⟨log, final, same, ran, follows⟩

/-- A log in which a reallocation fails is not: the pointer stays live in the log
and is gone from the table. -/
theorem failed_reallocation_not_followed : ∃ first second final,
    Transition.Permitted Session.step Promised (startSession sampleTable)
        [(.call (.malloc 16 0x1000 0x400000), first),
          (.call (.realloc 0x1000 0x7FFFFFFFFFFFFFFF 0 0x400000), second)] ∧
      Transition.run Session.step (startSession sampleTable)
        [(.call (.malloc 16 0x1000 0x400000), first),
          (.call (.realloc 0x1000 0x7FFFFFFFFFFFFFFF 0 0x400000), second)] = some final ∧
      ¬Follows final := by
  have start : Represents (startSession sampleTable).state.htbl [] := sample_represents
  obtain ⟨first, _, supplied⟩ :=
    exists_turn (.malloc 16 0x1000 0x400000) start (by decide) (by decide)
  have promised : Promised (startSession sampleTable)
      (.call (.malloc 16 0x1000 0x400000), first) :=
    ⟨Or.inr (Finset.notMem_empty _), supplied⟩
  have spared : Spared (startSession sampleTable)
      (.call (.malloc 16 0x1000 0x400000), first) := by
    refine ⟨trivial, ?_⟩
    intro pointer member
    rw [List.mem_singleton.mp member]
    decide
  obtain ⟨middle, stepped, ⟨entries, represents, mirrors, few⟩, fuel⟩ :=
    session_step (start_tracks sample_represents) (by decide) promised spared
  have fuel' : middle.state.htbl.table.fuel = 4 := fuel
  have live : middle.live = {0x1000} := by
    obtain ⟨next, _, same⟩ := Option.map_eq_some_iff.mp stepped
    rw [← same]
    rfl
  have member : (0x1000 : Word).toNat ∈ middle.live := by
    rw [live]
    decide
  obtain ⟨second, _, supplied'⟩ :=
    exists_turn (.realloc 0x1000 0x7FFFFFFFFFFFFFFF 0 0x400000) represents (by omega) (by omega)
  obtain ⟨next, replayed, lost⟩ := failed_realloc_loses represents mirrors (by omega) supplied'
    (by decide) member (by decide) (by decide)
  have stepped' : middle.step (.call (.realloc 0x1000 0x7FFFFFFFFFFFFFFF 0 0x400000), second) =
      some ⟨next, middle.live⟩ := by
    have after : (Event.call (.realloc 0x1000 0x7FFFFFFFFFFFFFFF 0 0x400000)).after middle.live =
        middle.live := by
      rw [Event.after, Call.after, if_pos ⟨by decide, by decide, rfl⟩]
    rw [Session.step, replayed, Option.map_some, after]
  refine ⟨first, second, ⟨next, middle.live⟩, ⟨promised, ?_⟩, ?_, ?_⟩
  · intro other again
    rw [stepped] at again
    cases again
    exact ⟨⟨⟨Or.inr member, Or.inl rfl⟩, supplied'⟩, fun _ _ => trivial⟩
  · rw [Transition.run, stepped, Option.bind_some, Transition.run, stepped', Option.bind_some,
      Transition.run]
  · intro follows
    exact (follows.keys _ (by decide)).mpr member lost

end SriGlibcMalloc.Replay
