import SriGlibcMalloc.PoolAllocator.Model

/-!
# The masks of a pool are exact

In pools that serve live slots, the bits that are one are those of the live
slots, and the count of free slots is the number of bits that are zero.
-/

namespace SriGlibcMalloc.PoolAllocator

open BitMask

set_option autoImplicit false

/-- Two areas of memory do not overlap. -/
def Separate (base bytes other otherBytes : Nat) : Prop :=
  base + bytes ≤ other ∨ other + otherBytes ≤ base

instance (base bytes other otherBytes : Nat) : Decidable (Separate base bytes other otherBytes) :=
  inferInstanceAs (Decidable (_ ∨ _))

/-- What the pools of one kind say about their slots. -/
structure Exact (kind : Kind) (pools : List Pool) (live : Finset Nat) : Prop where
  counted : ∀ pool ∈ pools, pool.freeCount.toNat = vacant pool.bitmasks kind.length
  used : ∀ pool ∈ pools, ∀ index, index < kind.length →
    (marked pool.bitmasks index = true ↔ kind.slot pool.base index ∈ live)
  placed : ∀ slot ∈ live, ∃ pool ∈ pools, ∃ index, index < kind.length ∧
    slot = kind.slot pool.base index

/-- The pools are apart, and every slot names its own pool. -/
structure Sound (kind : Kind) (pools : Pools) (live : Finset Nat) : Prop where
  exact : Exact kind pools.pools live
  owners : ∀ pool ∈ pools.pools, ∀ index, index < kind.length →
    pools.poolPtr (kind.slot pool.base index) = pool.base
  apart : pools.pools.Pairwise fun pool other =>
    Separate pool.base kind.poolBytes other.base kind.poolBytes

variable {kind : Kind} {pool changed : Pool} {pools front rest : List Pool}
variable {poolPtr : Nat → Nat} {live after : Finset Nat} {base other slot index place : Nat}

theorem slot_injective (same : kind.slot base index = kind.slot base place) : index = place := by
  have bytes := Nat.add_left_cancel same
  exact Nat.eq_of_mul_eq_mul_left kind.someBytes bytes

theorem slot_inside (base : Nat) (inside : index < kind.length) :
    base ≤ kind.slot base index ∧ kind.slot base index < base + kind.poolBytes := by
  have room : kind.slotBytes * index < kind.length * kind.slotBytes := by
    rw [Nat.mul_comm]
    exact Nat.mul_lt_mul_of_pos_right inside kind.someBytes
  simp only [Kind.slot, Kind.poolBytes]
  omega

theorem slot_separate (inside : index < kind.length) (within : place < kind.length)
    (apart : Separate base kind.poolBytes other kind.poolBytes) :
    kind.slot base index ≠ kind.slot other place := by
  have first := slot_inside base inside
  have second := slot_inside other within
  intro same
  rw [same] at first
  rcases apart with below | above <;> omega

theorem slot_index : (kind.slot base index - base) / kind.slotBytes = index := by
  rw [Kind.slot, Nat.add_sub_cancel_left, Nat.mul_div_cancel_left index kind.someBytes]

theorem full_word {mask : BitVec 64} : ¬ mask < BitVec.allOnes 64 ↔ mask = BitVec.allOnes 64 := by
  rw [BitVec.not_lt, BitVec.allOnes_le_iff]

theorem take_some (found : pool.take kind = some (slot, changed)) :
    ∃ index, index < kind.length ∧ slot = kind.slot pool.base index ∧
      marked pool.bitmasks index = false ∧ pool.freeCount ≠ 0 ∧
      changed = ⟨pool.base, mark pool.bitmasks index, pool.freeCount - 1⟩ := by
  rw [Pool.take] at found
  obtain ⟨positive, searched⟩ := Option.ite_none_right_eq_some.mp found
  obtain ⟨scale, chosen, result⟩ := Option.map_eq_some_iff.mp searched
  have inside := List.mem_range.mp (List.mem_of_find?_eq_some chosen)
  have room := List.find?_some chosen
  have notFull : pool.bitmasks scale ≠ BitVec.allOnes 64 := by
    intro full
    exact full_word.mpr full (of_decide_eq_true room)
  obtain ⟨low, clear⟩ := lowest_clear notFull
  have place : getFreeBit (pool.bitmasks scale) = lowest (~~~pool.bitmasks scale) := rfl
  rw [← place] at low clear
  obtain ⟨address, same⟩ := Prod.mk.inj result
  refine ⟨scale * 64 + getFreeBit (pool.bitmasks scale), ?_, address.symm, ?_, ?_, ?_⟩
  · rw [Kind.length, bitsInMask]
    omega
  · rw [marked_at low, clear]
  · intro zero
    rw [zero] at positive
    exact absurd positive (by decide)
  · have word : (scale * 64 + getFreeBit (pool.bitmasks scale)) / 64 = scale := by omega
    have bit : (scale * 64 + getFreeBit (pool.bitmasks scale)) % 64 =
      getFreeBit (pool.bitmasks scale) := by omega
    rw [← same, mark, word, bit]
    rfl

theorem take_none (counted : pool.freeCount.toNat = vacant pool.bitmasks kind.length)
    (missed : pool.take kind = none) (inside : index < kind.length) :
    marked pool.bitmasks index = true := by
  rw [Pool.take] at missed
  by_cases positive : 0 < pool.freeCount
  · rw [if_pos positive, Option.map_eq_none_iff, List.find?_eq_none] at missed
    have word : index / 64 < kind.scale := by
      rw [Kind.length, bitsInMask] at inside
      omega
    have full := missed (index / 64) (List.mem_range.mpr word)
    rw [decide_eq_true_eq, full_word] at full
    rw [marked, full, BitVec.getLsbD_allOnes]
    exact decide_eq_true (Nat.mod_lt index (by decide))
  · have zero : pool.freeCount.toNat = 0 := by
      rw [BitVec.lt_def] at positive
      simpa using positive
    exact vacant_zero_iff.mp (counted.symm.trans zero) index inside

theorem take_from_some {found : List Pool} (taken : takeFrom kind pools = some (slot, found)) :
    ∃ front pool rest changed, pools = front ++ pool :: rest ∧ found = front ++ changed :: rest ∧
      pool.take kind = some (slot, changed) := by
  induction pools generalizing found with
  | nil => cases taken
  | cons pool rest ih =>
      rw [takeFrom] at taken
      split at taken
      case h_1 address changed here =>
        cases taken
        exact ⟨[], pool, rest, changed, rfl, rfl, here⟩
      case h_2 =>
        obtain ⟨⟨address, later⟩, further, same⟩ := Option.map_eq_some_iff.mp taken
        cases same
        obtain ⟨front, other, back, changed, split, joined, here⟩ := ih further
        exact ⟨pool :: front, other, back, changed, by rw [split]; rfl, by rw [joined]; rfl, here⟩

theorem take_from_none (missed : takeFrom kind pools = none) :
    ∀ pool ∈ pools, pool.take kind = none := by
  induction pools with
  | nil =>
      intro pool member
      cases member
  | cons first rest ih =>
      rw [takeFrom] at missed
      split at missed
      case h_1 => cases missed
      case h_2 here =>
        intro pool member
        rcases List.mem_cons.mp member with same | later
        · rw [same]
          exact here
        · exact ih (Option.map_eq_none_iff.mp missed) pool later

theorem apart_around
    (apart : (front ++ pool :: rest).Pairwise fun pool other =>
      Separate pool.base kind.poolBytes other.base kind.poolBytes) :
    ∀ other, other ∈ front ∨ other ∈ rest →
      Separate other.base kind.poolBytes pool.base kind.poolBytes := by
  intro other around
  rw [List.pairwise_append, List.pairwise_cons] at apart
  rcases around with before | behind
  · exact apart.2.2 other before pool List.mem_cons_self
  · exact (apart.2.1.1 other behind).symm

/-- One pool and the live slots in it change; nothing else does. -/
theorem Sound.replace (sound : Sound kind ⟨front ++ pool :: rest, poolPtr⟩ live)
    (base : changed.base = pool.base)
    (counted : changed.freeCount.toNat = vacant changed.bitmasks kind.length)
    (used : ∀ index, index < kind.length →
      (marked changed.bitmasks index = true ↔ kind.slot pool.base index ∈ after))
    (elsewhere : ∀ slot, (∀ index, index < kind.length → slot ≠ kind.slot pool.base index) →
      (slot ∈ after ↔ slot ∈ live)) :
    Sound kind ⟨front ++ changed :: rest, poolPtr⟩ after := by
  have around := apart_around sound.apart
  have kept : ∀ other, other ∈ front ++ changed :: rest → other = changed ∨
      ((other ∈ front ∨ other ∈ rest) ∧ other ∈ front ++ pool :: rest) := by
    intro other member
    rw [List.mem_append, List.mem_cons] at member ⊢
    tauto
  have apart : ∀ other, other ∈ front ∨ other ∈ rest → ∀ place, place < kind.length →
      (kind.slot other.base place ∈ after ↔ kind.slot other.base place ∈ live) := by
    intro other member place within
    apply elsewhere
    intro index inside
    exact slot_separate within inside (around other member)
  constructor
  · constructor
    · intro other member
      rcases kept other member with same | ⟨_, old⟩
      · rw [same]
        exact counted
      · exact sound.exact.counted other old
    · intro other member index inside
      rcases kept other member with same | ⟨around, old⟩
      · rw [same, base]
        exact used index inside
      · rw [apart other around index inside]
        exact sound.exact.used other old index inside
    · intro slot member
      by_cases mine : ∃ index, index < kind.length ∧ slot = kind.slot pool.base index
      · obtain ⟨index, inside, same⟩ := mine
        exact ⟨changed, by simp, index, inside, by rw [same, base]⟩
      · have foreign : slot ∈ live := by
          rw [← elsewhere slot (fun index inside same => mine ⟨index, inside, same⟩)]
          exact member
        obtain ⟨other, old, index, inside, same⟩ := sound.exact.placed slot foreign
        rw [List.mem_append, List.mem_cons] at old
        have different : other ≠ pool := by
          intro equal
          rw [equal] at same
          exact mine ⟨index, inside, same⟩
        refine ⟨other, ?_, index, inside, same⟩
        rw [List.mem_append, List.mem_cons]
        tauto
  · intro other member index inside
    rcases kept other member with same | ⟨_, old⟩
    · rw [same, base]
      exact sound.owners pool (by simp) index inside
    · exact sound.owners other old index inside
  · have old := sound.apart
    rw [List.pairwise_append, List.pairwise_cons] at old ⊢
    simp only [List.mem_cons, base] at old ⊢
    refine ⟨old.1, old.2.1, ?_⟩
    intro other before later either
    rcases either with same | behind
    · rw [same, base]
      exact old.2.2 other before pool (Or.inl rfl)
    · exact old.2.2 other before later (Or.inr behind)

theorem named_slots (memory : Nat → Nat) (count address : Nat) :
    (List.range count).foldl
        (fun memory index => Function.update memory (kind.slot base index) base) memory address =
      if ∃ index, index < count ∧ address = kind.slot base index then base else memory address := by
  induction count with
  | zero => simp
  | succ count ih =>
      rw [List.range_succ, List.foldl_append, List.foldl_cons, List.foldl_nil]
      by_cases last : address = kind.slot base count
      · rw [last, Function.update_self, if_pos ⟨count, Nat.lt_succ_self count, rfl⟩]
      · rw [Function.update_of_ne last, ih]
        have same : (∃ index, index < count ∧ address = kind.slot base index) ↔
            ∃ index, index < count + 1 ∧ address = kind.slot base index := by
          constructor
          · intro earlier
            obtain ⟨index, inside, equal⟩ := earlier
            exact ⟨index, Nat.lt_succ_of_lt inside, equal⟩
          · intro either
            obtain ⟨index, inside, equal⟩ := either
            have different : index ≠ count := by
              intro at_last
              rw [at_last] at equal
              exact last equal
            exact ⟨index, by omega, equal⟩
        simp only [same]

theorem new_pool_spec (kind : Kind) (memory : Nat → Nat) (base : Nat) :
    (newPool kind memory base).1.freeCount.toNat = kind.length ∧
      (∀ index, index < kind.length → (newPool kind memory base).2 (kind.slot base index) = base) ∧
      ∀ address, (∀ index, index < kind.length → address ≠ kind.slot base index) →
        (newPool kind memory base).2 address = memory address := by
  have small : kind.length < 2 ^ 64 := kind.small
  refine ⟨?_, ?_, ?_⟩
  · rw [newPool, BitVec.toNat_ofNat, Nat.mod_eq_of_lt small]
  · intro index inside
    exact (named_slots memory kind.length _).trans (if_pos ⟨index, inside, rfl⟩)
  · intro address outside
    apply (named_slots memory kind.length address).trans (if_neg _)
    intro found
    obtain ⟨index, inside, same⟩ := found
    exact outside index inside same

theorem length_positive (kind : Kind) : 0 < kind.length := Nat.mul_pos kind.someMask (by decide)

theorem Sound.mark (sound : Sound kind ⟨front ++ pool :: rest, poolPtr⟩ live)
    (inside : index < kind.length) (clear : marked pool.bitmasks index = false)
    (some : pool.freeCount ≠ 0) :
    Sound kind ⟨front ++ ⟨pool.base, mark pool.bitmasks index, pool.freeCount - 1⟩ :: rest, poolPtr⟩
      (insert (kind.slot pool.base index) live) := by
  have old := sound.exact.counted pool (by simp)
  apply sound.replace
  · rfl
  · have count := vacant_mark (by decide) inside clear
    have less : (pool.freeCount - 1).toNat = pool.freeCount.toNat - 1 := by
      have positive : 1 ≤ pool.freeCount.toNat := by
        apply Nat.pos_of_ne_zero
        intro zero
        exact some (BitVec.eq_of_toNat_eq zero)
      rw [BitVec.toNat_sub_of_le (by rw [BitVec.le_def]; exact positive)]
      rfl
    show (pool.freeCount - 1).toNat = vacant (BitMask.mark pool.bitmasks index) kind.length
    omega
  · intro place within
    rw [marked_mark (by decide), Bool.or_eq_true, decide_eq_true_eq, Finset.mem_insert]
    apply or_congr
    · constructor
      · intro same
        rw [same]
      · exact slot_injective
    · exact sound.exact.used pool (by simp) place within
  · intro slot foreign
    rw [Finset.mem_insert]
    exact ⟨fun either => either.resolve_left (foreign index inside), Or.inr⟩

theorem Sound.add_pool {listed : Pools} (sound : Sound kind listed live)
    (fresh : ∀ pool ∈ listed.pools, Separate base kind.poolBytes pool.base kind.poolBytes) :
    Sound kind ⟨(newPool kind listed.poolPtr base).1 :: listed.pools,
      (newPool kind listed.poolPtr base).2⟩ live := by
  obtain ⟨count, names, frame⟩ := new_pool_spec kind listed.poolPtr base
  have clear : ∀ index, index < kind.length →
      marked (newPool kind listed.poolPtr base).1.bitmasks index = false := by
    intro index _
    simp [newPool, marked]
  refine ⟨⟨?_, ?_, ?_⟩, ?_, List.pairwise_cons.mpr ⟨fresh, sound.apart⟩⟩
  · intro pool member
    rcases List.mem_cons.mp member with new | old
    · rw [new, count, vacant_empty clear]
    · exact sound.exact.counted pool old
  · intro pool member index inside
    rcases List.mem_cons.mp member with new | old
    · rw [new, clear index inside]
      constructor
      · intro impossible
        cases impossible
      · intro listedSlot
        obtain ⟨other, found, place, within, same⟩ := sound.exact.placed _ listedSlot
        exact absurd same (slot_separate inside within (fresh other found))
    · exact sound.exact.used pool old index inside
  · intro slot member
    obtain ⟨pool, old, found⟩ := sound.exact.placed slot member
    exact ⟨pool, List.mem_cons_of_mem _ old, found⟩
  · intro pool member index inside
    rcases List.mem_cons.mp member with new | old
    · rw [new]
      exact names index inside
    · apply (frame (kind.slot pool.base index) _).trans (sound.owners pool old index inside)
      intro place within same
      exact slot_separate within inside (fresh pool old) same.symm

theorem first_sound (kind : Kind) (memory : Nat → Nat) (area : Option Nat) :
    Sound kind (firstPools kind memory area) ∅ := by
  have none : Sound kind ⟨[], memory⟩ ∅ := by
    refine ⟨⟨?_, ?_, ?_⟩, ?_, List.Pairwise.nil⟩
    · intro pool member
      cases member
    · intro pool member
      cases member
    · intro slot member
      exact absurd member (Finset.notMem_empty slot)
    · intro pool member
      cases member
  cases area with
  | none => exact none
  | some base =>
      apply none.add_pool
      intro pool member
      cases member

def Grown (before after : List Pool) (area : Option Nat) : Prop :=
  ∀ pool ∈ after, (∃ old ∈ before, old.base = pool.base) ∨ area = some pool.base

theorem alloc_spec {listed later : Pools} {area answer : Option Nat}
    (sound : Sound kind listed live)
    (fresh : ∀ base, area = some base → ∀ pool ∈ listed.pools,
      Separate base kind.poolBytes pool.base kind.poolBytes)
    (allocated : alloc kind listed area = (answer, later)) :
    Grown listed.pools later.pools area ∧
      (∀ slot, answer = some slot →
        slot ∉ live ∧ Sound kind later (insert slot live)) ∧
      (answer = none → area = none ∧ later = listed ∧
        ∀ pool ∈ listed.pools, ∀ index, index < kind.length →
          kind.slot pool.base index ∈ live) := by
  unfold alloc at allocated
  split at allocated
  case h_1 slot found taken =>
    cases allocated
    obtain ⟨front, pool, rest, changed, split, joined, here⟩ := take_from_some taken
    obtain ⟨index, inside, address, clear, positive, same⟩ := take_some here
    have arranged : Sound kind ⟨front ++ pool :: rest, listed.poolPtr⟩ live := by
      rw [← split]
      exact sound
    refine ⟨?_, ?_, ?_⟩
    · intro other member
      rw [joined, List.mem_append, List.mem_cons] at member
      rw [split]
      rcases member with before | now | behind
      · exact Or.inl ⟨other, by simp [before], rfl⟩
      · exact Or.inl ⟨pool, by simp, by rw [now, same]⟩
      · exact Or.inl ⟨other, by simp [behind], rfl⟩
    · intro served answered
      cases answered
      constructor
      · intro member
        rw [address, ← arranged.exact.used pool (by simp) index inside, clear] at member
        cases member
      · rw [joined, same, address]
        exact arranged.mark inside clear positive
    · intro nothing
      cases nothing
  case h_2 missed =>
    have full : ∀ pool ∈ listed.pools, ∀ index, index < kind.length →
        kind.slot pool.base index ∈ live := by
      intro pool member index inside
      rw [← sound.exact.used pool member index inside]
      exact take_none (sound.exact.counted pool member) (take_from_none missed pool member) inside
    split at allocated
    case h_1 =>
      cases allocated
      refine ⟨fun pool member => Or.inl ⟨pool, member, rfl⟩, ?_, fun _ => ⟨rfl, rfl, full⟩⟩
      intro slot impossible
      cases impossible
    case h_2 base =>
      cases allocated
      have wider : Sound kind ⟨[] ++ (newPool kind listed.poolPtr base).1 :: listed.pools,
          (newPool kind listed.poolPtr base).2⟩ live := sound.add_pool (fresh base rfl)
      have inside := length_positive kind
      refine ⟨?_, ?_, ?_⟩
      · intro pool member
        rcases List.mem_cons.mp member with new | old
        · exact Or.inr (by rw [new])
        · exact Or.inl ⟨pool, old, rfl⟩
      · intro slot answered
        cases answered
        constructor
        · intro member
          obtain ⟨other, found, place, within, same⟩ := sound.exact.placed _ member
          exact slot_separate inside within (fresh base rfl other found) same
        · have some : (newPool kind listed.poolPtr base).1.freeCount ≠ 0 := by
            intro zero
            have count := (new_pool_spec kind listed.poolPtr base).1
            rw [zero] at count
            exact absurd count (Nat.ne_of_lt inside)
          have clear : marked (newPool kind listed.poolPtr base).1.bitmasks 0 = false := by
            simp [newPool, marked]
          have first : mark (fun _ => 0#64) 0 = Function.update (fun _ => 0#64) 0 1#64 := rfl
          have marks := wider.mark inside clear some
          rw [newPool, first] at marks
          exact marks
      · intro nothing
        cases nothing

theorem map_owner
    (apart : (front ++ pool :: rest).Pairwise fun pool other =>
      Separate pool.base kind.poolBytes other.base kind.poolBytes) (change : Pool → Pool) :
    (front ++ pool :: rest).map (fun other =>
        if other.base = pool.base then change other else other) =
      front ++ change pool :: rest := by
  have different : ∀ other, other ∈ front ∨ other ∈ rest → other.base ≠ pool.base := by
    intro other around same
    have bytes : 0 < kind.poolBytes := Nat.lt_add_left _ (by decide)
    rcases apart_around apart other around with below | above <;> omega
  have kept : ∀ others : List Pool, (∀ other ∈ others, other ∈ front ∨ other ∈ rest) →
      others.map (fun other => if other.base = pool.base then change other else other) =
        others := by
    intro others around
    have same : ∀ other ∈ others,
        (if other.base = pool.base then change other else other) = id other := by
      intro other member
      exact if_neg (different other (around other member))
    rw [List.map_congr_left same, List.map_id]
  rw [List.map_append, List.map_cons, if_pos rfl, kept front (fun _ => Or.inl),
    kept rest (fun _ => Or.inr)]

/-- A live slot goes back to its pool, and to no other. -/
theorem free_spec {listed : Pools} (sound : Sound kind listed live) (member : slot ∈ live) :
    ∃ front pool rest index, listed.pools = front ++ pool :: rest ∧ index < kind.length ∧
      slot = kind.slot pool.base index ∧
      free kind listed slot = some ⟨front ++ pool.giveBack index :: rest, listed.poolPtr⟩ ∧
      Sound kind ⟨front ++ pool.giveBack index :: rest, listed.poolPtr⟩ (live.erase slot) := by
  obtain ⟨pool, found, index, inside, address⟩ := sound.exact.placed slot member
  obtain ⟨front, rest, split⟩ := List.append_of_mem found
  have owner := sound.owners pool found index inside
  rw [← address] at owner
  have arranged : Sound kind ⟨front ++ pool :: rest, listed.poolPtr⟩ live := by
    rw [← split]
    exact sound
  have used := (arranged.exact.used pool (by simp) index inside).mpr (address ▸ member)
  refine ⟨front, pool, rest, index, split, inside, address, ?_, ?_⟩
  · have named : (listed.pools.any fun other => other.base = listed.poolPtr slot) = true := by
      rw [List.any_eq_true]
      exact ⟨pool, found, decide_eq_true owner.symm⟩
    have place : (slot - listed.poolPtr slot) / kind.slotBytes = index := by
      rw [owner, address, slot_index]
    simp only [free, named, if_true, place]
    rw [owner, split, map_owner arranged.apart]
  · apply arranged.replace
    · rfl
    · have old := arranged.exact.counted pool (by simp)
      have count := vacant_clear (by decide) inside used
      have bound := vacant_le (clear pool.bitmasks index) kind.length
      have small : kind.length < 2 ^ 64 := kind.small
      show (pool.freeCount + 1).toNat = vacant (clear pool.bitmasks index) kind.length
      rw [BitVec.toNat_add]
      have one : (1 : BitVec 64).toNat = 1 := rfl
      rw [one, old]
      omega
    · intro place within
      have cleared : marked (pool.giveBack index).bitmasks place =
          marked (clear pool.bitmasks index) place := rfl
      rw [cleared, marked_clear (by decide), Bool.and_eq_true, Finset.mem_erase]
      apply and_congr
      · rw [address]
        simp only [Bool.not_eq_true', decide_eq_false_iff_not]
        constructor
        · intro different same
          exact different (slot_injective same)
        · intro different same
          exact different (by rw [same])
      · exact arranged.exact.used pool (by simp) place within
    · intro other foreign
      rw [Finset.mem_erase, address]
      exact ⟨fun both => both.2, fun old => ⟨foreign index inside, old⟩⟩

end SriGlibcMalloc.PoolAllocator
