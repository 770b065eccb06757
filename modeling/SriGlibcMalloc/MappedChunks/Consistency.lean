import SriGlibcMalloc.ByteMemory.Ranges
import SriGlibcMalloc.MappedChunks.Remap

/-!
# The records of the mapped chunks, their addresses and their mappings

Three tables speak of a mapped chunk. What is kept is that they agree and that the mapping
of a chunk holds no other chunk. Whatever a routine does to a chunk amounts to withdrawing
it and to entering one in bytes that are not mapped.
-/

namespace SriGlibcMalloc.MappedChunks

open ByteMemory (In)
open MainArena (wrap wrapSub pageSize wrap_sub_exact)

set_option autoImplicit false

/-- The bytes of the mapping that a chunk lies in. -/
def Region (p : Nat) (record : Record) : Nat → Prop :=
  In (wrapSub p record.prevSize) (wrap (record.prevSize + record.size))

instance (p : Nat) (record : Record) (byte : Nat) : Decidable (Region p record byte) :=
  inferInstanceAs (Decidable (In _ _ _))

variable (registry : Registry)

def Registry.Bound (p : Nat) : Prop := (registry.bound p).isSome = true

def Registry.Mapped (p : Nat) (record : Record) : Prop :=
  ∀ byte, Region p record byte → registry.mapped byte = true

/-- An address is in `mmap_tbl` exactly when the main arena has one record for it, which
says that the chunk is mapped, and its mapping is there. -/
def Registry.Consistent : Prop :=
  ∀ p, registry.Bound p ↔ ∃ record, registry.records p = [record] ∧
    record.mmapped = true ∧ registry.Mapped p record

structure Placed (p : Nat) (record : Record) : Prop where
  start : record.prevSize ≤ p
  offset : record.prevSize % 16 = 0
  block : (p - record.prevSize) % pageSize = 0
  pages : (record.prevSize + record.size) % pageSize = 0
  positive : 0 < record.size
  inside : p + record.size < 2 ^ 63

structure Registry.Holds (p : Nat) (record : Record) : Prop where
  bound : registry.Bound p
  single : registry.records p = [record]

/-- The tables agree, and no other record is for an address in the mapping of a chunk. -/
structure Registry.Kept : Prop where
  held : ∀ p, registry.Bound p → ∃ record, registry.Holds p record
  flagged : ∀ p record, registry.Holds p record → record.mmapped = true
  placed : ∀ p record, registry.Holds p record → Placed p record
  backed : ∀ p record, registry.Holds p record → registry.Mapped p record
  bound : ∀ p record, record ∈ registry.records p → record.mmapped = true → registry.Bound p
  recorded : ∀ p, registry.records p ≠ [] → registry.mapped p = true
  alone : ∀ p record other, registry.Holds p record → registry.records other ≠ [] →
    Region p record other → other = p
  apart : ∀ p other record second byte, registry.Holds p record → registry.Holds other second →
    Region p record byte → Region other second byte → p = other

/-- Two registries that differ at most in the sizes in `mmap_tbl` and in the statistics. -/
structure Registry.Same (other : Registry) : Prop where
  records : registry.records = other.records
  bound : ∀ p, registry.Bound p ↔ other.Bound p
  mapped : registry.mapped = other.mapped

def Registry.withdraw (p : Nat) (record : Record) : Registry :=
  { registry with
    records := Function.update registry.records p []
    bound := Function.update registry.bound p none
    mapped := fun byte => !decide (Region p record byte) && registry.mapped byte }

def Registry.enter (p : Nat) (record : Record) : Registry :=
  { registry with
    records := Function.update registry.records p [record]
    bound := Function.update registry.bound p (some (record.prevSize + record.size))
    mapped := fun byte => decide (Region p record byte) || registry.mapped byte }

def Registry.Free (p : Nat) (record : Record) : Prop :=
  ∀ byte, Region p record byte → registry.mapped byte = false

variable {registry} {other : Registry} {p q byte : Nat} {record second : Record}

theorem Placed.first (placed : Placed p record) :
    wrapSub p record.prevSize = p - record.prevSize := by
  have inside := placed.inside
  exact wrap_sub_exact placed.start (by omega)

theorem Placed.total (placed : Placed p record) :
    wrap (record.prevSize + record.size) = record.prevSize + record.size := by
  have start := placed.start
  have inside := placed.inside
  exact Nat.mod_eq_of_lt (by omega)

theorem Placed.region (placed : Placed p record) :
    Region p record byte ↔ p - record.prevSize ≤ byte ∧ byte < p + record.size := by
  have start := placed.start
  unfold Region In
  rw [placed.first, placed.total]
  omega

theorem Placed.own (placed : Placed p record) : Region p record p := by
  have positive := placed.positive
  rw [placed.region]
  omega

theorem Registry.Kept.consistent (kept : registry.Kept) : registry.Consistent := by
  intro p
  constructor
  · intro bound
    obtain ⟨record, holds⟩ := kept.held p bound
    exact ⟨record, holds.single, kept.flagged p record holds, kept.backed p record holds⟩
  · rintro ⟨record, single, flagged, _⟩
    refine kept.bound p record ?_ flagged
    rw [single]
    exact List.mem_singleton_self record

theorem Registry.Holds.same (holds : registry.Holds p record) (same : registry.Same other) :
    other.Holds p record :=
  ⟨(same.bound p).mp holds.bound, same.records ▸ holds.single⟩

theorem Registry.Kept.transfer (kept : registry.Kept)
    (bound : ∀ p, other.Bound p ↔ registry.Bound p)
    (single : ∀ p, registry.Bound p → other.records p = registry.records p)
    (mapped : ∀ p record byte, registry.Holds p record → Region p record byte →
      other.mapped byte = registry.mapped byte)
    (flags : ∀ p record, record ∈ other.records p → record.mmapped = true → registry.Bound p)
    (recorded : ∀ p, other.records p ≠ [] → other.mapped p = true)
    (alone : ∀ p record byte, registry.Holds p record → Region p record byte →
      other.records byte ≠ [] → registry.records byte ≠ []) : other.Kept := by
  have holds : ∀ p record, other.Holds p record ↔ registry.Holds p record := by
    intro p record
    constructor
    · rintro ⟨found, one⟩
      have before := (bound p).mp found
      exact ⟨before, single p before ▸ one⟩
    · rintro ⟨found, one⟩
      exact ⟨(bound p).mpr found, (single p found).trans one⟩
  constructor
  case held =>
    intro p found
    obtain ⟨record, held⟩ := kept.held p ((bound p).mp found)
    exact ⟨record, (holds p record).mpr held⟩
  case flagged => exact fun p record held => kept.flagged p record ((holds p record).mp held)
  case placed => exact fun p record held => kept.placed p record ((holds p record).mp held)
  case backed =>
    intro p record held byte inside
    have before := (holds p record).mp held
    rw [mapped p record byte before inside]
    exact kept.backed p record before byte inside
  case bound => exact fun p record member flagged => (bound p).mpr (flags p record member flagged)
  case recorded => exact recorded
  case alone =>
    intro p record byte held present inside
    have before := (holds p record).mp held
    exact kept.alone p record byte before (alone p record byte before inside present) inside
  case apart =>
    intro p q record second byte first held
    exact kept.apart p q record second byte ((holds p record).mp first) ((holds q second).mp held)

theorem Registry.Kept.same (kept : registry.Kept) (same : registry.Same other) : other.Kept := by
  apply kept.transfer
  case bound => exact fun p => (same.bound p).symm
  case single => exact fun p _ => congrFun same.records.symm p
  case mapped => exact fun _ _ byte _ _ => congrFun same.mapped.symm byte
  case flags =>
    intro p record member
    rw [← same.records] at member
    exact kept.bound p record member
  case recorded =>
    intro p present
    rw [← same.records] at present
    rw [← same.mapped]
    exact kept.recorded p present
  case alone =>
    intro _ _ byte _ _ present
    rw [← same.records] at present
    exact present

theorem Registry.bound_withdraw :
    (registry.withdraw p record).Bound q ↔ q ≠ p ∧ registry.Bound q := by
  unfold Registry.Bound Registry.withdraw
  dsimp only
  by_cases same : q = p
  · subst same
    rw [Function.update_self]
    exact iff_of_false Bool.false_ne_true fun either => either.1 rfl
  · rw [Function.update_of_ne same, and_iff_right same]

theorem Registry.records_withdraw_other (differs : q ≠ p) :
    (registry.withdraw p record).records q = registry.records q := by
  unfold Registry.withdraw
  exact Function.update_of_ne differs ..

theorem Registry.holds_withdraw :
    (registry.withdraw p record).Holds q second ↔ q ≠ p ∧ registry.Holds q second := by
  constructor
  · rintro ⟨bound, single⟩
    obtain ⟨differs, bound⟩ := Registry.bound_withdraw.mp bound
    rw [Registry.records_withdraw_other differs] at single
    exact ⟨differs, bound, single⟩
  · rintro ⟨differs, bound, single⟩
    refine ⟨Registry.bound_withdraw.mpr ⟨differs, bound⟩, ?_⟩
    rw [Registry.records_withdraw_other differs]
    exact single

theorem Registry.records_withdraw (present : (registry.withdraw p record).records q ≠ []) :
    q ≠ p ∧ registry.records q ≠ [] := by
  have differs : q ≠ p := by
    rintro rfl
    unfold Registry.withdraw at present
    exact present (Function.update_self ..)
  rw [Registry.records_withdraw_other differs] at present
  exact ⟨differs, present⟩

theorem Registry.mapped_withdraw (outside : ¬Region p record byte) :
    (registry.withdraw p record).mapped byte = registry.mapped byte := by
  unfold Registry.withdraw
  dsimp only
  rw [decide_eq_false outside]
  rfl

theorem Registry.free_withdraw : (registry.withdraw p record).Free p record := by
  intro byte inside
  unfold Registry.withdraw
  dsimp only
  rw [decide_eq_true inside]
  rfl

theorem Registry.Kept.withdraw (kept : registry.Kept) (holds : registry.Holds p record) :
    (registry.withdraw p record).Kept where
  held := by
    intro q bound
    obtain ⟨differs, bound⟩ := Registry.bound_withdraw.mp bound
    obtain ⟨second, found⟩ := kept.held q bound
    exact ⟨second, Registry.holds_withdraw.mpr ⟨differs, found⟩⟩
  flagged := fun q second found => kept.flagged q second (Registry.holds_withdraw.mp found).2
  placed := fun q second found => kept.placed q second (Registry.holds_withdraw.mp found).2
  backed := by
    intro q second found byte inside
    obtain ⟨differs, found⟩ := Registry.holds_withdraw.mp found
    rw [Registry.mapped_withdraw]
    · exact kept.backed q second found byte inside
    · exact fun within => differs (kept.apart q p second record byte found holds inside within)
  bound := by
    intro q second member flagged
    obtain ⟨differs, _⟩ := Registry.records_withdraw (List.ne_nil_of_mem member)
    rw [Registry.records_withdraw_other differs] at member
    exact Registry.bound_withdraw.mpr ⟨differs, kept.bound q second member flagged⟩
  recorded := by
    intro q present
    obtain ⟨differs, present⟩ := Registry.records_withdraw present
    rw [Registry.mapped_withdraw]
    · exact kept.recorded q present
    · exact fun within => differs (kept.alone p record q holds present within)
  alone := by
    intro q second other found present
    obtain ⟨_, present⟩ := Registry.records_withdraw present
    exact kept.alone q second other (Registry.holds_withdraw.mp found).2 present
  apart := fun q other second third byte first found =>
    kept.apart q other second third byte (Registry.holds_withdraw.mp first).2
      (Registry.holds_withdraw.mp found).2

theorem Registry.bound_enter :
    (registry.enter p record).Bound q ↔ q = p ∨ registry.Bound q := by
  unfold Registry.Bound Registry.enter
  dsimp only
  by_cases same : q = p
  · subst same
    rw [Function.update_self]
    exact iff_of_true rfl (Or.inl rfl)
  · rw [Function.update_of_ne same, or_iff_right same]

theorem Registry.records_enter_self : (registry.enter p record).records p = [record] := by
  unfold Registry.enter
  exact Function.update_self ..

theorem Registry.records_enter_other (differs : q ≠ p) :
    (registry.enter p record).records q = registry.records q := by
  unfold Registry.enter
  exact Function.update_of_ne differs ..

theorem Registry.mapped_enter :
    (registry.enter p record).mapped byte = true ↔
      Region p record byte ∨ registry.mapped byte = true := by
  unfold Registry.enter
  dsimp only
  rw [Bool.or_eq_true, decide_eq_true_iff]

theorem Registry.holds_enter :
    (registry.enter p record).Holds q second ↔
      q = p ∧ second = record ∨ q ≠ p ∧ registry.Holds q second := by
  by_cases same : q = p
  · subst same
    constructor
    · rintro ⟨_, single⟩
      rw [Registry.records_enter_self] at single
      exact Or.inl ⟨rfl, (List.cons.inj single).1.symm⟩
    · rintro (⟨_, rfl⟩ | ⟨differs, _⟩)
      · exact ⟨Registry.bound_enter.mpr (Or.inl rfl), Registry.records_enter_self⟩
      · exact absurd rfl differs
  · constructor
    · rintro ⟨bound, single⟩
      rw [Registry.records_enter_other same] at single
      exact Or.inr ⟨same, (Registry.bound_enter.mp bound).resolve_left same, single⟩
    · rintro (⟨equal, _⟩ | ⟨_, bound, single⟩)
      · exact absurd equal same
      · refine ⟨Registry.bound_enter.mpr (Or.inr bound), ?_⟩
        rw [Registry.records_enter_other same]
        exact single

theorem Registry.Kept.enter (kept : registry.Kept) (placed : Placed p record)
    (flagged : record.mmapped = true) (free : registry.Free p record) :
    (registry.enter p record).Kept where
  held := by
    intro q bound
    by_cases same : q = p
    · exact ⟨record, Registry.holds_enter.mpr (Or.inl ⟨same, rfl⟩)⟩
    · have before := (Registry.bound_enter.mp bound).resolve_left same
      obtain ⟨second, found⟩ := kept.held q before
      exact ⟨second, Registry.holds_enter.mpr (Or.inr ⟨same, found⟩)⟩
  flagged := by
    intro q second found
    obtain ⟨rfl, rfl⟩ | ⟨_, found⟩ := Registry.holds_enter.mp found
    · exact flagged
    · exact kept.flagged q second found
  placed := by
    intro q second found
    obtain ⟨rfl, rfl⟩ | ⟨_, found⟩ := Registry.holds_enter.mp found
    · exact placed
    · exact kept.placed q second found
  backed := by
    intro q second found byte inside
    obtain ⟨rfl, rfl⟩ | ⟨_, found⟩ := Registry.holds_enter.mp found
    · exact Registry.mapped_enter.mpr (Or.inl inside)
    · exact Registry.mapped_enter.mpr (Or.inr (kept.backed q second found byte inside))
  bound := by
    intro q second member mmapped
    rw [Registry.bound_enter]
    by_cases same : q = p
    · exact Or.inl same
    · rw [Registry.records_enter_other same] at member
      exact Or.inr (kept.bound q second member mmapped)
  recorded := by
    intro q present
    rw [Registry.mapped_enter]
    by_cases same : q = p
    · subst same
      exact Or.inl placed.own
    · rw [Registry.records_enter_other same] at present
      exact Or.inr (kept.recorded q present)
  alone := by
    intro q second other found present inside
    obtain ⟨rfl, rfl⟩ | ⟨differs, earlier⟩ := Registry.holds_enter.mp found
    · by_contra another
      rw [Registry.records_enter_other another] at present
      have before := kept.recorded other present
      rw [free other inside] at before
      cases before
    · by_cases same : other = p
      · have before := kept.backed q second earlier other inside
        rw [free other (same ▸ placed.own)] at before
        cases before
      · rw [Registry.records_enter_other same] at present
        exact kept.alone q second other earlier present inside
  apart := by
    intro q other second third byte first found inside within
    obtain ⟨same, rfl⟩ | ⟨_, earlier⟩ := Registry.holds_enter.mp first
    · obtain ⟨equal, _⟩ | ⟨_, later⟩ := Registry.holds_enter.mp found
      · exact same.trans equal.symm
      · have before := kept.backed other third later byte within
        rw [free byte (same ▸ inside)] at before
        cases before
    · obtain ⟨equal, rfl⟩ | ⟨_, later⟩ := Registry.holds_enter.mp found
      · have before := kept.backed q second earlier byte inside
        rw [free byte (equal ▸ within)] at before
        cases before
      · exact kept.apart q other second third byte earlier later inside within

end SriGlibcMalloc.MappedChunks
