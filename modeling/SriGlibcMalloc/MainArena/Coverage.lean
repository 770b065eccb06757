import SriGlibcMalloc.MainArena.Regions
import SriGlibcMalloc.Transition.Run

/-!
# The chunks of the main arena stay attributable

The arena owns the bytes of its chunks and of top. They stay listed in
`sbrk_regions` through every growth, trimming and division of chunks, as long as
nobody else has moved the break between two calls.
-/

namespace SriGlibcMalloc.MainArena

open ArenaLookup Transition

set_option autoImplicit false

/-- The chunks that are not mmapped, by address and size, and top. -/
structure Arena where
  sbrk : Sbrk
  top : Nat
  topSize : Nat
  chunks : List (Nat × Nat)

/-- What allocating and freeing do to the extents of the chunks. A chunk that is
freed has at least the minimal size, so no fencepost is merged with top. -/
inductive Division
  | splitChunk (addr size first : Nat)
  | mergeChunks (addr size next : Nat)
  | splitTop (size : Nat)
  | mergeTop (addr : Nat) (size : Nat)
  deriving DecidableEq, Repr

inductive Action
  | foreign (amount : Nat)
  | grow (nb topPad : Nat) (answers : Answers)
  | trim (pad : Nat) (answers : TrimAnswers)
  | divide (division : Division)

/-- The arena before the first allocation: top is the empty `initial_top`. -/
def initial (brk : Nat) (heapMax : Nat) (initialTop : Nat) : Arena where
  sbrk := {
    brk := brk
    lookup := lookupInit heapMax
    sbrkBase := 0
    contiguous := true
    systemMem := 0 }
  top := initialTop
  topSize := 0
  chunks := []

def fenceposts (top topSize : Nat) : List (Nat × Nat) :=
  if topSize = 0 then []
  else
    let oldSize := alignDown (wrapSub topSize (4 * sizeSz)) mallocAlignment
    [(top, oldSize), (top + oldSize, 2 * sizeSz), (top + oldSize + 2 * sizeSz, 2 * sizeSz)]

def Arena.place (arena : Arena) (sbrk : Sbrk) : Placement → Arena
  | .extended size => { arena with sbrk := sbrk, topSize := size }
  | .moved alignedBrk size =>
      { sbrk := sbrk
        top := alignedBrk
        topSize := size
        chunks := fenceposts arena.top arena.topSize ++ arena.chunks }
  | .kept => { arena with sbrk := sbrk }

def Arena.grow (arena : Arena) (nb topPad : Nat) (answers : Answers) : Option Arena :=
  (growTop arena.sbrk answers nb topPad (arena.top + arena.topSize) arena.topSize).map
    fun (placement, sbrk) => arena.place sbrk placement

def Arena.trim (arena : Arena) (pad : Nat) (answers : TrimAnswers) : Arena :=
  match systrim arena.sbrk answers pad (arena.top + arena.topSize) arena.topSize with
  | (some topSize, sbrk) => { arena with sbrk := sbrk, topSize := topSize }
  | (none, sbrk) => { arena with sbrk := sbrk }

def Arena.divide (arena : Arena) : Division → Option Arena
  | .splitChunk addr size first =>
      if (addr, size) ∈ arena.chunks ∧ first ≤ size then
        some { arena with
          chunks := (addr, first) :: (addr + first, size - first) ::
            arena.chunks.erase (addr, size) }
      else none
  | .mergeChunks addr size next =>
      if (addr, size) ∈ arena.chunks ∧ (addr + size, next) ∈ arena.chunks then
        some { arena with
          chunks := (addr, size + next) ::
            (arena.chunks.erase (addr, size)).erase (addr + size, next) }
      else none
  | .splitTop size =>
      if size + minSize ≤ arena.topSize then
        some { arena with
          top := arena.top + size
          topSize := arena.topSize - size
          chunks := (arena.top, size) :: arena.chunks }
      else none
  | .mergeTop addr size =>
      if (addr, size) ∈ arena.chunks ∧ addr + size = arena.top ∧ minSize ≤ size then
        some { arena with
          top := addr
          topSize := size + arena.topSize
          chunks := arena.chunks.erase (addr, size) }
      else none

def step (arena : Arena) : Action → Option Arena
  | .foreign amount =>
      if arena.sbrk.brk + amount < 2 ^ 63 then
        some { arena with sbrk := { arena.sbrk with brk := arena.sbrk.brk + amount } }
      else none
  | .grow nb topPad answers => arena.grow nb topPad answers
  | .trim pad answers => some (arena.trim pad answers)
  | .divide division => arena.divide division

def Within (chunk : Nat × Nat) (byte : Nat) : Prop :=
  chunk.1 ≤ byte ∧ byte < chunk.1 + chunk.2

/-- Every byte of every chunk is in an interval, and is looked up as index 1. -/
def Attributable (arena : Arena) : Prop :=
  ∀ chunk ∈ (arena.top, arena.topSize) :: arena.chunks, ∀ byte, Within chunk byte →
    Listed arena.sbrk.lookup byte ∧ lookupArenaIndex arena.sbrk.lookup byte = some 1

/-- The break is where `sbrk_regions[0]` ends whenever `MORECORE` is about to
move it, except the first time; `systrim` finds it at the end of top only when
top ends that region, and wants no more than top has; and the table of regions is
not full. -/
def Steady (arena : Arena) : Action → Prop
  | .grow nb topPad answers =>
      let size := growthRequest arena.sbrk.contiguous nb topPad arena.topSize
      (0 < signed size → arena.sbrk.moves answers.first size = true →
        arena.sbrk.sbrkBase = 0 ∨ arena.sbrk.brk = (arena.sbrk.lookup.sbrkRegions 0).hi) ∧
      ¬(arena.sbrk.lookup.sbrkRegionCount + 1 = arena.sbrk.lookup.sbrkRegionCurrentMax ∧
        maxSbrkTableSize ≤ arena.sbrk.lookup.sbrkRegionCurrentMax)
  | .trim pad _ =>
      (∀ extra, trimAmount arena.topSize pad = some extra → extra ≤ arena.topSize) ∧
        (arena.sbrk.brk = arena.top + arena.topSize →
          (arena.sbrk.lookup.sbrkRegions 0).lo ≤ arena.top ∧
            arena.sbrk.brk = (arena.sbrk.lookup.sbrkRegions 0).hi)
  | _ => True

instance steadyDecidable (arena : Arena) : ∀ action, Decidable (Steady arena action)
  | .grow _ _ _ => inferInstanceAs (Decidable ((_ → _ → _) ∧ ¬(_ ∧ _)))
  | .trim pad _ => inferInstanceAs (Decidable ((∀ extra ∈ trimAmount arena.topSize pad, _) ∧ (_ → _)))
  | .foreign _ => inferInstanceAs (Decidable True)
  | .divide _ => inferInstanceAs (Decidable True)

/-! ## Chunks in listed memory -/

/-- Two chunks share bytes outside of `sbrk_regions[0]` only. -/
def Apart (lookup : Lookup) (chunk other : Nat × Nat) : Prop :=
  ∀ byte, Within chunk byte → Within other byte → Elsewhere lookup byte

structure Owned (lookup : Lookup) (chunks : List (Nat × Nat)) : Prop where
  listed : ∀ chunk ∈ chunks, ∀ byte, Within chunk byte → Listed lookup byte
  apart : chunks.Pairwise (Apart lookup)

variable {lookup after : Lookup} {chunk other part : Nat × Nat} {chunks fewer : List (Nat × Nat)}
variable {start stop : Nat}

theorem Apart.symm (apart : Apart lookup chunk other) : Apart lookup other chunk := by
  intro byte first second
  exact apart byte second first

theorem Apart.narrow (apart : Apart lookup chunk other)
    (inside : ∀ byte, Within part byte → Within chunk byte) : Apart lookup part other := by
  intro byte first second
  exact apart byte (inside byte first) second

theorem Owned.sublist (owned : Owned lookup chunks) (sublist : fewer.Sublist chunks) :
    Owned lookup fewer := by
  constructor
  · intro chunk member
    exact owned.listed chunk (sublist.subset member)
  · exact owned.apart.sublist sublist

theorem Owned.cons (owned : Owned lookup chunks)
    (listed : ∀ byte, Within chunk byte → Listed lookup byte)
    (apart : ∀ other ∈ chunks, Apart lookup chunk other) : Owned lookup (chunk :: chunks) := by
  constructor
  · intro other member
    rcases List.mem_cons.mp member with first | later
    · rw [first]
      exact listed
    · exact owned.listed other later
  · exact List.pairwise_cons.mpr ⟨apart, owned.apart⟩

theorem Owned.tail (owned : Owned lookup (chunk :: chunks)) : Owned lookup chunks :=
  owned.sublist (List.sublist_cons_self ..)

theorem Owned.head (owned : Owned lookup (chunk :: chunks)) :
    (∀ byte, Within chunk byte → Listed lookup byte) ∧
      ∀ other ∈ chunks, Apart lookup chunk other :=
  ⟨owned.listed chunk List.mem_cons_self, (List.pairwise_cons.mp owned.apart).1⟩

theorem Owned.erase (owned : Owned lookup chunks) (member : chunk ∈ chunks) :
    ∀ other ∈ chunks.erase chunk, Apart lookup chunk other := by
  have reordered : (chunk :: chunks.erase chunk).Pairwise (Apart lookup) := by
    apply (List.perm_cons_erase member).pairwise owned.apart
    intro first second apart
    exact apart.symm
  exact (List.pairwise_cons.mp reordered).1

theorem Owned.widen (owned : Owned lookup chunks) (widened : Widened lookup after start stop) :
    Owned after chunks := by
  constructor
  · intro chunk member byte inside
    exact widened.keeps byte (owned.listed chunk member byte inside)
  · apply owned.apart.imp
    intro chunk other apart byte first second
    exact widened.elsewhere byte (apart byte first second)

theorem Owned.cons_new (owned : Owned lookup chunks)
    (widened : Widened lookup after start stop)
    (inside : ∀ byte, Within chunk byte → start ≤ byte ∧ byte < stop) :
    Owned after (chunk :: chunks) := by
  apply (owned.widen widened).cons
  · intro byte within
    exact widened.covers byte (inside byte within).1 (inside byte within).2
  · intro other member byte within shared
    exact widened.separate byte (owned.listed other member byte shared) (inside byte within).1
      (inside byte within).2

/-! ## The invariant -/

/-- Top and the chunks lie in listed memory, and top has room for the fenceposts. -/
structure Covered (arena : Arena) : Prop where
  bounds : Bounds arena.sbrk
  word : arena.top + arena.topSize < 2 ^ 63
  room : arena.topSize = 0 ∨ minSize ≤ arena.topSize
  owned : Owned arena.sbrk.lookup ((arena.top, arena.topSize) :: arena.chunks)

variable {arena next : Arena}

theorem Covered.attributable (covered : Covered arena) : Attributable arena := by
  intro chunk member byte within
  have listed := covered.owned.listed chunk member byte within
  refine ⟨listed, ?_⟩
  rw [lookupArenaIndex, if_pos (in_sbrk_region_iff.mpr listed)]

theorem initial_covered {brk heapMax initialTop : Nat} (positive : 0 < brk) (word : brk < 2 ^ 63)
    (top : initialTop < 2 ^ 63) : Covered (initial brk heapMax initialTop) := by
  refine ⟨⟨positive, word, ?_, fun _ => rfl⟩, top, Or.inl rfl, ⟨?_, ?_⟩⟩
  · intro used
    exact absurd rfl used
  · intro chunk member byte within
    rw [List.mem_singleton.mp member] at within
    exact absurd within.1 (Nat.not_le.mpr within.2)
  · exact List.pairwise_singleton ..

theorem foreign_covered {amount : Nat} (covered : Covered arena)
    (room : arena.sbrk.brk + amount < 2 ^ 63) :
    Covered { arena with sbrk := { arena.sbrk with brk := arena.sbrk.brk + amount } } := by
  have bounds := covered.bounds
  have positive := Nat.add_pos_left bounds.positive amount
  exact ⟨⟨positive, room, bounds.ordered, bounds.unset⟩, covered.word, covered.room, covered.owned⟩

/-- The fenceposts and what is left before them are bytes of the old top. -/
theorem fenceposts_owned (top topSize : Nat) (room : topSize = 0 ∨ minSize ≤ topSize)
    (owned : Owned lookup ((top, topSize) :: chunks)) :
    Owned lookup (fenceposts top topSize ++ chunks) := by
  rw [fenceposts]
  by_cases empty : topSize = 0
  · rw [if_pos empty]
    exact owned.tail
  · rw [if_neg empty]
    have large := room.resolve_left empty
    have fits : alignDown (wrapSub topSize (4 * sizeSz)) mallocAlignment + 32 ≤ topSize := by
      have less : wrapSub topSize (4 * sizeSz) + 32 ≤ topSize := by
        simp only [minSize, wrapSub, wrap, sizeSz] at *
        omega
      exact Nat.le_trans (Nat.add_le_add_right (Nat.sub_le ..) 32) less
    generalize alignDown (wrapSub topSize (4 * sizeSz)) mallocAlignment = oldSize at fits
    obtain ⟨listed, apart⟩ := owned.head
    have piece : ∀ addr size, top ≤ addr → addr + size ≤ top + topSize →
        ∀ byte, Within (addr, size) byte → Within (top, topSize) byte := by
      intro addr size low high byte within
      exact ⟨Nat.le_trans low within.1, Nat.lt_of_lt_of_le within.2 high⟩
    have first := piece top oldSize (Nat.le_refl _) (by omega)
    have second := piece (top + oldSize) (2 * sizeSz) (by omega) (by simp only [sizeSz]; omega)
    have third := piece (top + oldSize + 2 * sizeSz) (2 * sizeSz) (by omega)
      (by simp only [sizeSz]; omega)
    have separate : ∀ low lowSize high highSize, low + lowSize ≤ high →
        Apart lookup (low, lowSize) (high, highSize) := by
      intro low lowSize high highSize ordered byte inside shared
      exact absurd (Nat.lt_of_lt_of_le inside.2 ordered) (Nat.not_lt.mpr shared.1)
    have last := owned.tail.cons (fun byte within => listed byte (third byte within))
      (fun other member => (apart other member).narrow third)
    have middle := last.cons (fun byte within => listed byte (second byte within)) (by
      intro other member
      rcases List.mem_cons.mp member with next | rest
      · rw [next]
        exact separate _ _ _ _ (Nat.le_refl _)
      · exact (apart other rest).narrow second)
    apply middle.cons (fun byte within => listed byte (first byte within))
    intro other member
    rcases List.mem_cons.mp member with next | rest
    · rw [next]
      exact separate _ _ _ _ (Nat.le_refl _)
    · rcases List.mem_cons.mp rest with next | rest
      · rw [next]
        exact separate _ _ _ _ (Nat.le_add_right ..)
      · exact (apart other rest).narrow first

theorem grow_covered {nb topPad : Nat} {answers : Answers} (covered : Covered arena)
    (steady : Steady arena (.grow nb topPad answers))
    (grown : arena.grow nb topPad answers = some next) : Covered next := by
  obtain ⟨⟨placement, sbrk⟩, result, placed⟩ := Option.map_eq_some_iff.mp grown
  subst placed
  have posts := fenceposts_owned arena.top arena.topSize covered.room covered.owned
  obtain ⟨bounds, reached, _⟩ :=
    grow_top_spec covered.bounds (Nat.le_add_left ..) steady.1 steady.2 result
  cases placement with
  | extended size =>
      obtain ⟨stop, widened, ordered, word, limit, room⟩ := reached
      refine ⟨bounds, ?_, Or.inr room, ?_⟩
      · show arena.top + size < 2 ^ 63
        omega
      · obtain ⟨listed, apart⟩ := covered.owned.head
        apply (covered.owned.tail.widen widened).cons
        · intro byte within
          rcases Nat.lt_or_ge byte (arena.top + arena.topSize) with old | added
          · exact widened.keeps byte (listed byte ⟨within.1, old⟩)
          · have before : byte < arena.top + size := within.2
            exact widened.covers byte added (by omega)
        · intro other member byte within shared
          rcases Nat.lt_or_ge byte (arena.top + arena.topSize) with old | added
          · exact widened.elsewhere byte (apart other member byte ⟨within.1, old⟩ shared)
          · have before : byte < arena.top + size := within.2
            exact widened.separate byte (covered.owned.tail.listed other member byte shared)
              added (by omega)
  | moved alignedBrk size =>
      obtain ⟨widened, word, room⟩ := reached
      exact ⟨bounds, word, Or.inr room, posts.cons_new widened (fun byte within => within)⟩
  | kept => exact ⟨bounds, covered.word, covered.room, covered.owned.widen reached⟩

theorem trim_amount_spec {topSize pad : Nat} {extra : Int} (small : topSize < 2 ^ 63)
    (modest : extra ≤ topSize) (wanted : trimAmount topSize pad = some extra) :
    (minSize : Int) + 1 + extra ≤ topSize := by
  unfold trimAmount at wanted
  dsimp only at wanted
  generalize shape : wrapSub topSize (minSize + 1) = topArea at wanted
  split at wanted
  case isTrue => cases wanted
  case isFalse larger =>
    split at wanted
    case isTrue => cases wanted
    case isFalse nonzero =>
      have asked := Option.some.inj wanted
      rw [asked] at nonzero
      have area : topArea < 2 ^ 64 := by
        rw [← shape]
        exact Nat.mod_lt _ (Nat.two_pow_pos 64)
      rw [wrap_sub_exact (by omega) area] at asked
      have paged : alignDown (topArea - pad) pageSize ≤ topArea - pad := Nat.sub_le ..
      have pages : alignDown (topArea - pad) pageSize % 4096 = 0 := by
        simp only [alignDown, pageSize]
        omega
      rw [signed] at asked
      simp only [wrapSub, wrap, minSize] at shape ⊢
      split at asked <;> omega

theorem record_release_cases {sbrk after : Sbrk} {probe : Bool} {currentBrk topSize : Nat}
    {shrunk : Option Nat}
    (recorded : recordRelease sbrk probe currentBrk topSize = (shrunk, after)) :
    after.brk = sbrk.brk ∧ after.sbrkBase = sbrk.sbrkBase ∧
      ((shrunk = none ∧ after.lookup = sbrk.lookup) ∨
        (currentBrk ≠ sbrk.brk ∧
          shrunk = some (chunksize (wrapSub topSize (wrapSub currentBrk sbrk.brk))) ∧
          after.lookup = lookupDecrSbrkHi sbrk.lookup (wrapSub currentBrk sbrk.brk))) := by
  unfold recordRelease at recorded
  split at recorded
  case h_1 asked =>
    obtain ⟨same, _⟩ := morecore_zero asked
    cases recorded
    rw [same]
    exact ⟨rfl, rfl, Or.inl ⟨rfl, rfl⟩⟩
  case h_2 newBrk probed asked =>
    obtain ⟨same, found⟩ := morecore_zero asked
    rw [found newBrk rfl] at recorded
    subst same
    split at recorded
    case isTrue =>
      cases recorded
      exact ⟨rfl, rfl, Or.inl ⟨rfl, rfl⟩⟩
    case isFalse moved =>
      cases recorded
      exact ⟨rfl, rfl, Or.inr ⟨moved, rfl, rfl⟩⟩

theorem wrap_sub_released {topSize brk newBrk : Nat} {extra : Int} (low : 0 ≤ topSize - extra)
    (old : topSize ≤ brk) (word : brk < 2 ^ 63 ∧ newBrk < 2 ^ 63)
    (moved : (newBrk : Int) = brk - extra) :
    wrapSub topSize (wrapSub brk newBrk) = (topSize - extra).toNat := by
  simp only [wrapSub, wrap]
  omega

theorem release_top_cases {sbrk after : Sbrk} {answers : TrimAnswers} {extra : Int}
    {topEnd topSize : Nat} {shrunk : Option Nat}
    (released : releaseTop sbrk answers extra topEnd topSize = (shrunk, after)) :
    after.sbrkBase = sbrk.sbrkBase ∧
      ((shrunk = none ∧ after.lookup = sbrk.lookup ∧
          ((after.brk : Int) = sbrk.brk ∨
            (0 < (sbrk.brk : Int) - extra ∧ (sbrk.brk : Int) - extra < 2 ^ 63 ∧
              (after.brk : Int) = sbrk.brk - extra))) ∨
        (sbrk.brk = topEnd ∧ 0 < (sbrk.brk : Int) - extra ∧ (sbrk.brk : Int) - extra < 2 ^ 63 ∧
          (after.brk : Int) = sbrk.brk - extra ∧
          shrunk = some (chunksize (wrapSub topSize (wrapSub sbrk.brk after.brk))) ∧
          after.lookup = lookupDecrSbrkHi sbrk.lookup (wrapSub sbrk.brk after.brk))) := by
  unfold releaseTop at released
  split at released
  case h_1 queried asked =>
    obtain ⟨same, _⟩ := morecore_zero asked
    cases released
    rw [same]
    exact ⟨rfl, Or.inl ⟨rfl, rfl, Or.inl rfl⟩⟩
  case h_2 currentBrk queried asked =>
    obtain ⟨same, found⟩ := morecore_zero asked
    rw [found currentBrk rfl] at released
    subst same
    split at released
    case isFalse =>
      cases released
      exact ⟨rfl, Or.inl ⟨rfl, rfl, Or.inl rfl⟩⟩
    case isTrue meets =>
      obtain ⟨brk, base, outcome⟩ := record_release_cases released
      cases returned : morecore queried answers.release (-extra) with | mk answer moved
      rw [returned] at brk base outcome
      dsimp only at brk base outcome
      rw [← brk] at outcome
      rcases morecore_cases returned with ⟨_, moves, later⟩ | ⟨_, same⟩
      · obtain ⟨low, high⟩ := (moves_iff.mp moves).2
        rw [← sub_eq_add_neg] at low high
        have movedBrk : (after.brk : Int) = queried.brk - extra := by
          rw [brk, later, sub_eq_add_neg]
          exact Int.toNat_of_nonneg (Int.le_of_lt low)
        have movedBase : moved.sbrkBase = queried.sbrkBase := by rw [later]
        have movedLookup : moved.lookup = queried.lookup := by rw [later]
        refine ⟨base.trans movedBase, ?_⟩
        rw [movedLookup] at outcome
        rcases outcome with ⟨nothing, looked⟩ | ⟨_, shrunkIs, looked⟩
        · exact Or.inl ⟨nothing, looked, Or.inr ⟨low, high, movedBrk⟩⟩
        · exact Or.inr ⟨meets, low, high, movedBrk, shrunkIs, looked⟩
      · subst same
        refine ⟨base, ?_⟩
        rcases outcome with ⟨nothing, looked⟩ | ⟨differs, _⟩
        · exact Or.inl ⟨nothing, looked, Or.inl (congrArg _ brk)⟩
        · exact absurd brk.symm differs

theorem systrim_eq (sbrk : Sbrk) (answers : TrimAnswers) (pad topEnd topSize : Nat) :
    systrim sbrk answers pad topEnd topSize = (none, sbrk) ∨
      ∃ extra, trimAmount topSize pad = some extra ∧
        systrim sbrk answers pad topEnd topSize =
          releaseTop sbrk answers extra topEnd topSize := by
  unfold systrim
  cases trimAmount topSize pad with
  | none => exact Or.inl rfl
  | some extra => exact Or.inr ⟨extra, rfl, rfl⟩

theorem systrim_cases {sbrk after : Sbrk} {answers : TrimAnswers} {pad top topSize : Nat}
    {shrunk : Option Nat} (positive : 0 < sbrk.brk) (word : sbrk.brk < 2 ^ 63)
    (modest : ∀ extra, trimAmount topSize pad = some extra → extra ≤ topSize)
    (ends : top + topSize < 2 ^ 63)
    (trimmed : systrim sbrk answers pad (top + topSize) topSize = (shrunk, after)) :
    (after.sbrkBase = sbrk.sbrkBase ∧ 0 < after.brk ∧ after.brk < 2 ^ 63) ∧
      ((shrunk = none ∧ after.lookup = sbrk.lookup) ∨
        ∃ size, sbrk.brk = top + topSize ∧ shrunk = some size ∧ minSize ≤ size ∧
          top + size ≤ after.brk ∧
          after.lookup = lookupDecrSbrkHi sbrk.lookup (wrapSub sbrk.brk after.brk)) := by
  rcases systrim_eq sbrk answers pad (top + topSize) topSize with idle | ⟨extra, wanted, asks⟩
  · rw [idle] at trimmed
    cases trimmed
    exact ⟨⟨rfl, positive, word⟩, Or.inl ⟨rfl, rfl⟩⟩
  · rw [asks] at trimmed
    have kept := trim_amount_spec (by omega) (modest extra wanted) wanted
    obtain ⟨base, outcome⟩ := release_top_cases trimmed
    rcases outcome with ⟨nothing, looked, either⟩ | ⟨meets, low, high, brk, shrunkIs, looked⟩
    · have room : 0 < after.brk ∧ after.brk < 2 ^ 63 := by omega
      exact ⟨⟨base, room⟩, Or.inl ⟨nothing, looked⟩⟩
    · have room : 0 < after.brk ∧ after.brk < 2 ^ 63 := by omega
      have rest : wrapSub topSize (wrapSub sbrk.brk after.brk) = (topSize - extra).toNat :=
        wrap_sub_released (by omega) (by omega) ⟨word, room.2⟩ brk
      rw [rest] at shrunkIs
      refine ⟨⟨base, room⟩, Or.inr ⟨_, meets, shrunkIs, ?_, ?_, looked⟩⟩
      · simp only [chunksize, minSize] at kept ⊢
        omega
      · simp only [chunksize, minSize] at kept ⊢
        omega

theorem decr_sbrk_hi {lookup : Lookup} {brk newBrk : Nat} (meets : brk = (lookup.sbrkRegions 0).hi)
    (room : newBrk < 2 ^ 63) :
    lookupDecrSbrkHi lookup (wrapSub brk newBrk) =
      lookup.setRegion { lookup.sbrkRegions 0 with hi := newBrk } := by
  have exact : (brk + (2 ^ 64 - wrapSub brk newBrk % 2 ^ 64)) % 2 ^ 64 = newBrk := by
    simp only [wrapSub, wrap]
    omega
  rw [lookupDecrSbrkHi, ← meets, exact]

theorem trim_covered {pad : Nat} {answers : TrimAnswers} (covered : Covered arena)
    (steady : Steady arena (.trim pad answers)) : Covered (arena.trim pad answers) := by
  have bounds := covered.bounds
  cases trimmed : systrim arena.sbrk answers pad (arena.top + arena.topSize) arena.topSize with
  | mk shrunk after =>
      obtain ⟨⟨base, positive, word⟩, outcome⟩ :=
        systrim_cases bounds.positive bounds.word steady.1 covered.word trimmed
      rcases outcome with ⟨nothing, looked⟩ | ⟨size, ends, shrunkIs, room, limit, looked⟩
      · subst nothing
        have same : arena.trim pad answers = { arena with sbrk := after } := by
          rw [Arena.trim, trimmed]
        rw [same]
        refine ⟨⟨positive, word, ?_, ?_⟩, covered.word, covered.room, ?_⟩
        · show (after.lookup.sbrkRegions 0).hi ≠ 0 → _
          rw [looked]
          exact bounds.ordered
        · rw [base, looked]
          exact bounds.unset
        · show Owned after.lookup _
          rw [looked]
          exact covered.owned
      · subst shrunkIs
        have same : arena.trim pad answers = { arena with sbrk := after, topSize := size } := by
          rw [Arena.trim, trimmed]
        obtain ⟨low, meets⟩ := steady.2 ends
        have topBelow : arena.top ≤ after.brk := Nat.le_trans (Nat.le_add_right ..) limit
        rw [decr_sbrk_hi meets word] at looked
        have region : after.lookup.sbrkRegions 0 =
            { arena.sbrk.lookup.sbrkRegions 0 with hi := after.brk } := by
          rw [looked, set_region_zero]
        have away : ∀ byte, Elsewhere arena.sbrk.lookup byte → Elsewhere after.lookup byte := by
          intro byte found
          rw [looked]
          exact elsewhere_set_region.mpr found
        obtain ⟨listed, apart⟩ := covered.owned.head
        rw [same]
        refine ⟨⟨positive, word, ?_, ?_⟩, ?_, Or.inr room, Owned.cons ⟨?_, ?_⟩ ?_ ?_⟩
        · intro _
          rw [region]
          show (arena.sbrk.lookup.sbrkRegions 0).lo ≤ after.brk
          omega
        · intro unset
          have zero := bounds.unset (base ▸ unset)
          exact absurd (meets.trans zero) (Nat.ne_of_gt bounds.positive)
        · exact Nat.lt_of_le_of_lt limit word
        · intro chunk member byte within
          rw [listed_iff, region]
          rcases listed_iff.mp (covered.owned.tail.listed chunk member byte within) with
            found | ⟨above, before⟩
          · exact Or.inl (away byte found)
          · rcases Nat.lt_or_ge byte arena.top with lower | higher
            · exact Or.inr ⟨above, Nat.lt_of_lt_of_le lower topBelow⟩
            · exact Or.inl (away byte (apart chunk member byte ⟨higher, by omega⟩ within))
        · apply covered.owned.tail.apart.imp
          intro chunk other separate byte first second
          exact away byte (separate byte first second)
        · intro byte within
          rw [listed_iff, region]
          exact Or.inr ⟨Nat.le_trans low within.1, Nat.lt_of_lt_of_le within.2 limit⟩
        · intro other member byte within shared
          apply away
          rcases Nat.lt_or_ge byte (arena.top + arena.topSize) with old | added
          · exact apart other member byte ⟨within.1, old⟩ shared
          · rcases listed_iff.mp (covered.owned.tail.listed other member byte shared) with
              found | ⟨_, before⟩
            · exact found
            · omega

theorem within_front {addr size first byte : Nat} (ordered : first ≤ size)
    (within : Within (addr, first) byte) : Within (addr, size) byte := by
  simp only [Within] at within ⊢
  omega

theorem within_back {addr size first byte : Nat} (ordered : first ≤ size)
    (within : Within (addr + first, size - first) byte) : Within (addr, size) byte := by
  simp only [Within] at within ⊢
  omega

theorem within_union {addr size next byte : Nat} (within : Within (addr, size + next) byte) :
    Within (addr, size) byte ∨ Within (addr + size, next) byte := by
  simp only [Within] at within ⊢
  omega

theorem apart_parts {addr size rest : Nat} :
    Apart lookup (addr, size) (addr + size, rest) := by
  intro byte within shared
  simp only [Within] at within shared
  omega

theorem Owned.split {addr size first : Nat} (owned : Owned lookup chunks)
    (member : (addr, size) ∈ chunks) (ordered : first ≤ size) :
    Owned lookup ((addr, first) :: (addr + first, size - first) :: chunks.erase (addr, size)) := by
  have whole := owned.listed (addr, size) member
  have others := owned.erase member
  have rest := owned.sublist (List.erase_sublist (a := (addr, size)))
  have second := rest.cons (fun byte within => whole byte (within_back ordered within))
    (fun other found => (others other found).narrow fun byte => within_back ordered)
  apply second.cons (fun byte within => whole byte (within_front ordered within))
  intro other found
  rcases List.mem_cons.mp found with next | later
  · rw [next]
    exact apart_parts
  · exact (others other later).narrow fun byte => within_front ordered

theorem Owned.merge {addr size next : Nat} (owned : Owned lookup chunks)
    (lower : (addr, size) ∈ chunks) (upper : (addr + size, next) ∈ chunks) :
    Owned lookup
      ((addr, size + next) :: (chunks.erase (addr, size)).erase (addr + size, next)) := by
  have rest := owned.sublist
    ((List.erase_sublist (a := (addr + size, next))).trans
      (List.erase_sublist (a := (addr, size))))
  apply rest.cons
  · intro byte within
    rcases within_union within with below | above
    · exact owned.listed _ lower byte below
    · exact owned.listed _ upper byte above
  · intro other found byte within shared
    rcases within_union within with below | above
    · exact owned.erase lower other (List.mem_of_mem_erase found) byte below shared
    · rw [List.erase_comm] at found
      exact owned.erase upper other (List.mem_of_mem_erase found) byte above shared

theorem divide_covered {division : Division} (covered : Covered arena)
    (divided : arena.divide division = some next) : Covered next := by
  have bounds := covered.bounds
  have word := covered.word
  obtain ⟨listed, apart⟩ := covered.owned.head
  cases division with
  | splitChunk addr size first =>
      obtain ⟨⟨member, ordered⟩, shape⟩ := Option.ite_none_right_eq_some.mp divided
      cases shape
      refine ⟨bounds, word, covered.room, ?_⟩
      apply (covered.owned.tail.split member ordered).cons listed
      intro other found
      have whole := (apart (addr, size) member).symm
      rcases List.mem_cons.mp found with front | found
      · rw [front]
        exact (whole.narrow fun byte => within_front ordered).symm
      · rcases List.mem_cons.mp found with back | rest
        · rw [back]
          exact (whole.narrow fun byte => within_back ordered).symm
        · exact apart other (List.mem_of_mem_erase rest)
  | mergeChunks addr size more =>
      obtain ⟨⟨lower, upper⟩, shape⟩ := Option.ite_none_right_eq_some.mp divided
      cases shape
      refine ⟨bounds, word, covered.room, ?_⟩
      apply (covered.owned.tail.merge lower upper).cons listed
      intro other found
      rcases List.mem_cons.mp found with union | rest
      · rw [union]
        intro byte within shared
        rcases within_union shared with below | above
        · exact apart _ lower byte within below
        · exact apart _ upper byte within above
      · exact apart other (List.mem_of_mem_erase (List.mem_of_mem_erase rest))
  | splitTop size =>
      obtain ⟨room, shape⟩ := Option.ite_none_right_eq_some.mp divided
      cases shape
      have ordered : size ≤ arena.topSize := Nat.le_trans (Nat.le_add_right ..) room
      have parts := covered.owned.split List.mem_cons_self ordered
      rw [List.erase_cons_head] at parts
      obtain ⟨first, separate⟩ := parts.head
      refine ⟨bounds, ?_, Or.inr (Nat.le_sub_of_add_le (Nat.add_comm .. ▸ room)), ?_⟩
      · show arena.top + size + (arena.topSize - size) < 2 ^ 63
        omega
      · apply (parts.tail.tail.cons first fun other member =>
          separate other (List.mem_cons_of_mem _ member)).cons parts.tail.head.1
        intro other member
        rcases List.mem_cons.mp member with chunk | rest
        · rw [chunk]
          exact apart_parts.symm
        · exact parts.tail.head.2 other rest
  | mergeTop addr size =>
      obtain ⟨⟨member, meets, large⟩, shape⟩ := Option.ite_none_right_eq_some.mp divided
      cases shape
      have whole := covered.owned.tail.listed (addr, size) member
      refine ⟨bounds, ?_, Or.inr (Nat.le_trans large (Nat.le_add_right ..)), ?_⟩
      · show addr + (size + arena.topSize) < 2 ^ 63
        omega
      · apply (covered.owned.tail.sublist List.erase_sublist).cons
        · intro byte within
          rcases within_union within with below | above
          · exact whole byte below
          · rw [meets] at above
            exact listed byte above
        · intro other found byte within shared
          rcases within_union within with below | above
          · exact covered.owned.tail.erase member other found byte below shared
          · rw [meets] at above
            exact apart other (List.mem_of_mem_erase found) byte above shared

theorem step_covered (arena : Arena) (action : Action) (next : Arena) (covered : Covered arena)
    (steady : Steady arena action) (stepped : step arena action = some next) : Covered next := by
  cases action with
  | foreign amount =>
      obtain ⟨room, shape⟩ := Option.ite_none_right_eq_some.mp stepped
      cases shape
      exact foreign_covered covered room
  | grow nb topPad answers => exact grow_covered covered steady stepped
  | trim pad answers =>
      cases stepped
      exact trim_covered covered steady
  | divide division => exact divide_covered covered stepped

/-- In every history whose growths and trims find the break where
`sbrk_regions[0]` ends, all chunks of the main arena stay attributable. -/
theorem main_arena_attributable (brk heapMax initialTop : Nat) (actions : List Action)
    (final : Arena) (positive : 0 < brk) (word : brk < 2 ^ 63) (top : initialTop < 2 ^ 63)
    (steady : Permitted step Steady (initial brk heapMax initialTop) actions)
    (ran : run step (initial brk heapMax initialTop) actions = some final) :
    Attributable final := by
  have covered := run_invariant step_covered actions (initial brk heapMax initialTop) final
    (initial_covered positive word top) steady ran
  exact covered.attributable

def granted : Answers := ⟨true, none, true, true⟩

/-- A block from top, top grown at the break and a part of it given back. -/
def growthActions : List Action :=
  [.grow 64 131072 granted, .divide (.splitTop 1024), .grow 200000 131072 granted,
    .divide (.splitTop 4096), .trim 0 ⟨true, true, true⟩]

theorem growth_and_trim_attributable : ∃ final,
    run step (initial 0x1000000 (2 ^ 26) 0x600000) growthActions = some final ∧
      Attributable final := by
  have runs : (run step (initial 0x1000000 (2 ^ 26) 0x600000) growthActions).isSome = true := by
    decide +kernel
  obtain ⟨final, ran⟩ := Option.isSome_iff_exists.mp runs
  refine ⟨final, ran, ?_⟩
  apply main_arena_attributable 0x1000000 (2 ^ 26) 0x600000 growthActions final
    (by decide) (by decide) (by decide) _ ran
  decide +kernel

/-- The break is moved by another party before the second growth: the last
page of top is not listed. -/
theorem foreign_break_loses_bytes : ∃ final,
    run step (initial 0x1000000 (2 ^ 26) 0x600000)
      [.grow 64 131072 granted, .foreign 4096, .grow 200000 131072 granted] = some final ∧
      ¬ Attributable final := by
  have runs : ((run step (initial 0x1000000 (2 ^ 26) 0x600000)
      [.grow 64 131072 granted, .foreign 4096, .grow 200000 131072 granted]).any fun arena =>
        arena.top ≤ 17244160 && 17244160 < arena.top + arena.topSize &&
          lookupArenaIndex arena.sbrk.lookup 17244160 == none) = true := by decide +kernel
  obtain ⟨final, ran, found⟩ := (Option.any_eq_true ..).mp runs
  simp only [Bool.and_eq_true, decide_eq_true_eq, beq_iff_eq] at found
  refine ⟨final, ran, ?_⟩
  intro attributable
  have attributed := (attributable (final.top, final.topSize) List.mem_cons_self 17244160
    found.1).2
  rw [found.2] at attributed
  cases attributed

end SriGlibcMalloc.MainArena
