import SriGlibcMalloc.EntryPoints.World

/-!
# What a path takes from the reserve

Once `sysmalloc` has an arena to grow, the turns that a call takes decide how many
chunks it registers there.
-/

namespace SriGlibcMalloc.EntryPoints

set_option autoImplicit false

/-- The calls by what follows `_int_malloc`; the others do not allocate. -/
inductive CallKind
  | malloc
  | realloc
  | memalign
  | other
  deriving DecidableEq, Repr

/-- The turns that register chunks, each with whether a call may take it. -/
structure Path where
  mmap : Bool
  newHeap : Bool
  oldTopLeft : Bool
  topLargeEnough : Bool
  nextIsNew : Bool
  misaligned : Bool
  remainder : Bool
  deriving DecidableEq, Repr

def Path.full : Path := ⟨true, true, true, true, true, true, true⟩

def Path.allows (path : Path) : Question → Bool
  | .mmap => path.mmap
  | .newHeap => path.newHeap
  | .oldTopLeft => path.oldTopLeft
  | .topLargeEnough => path.topLargeEnough
  | .nextIsNew => path.nextIsNew
  | .misaligned => path.misaligned
  | .remainder => path.remainder
  | _ => true

/-- The top of a new heap, the last fencepost of the old one, and the rest of the old
top, which is given back. -/
def Path.heapCost (path : Path) : Nat :=
  if path.newHeap then 2 + path.oldTopLeft.toNat else 0

/-- `_int_realloc` and `_int_memalign` split once more: the remainder, and the part in
front of an aligned chunk. -/
def CallKind.tailCost (kind : CallKind) (path : Path) : Nat :=
  match kind with
  | .realloc => (path.nextIsNew && path.remainder).toNat
  | .memalign => path.misaligned.toNat + path.remainder.toNat
  | _ => 0

/-- The top is split, and there is a chunk to go on with. -/
def CallKind.topCost (kind : CallKind) (path : Path) : Nat :=
  if path.topLargeEnough then kind.tailCost path + 1 else 0

/-- `_int_memalign` moves the record of a mapping that is not aligned. -/
def CallKind.mappedCost (kind : CallKind) (path : Path) : Nat :=
  match kind with
  | .memalign => path.misaligned.toNat
  | _ => 0

/-- The records that a call takes from the reserve of `main_arena` after `mmap` has been
granted there. -/
def CallKind.mappedNeed (kind : CallKind) (path : Path) : Nat :=
  if path.mmap then kind.mappedCost path else 0

/-- The records that a call takes from the reserve of its arena after it has taken the
lock again in `sysmalloc`. -/
def CallKind.need (kind : CallKind) (path : Path) : Nat :=
  match kind with
  | .other => 0
  | kind => max (path.heapCost + kind.topCost path) (kind.mappedNeed path)

/-- The path without the turns that cost the call nothing. -/
def CallKind.turns (kind : CallKind) (path : Path) : Path where
  mmap := false
  newHeap := path.newHeap
  oldTopLeft := path.newHeap && path.oldTopLeft
  topLargeEnough := path.topLargeEnough
  nextIsNew := kind = .realloc && (path.topLargeEnough && (path.nextIsNew && path.remainder))
  misaligned := kind = .memalign && (path.topLargeEnough && path.misaligned)
  remainder :=
    (kind = .realloc && (path.topLargeEnough && (path.nextIsNew && path.remainder))) ||
      (kind = .memalign && (path.topLargeEnough && path.remainder))

variable (kind : CallKind) (path : Path)

theorem heap_cost_le : path.heapCost ≤ 3 := by
  unfold Path.heapCost
  have left := Bool.toNat_le path.oldTopLeft
  split <;> omega

theorem tail_cost_le : kind.tailCost path ≤ 2 := by
  have misaligned := Bool.toNat_le path.misaligned
  have remainder := Bool.toNat_le path.remainder
  have merged := Bool.toNat_le (path.nextIsNew && path.remainder)
  unfold CallKind.tailCost
  split <;> omega

theorem top_cost_le : kind.topCost path ≤ 3 := by
  have tail := tail_cost_le kind path
  unfold CallKind.topCost
  split <;> omega

variable {kind path}

theorem top_cost_of_allows (allows : path.allows .topLargeEnough = true) :
    kind.topCost path = kind.tailCost path + 1 :=
  if_pos allows

theorem mapped_need_of_allows (allows : path.allows .mmap = true) :
    kind.mappedNeed path = kind.mappedCost path :=
  if_pos allows

theorem heap_cost_of_allows (allows : path.allows .newHeap = true) :
    path.heapCost = 2 + path.oldTopLeft.toNat :=
  if_pos allows

theorem need_of_allocating (allocating : kind ≠ .other) :
    kind.need path = max (path.heapCost + kind.topCost path) (kind.mappedNeed path) := by
  cases kind with
  | other => exact absurd rfl allocating
  | _ => rfl

theorem turns_cost : (kind.turns path).heapCost + kind.topCost (kind.turns path) =
    path.heapCost + kind.topCost path := by
  obtain ⟨mmap, newHeap, oldTopLeft, topLargeEnough, nextIsNew, misaligned, remainder⟩ := path
  cases kind <;> cases newHeap <;> cases topLargeEnough <;> cases nextIsNew <;>
    simp [CallKind.turns, Path.heapCost, CallKind.topCost, CallKind.tailCost]

theorem turns_allows {question : Question}
    (allows : (kind.turns path).allows question = true) : path.allows question = true := by
  cases question with
  | remainder => cases kind <;> simp_all [CallKind.turns, Path.allows]
  | _ => simp_all [CallKind.turns, Path.allows]

end SriGlibcMalloc.EntryPoints
