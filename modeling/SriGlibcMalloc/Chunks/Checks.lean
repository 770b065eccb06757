import SriGlibcMalloc.Chunks.Resizing
import SriGlibcMalloc.Bins.Pointers

/-!
# The checks of a debugging build

With `MALLOC_DEBUG` the chunks that the routines handle are checked, with the chunks around
them. In an arena that is in order no check fails, when the lookup knows its chunks and the
pointers of the bins read the lists of its free chunks.
-/

namespace SriGlibcMalloc.Chunks

open ArenaLookup (Lookup lookupArenaIndex)
open Bins (Links Node)
open BoundaryTags
open EntryPoints (minSize)

set_option autoImplicit false

/-- What the checks read that is not in the records. An arena is named by its index. -/
structure Surroundings where
  lookup : Lookup
  arenaIndex : Nat
  links : Links

/-- What holds of the surroundings of an arena: every chunk on record is attributed to it, and
every free chunk is on a list. -/
structure Arena.Within (arena : Arena) (around : Surroundings) : Prop where
  named : ∀ p tag, arena.htbl p = some tag →
    lookupArenaIndex around.lookup p = some around.arenaIndex
  linked : ∀ p tag, arena.htbl p = some tag → tag.place = some .bin →
    ∃ index, around.links.On index ⟨p, tag.size⟩

section Checks

variable (arena : Arena) (p : Nat)

def Arena.checkNeighbour (neighbour : Option Nat) (back : Tag → Option Nat) : Option Unit :=
  match neighbour with
  | none => some ()
  | some q => do assert (back (← arena.htbl q) = some p)

/-- `do_check_metadata_chunk`, with `SRI_DEBUG_HEADERS`. -/
def Arena.checkMetadataChunk : Option Unit := do
  let tag ← arena.htbl p
  arena.checkNeighbour p tag.next Tag.prev
  arena.checkNeighbour p tag.prev Tag.next

variable (around : Surroundings)

/-- `assert (av == arena_for_chunk (p))`. -/
def Surroundings.checkArena : Option Unit :=
  assert (lookupArenaIndex around.lookup p = some around.arenaIndex)

/-- `do_check_chunk`, for a chunk that is not mapped. -/
def Arena.checkChunk : Option Unit := do
  around.checkArena p
  let size ← arena.chunksize p
  let topsize ← arena.chunksize arena.mdTop
  let maxAddress := arena.mdTop + topsize
  let minAddress := maxAddress - arena.systemMem
  arena.checkTop
  arena.checkMetadataChunk arena.mdTop
  arena.checkMetadataChunk p
  if p ≠ arena.mdTop then
    if arena.contiguous then
      assert (minAddress ≤ p)
      assert (p + size ≤ arena.mdTop)
    else return ()
  else
    assert (minSize ≤ size)
    assert (← arena.htbl p).prevInuse

/-- A free chunk is consolidated with what follows it. -/
def Arena.checkConsolidated (next mdNext : Nat) : Option Unit :=
  if next = arena.mdTop then some () else do assert (← inuseBit arena.htbl mdNext)

/-- The chunks that are next to a free one on its list lead back to it. -/
def Surroundings.checkLinks : Option Unit := do
  let node := Node.chunk p
  assert (around.links.bk (around.links.fd node) = node)
  assert (around.links.fd (around.links.bk node) = node)

/-- `do_check_free_chunk`; one assertion is an assignment. -/
def Arena.checkFreeChunk : Option Unit := do
  arena.checkChunk p around
  let tag ← arena.htbl p
  let next := p + tag.size
  let _ ← arena.htbl next
  let mdNext ← tag.next
  assert (!(← inuseBit arena.htbl p))
  if minSize ≤ tag.size then
    assert (tag.size % 16 = 0)
    assert ((p + 16) % 16 = 0)
    assert ((← arena.htbl mdNext).prevSize = tag.size)
    assert tag.prevInuse
    arena.checkConsolidated next mdNext
    around.checkLinks p
  else assert (tag.size = 8)

def Arena.checkPrevChunk (tag : Tag) : Option Unit :=
  if tag.prevInuse then some ()
  else do
    let prv := p - tag.prevSize
    assert (prv + (← arena.htbl prv).size = p)
    assert (tag.prev = some prv)
    arena.checkFreeChunk prv around

def Arena.checkNextChunk (next : Nat) (tagNext : Tag) : Option Unit :=
  if next = arena.mdTop then do
    assert tagNext.prevInuse
    assert (minSize ≤ tagNext.size)
  else do
    if ← inuseBit arena.htbl next then return ()
    else arena.checkFreeChunk next around

def Arena.checkInuseChunk : Option Unit := do
  arena.checkChunk p around
  assert (← inuseBit arena.htbl p)
  let tag ← arena.htbl p
  let next := p + tag.size
  let tagNext ← arena.htbl next
  arena.checkPrevChunk p around tag
  arena.checkNextChunk around next tagNext

def Arena.checkRemallocedChunk (s : Nat) : Option Unit := do
  let size ← arena.chunksize p
  around.checkArena p
  arena.checkInuseChunk p around
  assert (size % 16 = 0)
  assert (minSize ≤ size)
  assert ((p + 16) % 16 = 0)
  assert (s ≤ size)
  assert (size < s + minSize)

def Arena.checkMallocedChunk (s : Nat) : Option Unit := do
  arena.checkRemallocedChunk p around s
  assert (← arena.htbl p).prevInuse

end Checks

variable {base : Table} {regions : List Region} {arena : Arena}
variable {left right : List Piece} {piece next : Piece} {tag : Tag}
variable {p size prevSize s : Nat} {kind : Kind} {around : Surroundings}

theorem Layout.check_metadata_chunk
    (layout : Layout base regions arena (left ++ piece :: right)) :
    arena.checkMetadataChunk piece.addr = some () := by
  have ahead : arena.checkNeighbour piece.addr (headAddr none right) Tag.prev = some () := by
    cases right with
    | nil => rfl
    | cons next rest => exact proceed layout.row.next_at (assert_of (decide_eq_true rfl))
  have behind : arena.checkNeighbour piece.addr ((lastOr none left).map Piece.addr) Tag.next =
      some () := by
    rcases List.eq_nil_or_concat' left with empty | ⟨front, last, shape⟩
    · rw [empty]
      rfl
    · subst shape
      rw [← List.append_cons] at layout
      rw [last_or_append]
      exact proceed layout.row.at (assert_of (decide_eq_true rfl))
  exact proceed layout.row.at (proceed ahead behind)

theorem Layout.check_arena (layout : Layout base regions arena (left ++ piece :: right))
    (inside : arena.Within around) : around.checkArena piece.addr = some () :=
  assert_of (decide_eq_true (inside.named _ _ layout.row.at))

theorem Layout.check_chunk (layout : Layout base regions arena (left ++ piece :: right))
    (separate : arena.contiguous = false) (inside : arena.Within around) :
    arena.checkChunk piece.addr around = some () := by
  obtain ⟨topsize, topFound⟩ := layout.top_found
  have listed : arena.chunksize piece.addr = some piece.recorded :=
    congrArg (Option.map Tag.size) layout.row.at
  have checkedTop : arena.checkMetadataChunk arena.mdTop = some () := by
    obtain ⟨front, size, prevSize, shape⟩ := layout.at_top
    rw [shape] at layout
    exact layout.check_metadata_chunk
  refine proceed (layout.check_arena inside) (proceed listed (proceed topFound
    (proceed layout.check_top (proceed checkedTop (proceed layout.check_metadata_chunk ?_)))))
  by_cases top : piece.addr = arena.mdTop
  · have isTop := layout.top_iff.mp top
    have sized : piece.recorded = piece.size := recorded_of_sized (by rw [isTop]; exact top_sized)
    have large : minSize ≤ piece.size := layout.sound_at.minimal (by rw [isTop]; rfl)
    rw [if_neg (not_not_intro top), sized]
    refine asserted (decide_eq_true large) (proceed layout.row.at (assert_of ?_))
    change (!(lastOr none left).any Piece.isFree) = true
    rw [layout.used_before (Or.inr isTop)]
    rfl
  · rw [if_pos top, separate]
    rfl

theorem Layout.inuse_bit (layout : Layout base regions arena (left ++ piece :: next :: right))
    (inner : piece.kind.inner) : inuseBit arena.htbl piece.addr = some (!piece.isFree) :=
  layout.row.inuse_bit ((layout.adjacent inner).trans
    (congrArg (piece.addr + ·) (recorded_of_sized (sized_of_inner inner.1)).symm))

theorem Sound.counts (sound : Sound piece) : piece.isFree = decide (piece.kind = .free) := by
  unfold Piece.isFree
  rw [decide_eq_false sound.settled.1, Bool.or_false]

theorem Layout.next_agrees
    (layout : Layout base regions arena (left ++ piece :: next :: right)) :
    (!piece.isFree) = decide (piece.kind.place ≠ some .bin) ∧
      (0 < piece.recorded → next.addr = piece.addr + piece.recorded) ∧
      (piece.kind.place = some .bin →
        next.prevSize = piece.recorded ∧ next.kind.place ≠ some .bin ∧ next.addr ≠ arena.mdTop) := by
  refine ⟨?_, fun sized => ?_, fun binned => ?_⟩
  · rw [layout.sound_at.counts, decide_not, decide_eq_decide.mpr place_bin]
  · have notPost : piece.kind ≠ .post := by
      intro post
      rw [Piece.recorded, if_pos post] at sized
      exact Nat.lt_irrefl 0 sized
    have inner : piece.kind.inner := by
      refine ⟨?_, fun top => by cases layout.fills.last.mp top⟩
      cases kind : piece.kind <;> first | rfl | exact absurd kind notPost
    rw [recorded_of_sized notPost]
    exact layout.adjacent inner
  · obtain ⟨addr, size, foot, kind⟩ := piece
    cases place_bin.mp binned
    obtain ⟨_, inner, used, foot⟩ := layout.after_free
    refine ⟨foot, fun same => used (place_bin.mp same), fun top => inner.2 ?_⟩
    rw [List.append_cons] at layout
    exact layout.top_iff.mp top

theorem check_links {index : Nat} (listed : around.links.On index ⟨p, size⟩) :
    around.checkLinks p = some () := by
  obtain ⟨chunks, reads, member⟩ := listed
  have record : Node.chunk p ∈ Bins.records index chunks := Bins.chunk_record member
  exact asserted (decide_eq_true (reads.ring.onward record).2)
    (assert_of (decide_eq_true (reads.ring.backward record).2))

theorem Layout.check_free_chunk
    (layout : Layout base regions arena (left ++ ⟨p, size, prevSize, .free⟩ :: right))
    (separate : arena.contiguous = false) (inside : arena.Within around) :
    arena.checkFreeChunk p around = some () := by
  obtain ⟨next, others, shape⟩ := layout.fills.next free_below
  subst shape
  obtain ⟨adjacent, inner, used, foot⟩ := layout.after_free
  have shifted := layout
  rw [List.append_cons] at shifted
  obtain ⟨behind, rest, shape⟩ := shifted.fills.next inner.2
  subst shape
  have sound := layout.sound_at
  have aligned := sound.aligned
  have multiple := sound.multiple
  have large := sound.minimal rfl
  dsimp only at aligned multiple large
  have notTop : p + size ≠ arena.mdTop := by
    intro same
    exact inner.2 (shifted.top_iff.mp (adjacent.trans same))
  have listed := layout.row.next_at
  rw [adjacent] at listed
  have prevInuse : (!(lastOr none left).any Piece.isFree) = true := by
    rw [layout.used_before (Or.inl rfl)]
    rfl
  have inUse : (!next.isFree) = true := by
    rw [shifted.sound_at.counts, decide_eq_false used]
    rfl
  obtain ⟨index, linked⟩ := inside.linked p _ layout.row.at rfl
  have consolidated : arena.checkConsolidated (p + size) next.addr = some () :=
    (if_neg notTop).trans (proceed (shifted.inuse_bit inner) (assert_of inUse))
  refine proceed (layout.check_chunk separate inside) (proceed layout.row.at (proceed listed
    (proceed rfl (proceed (layout.inuse_bit (chunk_inner rfl free_below)) (asserted rfl ?_)))))
  refine (if_pos large).trans ?_
  exact asserted (decide_eq_true multiple) (asserted (decide_eq_true (by omega))
    (proceed layout.row.next_at (asserted (decide_eq_true foot) (asserted prevInuse
      (proceed consolidated (check_links linked))))))

theorem Layout.check_prev_chunk (layout : Layout base regions arena (left ++ piece :: right))
    (listed : arena.htbl piece.addr = some tag) (separate : arena.contiguous = false)
    (inside : arena.Within around) : arena.checkPrevChunk piece.addr around tag = some () := by
  cases layout.row.at.symm.trans listed
  unfold Arena.checkPrevChunk
  by_cases before : (lastOr none left).any Piece.isFree = false
  · refine if_pos ?_
    change (!(lastOr none left).any Piece.isFree) = true
    rw [before]
    rfl
  · obtain ⟨earlier, prevp, psize, foot, shape⟩ := layout.free_before before
    subst shape
    rw [← List.append_cons] at layout
    have merging := layout.before.foot rfl
    have adjacent := layout.adjacent (chunk_inner rfl free_below)
    dsimp only at merging adjacent
    have place : piece.addr - piece.prevSize = prevp := by omega
    have last : lastOr none (earlier ++ [⟨prevp, psize, foot, .free⟩]) =
        some ⟨prevp, psize, foot, .free⟩ := last_or_append
    rw [last]
    refine (if_neg Bool.false_ne_true).trans ?_
    change (do
      assert (piece.addr - piece.prevSize + (← arena.htbl (piece.addr - piece.prevSize)).size =
        piece.addr)
      assert (some prevp = some (piece.addr - piece.prevSize))
      arena.checkFreeChunk (piece.addr - piece.prevSize) around) = _
    rw [place]
    exact proceed layout.row.at (asserted (decide_eq_true adjacent.symm)
      (asserted (decide_eq_true rfl) (layout.check_free_chunk separate inside)))

theorem Layout.check_next_chunk
    (layout : Layout base regions arena (left ++ piece :: next :: right)) (inner : next.kind.closes = false)
    (used : piece.isFree = false) (listed : arena.htbl next.addr = some tag)
    (separate : arena.contiguous = false) (inside : arena.Within around) :
    arena.checkNextChunk around next.addr tag = some () := by
  cases layout.row.next_at.symm.trans listed
  have shifted := layout
  rw [List.append_cons] at shifted
  unfold Arena.checkNextChunk
  by_cases top : next.addr = arena.mdTop
  · have isTop := shifted.top_iff.mp top
    have large : minSize ≤ next.recorded := by
      rw [recorded_of_sized (by rw [isTop]; exact top_sized)]
      exact shifted.sound_at.minimal (by rw [isTop]; rfl)
    refine (if_pos top).trans (asserted ?_ (assert_of (decide_eq_true large)))
    change (!piece.isFree) = true
    rw [used]
    rfl
  · have notTop : next.kind ≠ .top := fun isTop => top (shifted.top_iff.mpr isTop)
    obtain ⟨behind, rest, shape⟩ := shifted.fills.next notTop
    subst shape
    refine (if_neg top).trans (proceed (shifted.inuse_bit ⟨inner, notTop⟩) ?_)
    by_cases free : next.kind = .free
    · obtain ⟨addr, size, foot, kind⟩ := next
      dsimp only at free
      subst free
      exact shifted.check_free_chunk separate inside
    · rw [shifted.sound_at.counts, decide_eq_false free]
      rfl

theorem Layout.check_inuse_chunk
    (layout : Layout base regions arena (left ++ ⟨p, size, prevSize, kind⟩ :: right))
    (chunk : Kind.isChunk kind = true) (below : kind ≠ .top) (used : kind ≠ .free)
    (separate : arena.contiguous = false) (inside : arena.Within around) :
    arena.checkInuseChunk p around = some () := by
  obtain ⟨next, others, shape, adjacent, open', _⟩ := layout.follower chunk below
  subst shape
  have inner := chunk_inner chunk below
  have counts := @chunk_used p size prevSize kind chunk used
  have listed := layout.row.at
  have sized : Piece.recorded ⟨p, size, prevSize, kind⟩ = size :=
    recorded_of_sized (sized_of_inner inner.1)
  have bit : (!Piece.isFree ⟨p, size, prevSize, kind⟩) = true := by
    rw [counts]
    rfl
  have place : p + Piece.recorded ⟨p, size, prevSize, kind⟩ = next.addr := by
    rw [sized, adjacent]
  have checked := layout.check_next_chunk open' counts layout.row.next_at separate inside
  rw [← place] at checked
  refine proceed (layout.check_chunk separate inside) (proceed (layout.inuse_bit inner)
    (asserted bit (proceed listed (proceed ((congrArg arena.htbl place).trans layout.row.next_at)
      (proceed (layout.check_prev_chunk listed separate inside) checked)))))

/-- The checks of an arena that is in order: those of each chunk by the list that it is on. -/
theorem Orderly.checks_pass (orderly : Orderly base regions arena)
    (separate : arena.contiguous = false) (inside : arena.Within around)
    (listed : arena.htbl p = some tag) :
    (tag.place = some .bin → arena.checkFreeChunk p around = some ()) ∧
      (tag.place = some .held ∨ tag.place = some .fast →
        arena.checkInuseChunk p around = some ()) ∧
      (p = arena.mdTop → arena.checkChunk p around = some ()) := by
  obtain ⟨pieces, layout⟩ := orderly
  refine ⟨fun binned => ?_, fun placed => ?_, fun top => ?_⟩
  · obtain ⟨left, size, prevSize, kind, right, shape, place, _⟩ := layout.find listed binned
    subst shape
    cases place_bin.mp place
    exact layout.check_free_chunk separate inside
  · rcases placed with held | cached
    · obtain ⟨left, size, prevSize, kind, right, shape, place, _⟩ := layout.find listed held
      subst shape
      cases place_held.mp place
      exact layout.check_inuse_chunk rfl (by decide) (by decide) separate inside
    · obtain ⟨left, size, prevSize, kind, right, shape, place, _⟩ := layout.find listed cached
      subst shape
      cases place_fast.mp place
      exact layout.check_inuse_chunk rfl (by decide) (by decide) separate inside
  · subst top
    obtain ⟨left, topsize, prevSize, shape⟩ := layout.at_top
    subst shape
    exact layout.check_chunk separate inside

/-- A block that borders a chunk in use passes the check of a new block. -/
theorem Orderly.check_malloced_chunk (orderly : Orderly base regions arena)
    (separate : arena.contiguous = false) (inside : arena.Within around)
    (held : arena.held p = some size) (enough : s ≤ size) (frugal : size < s + minSize) :
    arena.checkRemallocedChunk p around s = some () ∧
      ((arena.htbl p).any Tag.prevInuse = true → arena.checkMallocedChunk p around s = some ()) := by
  obtain ⟨tag, listed, owned⟩ := Option.bind_eq_some_iff.mp held
  split_ifs at owned with placed
  have checked := (orderly.checks_pass separate inside listed).2.1 (Or.inl placed)
  obtain ⟨pieces, layout⟩ := orderly
  obtain ⟨prevSize, member⟩ := layout.held_piece held
  have sound := layout.sound _ member
  have aligned := sound.aligned
  dsimp only at aligned
  have sized : arena.chunksize p = some size :=
    (congrArg (Option.map Tag.size) listed).trans owned
  have attributed : around.checkArena p = some () :=
    assert_of (decide_eq_true (inside.named p tag listed))
  have remalloced : arena.checkRemallocedChunk p around s = some () :=
    proceed sized (proceed attributed (proceed checked (asserted (decide_eq_true sound.multiple)
      (asserted (decide_eq_true (sound.minimal rfl)) (asserted (decide_eq_true (by omega))
        (asserted (decide_eq_true enough) (assert_of (decide_eq_true frugal))))))))
  refine ⟨remalloced, fun bordered => proceed remalloced (proceed listed (assert_of ?_))⟩
  rw [listed] at bordered
  exact bordered

end SriGlibcMalloc.Chunks
