import SriGlibcMalloc.Chunks.Model
import SriGlibcMalloc.Chunks.Rows
import SriGlibcMalloc.BoundaryTags.Regions
import SriGlibcMalloc.BlockLedger.Requests
import Mathlib.Data.List.Chain

/-!
# The layout of an arena

Between two calls the chunks of an arena fill its regions, every record describes its chunk
and its neighbours, and free chunks have been merged: none is next to another or to top.
-/

namespace SriGlibcMalloc.Chunks

open BoundaryTags
open EntryPoints (minSize)
open MainArena (pageSize)

set_option autoImplicit false

/-- The largest size that `mallopt` accepts for fast chunks. -/
def maxFastSize : Nat := 160

/-- What can be handed out or split. -/
def Kind.isChunk (kind : Kind) : Bool :=
  kind = .held || kind = .cached || kind = .free || kind = .top

/-- A piece as it is between two calls. -/
structure Sound (piece : Piece) : Prop where
  aligned : piece.addr % 16 = 0
  multiple : piece.size % 16 = 0
  positive : 16 ≤ piece.size
  minimal : Kind.isChunk piece.kind = true → minSize ≤ piece.size
  fast : piece.kind = .cached → piece.size ≤ maxFastSize
  guard : piece.kind = .guard → piece.size ≤ 32
  post : piece.kind.closes = true → piece.size = 16
  settled : piece.kind ≠ .loose ∧ piece.kind ≠ .taken

structure Before (piece next : Piece) : Prop where
  foot : piece.kind = .free → next.prevSize = piece.size
  merged : piece.kind = .free → next.kind ≠ .free ∧ next.kind ≠ .top
  guarded : next.kind.closes = true → piece.kind = .guard
  fenced : piece.kind = .guard → next.kind.closes = true
  posted : next.kind = .post → next.prevSize = piece.size

/-- The regions of an arena, and the records that are not of chunks in them. -/
structure Ground (base : Table) (regions : List Region) (systemMem : Nat) (contiguous : Bool) :
    Prop where
  apart : regions.Pairwise Region.Apart
  bounded : ∀ region ∈ regions, region.stop < 2 ^ 63 ∧ region.stop ≤ region.start + systemMem
  paged : ∀ region ∈ regions.getLast?, region.stop % pageSize = 0
  upward : contiguous = true → ∀ region ∈ regions, ∀ last ∈ regions.getLast?,
    region.stop ≤ last.stop
  unused : ∀ region ∈ regions, ∀ addr, region.start ≤ addr → addr < region.stop → base addr = none
  unlisted : ∀ addr, (base addr).bind Tag.place = none

structure Layout (base : Table) (regions : List Region) (arena : Arena) (pieces : List Piece) :
    Prop where
  ground : Ground base regions arena.systemMem arena.contiguous
  row : Row base arena.htbl pieces
  fills : Fills regions pieces
  sound : ∀ piece ∈ pieces, Sound piece
  chain : pieces.IsChain Before
  top : ∀ piece ∈ pieces, piece.kind = .top → piece.addr = arena.mdTop

def Orderly (base : Table) (regions : List Region) (arena : Arena) : Prop :=
  ∃ pieces, Layout base regions arena pieces

/-- An arena is in order after a routine, which neither got memory from the system nor gave
any back. -/
structure Kept (base : Table) (regions : List Region) (arena after : Arena) : Prop where
  orderly : Orderly base regions after
  systemMem : after.systemMem = arena.systemMem
  contiguous : after.contiguous = arena.contiguous

def Arena.held (arena : Arena) (p : Nat) : Option Nat :=
  (arena.htbl p).bind fun tag => if tag.place = some .held then some tag.size else none

def Bordered (arena : Arena) (p : Nat) : Prop := (arena.htbl p).any Tag.prevInuse = true

def lent (piece : Piece) : Option Nat := if piece.kind = .held then some piece.size else none

def heldIn : List Piece → Nat → Option Nat
  | [] => fun _ => none
  | piece :: rest => Function.update (heldIn rest) piece.addr (lent piece)

variable {base : Table} {regions : List Region} {arena after : Arena}
variable {pieces left right old new : List Piece} {piece other next : Piece} {p : Nat} {tag : Tag}

@[simp]
theorem place_held {kind : Kind} : kind.place = some .held ↔ kind = .held := by
  cases kind <;> decide

@[simp]
theorem place_fast {kind : Kind} : kind.place = some .fast ↔ kind = .cached := by
  cases kind <;> decide

@[simp]
theorem place_bin {kind : Kind} : kind.place = some .bin ↔ kind = .free := by
  cases kind <;> decide

theorem chunk_inner {kind : Kind} (chunk : Kind.isChunk kind = true) (below : kind ≠ .top) :
    kind.inner := by
  refine ⟨?_, below⟩
  cases kind <;> first | rfl | cases chunk

theorem chunk_unguarded {kind : Kind} (chunk : Kind.isChunk kind = true) : kind ≠ .guard := by
  intro guard
  rw [guard] at chunk
  cases chunk

theorem sound_chunk {size prevSize : Nat} {kind : Kind} (chunk : Kind.isChunk kind = true)
    (aligned : p % 16 = 0) (multiple : size % 16 = 0) (large : minSize ≤ size)
    (fast : kind = .cached → size ≤ maxFastSize) : Sound ⟨p, size, prevSize, kind⟩ where
  aligned := aligned
  multiple := multiple
  positive := Nat.le_trans (by decide) large
  minimal := fun _ => large
  fast := fast
  guard := by
    intro same
    dsimp only at same
    rw [same] at chunk
    cases chunk
  post := by
    intro closes
    have inner : kind.closes = false := by
      cases kind <;> first | rfl | cases chunk
    rw [inner] at closes
    cases closes
  settled := by
    constructor
    · intro same
      dsimp only at same
      rw [same] at chunk
      cases chunk
    · intro same
      dsimp only at same
      rw [same] at chunk
      cases chunk

theorem Sound.relabel {size prevSize prevSize' : Nat} {kind kind' : Kind}
    (sound : Sound ⟨p, size, prevSize, kind⟩) (chunk : Kind.isChunk kind = true)
    (chunk' : Kind.isChunk kind' = true) (fast : kind' = .cached → size ≤ maxFastSize) :
    Sound ⟨p, size, prevSize', kind'⟩ :=
  sound_chunk chunk' sound.aligned sound.multiple (sound.minimal chunk) fast

/-- What a record says about the chunk before does not matter to the chunk. -/
theorem Sound.refoot {prevSize : Nat} (sound : Sound piece) :
    Sound { piece with prevSize := prevSize } :=
  ⟨sound.aligned, sound.multiple, sound.positive, sound.minimal, sound.fast, sound.guard,
    sound.post, sound.settled⟩

theorem before_used (used : piece.kind ≠ .free) (unguarded : piece.kind ≠ .guard)
    (inner : next.kind.closes = false) : Before piece next where
  foot := fun free => absurd free used
  merged := fun free => absurd free used
  guarded := by
    intro closes
    rw [inner] at closes
    cases closes
  fenced := fun guard => absurd guard unguarded
  posted := by
    intro post
    rw [post] at inner
    cases inner

theorem before_free (free : piece.kind = .free) (foot : next.prevSize = piece.size)
    (merged : next.kind ≠ .free) (inner : next.kind.inner) : Before piece next where
  foot := fun _ => foot
  merged := fun _ => ⟨merged, inner.2⟩
  guarded := by
    intro closes
    rw [inner.1] at closes
    cases closes
  fenced := by
    intro guard
    rw [free] at guard
    cases guard
  posted := by
    intro post
    have closes := inner.1
    rw [post] at closes
    cases closes

theorem Before.refoot {prevSize : Nat} (related : Before piece next) :
    Before { piece with prevSize := prevSize } next :=
  ⟨related.foot, related.merged, related.guarded, related.fenced, related.posted⟩

theorem Before.unguarded (related : Before piece next) (inner : next.kind.closes = false) :
    piece.kind ≠ .guard := by
  intro guard
  rw [related.fenced guard] at inner
  cases inner

theorem Before.behind (related : Before other next) (unguarded : other.kind ≠ .guard)
    (used : piece.kind ≠ .free) (unguarded' : piece.kind ≠ .guard) : Before piece next := by
  refine before_used used unguarded' (Bool.eq_false_iff.mpr fun closes => ?_)
  exact unguarded (related.guarded closes)

theorem Before.ahead (related : Before piece next) (replaced : next.kind.closes = false)
    (foot : other.prevSize = next.prevSize) (used : other.kind ≠ .free) (inner : other.kind.inner) :
    Before piece other := by
  by_cases free : piece.kind = .free
  · exact before_free free (foot.trans (related.foot free)) used inner
  · exact before_used free (related.unguarded replaced) inner.1

theorem held_in_absent {asked : Nat} (absent : asked ∉ addrs pieces) :
    heldIn pieces asked = none := by
  induction pieces with
  | nil => rfl
  | cons piece rest ih =>
      obtain ⟨differs, absent⟩ := not_or.mp (mt List.mem_cons.mpr absent)
      rw [heldIn, Function.update_of_ne differs, ih absent]

theorem held_in_at (absent : piece.addr ∉ addrs left) :
    heldIn (left ++ piece :: right) =
      Function.update (heldIn (left ++ right)) piece.addr (lent piece) := by
  induction left with
  | nil => rfl
  | cons first rest ih =>
      obtain ⟨differs, absent⟩ := not_or.mp (mt List.mem_cons.mpr absent)
      rw [List.cons_append, List.cons_append, heldIn, heldIn, ih absent,
        Function.update_comm (Ne.symm differs)]

theorem held_replace (nodup : (addrs (left ++ piece :: right)).Nodup)
    (sameAddr : other.addr = piece.addr) :
    heldIn (left ++ other :: right) =
      Function.update (heldIn (left ++ piece :: right)) piece.addr (lent other) := by
  have absent := (nodup_at nodup).1
  rw [held_in_at absent, Function.update_idem, ← sameAddr]
  exact held_in_at (sameAddr ▸ absent)

theorem held_unlent (nodup : (addrs (left ++ piece :: right)).Nodup) (unlent : lent piece = none) :
    heldIn (left ++ piece :: right) = heldIn (left ++ right) := by
  obtain ⟨inLeft, inRight⟩ := nodup_at nodup
  rw [held_in_at inLeft, unlent]
  refine Function.update_eq_self_iff.mpr (held_in_absent ?_).symm
  rw [addrs, List.map_append, List.mem_append, not_or]
  exact ⟨inLeft, inRight⟩

theorem held_skip (nodup : (addrs (left ++ piece :: next :: right)).Nodup)
    (unlent : lent next = none) :
    heldIn (left ++ piece :: next :: right) = heldIn (left ++ piece :: right) := by
  have skipped := @held_unlent (left ++ [piece]) right next
  rw [List.append_assoc, List.append_assoc] at skipped
  exact skipped nodup unlent

theorem held_without (nodup : (addrs (left ++ piece :: right)).Nodup) :
    heldIn (left ++ right) = Function.update (heldIn (left ++ piece :: right)) piece.addr none := by
  obtain ⟨inLeft, inRight⟩ := nodup_at nodup
  rw [held_in_at inLeft, Function.update_idem]
  refine (Function.update_eq_self_iff.mpr (held_in_absent ?_).symm).symm
  rw [addrs, List.map_append, List.mem_append, not_or]
  exact ⟨inLeft, inRight⟩

theorem held_remove (nodup : (addrs (left ++ piece :: next :: right)).Nodup) :
    heldIn (left ++ piece :: right) =
      Function.update (heldIn (left ++ piece :: next :: right)) next.addr none := by
  have without := @held_without (left ++ [piece]) right next
  rw [List.append_assoc, List.append_assoc] at without
  exact without nodup

theorem held_refoot {prevSize : Nat} :
    heldIn (left ++ { piece with prevSize := prevSize } :: right) = heldIn (left ++ piece :: right) := by
  induction left with
  | nil => rfl
  | cons first rest ih => rw [List.cons_append, heldIn, ih, List.cons_append, heldIn]

theorem held_table {before : Option Piece} {end' : Option Nat} {asked : Nat}
    (unlisted : (base asked).bind Tag.place = none) :
    ((table base end' before pieces asked).bind fun tag =>
      if tag.place = some .held then some tag.size else none) = heldIn pieces asked := by
  induction pieces generalizing before with
  | nil =>
      rw [table, heldIn]
      cases found : base asked with
      | none => rfl
      | some tag =>
          rw [found] at unlisted
          have nothing : tag.place = none := unlisted
          rw [Option.bind_some, nothing, if_neg (by decide)]
  | cons piece rest ih =>
      rw [table, heldIn]
      by_cases own : asked = piece.addr
      · rw [own, Function.update_self, Function.update_self, Option.bind_some, lent]
        have place : (tag before piece (headAddr end' rest)).place = some .held ↔
            piece.kind = .held := place_held
        by_cases held : piece.kind = .held
        · rw [if_pos (place.mpr held), if_pos held, tag, Piece.recorded, held]
          rfl
        · rw [if_neg (mt place.mp held), if_neg held]
      · rw [Function.update_of_ne own, Function.update_of_ne own, ih]

theorem Layout.held_eq (layout : Layout base regions arena pieces) :
    arena.held = heldIn pieces := by
  funext asked
  unfold Arena.held
  rw [layout.row.same]
  exact held_table (layout.ground.unlisted asked)

theorem Layout.positive (layout : Layout base regions arena pieces) :
    ∀ piece ∈ pieces, 0 < piece.size :=
  fun piece member => Nat.lt_of_lt_of_le (by decide) (layout.sound piece member).positive

theorem Layout.inside (layout : Layout base regions arena pieces) (member : piece ∈ pieces) :
    piece.addr + piece.size < 2 ^ 63 ∧ piece.size ≤ arena.systemMem := by
  obtain ⟨region, listed, low, high⟩ := layout.fills.inside piece member
  have bounds := layout.ground.bounded region listed
  omega

/-- Inside of a piece there is no record. -/
theorem Layout.vacant (layout : Layout base regions arena pieces) (member : piece ∈ pieces)
    {addr : Nat} (low : piece.addr < addr) (high : addr < piece.addr + piece.size) :
    addr ∉ addrs pieces ∧ base addr = none := by
  refine ⟨layout.fills.none_inside layout.ground.apart layout.positive member low high, ?_⟩
  obtain ⟨region, listed, start, stop⟩ := layout.fills.inside piece member
  exact layout.ground.unused region listed addr (by omega) (by omega)

/-- A record is that of a piece, or not of a chunk in a region. -/
theorem Layout.record (layout : Layout base regions arena pieces)
    (listed : arena.htbl p = some tag) :
    (∃ left piece right, pieces = left ++ piece :: right ∧ piece.addr = p ∧
      tag = BoundaryTags.tag (lastOr none left) piece (headAddr none right)) ∨
    base p = some tag := by
  rw [layout.row.same] at listed
  by_cases member : p ∈ addrs pieces
  · obtain ⟨piece, found, same⟩ := List.mem_map.mp member
    obtain ⟨left, right, shape⟩ := List.append_of_mem found
    refine Or.inl ⟨left, piece, right, shape, same, ?_⟩
    have row := layout.row
    rw [shape] at row
    have own := row.at
    rw [row.same, same, ← shape, listed] at own
    exact Option.some.inj own
  · rw [table_of_not_mem member] at listed
    exact Or.inr listed

theorem Layout.locate (layout : Layout base regions arena pieces) (listed : arena.htbl p = some tag)
    (placed : tag.place ≠ none) :
    ∃ left piece right, pieces = left ++ piece :: right ∧ piece.addr = p ∧
      piece.kind.place = tag.place := by
  rcases layout.record listed with ⟨left, piece, right, shape, own, same⟩ | other
  · subst same
    exact ⟨left, piece, right, shape, own, rfl⟩
  · have nothing := layout.ground.unlisted p
    rw [other] at nothing
    exact absurd nothing placed

theorem Layout.find {place : Place} (layout : Layout base regions arena pieces)
    (listed : arena.htbl p = some tag) (placed : tag.place = some place) :
    ∃ left size prevSize kind right, pieces = left ++ ⟨p, size, prevSize, kind⟩ :: right ∧
      kind.place = some place ∧ tag.size = size := by
  obtain ⟨left, ⟨addr, size, prevSize, kind⟩, right, shape, same, own⟩ :=
    layout.locate listed (placed ▸ Option.some_ne_none place)
  dsimp only at same own
  subst same
  refine ⟨left, size, prevSize, kind, right, shape, own.trans placed, ?_⟩
  have row := layout.row
  rw [shape] at row
  have found := row.at
  dsimp only at found
  rw [listed] at found
  rw [Option.some.inj found]
  have notPost : kind ≠ .post := by
    intro post
    rw [post, placed] at own
    cases own
  exact if_neg notPost

theorem Layout.last (layout : Layout base regions arena pieces) :
    ∃ left top, pieces = left ++ [top] ∧ top.kind = .top ∧ top.addr = arena.mdTop := by
  rcases List.eq_nil_or_concat' pieces with empty | ⟨left, top, shape⟩
  · obtain ⟨first, later, stop, shape, walked⟩ := layout.fills
    rw [empty] at walked
    subst shape
    cases walked
  · subst shape
    have kind := layout.fills.last.mpr rfl
    exact ⟨left, top, rfl, kind, layout.top top (List.mem_append_right _ List.mem_cons_self) kind⟩

theorem Layout.before (layout : Layout base regions arena (left ++ piece :: next :: right)) :
    Before piece next :=
  (List.isChain_append_cons_cons.mp layout.chain).2.1

theorem Layout.adjacent (layout : Layout base regions arena (left ++ piece :: next :: right))
    (inner : piece.kind.inner) : next.addr = piece.addr + piece.size :=
  layout.fills.adjacent inner

theorem Layout.sound_at (layout : Layout base regions arena (left ++ piece :: right)) :
    Sound piece := layout.sound piece (List.mem_append_right _ List.mem_cons_self)

/-- Nothing free is before a free chunk or top. -/
theorem Layout.used_before (layout : Layout base regions arena (left ++ piece :: right))
    (closed : piece.kind = .free ∨ piece.kind = .top) :
    (lastOr none left).any Piece.isFree = false := by
  rcases List.eq_nil_or_concat' left with empty | ⟨earlier, last, shape⟩
  · rw [empty]
    rfl
  · subst shape
    have whole := layout
    rw [List.append_assoc, List.singleton_append] at whole
    have merged := whole.before.merged
    have settled := (layout.sound last (List.mem_append_left _
      (List.mem_append_right _ List.mem_cons_self))).settled
    rw [last_or_append]
    change last.isFree = false
    unfold Piece.isFree
    rw [Bool.or_eq_false_iff]
    refine ⟨decide_eq_false fun free => ?_, decide_eq_false settled.1⟩
    rcases closed with same | same
    · exact (merged free).1 same
    · exact (merged free).2 same

theorem not_mem_replace {addr : Nat} (sameAddr : other.addr = piece.addr)
    (absent : addr ∉ addrs (left ++ piece :: right)) : addr ∉ addrs (left ++ other :: right) := by
  rw [addrs, List.map_append, List.map_cons, sameAddr, ← List.map_cons, ← List.map_append]
  exact absent

theorem held_of_placed (listed : arena.htbl p = some tag) (held : tag.place = some .held) :
    arena.held p = some tag.size := by
  unfold Arena.held
  rw [listed, Option.bind_some, if_pos held]

theorem not_held_of_placed (listed : arena.htbl p = some tag) (other : tag.place ≠ some .held) :
    arena.held p = none := by
  unfold Arena.held
  rw [listed, Option.bind_some, if_neg other]

theorem Layout.held_piece {size : Nat} (layout : Layout base regions arena pieces)
    (held : arena.held p = some size) : ∃ prevSize, ⟨p, size, prevSize, .held⟩ ∈ pieces := by
  obtain ⟨tag, listed, owned⟩ := Option.bind_eq_some_iff.mp held
  split_ifs at owned with placed
  obtain ⟨left, found, prevSize, kind, right, shape, place, sized⟩ := layout.find listed placed
  cases place_held.mp place
  rw [← Option.some.inj owned, sized, shape]
  exact ⟨prevSize, List.mem_append_right _ List.mem_cons_self⟩

theorem Orderly.separate (orderly : Orderly base regions arena) : BlockLedger.Separate arena.held := by
  obtain ⟨pieces, layout⟩ := orderly
  intro p q size size' owned owned' differs
  obtain ⟨foot, member⟩ := layout.held_piece owned
  obtain ⟨foot', member'⟩ := layout.held_piece owned'
  have symmetric : Std.Symm Piece.Apart := ⟨fun _ _ apart => apart.symm⟩
  exact (layout.fills.apart layout.ground.apart).forall member member'
    fun same => differs (congrArg Piece.addr same)

/-- All chunks are in bins, but top. -/
def Idle (arena : Arena) : Prop :=
  ∀ p tag, arena.htbl p = some tag → tag.place = none ∨ tag.place = some .bin

theorem Layout.idle_iff (layout : Layout base regions arena pieces) :
    Idle arena ↔ ∀ piece ∈ pieces, piece.kind ≠ .held ∧ piece.kind ≠ .cached := by
  constructor
  · intro idle piece member
    obtain ⟨left, right, shape⟩ := List.append_of_mem member
    have row := layout.row
    rw [shape] at row
    have placed : piece.kind.place = none ∨ piece.kind.place = some .bin := idle _ _ row.at
    constructor
    · intro held
      rw [held] at placed
      rcases placed with same | same <;> cases same
    · intro cached
      rw [cached] at placed
      rcases placed with same | same <;> cases same
  · intro idle p tag listed
    by_cases placed : tag.place = none
    · exact Or.inl placed
    · obtain ⟨left, piece, right, shape, _, same⟩ := layout.locate listed placed
      obtain ⟨unheld, uncached⟩ := idle piece (shape ▸ List.mem_append_right _ List.mem_cons_self)
      rw [← same] at placed ⊢
      cases kind : piece.kind with
      | held => exact absurd kind unheld
      | cached => exact absurd kind uncached
      | free => exact Or.inr rfl
      | loose | taken | guard | post | top => exact Or.inl rfl

theorem Layout.at_start {earlier : List Region} {region : Region}
    (layout : Layout base regions arena (left ++ piece :: right)) (idle : Idle arena)
    (reaches : Reaches earlier region left piece.addr) (open' : piece.kind.closes = false)
    (before : (lastOr none left).any Piece.isFree = false) : piece.addr = region.start := by
  refine reaches.at_start fun last atEnd inner => ?_
  obtain ⟨front, shape⟩ := List.getLast?_eq_some_iff.mp atEnd
  subst shape
  have member : last ∈ front ++ [last] ++ piece :: right :=
    List.mem_append_left _ (List.mem_append_right _ List.mem_cons_self)
  obtain ⟨unheld, uncached⟩ := layout.idle_iff.mp idle last member
  obtain ⟨notLoose, notTaken⟩ := (layout.sound last member).settled
  rw [← List.append_cons front] at layout
  have unguarded := layout.before.unguarded open'
  rw [last_or_append] at before
  have used : last.isFree = false := before
  unfold Piece.isFree at used
  cases kind : last.kind with
  | held => exact unheld kind
  | cached => exact uncached kind
  | free =>
      rw [kind] at used
      cases used
  | loose => exact notLoose kind
  | taken => exact notTaken kind
  | guard => exact unguarded kind
  | post =>
      have closes := inner.1
      rw [kind] at closes
      cases closes
  | top => exact inner.2 kind

theorem Idle.set_head {newSize systemMem : Nat} (idle : Idle arena) :
    Idle { arena with htbl := setHead arena.htbl p newSize, systemMem := systemMem } := by
  intro asked found listed
  change retag arena.htbl p _ asked = some found at listed
  by_cases own : asked = p
  · subst own
    rw [retag_self] at listed
    obtain ⟨before, found, same⟩ := Option.map_eq_some_iff.mp listed
    subst same
    exact idle asked before found
  · rw [retag_of_ne own] at listed
    exact idle asked found listed

end SriGlibcMalloc.Chunks
