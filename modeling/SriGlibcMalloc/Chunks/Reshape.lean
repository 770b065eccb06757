import SriGlibcMalloc.Chunks.Layout

/-!
# Changing the layout of an arena

Pieces in the middle of a region are replaced by others that fill the same part: a chunk
changes hands, is split, is merged with the next one or becomes free. The records are those
of the new row; that the routines write them is another matter.
-/

namespace SriGlibcMalloc.Chunks

open BoundaryTags
open EntryPoints (minSize)

set_option autoImplicit false

def Arena.laid (arena : Arena) (base : Table) (pieces : List Piece) : Arena :=
  { arena with htbl := table base none none pieces }

variable {base htbl : Table} {regions : List Region} {arena : Arena}
variable {pieces left right old new : List Piece} {piece other next : Piece}
variable {p nb size prevSize foot : Nat} {kind kind' : Kind}

/-- The records that the routines leave are those of the row. -/
theorem Layout.settle (layout : Layout base regions (arena.laid base pieces) pieces)
    (row : Row base htbl pieces) : Layout base regions { arena with htbl := htbl } pieces := by
  rw [row.same]
  exact layout

theorem row_of_fills {systemMem : Nat} {contiguous : Bool}
    (ground : Ground base regions systemMem contiguous) (fills : Fills regions pieces)
    (sound : ∀ piece ∈ pieces, Sound piece) : Row base (table base none none pieces) pieces where
  same := rfl
  nodup := fills.nodup ground.apart fun piece member =>
    Nat.lt_of_lt_of_le (by decide) (sound piece member).positive
  unused := by
    intro piece member
    obtain ⟨region, listed, low, high⟩ := fills.inside piece member
    have positive := (sound piece member).positive
    exact ground.unused region listed piece.addr low (by omega)

theorem chain_swap {related : Piece → Piece → Prop} {first last first' last' : Piece}
    (chain : (left ++ (old ++ right)).IsChain related) (begins : old.head? = some first)
    (ends : old.getLast? = some last) (begins' : new.head? = some first')
    (ends' : new.getLast? = some last') (inside : new.IsChain related)
    (before : ∀ piece ∈ left.getLast?, related piece first → related piece first')
    (behind : ∀ next ∈ right.head?, related last next → related last' next) :
    (left ++ (new ++ right)).IsChain related := by
  obtain ⟨chainLeft, rest, toOld⟩ := List.isChain_append.mp chain
  obtain ⟨_, chainRight, fromOld⟩ := List.isChain_append.mp rest
  refine chainLeft.append (inside.append chainRight ?_) ?_
  · intro piece atEnd next atHead
    rw [ends'] at atEnd
    cases atEnd
    exact behind next atHead (fromOld last (by rw [ends]; rfl) next atHead)
  · intro piece atEnd next atHead
    rw [List.head?_append, begins'] at atHead
    cases atHead
    exact before piece atEnd (toOld piece atEnd first (by rw [List.head?_append, begins]; rfl))

theorem Layout.swap {first last first' last' : Piece}
    (layout : Layout base regions arena (left ++ (old ++ right)))
    (inner : ∀ piece ∈ old, piece.kind.inner)
    (tiles : ∀ start stop, Tiles start old stop → Tiles start new stop)
    (sound : ∀ piece ∈ new, Sound piece ∧ piece.kind ≠ .top) (begins : old.head? = some first)
    (ends : old.getLast? = some last) (begins' : new.head? = some first')
    (ends' : new.getLast? = some last') (inside : new.IsChain Before)
    (before : ∀ piece ∈ left.getLast?, Before piece first → Before piece first')
    (behind : ∀ next ∈ right.head?, Before last next → Before last' next) :
    Layout base regions (arena.laid base (left ++ (new ++ right))) (left ++ (new ++ right)) := by
  have fills : Fills regions (left ++ (new ++ right)) := by
    apply layout.fills.swap _ inner tiles
    intro empty
    rw [empty] at begins
    cases begins
  have sound : ∀ piece ∈ left ++ (new ++ right), Sound piece ∧
      (piece.kind = .top → piece.addr = arena.mdTop) := by
    intro piece member
    rcases List.mem_append.mp member with inLeft | member
    · have listed := List.mem_append_left (old ++ right) inLeft
      exact ⟨layout.sound piece listed, layout.top piece listed⟩
    · rcases List.mem_append.mp member with inNew | inRight
      · exact ⟨(sound piece inNew).1, fun kind => absurd kind (sound piece inNew).2⟩
      · have listed := List.mem_append_right left (List.mem_append_right old inRight)
        exact ⟨layout.sound piece listed, layout.top piece listed⟩
  exact
    { ground := layout.ground
      row := row_of_fills layout.ground fills fun piece member => (sound piece member).1
      fills := fills
      sound := fun piece member => (sound piece member).1
      chain := chain_swap layout.chain begins ends begins' ends' inside before behind
      top := fun piece member => (sound piece member).2 }

theorem held_used : Kind.held ≠ .free := by decide

theorem free_below : Kind.free ≠ .top := by decide

theorem free_sized : Kind.free ≠ .post := by decide

theorem top_sized : Kind.top ≠ .post := by decide

theorem held_sized : Kind.held ≠ .post := by decide

theorem held_unguarded : Kind.held ≠ .guard := by decide

theorem held_inner : Kind.inner .held := chunk_inner rfl (by decide)

theorem held_uncached (same : Kind.held = .cached) : size ≤ maxFastSize := by cases same

theorem Layout.vacant_at {addr : Nat}
    (layout : Layout base regions arena (left ++ ⟨p, size, prevSize, kind⟩ :: right))
    (low : p < addr) (high : addr < p + size) :
    addr ∉ addrs (left ++ ⟨p, size, prevSize, kind⟩ :: right) ∧ base addr = none :=
  @Layout.vacant _ _ _ _ ⟨p, size, prevSize, kind⟩ layout
    (List.mem_append_right _ List.mem_cons_self) addr low high

theorem Layout.chunksize
    (layout : Layout base regions arena (left ++ ⟨p, size, prevSize, kind⟩ :: right))
    (sized : kind ≠ .post) : arena.chunksize p = some size := by
  unfold Arena.chunksize
  have found := layout.row.at
  dsimp only at found
  rw [found, Option.map_some]
  exact congrArg some (if_neg sized)

/-- What follows a free chunk is in the middle of a region and not free. -/
theorem Layout.after_free
    (layout : Layout base regions arena (left ++ ⟨p, size, prevSize, .free⟩ :: next :: right)) :
    next.addr = p + size ∧ next.kind.inner ∧ next.kind ≠ .free ∧ next.prevSize = size := by
  have related := layout.before
  have inner : Kind.inner .free := chunk_inner rfl (by decide)
  refine ⟨layout.adjacent inner, ⟨?_, (related.merged rfl).2⟩, (related.merged rfl).1,
    related.foot rfl⟩
  exact Bool.eq_false_iff.mpr fun closes => by cases related.guarded closes

theorem Layout.replace
    (layout : Layout base regions arena (left ++ ⟨p, size, prevSize, kind⟩ :: right))
    (inner : kind.inner) (inner' : kind'.inner) (sound : Sound ⟨p, size, prevSize, kind'⟩)
    (before : ∀ piece ∈ left.getLast?, Before piece ⟨p, size, prevSize, kind⟩ →
      Before piece ⟨p, size, prevSize, kind'⟩)
    (behind : ∀ next ∈ right.head?, Before ⟨p, size, prevSize, kind⟩ next →
      Before ⟨p, size, prevSize, kind'⟩ next) :
    Layout base regions (arena.laid base (left ++ ⟨p, size, prevSize, kind'⟩ :: right))
      (left ++ ⟨p, size, prevSize, kind'⟩ :: right) := by
  apply @Layout.swap _ _ _ _ _ [⟨p, size, prevSize, kind⟩] [⟨p, size, prevSize, kind'⟩] _ _ _ _
    layout ?_ ?_ ?_ rfl rfl rfl rfl (List.isChain_singleton _) before behind
  · intro piece member
    rw [List.mem_singleton.mp member]
    exact inner
  · intro start stop tiles
    cases tiles with
    | cons place _ tail => exact .cons place inner' tail
  · intro piece member
    rw [List.mem_singleton.mp member]
    exact ⟨sound, inner'.2⟩

theorem Layout.relabel
    (layout : Layout base regions arena (left ++ ⟨p, size, prevSize, kind⟩ :: right))
    (chunk : Kind.isChunk kind = true) (below : kind ≠ .top) (chunk' : Kind.isChunk kind' = true)
    (below' : kind' ≠ .top) (used' : kind' ≠ .free)
    (fast : kind' = .cached → size ≤ maxFastSize) :
    Layout base regions (arena.laid base (left ++ ⟨p, size, prevSize, kind'⟩ :: right))
      (left ++ ⟨p, size, prevSize, kind'⟩ :: right) := by
  have inner' := chunk_inner chunk' below'
  refine layout.replace (chunk_inner chunk below) inner'
    (layout.sound_at.relabel chunk chunk' fast) ?_ ?_
  · exact fun piece _ related => related.ahead (chunk_inner chunk below).1 rfl used' inner'
  · exact fun next _ related =>
      Before.behind related (chunk_unguarded chunk) used' (chunk_unguarded chunk')

theorem last_of_last_or (last : piece ∈ left.getLast?) : lastOr none left = some piece := by
  obtain ⟨earlier, shape⟩ := List.getLast?_eq_some_iff.mp last
  rw [shape, last_or_append]
  rfl

/-- What is before a piece is not free, whatever the piece becomes. -/
theorem before_of_used (before : (lastOr none left).any Piece.isFree = false)
    (last : piece ∈ left.getLast?) (unguarded : piece.kind ≠ .guard)
    (inner : next.kind.closes = false) : Before piece next := by
  rw [last_of_last_or last] at before
  refine before_used (fun free => ?_) unguarded inner
  unfold Piece.isFree at before
  rw [Option.any_some, free] at before
  cases before

theorem Layout.release
    (layout : Layout base regions arena (left ++ ⟨p, size, prevSize, .held⟩ :: next :: right))
    (before : (lastOr none left).any Piece.isFree = false) (inner : next.kind.inner)
    (used : next.kind ≠ .free) :
    Layout base regions
      (arena.laid base
        (left ++ ⟨p, size, prevSize, .free⟩ :: { next with prevSize := size } :: right))
      (left ++ ⟨p, size, prevSize, .free⟩ :: { next with prevSize := size } :: right) := by
  have own' : Kind.inner .free := chunk_inner rfl (by decide)
  refine @Layout.swap _ _ _ left right [⟨p, size, prevSize, .held⟩, next]
    [⟨p, size, prevSize, .free⟩, { next with prevSize := size }] _ _ _ _ layout ?_ ?_ ?_ rfl rfl rfl
    rfl ?_ ?_ (fun _ _ related => related.refoot)
  · intro piece member
    rcases List.mem_cons.mp member with same | member
    · rw [same]
      exact held_inner
    · rw [List.mem_singleton.mp member]
      exact inner
  · intro start stop tiles
    cases tiles with
    | cons place _ tail =>
        cases tail with
        | cons place' inner tail => exact .cons place own' (.cons place' inner tail)
  · intro piece member
    rcases List.mem_cons.mp member with same | member
    · rw [same]
      exact ⟨layout.sound_at.relabel rfl rfl (fun cached => by cases cached), own'.2⟩
    · rw [List.mem_singleton.mp member]
      exact ⟨(layout.sound next (List.mem_append_right _
        (List.mem_cons_of_mem _ List.mem_cons_self))).refoot, inner.2⟩
  · exact List.isChain_cons_cons.mpr ⟨before_free rfl rfl used inner, List.isChain_singleton _⟩
  · exact fun piece last related => before_of_used before last (related.unguarded rfl) rfl

theorem Layout.split
    (layout : Layout base regions arena (left ++ ⟨p, size, prevSize, kind⟩ :: right))
    (chunk : Kind.isChunk kind = true) (below : kind ≠ .top) (aligned : nb % 16 = 0)
    (large : minSize ≤ nb) (fits : nb + minSize ≤ size) :
    Layout base regions
      (arena.laid base
        (left ++ ⟨p, nb, prevSize, .held⟩ :: ⟨p + nb, size - nb, foot, .held⟩ :: right))
      (left ++ ⟨p, nb, prevSize, .held⟩ :: ⟨p + nb, size - nb, foot, .held⟩ :: right) := by
  have inner := chunk_inner chunk below
  have sound := layout.sound_at
  have multiple := sound.multiple
  have place := sound.aligned
  dsimp only at multiple place
  have first : Sound ⟨p, nb, prevSize, .held⟩ :=
    sound_chunk rfl place aligned large held_uncached
  have second : Sound ⟨p + nb, size - nb, foot, .held⟩ :=
    sound_chunk rfl (by omega) (by omega) (by omega) held_uncached
  refine @Layout.swap _ _ _ left right [⟨p, size, prevSize, kind⟩]
    [⟨p, nb, prevSize, .held⟩, ⟨p + nb, size - nb, foot, .held⟩] _ _ _ _ layout ?_ ?_ ?_ rfl rfl rfl
    rfl ?_ ?_ ?_
  · intro piece member
    rw [List.mem_singleton.mp member]
    exact inner
  · intro start stop tiles
    cases tiles with
    | cons place _ tail =>
        cases tail
        dsimp only at place
        have ends : start + nb + (size - nb) = start + size := by omega
        exact tiles_pair place held_inner (by rw [place]) held_inner ends
  · intro piece member
    rcases List.mem_cons.mp member with same | member
    · rw [same]
      exact ⟨first, held_inner.2⟩
    · rw [List.mem_singleton.mp member]
      exact ⟨second, held_inner.2⟩
  · exact List.isChain_cons_cons.mpr
      ⟨before_used held_used held_unguarded rfl, List.isChain_singleton _⟩
  · exact fun piece _ related => related.ahead inner.1 rfl held_used held_inner
  · exact fun next _ related =>
      related.behind (chunk_unguarded chunk) held_used held_unguarded

theorem Layout.merge {after foot' : Nat}
    (layout : Layout base regions arena
      (left ++ ⟨p, size, prevSize, kind⟩ :: ⟨p + size, after, foot', kind'⟩ :: right))
    (chunk : Kind.isChunk kind = true) (below : kind ≠ .top) (chunk' : Kind.isChunk kind' = true)
    (below' : kind' ≠ .top) :
    Layout base regions
      (arena.laid base (left ++ ⟨p, size + after, prevSize, .held⟩ :: right))
      (left ++ ⟨p, size + after, prevSize, .held⟩ :: right) := by
  have inner := chunk_inner chunk below
  have inner' := chunk_inner chunk' below'
  have first := layout.sound_at
  have second := layout.sound ⟨p + size, after, foot', kind'⟩
    (List.mem_append_right _ (List.mem_cons_of_mem _ List.mem_cons_self))
  have multiple := first.multiple
  have multiple' := second.multiple
  have minimal := first.minimal chunk
  dsimp only at multiple multiple' minimal
  refine @Layout.swap _ _ _ left right
    [⟨p, size, prevSize, kind⟩, ⟨p + size, after, foot', kind'⟩]
    [⟨p, size + after, prevSize, .held⟩] _ _ _ _ layout ?_ ?_ ?_ rfl rfl rfl rfl
    (List.isChain_singleton _) ?_ ?_
  · intro piece member
    rcases List.mem_cons.mp member with same | member
    · rw [same]
      exact inner
    · rw [List.mem_singleton.mp member]
      exact inner'
  · intro start stop tiles
    cases tiles with
    | cons place _ tail =>
        cases tail with
        | cons _ _ tail =>
            cases tail
            exact tiles_singleton place held_inner (Nat.add_assoc _ _ _).symm
  · intro piece member
    rw [List.mem_singleton.mp member]
    exact ⟨sound_chunk rfl first.aligned (by omega) (by omega) held_uncached, held_inner.2⟩
  · exact fun piece _ related => related.ahead inner.1 rfl held_used held_inner
  · exact fun next _ related =>
      related.behind (chunk_unguarded chunk') held_used held_unguarded

theorem Layout.ends (layout : Layout base regions arena (left ++ [piece])) :
    ∃ earlier region, regions = earlier ++ [region] ∧ Reaches earlier region left piece.addr ∧
      piece.kind = .top ∧ piece.addr + piece.size = region.stop := by
  obtain ⟨first, later, _, shape, _⟩ := layout.fills
  obtain ⟨earlier, region, same⟩ := List.eq_nil_or_concat' regions |>.resolve_left
    (shape ▸ List.cons_ne_nil _ _)
  have fills := layout.fills
  rw [same] at fills
  exact ⟨earlier, region, same, fills.reaches⟩

theorem reaches_swap {earlier : List Region} {region : Region} {addr addr' : Nat}
    (reaches : Reaches earlier region (left ++ old) addr) (inner : ∀ piece ∈ old, piece.kind.inner)
    (tiles : ∀ start, Tiles start old addr → Tiles start new addr') :
    Reaches earlier region (left ++ new) addr' := by
  unfold Reaches at reaches ⊢
  rw [walk_append] at reaches ⊢
  obtain ⟨⟨found, start⟩, before, walked⟩ := Option.bind_eq_some_iff.mp reaches
  rw [before, Option.bind_some]
  cases found with
  | nil =>
      rw [walk_done walked] at walked
      cases walked
  | cons one others =>
      obtain ⟨stop, same, filled⟩ := walk_inner walked inner
      cases same
      exact (tiles start filled).walk

theorem reaches_before {earlier : List Region} {region : Region} {addr : Nat}
    (reaches : Reaches earlier region (left ++ [piece]) addr) (inner : piece.kind.inner) :
    Reaches earlier region left piece.addr := by
  rw [← List.append_nil left]
  refine reaches_swap reaches ?_ ?_
  · intro other member
    rw [List.mem_singleton.mp member]
    exact inner
  · intro start tiles
    cases tiles with
    | cons place _ _ =>
        rw [place]
        exact .nil start

theorem Layout.below_top (layout : Layout base regions arena (left ++ (old ++ [piece])))
    (member : other ∈ left) : other.kind ≠ .top := by
  intro top
  obtain ⟨front, back, shape⟩ := List.append_of_mem member
  have fills := layout.fills
  rw [shape, List.append_assoc, List.cons_append] at fills
  have nothing := fills.last.mp top
  rw [← List.append_assoc] at nothing
  exact List.append_ne_nil_of_right_ne_nil _ (List.cons_ne_nil _ _) nothing

theorem Layout.retop {top top' first first' : Piece}
    (layout : Layout base regions arena (left ++ (old ++ [top])))
    (inner : ∀ piece ∈ old, piece.kind.inner)
    (tiles : ∀ start, Tiles start old top.addr → Tiles start new top'.addr)
    (sound : ∀ piece ∈ new, Sound piece ∧ piece.kind ≠ .top) (soundTop : Sound top')
    (kind : top'.kind = .top) (ends : top'.addr + top'.size = top.addr + top.size)
    (begins : (old ++ [top]).head? = some first) (begins' : (new ++ [top']).head? = some first')
    (inside : (new ++ [top']).IsChain Before)
    (before : ∀ piece ∈ left.getLast?, Before piece first → Before piece first') :
    Layout base regions
      (Arena.laid { arena with mdTop := top'.addr } base (left ++ (new ++ [top'])))
      (left ++ (new ++ [top'])) := by
  have fills : Fills regions (left ++ (new ++ [top'])) := by
    have whole := layout
    rw [← List.append_assoc] at whole
    obtain ⟨earlier, region, same, reaches, _, stop⟩ := whole.ends
    rw [same, ← List.append_assoc]
    exact (reaches_swap reaches inner tiles).fills kind rfl (ends.trans stop)
  have sound : ∀ piece ∈ left ++ (new ++ [top']), Sound piece ∧
      (piece.kind = .top → piece.addr = top'.addr) := by
    intro piece member
    rcases List.mem_append.mp member with inLeft | member
    · exact ⟨layout.sound piece (List.mem_append_left _ inLeft),
        fun top => absurd top (layout.below_top inLeft)⟩
    · rcases List.mem_append.mp member with inNew | last
      · exact ⟨(sound piece inNew).1, fun top => absurd top (sound piece inNew).2⟩
      · rw [List.mem_singleton.mp last]
        exact ⟨soundTop, fun _ => rfl⟩
  have chain : (left ++ (new ++ [top'])).IsChain Before := by
    have last : (old ++ [top]).getLast? = some top := List.getLast?_concat
    have last' : (new ++ [top']).getLast? = some top' := List.getLast?_concat
    have swapped := @chain_swap left [] _ _ Before _ _ _ _
      (by rw [List.append_nil]; exact layout.chain) begins last begins' last' inside before
      (fun _ nothing => by cases nothing)
    rw [List.append_nil] at swapped
    exact swapped
  exact
    { ground := layout.ground
      row := row_of_fills layout.ground fills fun piece member => (sound piece member).1
      fills := fills
      sound := fun piece member => (sound piece member).1
      chain := chain
      top := fun piece member => (sound piece member).2 }

theorem Layout.divide_top
    (layout : Layout base regions arena (left ++ [⟨p, size, prevSize, .top⟩]))
    (aligned : nb % 16 = 0) (large : minSize ≤ nb) (fits : nb + minSize ≤ size) :
    Layout base regions
      (Arena.laid { arena with mdTop := p + nb } base
        (left ++ [⟨p, nb, prevSize, .held⟩, ⟨p + nb, size - nb, foot, .top⟩]))
      (left ++ [⟨p, nb, prevSize, .held⟩, ⟨p + nb, size - nb, foot, .top⟩]) := by
  have sound := layout.sound_at
  have multiple := sound.multiple
  have place := sound.aligned
  dsimp only at multiple place
  have soundTop : Sound ⟨p + nb, size - nb, foot, .top⟩ :=
    sound_chunk rfl (by omega) (by omega) (by omega) fun cached => by cases cached
  refine @Layout.retop _ _ _ left [] [⟨p, nb, prevSize, .held⟩] ⟨p, size, prevSize, .top⟩
    ⟨p + nb, size - nb, foot, .top⟩ _ _ layout ?_ ?_ ?_ soundTop rfl ?_ rfl rfl ?_ ?_
  · intro piece member
    cases member
  · intro start tiles
    cases tiles
    exact tiles_singleton rfl held_inner rfl
  · intro piece member
    rw [List.mem_singleton.mp member]
    exact ⟨sound_chunk rfl place aligned large held_uncached, held_inner.2⟩
  · change p + nb + (size - nb) = p + size
    omega
  · exact List.isChain_cons_cons.mpr ⟨before_used held_used held_unguarded rfl, List.isChain_singleton _⟩
  · exact fun piece _ related => related.ahead rfl rfl held_used held_inner

theorem Layout.join_top {after : Nat}
    (layout : Layout base regions arena
      (left ++ [⟨p, size, prevSize, .held⟩, ⟨p + size, after, foot, .top⟩]))
    (before : (lastOr none left).any Piece.isFree = false) :
    Layout base regions
      (Arena.laid { arena with mdTop := p } base (left ++ [⟨p, size + after, prevSize, .top⟩]))
      (left ++ [⟨p, size + after, prevSize, .top⟩]) := by
  have first := layout.sound_at
  have second := layout.sound ⟨p + size, after, foot, .top⟩
    (List.mem_append_right _ (List.mem_cons_of_mem _ List.mem_cons_self))
  have multiple := first.multiple
  have multiple' := second.multiple
  have minimal := first.minimal rfl
  dsimp only at multiple multiple' minimal
  have soundTop : Sound ⟨p, size + after, prevSize, .top⟩ :=
    sound_chunk rfl first.aligned (by omega) (by omega) fun cached => by cases cached
  refine @Layout.retop _ _ _ left [⟨p, size, prevSize, .held⟩] [] ⟨p + size, after, foot, .top⟩
    ⟨p, size + after, prevSize, .top⟩ _ _ layout ?_ ?_ ?_ soundTop rfl ?_ rfl rfl
    (List.isChain_singleton _) ?_
  · intro piece member
    rw [List.mem_singleton.mp member]
    exact held_inner
  · intro start tiles
    cases tiles with
    | cons place _ tail =>
        dsimp only at place
        rw [place]
        exact .nil start
  · intro piece member
    cases member
  · exact (Nat.add_assoc _ _ _).symm
  · exact fun piece last related => before_of_used before last (related.unguarded rfl) rfl

theorem Layout.move_top {after : Nat}
    (layout : Layout base regions arena
      (left ++ [⟨p, size, prevSize, .held⟩, ⟨p + size, after, foot, .top⟩]))
    (aligned : nb % 16 = 0) (large : minSize ≤ nb) (fits : nb + minSize ≤ size + after) :
    Layout base regions
      (Arena.laid { arena with mdTop := p + nb } base
        (left ++ [⟨p, nb, prevSize, .held⟩, ⟨p + nb, size + after - nb, 0, .top⟩]))
      (left ++ [⟨p, nb, prevSize, .held⟩, ⟨p + nb, size + after - nb, 0, .top⟩]) := by
  have first := layout.sound_at
  have second := layout.sound ⟨p + size, after, foot, .top⟩
    (List.mem_append_right _ (List.mem_cons_of_mem _ List.mem_cons_self))
  have multiple := first.multiple
  have multiple' := second.multiple
  have place := first.aligned
  dsimp only at multiple multiple' place
  have soundTop : Sound ⟨p + nb, size + after - nb, 0, .top⟩ :=
    sound_chunk rfl (by omega) (by omega) (by omega) fun cached => by cases cached
  refine @Layout.retop _ _ _ left [⟨p, size, prevSize, .held⟩] [⟨p, nb, prevSize, .held⟩]
    ⟨p + size, after, foot, .top⟩ ⟨p + nb, size + after - nb, 0, .top⟩ _ _ layout ?_ ?_ ?_ soundTop
    rfl ?_ rfl rfl ?_ ?_
  · intro piece member
    rw [List.mem_singleton.mp member]
    exact held_inner
  · intro start tiles
    cases tiles with
    | cons place _ tail =>
        dsimp only at place
        exact tiles_singleton place held_inner (by rw [← place])
  · intro piece member
    rw [List.mem_singleton.mp member]
    exact ⟨sound_chunk rfl place aligned large held_uncached, held_inner.2⟩
  · change p + nb + (size + after - nb) = p + size + after
    omega
  · exact List.isChain_cons_cons.mpr ⟨before_used held_used held_unguarded rfl, List.isChain_singleton _⟩
  · exact fun piece _ related => related.ahead rfl rfl held_used held_inner

end SriGlibcMalloc.Chunks
