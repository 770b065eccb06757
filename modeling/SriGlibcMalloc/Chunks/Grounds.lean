import SriGlibcMalloc.Chunks.Reshape

/-!
# An arena on other regions

The last region of an arena can be resized, with top. A region can be added behind a post
that ends the one before, and top is then in the new one. When nothing but top is in the
last region, it can be given up, and what is before the post becomes top again.
-/

namespace SriGlibcMalloc.Chunks

open BoundaryTags
open EntryPoints (minSize)

set_option autoImplicit false

variable {base : Table} {earlier regions : List Region} {region fresh : Region} {arena : Arena}
variable {pieces left right middle : List Piece} {piece next top top' post guard : Piece}
variable {systemMem size addr : Nat}

/-- A row of sound pieces that fill regions is a layout. -/
theorem layout_of (ground : Ground base regions arena.systemMem arena.contiguous)
    (fills : Fills regions (left ++ [top])) (sound : ∀ piece ∈ left ++ [top], Sound piece)
    (chain : (left ++ [top]).IsChain Before) (place : top.addr = arena.mdTop) :
    Layout base regions (arena.laid base (left ++ [top])) (left ++ [top]) where
  ground := ground
  row := row_of_fills ground fills sound
  fills := fills
  sound := sound
  chain := chain
  top := by
    intro piece member kind
    rcases List.mem_append.mp member with inLeft | last
    · obtain ⟨front, back, shape⟩ := List.append_of_mem inLeft
      rw [shape, List.append_assoc, List.cons_append] at fills
      have nothing := fills.last.mp kind
      exact absurd nothing (List.append_ne_nil_of_right_ne_nil _ (List.cons_ne_nil _ _))
    · rw [List.mem_singleton.mp last]
      exact place

theorem chain_end {related : Piece → Piece → Prop} {last : Piece}
    (chain : left.IsChain related) (inside : right.IsChain related) (begins : right.head? = some last)
    (before : ∀ piece ∈ left.getLast?, related piece last) : (left ++ right).IsChain related := by
  refine List.isChain_append.mpr ⟨chain, inside, ?_⟩
  intro piece atEnd next atHead
  rw [begins] at atHead
  cases atHead
  exact before piece atEnd

theorem Layout.before_last (layout : Layout base regions arena (left ++ piece :: right)) :
    ∀ last ∈ left.getLast?, Before last piece := by
  intro last atEnd
  obtain ⟨_, _, joined⟩ := List.isChain_append.mp layout.chain
  exact joined last atEnd piece rfl

theorem Layout.resize_top {region' : Region} {newSize oldSize prevSize : Nat}
    (layout : Layout base (earlier ++ [region]) arena (left ++ [⟨addr, oldSize, prevSize, .top⟩]))
    (ground : Ground base (earlier ++ [region']) systemMem arena.contiguous)
    (sameStart : region'.start = region.start) (ends : addr + newSize = region'.stop)
    (large : minSize ≤ newSize) (multiple : newSize % 16 = 0) :
    Layout base (earlier ++ [region'])
      (Arena.laid { arena with systemMem := systemMem } base
        (left ++ [⟨addr, newSize, prevSize, .top⟩]))
      (left ++ [⟨addr, newSize, prevSize, .top⟩]) := by
  obtain ⟨reaches, _, _⟩ := layout.fills.reaches
  have place : addr = arena.mdTop :=
    layout.top _ (List.mem_append_right _ List.mem_cons_self) rfl
  refine @layout_of _ _ { arena with systemMem := systemMem } _ _ ground
    ((reaches.resize sameStart).fills rfl rfl ends) ?_ ?_ place
  · intro piece member
    rcases List.mem_append.mp member with inLeft | last
    · exact layout.sound piece (List.mem_append_left _ inLeft)
    · rw [List.mem_singleton.mp last]
      exact sound_chunk rfl layout.sound_at.aligned multiple large fun cached => by cases cached
  · refine chain_end (List.isChain_append.mp layout.chain).1 (List.isChain_singleton _) rfl ?_
    intro last atEnd
    have related := layout.before_last last atEnd
    exact ⟨related.foot, related.merged, related.guarded, related.fenced, related.posted⟩

/-- The old top is divided into pieces that end with a post; top is all of a new region. -/
theorem Layout.open_region {first : Piece}
    (layout : Layout base (earlier ++ [region]) arena (left ++ [top]))
    (ground : Ground base (earlier ++ [region] ++ [fresh]) systemMem arena.contiguous)
    (tiles : Tiles top.addr middle post.addr) (closes : post.kind.closes = true)
    (ends : post.addr + post.size = region.stop) (isTop : top'.kind = .top)
    (begins : top'.addr = fresh.start) (stops : fresh.start + top'.size = fresh.stop)
    (sound : ∀ piece ∈ middle ++ [post, top'], Sound piece)
    (head : (middle ++ [post, top']).head? = some first)
    (inside : (middle ++ [post, top']).IsChain Before)
    (before : ∀ piece ∈ left.getLast?, Before piece top → Before piece first) :
    Layout base (earlier ++ [region] ++ [fresh])
      (Arena.laid { arena with mdTop := top'.addr, systemMem := systemMem } base
        (left ++ (middle ++ [post, top'])))
      (left ++ (middle ++ [post, top'])) := by
  obtain ⟨reaches, _, _⟩ := layout.fills.reaches
  have shape : left ++ (middle ++ [post, top']) = (left ++ middle ++ [post]) ++ [top'] := by
    simp only [List.append_assoc, List.cons_append, List.nil_append]
  have fills : Fills (earlier ++ [region] ++ [fresh]) ((left ++ middle ++ [post]) ++ [top']) :=
    ((reaches.tiles tiles).opens closes rfl ends).fills isTop begins stops
  have chain : (left ++ (middle ++ [post, top'])).IsChain Before :=
    chain_end (List.isChain_append.mp layout.chain).1 inside head
      fun last atEnd => before last atEnd (layout.before_last last atEnd)
  rw [shape] at chain ⊢
  refine @layout_of _ _ { arena with mdTop := top'.addr, systemMem := systemMem } _ _ ground fills
    ?_ chain rfl
  intro piece member
  rw [← shape] at member
  rcases List.mem_append.mp member with inLeft | isNew
  · exact layout.sound piece (List.mem_append_left _ inLeft)
  · exact sound piece isNew

theorem Layout.before_post (layout : Layout base (earlier ++ [region] ++ [fresh]) arena pieces)
    (alone : arena.mdTop = fresh.start) (room : region.start + minSize ≤ region.stop) :
    ∃ left guard post top, pieces = left ++ [guard, post, top] ∧ guard.kind = .guard ∧
      post.kind = .post ∧ top.kind = .top ∧ Reaches earlier region left guard.addr ∧
      post.addr = guard.addr + guard.size ∧ post.addr + post.size = region.stop := by
  obtain ⟨front, top, shape, isTop, place⟩ := layout.last
  subst shape
  obtain ⟨reaches, _, _⟩ := layout.fills.reaches
  rw [place, alone] at reaches
  obtain ⟨before, post, shape, closes, ends, leads⟩ := reaches.closes fun piece member =>
    layout.positive piece (List.mem_append_left _ member)
  subst shape
  have isPost : post.kind = .post := by
    cases kind : post.kind <;> rw [kind] at closes <;> first | rfl | cases closes
  have size := (layout.sound post (List.mem_append_left _
    (List.mem_append_right _ List.mem_cons_self))).post closes
  rcases List.eq_nil_or_concat' before with empty | ⟨left, guard, shape⟩
  · subst empty
    obtain ⟨_, start⟩ := reaches_nil leads
    simp only [minSize] at room
    omega
  · subst shape
    have shape : left ++ [guard] ++ [post] ++ [top] = left ++ [guard, post, top] := by
      simp only [List.append_assoc, List.cons_append, List.nil_append]
    rw [shape] at layout
    have isGuard := layout.before.guarded closes
    have inner : guard.kind.inner := by
      rw [isGuard]
      exact ⟨rfl, by decide⟩
    exact ⟨left, guard, post, top, shape, isGuard, isPost, isTop, reaches_before leads inner,
      layout.adjacent inner, ends⟩

/-- Top becomes what is before the post of the last region but one. -/
theorem Layout.close_region {old : List Piece}
    (layout : Layout base (earlier ++ [region] ++ [fresh]) arena (left ++ old))
    (ground : Ground base (earlier ++ [region]) systemMem arena.contiguous)
    (reaches : Reaches earlier region left top.addr) (isTop : top.kind = .top)
    (ends : top.addr + top.size = region.stop) (sound : Sound top)
    (before : ∀ piece ∈ left.getLast?, Before piece top) :
    Layout base (earlier ++ [region])
      (Arena.laid { arena with mdTop := top.addr, systemMem := systemMem } base (left ++ [top]))
      (left ++ [top]) := by
  refine @layout_of _ _ { arena with mdTop := top.addr, systemMem := systemMem } _ _ ground
    (reaches.fills isTop rfl ends) ?_ ?_ rfl
  · intro piece member
    rcases List.mem_append.mp member with inLeft | isLast
    · exact layout.sound piece (List.mem_append_left _ inLeft)
    · rw [List.mem_singleton.mp isLast]
      exact sound
  · obtain ⟨chain, _, _⟩ := List.isChain_append.mp layout.chain
    exact chain_end chain (List.isChain_singleton _) rfl before

end SriGlibcMalloc.Chunks
