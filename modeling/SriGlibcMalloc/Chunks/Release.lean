import SriGlibcMalloc.Chunks.Allocation

/-!
# Giving chunks back

A chunk that is freed goes to a fast bin, or it is merged with the free chunks around it and
with top. The tests of the routines pass for every chunk that is held, and for every fast
chunk that is consolidated.
-/

namespace SriGlibcMalloc.Chunks

open BoundaryTags
open EntryPoints (minSize)

set_option autoImplicit false

variable {base htbl : Table} {regions : List Region} {arena after : Arena}
variable {pieces left right : List Piece} {piece next : Piece} {tag : Tag}
variable {p nb size prevSize : Nat} {kind : Kind}

theorem Layout.follower
    (layout : Layout base regions arena (left ++ ⟨p, size, prevSize, kind⟩ :: right))
    (chunk : Kind.isChunk kind = true) (below : kind ≠ .top) :
    ∃ next others, right = next :: others ∧ next.addr = p + size ∧ next.kind.closes = false ∧
      next.size < arena.systemMem := by
  have inner := chunk_inner chunk below
  obtain ⟨next, others, shape⟩ := layout.fills.next inner.2
  subst shape
  refine ⟨next, others, rfl, layout.adjacent inner, ?_, ?_⟩
  · exact Bool.eq_false_iff.mpr fun closes =>
      chunk_unguarded chunk (layout.before.guarded closes)
  · obtain ⟨region, listed, low, high⟩ := layout.fills.shared inner
    have bounds := layout.ground.bounded region listed
    have adjacent := layout.adjacent inner
    have positive := layout.sound_at.positive
    dsimp only at low adjacent positive
    omega

theorem sized_of_inner (inner : kind.closes = false) : kind ≠ .post := by
  intro post
  rw [post] at inner
  cases inner

theorem recorded_of_sized (sized : piece.kind ≠ .post) : piece.recorded = piece.size :=
  if_neg sized

theorem Layout.next_sane
    (layout : Layout base regions arena (left ++ ⟨p, size, prevSize, kind⟩ :: next :: right))
    (inner : kind.inner) : mdNextSanityCheck arena.htbl p = true :=
  have recorded : Piece.recorded ⟨p, size, prevSize, kind⟩ = size :=
    recorded_of_sized (sized_of_inner inner.1)
  layout.row.next_sane ((layout.adjacent inner).trans (congrArg (p + ·) recorded.symm))

theorem Layout.check_free
    (layout : Layout base regions arena (left ++ ⟨p, size, prevSize, .held⟩ :: next :: right)) :
    arena.checkFree p = some () := by
  have sound := layout.sound_at
  have inside := layout.inside (List.mem_append_right left List.mem_cons_self)
  have place : (decide (p + size ≤ 2 ^ 64) && decide (p % 16 = 0)) = true := by
    rw [Bool.and_eq_true, decide_eq_true_iff, decide_eq_true_iff]
    dsimp only at inside
    exact ⟨by omega, sound.aligned⟩
  have extent : (decide (minSize ≤ size) && decide (size % 16 = 0)) = true := by
    rw [Bool.and_eq_true, decide_eq_true_iff, decide_eq_true_iff]
    exact ⟨sound.minimal rfl, sound.multiple⟩
  exact proceed (layout.chunksize held_sized) (asserted place (asserted extent
    (assert_of (layout.next_sane held_inner))))

theorem Layout.check_next
    (layout : Layout base regions arena (left ++ ⟨p, size, prevSize, .held⟩ :: next :: right)) :
    arena.checkNext p = some () := by
  obtain ⟨_, _, same, _, open', short⟩ := layout.follower rfl (by decide)
  cases same
  have positive := (layout.sound next (List.mem_append_right _
    (List.mem_cons_of_mem _ List.mem_cons_self))).positive
  have recorded := recorded_of_sized (sized_of_inner open')
  refine proceed layout.row.at (proceed rfl (proceed layout.row.next_at (assert_of ?_)))
  change (decide (16 < next.recorded + 1) && decide (next.recorded < arena.systemMem)) = true
  rw [recorded, Bool.and_eq_true, decide_eq_true_iff, decide_eq_true_iff]
  exact ⟨by omega, short⟩

theorem chunk_used (chunk : Kind.isChunk kind = true) (used : kind ≠ .free) :
    Piece.isFree ⟨p, size, prevSize, kind⟩ = false := by
  cases kind <;> first | rfl | exact absurd rfl used | cases chunk

theorem Layout.free_before
    (layout : Layout base regions arena (left ++ right))
    (free : (lastOr none left).any Piece.isFree ≠ false) :
    ∃ earlier prevp psize foot, left = earlier ++ [⟨prevp, psize, foot, .free⟩] := by
  rcases List.eq_nil_or_concat' left with empty | ⟨earlier, ⟨prevp, psize, foot, kind⟩, shape⟩
  · rw [empty] at free
    exact absurd rfl free
  · subst shape
    have settled := (layout.sound _ (List.mem_append_left _
      (List.mem_append_right _ List.mem_cons_self))).settled
    refine ⟨earlier, prevp, psize, foot, ?_⟩
    rw [last_or_append] at free
    have counts : (decide (kind = .free) || decide (kind = .loose)) = true :=
      Bool.not_eq_false _ |>.mp free
    rw [decide_eq_false settled.1, Bool.or_false] at counts
    rw [of_decide_eq_true counts]

/-- After `mergeBackward` a chunk that nobody holds has taken in the free one before it. Its
record has its old size still. -/
theorem Layout.merge_backward
    (layout : Layout base regions arena (left ++ ⟨p, size, prevSize, kind⟩ :: next :: right))
    (chunk : Kind.isChunk kind = true) (below : kind ≠ .top) (used : kind ≠ .free) :
    ∃ merged left' q total qsize foot,
      Arena.mergeBackward { arena with htbl := setPlace arena.htbl p none } p =
        some ({ arena with htbl := merged }, q, total) ∧
      Row base merged (left' ++ ⟨q, qsize, foot, .taken⟩ :: next :: right) ∧
      (lastOr none left').any Piece.isFree = false ∧
      Layout base regions
        (arena.laid base (left' ++ ⟨q, total, foot, .held⟩ :: next :: right))
        (left' ++ ⟨q, total, foot, .held⟩ :: next :: right) ∧
      heldIn (left' ++ next :: right) =
        Function.update (heldIn (left ++ ⟨p, size, prevSize, kind⟩ :: next :: right)) p none := by
  have sized := sized_of_inner (chunk_inner chunk below).1
  have recorded : Piece.recorded ⟨p, size, prevSize, kind⟩ = size := recorded_of_sized sized
  have row := layout.row.set_place ⟨p, size, prevSize, .taken⟩ rfl (chunk_used chunk used).symm
    recorded.symm rfl
  by_cases before : (lastOr none left).any Piece.isFree = false
  · refine ⟨_, left, p, size, size, prevSize, ?_, row, before, ?_, ?_⟩
    · refine proceed row.at ?_
      change (if (!(lastOr none left).any Piece.isFree) = true then _ else _) = _
      rw [before]
      rfl
    · exact layout.relabel chunk below rfl (by decide) held_used held_uncached
    · exact held_without layout.row.nodup
  · obtain ⟨earlier, prevp, psize, foot, shape⟩ := layout.free_before before
    subst shape
    rw [List.append_assoc, List.singleton_append] at layout row
    have merging := layout.before.foot rfl
    have adjacent := layout.adjacent (chunk_inner rfl free_below)
    dsimp only at merging adjacent
    subst merging adjacent
    obtain ⟨unlinked, unlinking, row'⟩ :=
      row.bin_unlink ⟨prevp, prevSize, foot, .loose⟩ rfl rfl rfl rfl rfl rfl
    obtain ⟨merged, absorbing, row'⟩ :=
      row'.absorb ⟨prevp, prevSize, foot, .taken⟩ ⟨rfl, rfl, rfl, rfl⟩ rfl
    refine ⟨merged, earlier, prevp, prevSize + size, prevSize, foot, ?_, row', ?_, ?_, ?_⟩
    · refine proceed row.next_at ?_
      change (if false = true then _ else _) = _
      rw [if_neg Bool.false_ne_true]
      refine asserted (row.prev_sane (Nat.add_sub_cancel _ _).symm) (proceed rfl
        (proceed unlinking (proceed absorbing ?_)))
      rw [Nat.add_comm prevSize size]
      rfl
    · exact layout.used_before (Or.inl rfl)
    · exact layout.merge rfl free_below chunk below
    · have nodup := layout.row.nodup
      rw [← held_unlent (nodup_without nodup rfl).1 rfl, List.append_assoc,
        List.singleton_append]
      exact held_remove nodup

theorem Layout.top_iff (layout : Layout base regions arena (left ++ piece :: right)) :
    piece.addr = arena.mdTop ↔ piece.kind = .top := by
  refine ⟨fun same => ?_, layout.top piece (List.mem_append_right _ List.mem_cons_self)⟩
  obtain ⟨front, top, shape, kind, place⟩ := layout.last
  have member : piece ∈ front ++ [top] := shape ▸ List.mem_append_right _ List.mem_cons_self
  rcases List.mem_append.mp member with inFront | isTop
  · have nodup := layout.row.nodup
    rw [shape, addrs, List.map_append, List.nodup_append] at nodup
    exact absurd (same.trans place.symm)
      (nodup.2.2 _ (List.mem_map_of_mem inFront) _ List.mem_cons_self)
  · rw [List.mem_singleton.mp isTop]
    exact kind

theorem Layout.top_next (layout : Layout base regions arena (left ++ piece :: next :: right))
    (top : next.addr = arena.mdTop) : next.kind = .top ∧ right = [] := by
  rw [List.append_cons] at layout
  have kind := layout.top_iff.mp top
  exact ⟨kind, layout.fills.last.mp kind⟩

theorem Layout.place_unsorted {q total qsize foot : Nat}
    (whole : Layout base regions (arena.laid base (left ++ ⟨q, total, foot, .held⟩ :: next :: right))
      (left ++ ⟨q, total, foot, .held⟩ :: next :: right))
    (row : Row base htbl (left ++ ⟨q, qsize, foot, .loose⟩ :: next :: right))
    (before : (lastOr none left).any Piece.isFree = false) (inner : next.kind.inner)
    (used : next.kind ≠ .free) :
    ∃ after, Arena.placeUnsorted { arena with htbl := htbl } q total = some after ∧
      Kept base regions arena after ∧ after.held = heldIn (left ++ next :: right) := by
  have row := row.set_head ⟨q, total, foot, .loose⟩ rfl rfl rfl rfl before
  obtain ⟨footed, footing, row⟩ := row.set_foot { next with prevSize := total }
    (whole.adjacent held_inner) rfl rfl rfl rfl rfl
  have row := row.set_place ⟨q, total, foot, .free⟩ rfl rfl rfl rfl
  have result := (whole.release before inner used).settle row
  refine ⟨_, proceed footing rfl, ⟨⟨_, result⟩, rfl, rfl⟩, ?_⟩
  refine result.held_eq.trans ?_
  rw [held_unlent result.row.nodup rfl, held_refoot]

theorem Layout.merge_forward {q total qsize foot : Nat}
    (whole : Layout base regions (arena.laid base (left ++ ⟨q, total, foot, .held⟩ :: next :: right))
      (left ++ ⟨q, total, foot, .held⟩ :: next :: right))
    (row : Row base htbl (left ++ ⟨q, qsize, foot, .taken⟩ :: next :: right))
    (before : (lastOr none left).any Piece.isFree = false) (inner : next.kind.inner) :
    ∃ after, ((Arena.mergeForward { arena with htbl := htbl } q total next.addr).bind fun merged =>
        merged.1.placeUnsorted q merged.2) = some after ∧
      Kept base regions arena after ∧ after.held = heldIn (left ++ next :: right) := by
  obtain ⟨behind, rest, shape⟩ : ∃ behind rest, right = behind :: rest := by
    have fills := whole.fills
    rw [List.append_cons] at fills
    exact fills.next inner.2
  subst shape
  have recorded := recorded_of_sized (sized_of_inner inner.1)
  have listed : Arena.chunksize { arena with htbl := htbl } next.addr = some next.size :=
    (congrArg (Option.map Tag.size) row.next_at).trans (congrArg some recorded)
  have shifted := whole
  rw [List.append_cons] at shifted
  have adjacent := shifted.adjacent inner
  rw [← recorded] at adjacent
  have rowNext := row
  rw [List.append_cons] at rowNext
  have bit := rowNext.inuse_bit adjacent
  by_cases free : next.kind = .free
  · obtain ⟨addr, nsize, nfoot, kind⟩ := next
    dsimp only at free
    subst free
    have place := whole.adjacent held_inner
    dsimp only at place
    subst place
    have nodup := row.nodup
    obtain ⟨_, inner', used, _⟩ := shifted.after_free
    obtain ⟨unlinked, unlinking, rowNext⟩ :=
      rowNext.bin_unlink ⟨q + total, nsize, nfoot, .loose⟩ rfl rfl rfl rfl rfl rfl
    rw [← List.append_cons] at rowNext
    obtain ⟨merged, absorbing, row⟩ :=
      rowNext.absorb ⟨q, qsize, foot, .loose⟩ ⟨rfl, rfl, rfl, rfl⟩ rfl
    have whole := whole.merge rfl (by decide) rfl free_below
    obtain ⟨after, placing, result, held⟩ := whole.place_unsorted row before inner' used
    refine ⟨after, ?_, ⟨result.orderly, result.systemMem, result.contiguous⟩, ?_⟩
    · exact proceed (proceed listed (proceed bit (proceed unlinking (proceed absorbing rfl))))
        placing
    · rw [held, held_unlent (nodup_less nodup) rfl]
  · have counts : next.isFree = false := by
      have settled := (shifted.sound_at).settled
      unfold Piece.isFree
      rw [decide_eq_false free, decide_eq_false settled.1]
      rfl
    rw [counts] at bit
    have row := row.clear_inuse_bit ⟨q, qsize, foot, .loose⟩ ⟨rfl, rfl, rfl, rfl⟩ rfl
    obtain ⟨after, placing, result⟩ := whole.place_unsorted row before inner free
    refine ⟨after, ?_, result⟩
    exact proceed (proceed listed (proceed bit rfl)) placing

/-- What `_int_free` and `malloc_consolidate` do with a chunk that nobody holds. -/
theorem Layout.coalesce
    (layout : Layout base regions arena (left ++ ⟨p, size, prevSize, kind⟩ :: right))
    (chunk : Kind.isChunk kind = true) (below : kind ≠ .top) (used : kind ≠ .free) :
    ∃ after, arena.coalesce p = some after ∧ Kept base regions arena after ∧
      after.held = Function.update arena.held p none := by
  obtain ⟨next, others, shape, adjacent, open', _⟩ := layout.follower chunk below
  subst shape
  obtain ⟨merged, left', q, total, qsize, foot, backward, row, before, whole, held⟩ :=
    layout.merge_backward chunk below used
  rw [layout.held_eq, ← held]
  by_cases top : next.addr = arena.mdTop
  · obtain ⟨kind, last⟩ := layout.top_next top
    subst last
    obtain ⟨addr, after, lead, kind'⟩ := next
    dsimp only at kind top
    subst kind
    have place := whole.adjacent held_inner
    dsimp only at place
    subst place
    have row' := row.set_head ⟨q, total + after, foot, .taken⟩ rfl rfl rfl rfl before
    have row' := row'.merge_top ⟨q, total + after, foot, .top⟩ ⟨rfl, rfl, rfl, rfl⟩ rfl
    have result := (whole.join_top before).settle row'
    refine ⟨_, ?_, ⟨⟨_, result⟩, rfl, rfl⟩, ?_⟩
    · refine proceed layout.row.at (proceed rfl (proceed backward ?_))
      change (if q + total = arena.mdTop then _ else _) = _
      rw [if_pos top]
      exact proceed (congrArg (Option.map Tag.size) row.next_at) rfl
    · rw [result.held_eq, held_unlent result.row.nodup rfl,
        held_unlent (nodup_less row.nodup) rfl]
  · have inner : next.kind.inner := ⟨open', fun kind => top (layout.top next
      (List.mem_append_right _ (List.mem_cons_of_mem _ List.mem_cons_self)) kind)⟩
    obtain ⟨after, merging, result⟩ := whole.merge_forward row before inner
    refine ⟨after, ?_, result⟩
    refine proceed layout.row.at (proceed rfl (proceed backward ?_))
    change (if next.addr = arena.mdTop then _ else _) = _
    rw [if_neg top]
    exact merging

/-- Of a contiguous arena nothing is behind the end of top. -/
theorem Layout.below_end {topsize : Nat} (layout : Layout base regions arena pieces)
    (member : piece ∈ pieces) (sized : arena.chunksize arena.mdTop = some topsize)
    (contiguous : arena.contiguous = true) : piece.addr < arena.mdTop + topsize := by
  obtain ⟨left, size, prevSize, shape⟩ := layout.at_top
  have positive := (layout.sound piece member).positive
  obtain ⟨region, listed, _, high⟩ := layout.fills.inside piece member
  subst shape
  cases sized.symm.trans (layout.chunksize top_sized)
  obtain ⟨earlier, last, same, _, _, stop⟩ := layout.ends
  have upward := layout.ground.upward contiguous region listed last
    (by rw [same]; exact List.getLast?_concat)
  dsimp only at stop
  omega

theorem Layout.top_found (layout : Layout base regions arena pieces) :
    ∃ topsize, arena.chunksize arena.mdTop = some topsize := by
  obtain ⟨left, topsize, prevSize, shape⟩ := layout.at_top
  subst shape
  exact ⟨topsize, layout.chunksize top_sized⟩

theorem Orderly.int_free {maxFast : Nat} (orderly : Orderly base regions arena)
    (listed : arena.htbl p = some tag) (held : tag.place = some .held)
    (limit : maxFast ≤ maxFastSize) :
    ∃ after, arena.intFree p maxFast = some after ∧ Kept base regions arena after ∧
      after.held = Function.update arena.held p none := by
  obtain ⟨pieces, layout⟩ := orderly
  obtain ⟨left, size, prevSize, kind, right, shape, place, _⟩ := layout.find listed held
  subst shape
  cases place_held.mp place
  have below : Kind.held ≠ .top := by decide
  obtain ⟨next, others, shape, _⟩ := layout.follower rfl below
  subst shape
  by_cases small : size ≤ maxFast
  · have row := layout.row.set_place ⟨p, size, prevSize, .cached⟩ rfl rfl rfl rfl
    have result := (layout.relabel rfl below rfl (by decide) (by decide)
      fun _ => Nat.le_trans small limit).settle row
    refine ⟨_, ?_, ⟨⟨_, result⟩, rfl, rfl⟩, ?_⟩
    · refine proceed layout.check_top (proceed layout.check_free
        (proceed (layout.chunksize held_sized) (proceed layout.row.at (proceed rfl ?_))))
      rw [if_pos small]
      exact proceed layout.check_next rfl
    · refine result.held_eq.trans ?_
      rw [layout.held_eq]
      exact held_replace layout.row.nodup rfl
  · obtain ⟨after, merging, result⟩ := layout.coalesce rfl below held_used
    obtain ⟨topsize, topFound⟩ := layout.top_found
    have notTop : decide (p ≠ arena.mdTop) = true := decide_eq_true fun same =>
      below (layout.top_iff.mp same)
    have inside : (!(arena.contiguous && decide (arena.mdTop + topsize ≤ next.addr))) = true := by
      rw [Bool.not_eq_true', Bool.and_eq_false_iff, decide_eq_false_iff_not]
      by_cases contiguous : arena.contiguous = true
      · exact Or.inr (Nat.not_le_of_lt (layout.below_end (List.mem_append_right _
          (List.mem_cons_of_mem _ List.mem_cons_self)) topFound contiguous))
      · exact Or.inl (Bool.eq_false_iff.mpr contiguous)
    refine ⟨after, ?_, result⟩
    refine proceed layout.check_top (proceed layout.check_free
      (proceed (layout.chunksize held_sized) (proceed layout.row.at (proceed rfl ?_))))
    rw [if_neg small]
    exact proceed topFound (asserted notTop (asserted inside (proceed layout.row.next_at
      (asserted rfl (proceed layout.check_next merging)))))

theorem Orderly.consolidate (orderly : Orderly base regions arena)
    (listed : arena.htbl p = some tag) (cached : tag.place = some .fast) :
    ∃ after, arena.consolidate p = some after ∧ Kept base regions arena after ∧
      after.held = arena.held := by
  obtain ⟨pieces, layout⟩ := orderly
  obtain ⟨left, size, prevSize, kind, right, shape, place, sized⟩ := layout.find listed cached
  subst shape
  cases place_fast.mp place
  have below : Kind.cached ≠ .top := by decide
  obtain ⟨next, others, shape, _⟩ := layout.follower rfl below
  subst shape
  obtain ⟨after, merging, result, held⟩ := layout.coalesce rfl below (by decide)
  have absent : arena.held p = none := by
    unfold Arena.held
    rw [listed, Option.bind_some, cached, if_neg (by decide)]
  refine ⟨after, ?_, result, ?_⟩
  · exact proceed listed (asserted (decide_eq_true cached)
      (asserted (layout.next_sane (chunk_inner rfl below)) merging))
  · rw [held]
    exact Function.update_eq_self_iff.mpr absent.symm

theorem merge_backward_keeps_top {q : Nat} (done : arena.mergeBackward p = some (after, q, size)) :
    after.mdTop = arena.mdTop := by
  obtain ⟨own, _, done⟩ := Option.bind_eq_some_iff.mp done
  split_ifs at done
  · cases done
    rfl
  · obtain ⟨_, _, done⟩ := Option.bind_eq_some_iff.mp done
    obtain ⟨_, _, done⟩ := Option.bind_eq_some_iff.mp done
    obtain ⟨_, _, done⟩ := Option.bind_eq_some_iff.mp done
    obtain ⟨_, _, done⟩ := Option.bind_eq_some_iff.mp done
    cases done
    rfl

theorem merge_forward_keeps_top {total follower : Nat}
    (done : arena.mergeForward p size follower = some (after, total)) :
    after.mdTop = arena.mdTop := by
  obtain ⟨_, _, done⟩ := Option.bind_eq_some_iff.mp done
  obtain ⟨bit, _, done⟩ := Option.bind_eq_some_iff.mp done
  split_ifs at done
  · cases done
    rfl
  · obtain ⟨_, _, done⟩ := Option.bind_eq_some_iff.mp done
    obtain ⟨_, _, done⟩ := Option.bind_eq_some_iff.mp done
    cases done
    rfl

theorem coalesce_keeps_top (listed : arena.htbl p = some tag) (apart : tag.next ≠ some arena.mdTop)
    (done : arena.coalesce p = some after) : after.mdTop = arena.mdTop := by
  obtain ⟨found, same, done⟩ := Option.bind_eq_some_iff.mp done
  cases listed.symm.trans same
  obtain ⟨follower, follows, done⟩ := Option.bind_eq_some_iff.mp done
  obtain ⟨⟨before, q, total⟩, backward, done⟩ := Option.bind_eq_some_iff.mp done
  have kept : before.mdTop = arena.mdTop :=
    @merge_backward_keeps_top { arena with htbl := setPlace arena.htbl p none } _ _ _ _ backward
  have below : follower ≠ before.mdTop := by
    rw [kept]
    exact fun top => apart (follows.trans (congrArg some top))
  dsimp only at done
  rw [if_neg below] at done
  obtain ⟨⟨forward, whole⟩, merging, done⟩ := Option.bind_eq_some_iff.mp done
  obtain ⟨_, _, done⟩ := Option.bind_eq_some_iff.mp done
  cases done
  exact (merge_forward_keeps_top merging).trans kept

theorem int_free_keeps_top {maxFast : Nat} (listed : arena.htbl p = some tag)
    (apart : tag.next ≠ some arena.mdTop) (done : arena.intFree p maxFast = some after) :
    after.mdTop = arena.mdTop := by
  obtain ⟨_, _, done⟩ := Option.bind_eq_some_iff.mp done
  obtain ⟨_, _, done⟩ := Option.bind_eq_some_iff.mp done
  obtain ⟨size, _, done⟩ := Option.bind_eq_some_iff.mp done
  obtain ⟨_, _, done⟩ := Option.bind_eq_some_iff.mp done
  obtain ⟨follower, _, done⟩ := Option.bind_eq_some_iff.mp done
  split_ifs at done
  · obtain ⟨_, _, done⟩ := Option.bind_eq_some_iff.mp done
    cases done
    rfl
  · obtain ⟨_, _, done⟩ := Option.bind_eq_some_iff.mp done
    obtain ⟨_, _, done⟩ := Option.bind_eq_some_iff.mp done
    obtain ⟨_, _, done⟩ := Option.bind_eq_some_iff.mp done
    obtain ⟨_, _, done⟩ := Option.bind_eq_some_iff.mp done
    obtain ⟨_, _, done⟩ := Option.bind_eq_some_iff.mp done
    obtain ⟨_, _, done⟩ := Option.bind_eq_some_iff.mp done
    exact coalesce_keeps_top listed apart done

end SriGlibcMalloc.Chunks
