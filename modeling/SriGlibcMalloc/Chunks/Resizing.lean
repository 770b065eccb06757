import SriGlibcMalloc.Chunks.Release

/-!
# Resizing chunks

A chunk that is held is shortened or grows into what follows it. What is left over becomes a
chunk of its own, which the routine frees.
-/

namespace SriGlibcMalloc.Chunks

open BoundaryTags
open EntryPoints (minSize)
open Bins (ChunkSize)

set_option autoImplicit false

/-- The size of a chunk with what is too small for a chunk of its own. -/
def keptSize (nb newsize : Nat) : Nat := if newsize - nb < minSize then newsize else nb

variable {base htbl : Table} {regions : List Region} {arena after : Arena}
variable {pieces left right : List Piece} {piece next : Piece} {tag : Tag}
variable {p nb size prevSize foot newsize maxFast : Nat} {kind : Kind}

theorem kept_size_spec (fits : nb ≤ newsize) :
    nb ≤ keptSize nb newsize ∧ keptSize nb newsize < nb + minSize := by
  have positive : 0 < minSize := by decide
  unfold keptSize
  split_ifs with small
  · omega
  · omega

theorem Layout.check_realloc
    (layout : Layout base regions arena (left ++ ⟨p, size, prevSize, .held⟩ :: next :: right)) :
    arena.checkRealloc p = some () := by
  have positive := layout.sound_at.positive
  obtain ⟨region, listed, low, high⟩ := layout.fills.shared held_inner
  have bounds := layout.ground.bounded region listed
  have adjacent := layout.adjacent held_inner
  have occupied := (layout.sound next (List.mem_append_right _
    (List.mem_cons_of_mem _ List.mem_cons_self))).positive
  dsimp only at positive low adjacent
  refine proceed layout.row.at (asserted ?_ (asserted (layout.next_sane held_inner)
    layout.check_next))
  rw [Bool.and_eq_true, decide_eq_true_iff, decide_eq_true_iff]
  change 16 ≤ size + _ ∧ size < arena.systemMem
  omega

/-- The end of `_int_realloc`: the record has the old size and no place. -/
theorem Layout.finish_realloc {oldsize : Nat}
    (whole : Layout base regions (arena.laid base (left ++ ⟨p, newsize, foot, .held⟩ :: right))
      (left ++ ⟨p, newsize, foot, .held⟩ :: right))
    (row : Row base htbl (left ++ ⟨p, oldsize, foot, kind⟩ :: right))
    (placeless : kind.place = none) (sized : kind ≠ .post) (request : ChunkSize nb)
    (fits : nb ≤ newsize) (limit : maxFast ≤ maxFastSize) :
    ∃ after, Arena.finishRealloc { arena with htbl := htbl } p nb newsize maxFast = some after ∧
      Kept base regions arena after ∧
      after.held =
        Function.update (heldIn (left ++ right)) p (some (keptSize nb newsize)) := by
  have below : Kind.held ≠ .top := by decide
  obtain ⟨next, others, shape, adjacent, open', _⟩ := whole.follower rfl below
  subst shape
  have recorded (size : Nat) : Piece.recorded ⟨p, size, foot, kind⟩ = size := if_neg sized
  have enough : decide (nb ≤ newsize) = true := decide_eq_true fits
  by_cases small : newsize - nb < minSize
  · have row := row.set_head_size ⟨p, newsize, foot, kind⟩ rfl rfl rfl rfl
    rw [recorded] at row
    obtain ⟨marked, marking, row⟩ := row.set_inuse_bit ⟨p, newsize, foot, .taken⟩
      (by rw [recorded]; exact adjacent) ⟨rfl, (recorded newsize).symm, rfl, placeless.symm⟩ rfl
    have row := row.set_place ⟨p, newsize, foot, .held⟩ rfl rfl rfl rfl
    have result := whole.settle row
    refine ⟨_, ?_, ⟨⟨_, result⟩, rfl, rfl⟩, ?_⟩
    · refine asserted enough ?_
      rw [if_pos small]
      exact proceed marking rfl
    · refine result.held_eq.trans ?_
      rw [keptSize, if_pos small]
      exact held_in_at (nodup_at result.row.nodup).1
  · have large : nb + minSize ≤ newsize := by omega
    have positive : 0 < nb := Nat.lt_of_lt_of_le (by decide) request.minimal
    have short : nb < newsize := Nat.lt_of_lt_of_le (Nat.lt_add_of_pos_right (by decide)) large
    obtain ⟨fresh, unused⟩ := whole.vacant_at (Nat.lt_add_of_pos_right positive)
      (Nat.add_lt_add_left short p)
    have row := row.set_head_size ⟨p, nb, foot, kind⟩ rfl rfl rfl rfl
    rw [recorded] at row
    obtain ⟨linked, linking, row⟩ := row.link_remainder ⟨p, nb, foot, .taken⟩
      ⟨p + nb, newsize - nb, 0, kind⟩ (not_mem_replace (by rfl) fresh) unused
      ⟨rfl, (recorded nb).symm, rfl, placeless.symm⟩ rfl rfl rfl placeless
    rw [List.append_cons] at row
    have behind : Piece.recorded ⟨p + nb, newsize - nb, 0, kind⟩ = newsize - nb := if_neg sized
    rw [behind] at linking
    obtain ⟨marked, marking, row⟩ := row.set_inuse_bit ⟨p + nb, newsize - nb, 0, .taken⟩
      (by rw [behind]; change next.addr = p + nb + (newsize - nb); omega)
      ⟨rfl, behind.symm, rfl, placeless.symm⟩ rfl
    have row := row.set_place ⟨p + nb, newsize - nb, 0, .held⟩ rfl rfl rfl rfl
    rw [← List.append_cons] at row
    have row := row.set_place ⟨p, nb, foot, .held⟩ rfl rfl rfl rfl
    have divided := @Layout.split _ _ _ _ _ p nb newsize foot 0 _ whole rfl below request.aligned
      request.minimal large
    have result := divided.settle row
    obtain ⟨after, freeing, ordered, held⟩ :=
      Orderly.int_free ⟨_, result⟩ result.row.next_at rfl limit
    refine ⟨after, ?_, ⟨ordered.orderly, ordered.systemMem, ordered.contiguous⟩, ?_⟩
    · refine asserted enough ?_
      rw [if_neg small]
      exact proceed linking (proceed marking freeing)
    · refine held.trans ?_
      rw [result.held_eq, keptSize, if_neg small]
      exact (held_remove result.row.nodup).symm.trans
        (held_in_at (nodup_at (nodup_without result.row.nodup rfl).1).1)

theorem Orderly.shrink (orderly : Orderly base regions arena) (listed : arena.htbl p = some tag)
    (held : tag.place = some .held) (request : ChunkSize nb) (fits : nb ≤ tag.size)
    (limit : maxFast ≤ maxFastSize) :
    ∃ after, arena.shrink p nb maxFast = some after ∧ Kept base regions arena after ∧
      after.held = Function.update arena.held p (some (keptSize nb tag.size)) := by
  obtain ⟨pieces, layout⟩ := orderly
  obtain ⟨left, size, prevSize, kind, right, shape, place, sized⟩ := layout.find listed held
  subst shape
  cases place_held.mp place
  rw [sized] at fits ⊢
  have below : Kind.held ≠ .top := by decide
  obtain ⟨next, others, shape, _⟩ := layout.follower rfl below
  subst shape
  have row := layout.row.set_place ⟨p, size, prevSize, .taken⟩ rfl rfl rfl rfl
  have whole := layout.relabel rfl below rfl below held_used held_uncached
  obtain ⟨after, finishing, result, same⟩ :=
    whole.finish_realloc row rfl (by decide) request fits limit
  refine ⟨after, ?_, result, ?_⟩
  · exact proceed layout.check_realloc (proceed (layout.chunksize held_sized) finishing)
  · rw [same, layout.held_eq, held_in_at (nodup_at layout.row.nodup).1, Function.update_idem]

theorem Layout.free_of_bit (layout : Layout base regions arena (left ++ piece :: right))
    (bit : inuseBit arena.htbl piece.addr = some false) (below : piece.addr ≠ arena.mdTop)
    (open' : piece.kind.closes = false) : piece.kind = .free := by
  have inner : piece.kind.inner := ⟨open', fun top => below (layout.top_iff.mpr top)⟩
  obtain ⟨behind, others, shape⟩ := layout.fills.next inner.2
  subst shape
  have adjacent := layout.adjacent inner
  rw [← recorded_of_sized (sized_of_inner open')] at adjacent
  rw [layout.row.inuse_bit adjacent] at bit
  have counts : piece.isFree = true := by
    rw [← Bool.not_eq_false']
    exact Option.some.inj bit
  unfold Piece.isFree at counts
  rw [decide_eq_false layout.sound_at.settled.1, Bool.or_false] at counts
  exact of_decide_eq_true counts

theorem Layout.next_of_tag {tagNext : Tag} {place : Place}
    (layout : Layout base regions arena (left ++ ⟨p, size, prevSize, .held⟩ :: right))
    (listedNext : arena.htbl (p + size) = some tagNext) (placed : tagNext.place = some place) :
    ∃ nfoot kind others, right = ⟨p + size, tagNext.size, nfoot, kind⟩ :: others ∧
      kind.place = some place := by
  have below : Kind.held ≠ .top := by decide
  obtain ⟨⟨addr, nsize, nfoot, kind⟩, others, shape, adjacent, open', _⟩ :=
    layout.follower rfl below
  subst shape
  dsimp only at adjacent open'
  subst adjacent
  have found := layout.row.next_at
  dsimp only at found
  rw [listedNext] at found
  have same := Option.some.inj found
  subst same
  refine ⟨nfoot, kind, others, ?_, placed⟩
  have recorded : Piece.recorded ⟨p + size, nsize, nfoot, kind⟩ = nsize :=
    recorded_of_sized (sized_of_inner open')
  change _ = ⟨p + size, Piece.recorded ⟨p + size, nsize, nfoot, kind⟩, nfoot, kind⟩ :: others
  rw [recorded]

theorem Layout.next_addr
    (layout : Layout base regions arena (left ++ ⟨p, size, prevSize, .held⟩ :: right))
    (listed : arena.htbl p = some tag) : tag.next = some (p + size) := by
  have below : Kind.held ≠ .top := by decide
  obtain ⟨next, others, shape, adjacent, _⟩ := layout.follower rfl below
  subst shape
  have own := layout.row.at
  dsimp only at own
  rw [listed] at own
  rw [Option.some.inj own, ← adjacent]
  rfl

theorem Orderly.grow_forward {nextsize next : Nat} (orderly : Orderly base regions arena)
    (listed : arena.htbl p = some tag) (held : tag.place = some .held) (request : ChunkSize nb)
    (follows : tag.next = some next) (binned : inuseBit arena.htbl next = some false)
    (below : next ≠ arena.mdTop) (sizedNext : arena.chunksize next = some nextsize)
    (short : tag.size < nb) (fits : nb ≤ tag.size + nextsize) (limit : maxFast ≤ maxFastSize) :
    ∃ after, arena.growForward p nb maxFast = some after ∧ Kept base regions arena after ∧
      after.held =
        Function.update arena.held p (some (keptSize nb (tag.size + nextsize))) := by
  obtain ⟨pieces, layout⟩ := orderly
  obtain ⟨left, size, prevSize, kind, right, shape, place, sized⟩ := layout.find listed held
  subst shape
  cases place_held.mp place
  rw [sized] at fits short ⊢
  have below' : Kind.held ≠ .top := by decide
  cases (layout.next_addr listed).symm.trans follows
  obtain ⟨⟨addr, nsize, nfoot, kind⟩, others, shape, adjacent, open', _⟩ :=
    layout.follower rfl below'
  subst shape
  dsimp only at adjacent open'
  subst adjacent
  have shifted := layout
  rw [List.append_cons] at shifted
  have free : kind = .free := shifted.free_of_bit binned below open'
  subst free
  have measured := shifted.chunksize free_sized
  cases sizedNext.symm.trans measured
  have row := layout.row.set_place ⟨p, size, prevSize, .taken⟩ rfl rfl rfl rfl
  rw [List.append_cons] at row
  obtain ⟨unlinked, unlinking, row⟩ :=
    row.bin_unlink ⟨p + size, nextsize, nfoot, .loose⟩ rfl rfl rfl rfl rfl rfl
  rw [← List.append_cons] at row
  obtain ⟨merged, absorbing, row⟩ :=
    row.absorb ⟨p, size, prevSize, .loose⟩ ⟨rfl, rfl, rfl, rfl⟩ rfl
  have whole := layout.merge rfl below' rfl free_below
  obtain ⟨after, finishing, result, same⟩ :=
    whole.finish_realloc row rfl (by decide) request fits limit
  have tested : (decide (size < nb) && decide (p + size ≠ arena.mdTop) &&
      decide (nb ≤ size + nextsize)) = true := by
    simp [short, below, fits]
  refine ⟨after, ?_, result, ?_⟩
  · exact proceed layout.check_realloc (proceed (layout.chunksize held_sized)
      (proceed layout.row.at (proceed rfl (proceed measured (asserted tested
        (proceed binned (asserted rfl (proceed unlinking (proceed absorbing finishing)))))))))
  · rw [same, layout.held_eq, held_in_at (nodup_at layout.row.nodup).1, Function.update_idem,
      held_unlent (nodup_less layout.row.nodup) rfl]

theorem Orderly.grow_next_door {next : Nat} {tagNext : Tag} (orderly : Orderly base regions arena)
    (listed : arena.htbl p = some tag) (held : tag.place = some .held) (request : ChunkSize nb)
    (follows : tag.next = some next) (listedNext : arena.htbl next = some tagNext)
    (heldNext : tagNext.place = some .held) (fits : nb ≤ tagNext.size + tag.size)
    (limit : maxFast ≤ maxFastSize) :
    ∃ after, arena.growNextDoor p nb maxFast = some after ∧ Kept base regions arena after ∧
      after.held = Function.update (Function.update arena.held next none) p
        (some (keptSize nb (tagNext.size + tag.size))) := by
  obtain ⟨pieces, layout⟩ := orderly
  obtain ⟨left, size, prevSize, kind, right, shape, place, sized⟩ := layout.find listed held
  subst shape
  cases place_held.mp place
  rw [sized] at fits ⊢
  have below : Kind.held ≠ .top := by decide
  have same := layout.next_addr listed
  cases same.symm.trans follows
  obtain ⟨nfoot, kind, others, shape, placeNext⟩ :=
    layout.next_of_tag listedNext heldNext
  subst shape
  cases place_held.mp placeNext
  have measured : arena.chunksize (p + size) = some tagNext.size :=
    congrArg (Option.map Tag.size) listedNext
  have row := layout.row.set_place ⟨p, size, prevSize, .taken⟩ rfl rfl rfl rfl
  rw [List.append_cons] at row
  have row := row.set_place ⟨p + size, tagNext.size, nfoot, .taken⟩ rfl rfl rfl rfl
  rw [← List.append_cons] at row
  obtain ⟨merged, absorbing, row⟩ :=
    row.absorb ⟨p, size, prevSize, .taken⟩ ⟨rfl, rfl, rfl, rfl⟩ rfl
  have whole := layout.merge rfl below rfl below
  rw [Nat.add_comm size tagNext.size] at whole
  obtain ⟨after, finishing, result, same'⟩ :=
    whole.finish_realloc row rfl (by decide) request fits limit
  have own := layout.row.at
  refine ⟨after, ?_, result, ?_⟩
  · exact proceed (layout.chunksize held_sized) (proceed own (proceed rfl (proceed measured
      (proceed absorbing finishing))))
  · have nodup := layout.row.nodup
    have without := held_remove nodup
    dsimp only at without
    rw [same', layout.held_eq, ← without, held_in_at (nodup_at nodup).1,
      Function.update_idem]

/-- The records that `growIntoTop` writes are those of top merged and split. -/
theorem grow_records {tags : Table} {next : Nat} {found : Tag} (listed : tags p = some found)
    (differs : next ≠ p) (fresh : p + nb ≠ p) (fresh' : p + nb ≠ next) :
    linkRemainder (setHeadSize (unregisterChunk (setNext tags p none) next) p nb) p (p + nb) size =
      some (setHead (setNext (setPrev (setNext (registerChunk (setHeadSize
        (unregisterChunk tags next) p nb) (p + nb)) p (some (p + nb))) (p + nb) (some p))
        (p + nb) none) (p + nb) size) := by
  have own : setHeadSize (unregisterChunk (setNext tags p none) next) p nb p =
      some { found with next := none, size := nb } := by
    rw [setHeadSize, retag_self, unregisterChunk, Function.update_of_ne differs.symm, setNext,
      retag_self, listed]
    rfl
  unfold linkRemainder
  rw [own]
  change some _ = some _
  refine congrArg some (funext fun asked => ?_)
  by_cases isNew : asked = p + nb
  · subst isNew
    simp only [setHead, setNext, setPrev, setPrevOf, registerChunk, retag_self, retag_of_ne fresh,
      Function.update_self, Option.map_some]
  by_cases isOwn : asked = p
  · subst isOwn
    simp only [setHead, setNext, setPrev, setPrevOf, registerChunk, setHeadSize, unregisterChunk,
      retag_self, retag_of_ne isNew, Function.update_of_ne isNew,
      Function.update_of_ne differs.symm, Option.map_some, listed]
  · simp only [setHead, setNext, setPrev, setPrevOf, registerChunk, setHeadSize, unregisterChunk,
      retag_of_ne isNew, retag_of_ne isOwn, Function.update_of_ne isNew]
    by_cases isNext : asked = next
    · rw [isNext, Function.update_self, Function.update_self]
    · rw [Function.update_of_ne isNext, Function.update_of_ne isNext, retag_of_ne isOwn]

theorem Orderly.grow_into_top {topsize : Nat} (orderly : Orderly base regions arena)
    (listed : arena.htbl p = some tag) (held : tag.place = some .held) (request : ChunkSize nb)
    (follows : tag.next = some arena.mdTop) (sizedTop : arena.chunksize arena.mdTop = some topsize)
    (short : tag.size < nb) (fits : nb + minSize ≤ tag.size + topsize) :
    ∃ after, arena.growIntoTop p nb = some after ∧ Kept base regions arena after ∧
      after.held = Function.update arena.held p (some nb) := by
  obtain ⟨pieces, layout⟩ := orderly
  obtain ⟨left, size, prevSize, kind, right, shape, place, sized⟩ := layout.find listed held
  subst shape
  cases place_held.mp place
  rw [sized] at fits short
  have below : Kind.held ≠ .top := by decide
  obtain ⟨⟨addr, tsize, foot, kind⟩, others, shape, adjacent, _⟩ := layout.follower rfl below
  subst shape
  dsimp only at adjacent
  subst adjacent
  have top : p + size = arena.mdTop :=
    Option.some.inj ((layout.next_addr listed).symm.trans follows)
  obtain ⟨isTop, last⟩ := layout.top_next top
  dsimp only at isTop
  subst isTop last
  have measured : arena.chunksize (p + size) = some tsize := by
    have shape := layout
    rw [List.append_cons] at shape
    exact shape.chunksize top_sized
  rw [← top] at sizedTop
  cases sizedTop.symm.trans measured
  have positive := layout.sound_at.positive
  have minimal := request.minimal
  have large : 0 < minSize := by decide
  dsimp only at positive
  obtain ⟨fresh, unused⟩ : p + nb ∉ addrs (left ++ [⟨p, size, prevSize, .held⟩,
      ⟨p + size, topsize, foot, .top⟩]) ∧ base (p + nb) = none := by
    have shape := layout
    rw [List.append_cons] at shape ⊢
    exact shape.vacant_at (by omega) (by omega)
  have differs : p + size ≠ p := by omega
  have fresh' : p + nb ≠ p := by omega
  have fresh'' : p + nb ≠ p + size := by omega
  have row := layout.row.merge_top ⟨p, size, prevSize, .held⟩ ⟨rfl, rfl, rfl, rfl⟩ rfl
  have row := row.set_head_size ⟨p, nb, prevSize, .held⟩ rfl rfl rfl rfl
  obtain ⟨linked, linking, row⟩ := row.link_remainder ⟨p, nb, prevSize, .held⟩
    ⟨p + nb, size + topsize - nb, 0, .top⟩ (not_mem_replace (by rfl) (not_mem_less fresh)) unused
    ⟨rfl, rfl, rfl, rfl⟩ rfl rfl rfl rfl
  have same := Option.some.inj ((grow_records layout.row.at differs fresh' fresh'').symm.trans linking)
  subst same
  have result := (layout.move_top request.aligned request.minimal fits).settle row
  have tested : (decide (size < nb) && decide (p + size = arena.mdTop) &&
      decide (nb + minSize ≤ size + topsize)) = true := by
    simp [short, top, fits]
  refine ⟨_, ?_, ⟨⟨_, result⟩, rfl, rfl⟩, ?_⟩
  · refine proceed layout.check_realloc (proceed (layout.chunksize held_sized)
      (proceed layout.row.at (proceed rfl (proceed measured (asserted tested ?_)))))
    exact proceed result.check_top rfl
  · refine result.held_eq.trans ?_
    rw [held_skip result.row.nodup rfl, layout.held_eq, held_skip layout.row.nodup rfl]
    exact held_replace (nodup_without layout.row.nodup rfl).1 rfl

theorem Layout.divide
    (layout : Layout base regions arena (left ++ ⟨p, size, prevSize, .held⟩ :: right))
    (aligned : nb % 16 = 0) (large : minSize ≤ nb) (fits : nb + minSize ≤ size) :
    ∃ linked,
      linkRemainder arena.htbl p (p + nb) (size - nb) = some linked ∧
      Layout base regions
        { arena with htbl := setPlace (setHeadSize linked p nb) (p + nb) (some .held) }
        (left ++ ⟨p, nb, prevSize, .held⟩ :: ⟨p + nb, size - nb, 0, .held⟩ :: right) ∧
      ∃ marked, setInuseBit linked (p + nb) = some marked ∧
        Layout base regions
          { arena with htbl := setPlace (setHeadSize marked p nb) (p + nb) (some .held) }
          (left ++ ⟨p, nb, prevSize, .held⟩ :: ⟨p + nb, size - nb, 0, .held⟩ :: right) := by
  have below : Kind.held ≠ .top := by decide
  obtain ⟨next, others, shape, adjacent, _⟩ := layout.follower rfl below
  subst shape
  have positive : 0 < nb := Nat.lt_of_lt_of_le (by decide) large
  have short : nb < size := Nat.lt_of_lt_of_le (Nat.lt_add_of_pos_right (by decide)) fits
  obtain ⟨fresh, unused⟩ := layout.vacant_at (Nat.lt_add_of_pos_right positive)
    (Nat.add_lt_add_left short p)
  have divided := @Layout.split _ _ _ _ _ p nb size prevSize 0 _ layout rfl below aligned
    large fits
  have finish {tags : Table} (row : Row base tags (left ++ ⟨p, size, prevSize, .held⟩ ::
      ⟨p + nb, size - nb, 0, .taken⟩ :: next :: others)) :
      Layout base regions
        { arena with htbl := setPlace (setHeadSize tags p nb) (p + nb) (some .held) }
        (left ++ ⟨p, nb, prevSize, .held⟩ :: ⟨p + nb, size - nb, 0, .held⟩ :: next :: others) := by
    have row := row.set_head_size ⟨p, nb, prevSize, .held⟩ rfl rfl rfl rfl
    rw [List.append_cons] at row
    have row := row.set_place ⟨p + nb, size - nb, 0, .held⟩ rfl rfl rfl rfl
    rw [← List.append_cons] at row
    exact divided.settle row
  obtain ⟨linked, linking, row⟩ := layout.row.link_remainder ⟨p, size, prevSize, .held⟩
    ⟨p + nb, size - nb, 0, .taken⟩ fresh unused ⟨rfl, rfl, rfl, rfl⟩ rfl rfl rfl rfl
  refine ⟨linked, linking, finish row, ?_⟩
  rw [List.append_cons] at row
  obtain ⟨marked, marking, row⟩ := row.set_inuse_bit ⟨p + nb, size - nb, 0, .taken⟩
    (by change next.addr = p + nb + (size - nb); omega) ⟨rfl, rfl, rfl, rfl⟩ rfl
  rw [← List.append_cons] at row
  exact ⟨marked, marking, finish row⟩

theorem Orderly.give_back_leader {leadsize : Nat} (orderly : Orderly base regions arena)
    (listed : arena.htbl p = some tag) (held : tag.place = some .held)
    (aligned : leadsize % 16 = 0) (large : minSize ≤ leadsize)
    (fits : leadsize + minSize ≤ tag.size) (limit : maxFast ≤ maxFastSize) :
    ∃ after, arena.giveBackLeader p leadsize maxFast = some after ∧ Kept base regions arena after ∧
      after.held = Function.update (Function.update arena.held p none)
        (p + leadsize) (some (tag.size - leadsize)) := by
  obtain ⟨pieces, layout⟩ := orderly
  obtain ⟨left, size, prevSize, kind, right, shape, place, sized⟩ := layout.find listed held
  subst shape
  cases place_held.mp place
  rw [sized] at fits ⊢
  obtain ⟨linked, linking, _, marked, marking, result⟩ := layout.divide aligned large fits
  obtain ⟨after, freeing, ordered, same⟩ := Orderly.int_free ⟨_, result⟩ result.row.at rfl limit
  refine ⟨after, ?_, ⟨ordered.orderly, ordered.systemMem, ordered.contiguous⟩, ?_⟩
  · exact proceed (layout.chunksize held_sized) (proceed linking (proceed marking freeing))
  · refine same.trans ?_
    rw [result.held_eq, layout.held_eq]
    have nodup := result.row.nodup
    refine (held_without nodup).symm.trans ?_
    rw [held_in_at (nodup_at (nodup_less nodup)).1]
    exact congrArg (Function.update · _ _) (held_without layout.row.nodup)

theorem Orderly.give_back_remainder (orderly : Orderly base regions arena)
    (listed : arena.htbl p = some tag) (held : tag.place = some .held) (request : ChunkSize nb)
    (limit : maxFast ≤ maxFastSize) :
    ∃ after, arena.giveBackRemainder p nb maxFast = some after ∧ Kept base regions arena after ∧
      after.held = Function.update arena.held p
        (some (if tag.size ≤ nb + minSize then tag.size else nb)) := by
  obtain ⟨pieces, layout⟩ := orderly
  obtain ⟨left, size, prevSize, kind, right, shape, place, sized⟩ := layout.find listed held
  subst shape
  cases place_held.mp place
  rw [sized]
  by_cases small : size ≤ nb + minSize
  · refine ⟨arena, ?_, ⟨⟨_, layout⟩, rfl, rfl⟩, ?_⟩
    · refine proceed (layout.chunksize held_sized) ?_
      rw [if_pos small]
      rfl
    · rw [if_pos small, layout.held_eq, held_in_at (nodup_at layout.row.nodup).1,
        Function.update_idem]
      rfl
  · have fits : nb + minSize ≤ size := Nat.le_of_not_le small
    obtain ⟨linked, linking, result, _⟩ := layout.divide request.aligned request.minimal fits
    obtain ⟨after, freeing, ordered, same⟩ :=
      Orderly.int_free ⟨_, result⟩ result.row.next_at rfl limit
    refine ⟨after, ?_, ⟨ordered.orderly, ordered.systemMem, ordered.contiguous⟩, ?_⟩
    · refine proceed (layout.chunksize held_sized) ?_
      rw [if_neg small]
      exact proceed linking freeing
    · refine same.trans ?_
      rw [result.held_eq, layout.held_eq, if_neg small]
      exact (held_remove result.row.nodup).symm.trans (held_replace layout.row.nodup rfl)

end SriGlibcMalloc.Chunks
