import SriGlibcMalloc.Chunks.Reshape

/-!
# Handing out chunks

A chunk that is handed out was in a fast bin, in another bin or a part of top, and is then
held with a size that is large enough. All that was held before is still held.
-/

namespace SriGlibcMalloc.Chunks

open BoundaryTags
open EntryPoints (minSize)
open Bins (ChunkSize fastbinIndex)
open MainArena (pageSize)

set_option autoImplicit false

variable {base htbl : Table} {regions : List Region} {arena after : Arena}
variable {pieces left right : List Piece} {piece next : Piece} {tag : Tag}
variable {p nb size prevSize : Nat} {kind kind' : Kind}

theorem fastbin_index_eq (small : size + 16 < 2 ^ 32) :
    fastbinIndex size = (size + 16) / 16 - 2 := by
  have word : size + 16 < 2 ^ 64 := Nat.lt_trans small (by decide)
  rw [fastbinIndex, Nat.mod_eq_of_lt word, Nat.mod_eq_of_lt small, Nat.shiftRight_eq_div_pow]

theorem fastbin_size (sound : Sound ⟨p, size, prevSize, .cached⟩) (request : ChunkSize nb)
    (small : nb ≤ maxFastSize) (index : fastbinIndex size = fastbinIndex nb) : size = nb := by
  have minimal := sound.minimal rfl
  have bound := sound.fast rfl
  have aligned := sound.multiple
  have minimal' := request.minimal
  have aligned' := request.aligned
  simp only [minSize, maxFastSize] at minimal bound minimal' small aligned
  rw [fastbin_index_eq (by omega), fastbin_index_eq (by omega)] at index
  omega

theorem Orderly.take_fast {maxFast : Nat} (orderly : Orderly base regions arena)
    (listed : arena.htbl p = some tag) (cached : tag.place = some .fast) (small : nb ≤ maxFast)
    (limit : maxFast ≤ maxFastSize) (request : ChunkSize nb)
    (index : fastbinIndex tag.size = fastbinIndex nb) :
    ∃ after, arena.takeFast p nb maxFast = some after ∧ Kept base regions arena after ∧
      after.held = Function.update arena.held p (some nb) := by
  obtain ⟨pieces, layout⟩ := orderly
  obtain ⟨left, size, prevSize, kind, right, shape, place, sized⟩ := layout.find listed cached
  subst shape
  cases place_fast.mp place
  have exact' : size = nb :=
    fastbin_size layout.sound_at request (Nat.le_trans small limit) (sized ▸ index)
  have row := layout.row.set_place ⟨p, size, prevSize, .held⟩ rfl rfl rfl rfl
  have result := (layout.relabel rfl (by decide) rfl (by decide) held_used held_uncached).settle row
  refine ⟨_, ?_, ⟨⟨_, result⟩, rfl, rfl⟩, ?_⟩
  · exact proceed listed (asserted (by simp [small, cached, index]) rfl)
  · rw [result.held_eq, layout.held_eq, ← exact']
    exact held_replace layout.row.nodup rfl

theorem Orderly.take_whole (orderly : Orderly base regions arena)
    (listed : arena.htbl p = some tag) (binned : tag.place = some .bin) (fits : nb ≤ tag.size)
    (exhausted : tag.size - nb < minSize) :
    ∃ after, arena.takeWhole p nb = some after ∧ Kept base regions arena after ∧
      after.held = Function.update arena.held p (some tag.size) ∧ Bordered after p := by
  obtain ⟨pieces, layout⟩ := orderly
  obtain ⟨left, size, prevSize, kind, right, shape, place, sized⟩ := layout.find listed binned
  subst shape
  cases place_bin.mp place
  rw [sized] at fits exhausted ⊢
  obtain ⟨next, others, shape⟩ := layout.fills.next free_below
  subst shape
  obtain ⟨adjacent, _⟩ := layout.after_free
  obtain ⟨unlinked, unlinking, row⟩ :=
    layout.row.bin_unlink ⟨p, size, prevSize, .loose⟩ rfl rfl rfl rfl rfl rfl
  obtain ⟨marked, marking, row⟩ :=
    row.set_inuse_bit ⟨p, size, prevSize, .taken⟩ adjacent ⟨rfl, rfl, rfl, rfl⟩ rfl
  have row := row.set_place ⟨p, size, prevSize, .held⟩ rfl rfl rfl rfl
  have result := (layout.relabel rfl free_below rfl (by decide) held_used held_uncached).settle row
  refine ⟨_, ?_, ⟨⟨_, result⟩, rfl, rfl⟩, ?_, result.row.bordered (layout.used_before (Or.inl rfl))⟩
  · exact proceed (layout.chunksize free_sized) (asserted (by simp [fits, exhausted])
      (proceed unlinking (proceed marking rfl)))
  · rw [result.held_eq, layout.held_eq]
    exact held_replace layout.row.nodup rfl

theorem Orderly.carve (orderly : Orderly base regions arena) (listed : arena.htbl p = some tag)
    (binned : tag.place = some .bin) (request : ChunkSize nb) (fits : nb + minSize ≤ tag.size) :
    ∃ after, arena.carve p nb = some after ∧ Kept base regions arena after ∧
      after.held = Function.update arena.held p (some nb) ∧ Bordered after p := by
  obtain ⟨pieces, layout⟩ := orderly
  obtain ⟨left, size, prevSize, kind, right, shape, place, sized⟩ := layout.find listed binned
  subst shape
  cases place_bin.mp place
  rw [sized] at fits
  obtain ⟨next, others, shape⟩ := layout.fills.next free_below
  subst shape
  obtain ⟨adjacent, inner, used, _⟩ := layout.after_free
  have positive : 0 < nb := Nat.lt_of_lt_of_le (by decide) request.minimal
  have short : nb < size := Nat.lt_of_lt_of_le (Nat.lt_add_of_pos_right (by decide)) fits
  obtain ⟨fresh, unused⟩ := layout.vacant_at (Nat.lt_add_of_pos_right positive)
    (Nat.add_lt_add_left short p)
  -- the records
  obtain ⟨unlinked, unlinking, row⟩ :=
    layout.row.bin_unlink ⟨p, size, prevSize, .loose⟩ rfl rfl rfl rfl rfl rfl
  have row := row.set_head ⟨p, nb, prevSize, .loose⟩ rfl rfl rfl rfl
    (layout.used_before (Or.inl rfl))
  obtain ⟨linked, linking, row⟩ := row.link_remainder ⟨p, nb, prevSize, .taken⟩
    ⟨p + nb, size - nb, 0, .loose⟩ (not_mem_replace (by rfl) fresh) unused ⟨rfl, rfl, rfl, rfl⟩
    rfl rfl rfl rfl
  rw [List.append_cons] at row
  obtain ⟨footed, footing, row⟩ := row.set_foot { next with prevSize := size - nb }
    (by change next.addr = p + nb + (size - nb); omega) rfl rfl rfl rfl rfl
  have row := row.set_place ⟨p + nb, size - nb, 0, .free⟩ rfl rfl rfl rfl
  rw [← List.append_cons] at row
  have row := row.set_place ⟨p, nb, prevSize, .held⟩ rfl rfl rfl rfl
  have bordered := row.bordered (layout.used_before (Or.inl rfl))
  rw [List.append_cons] at row
  -- the pieces
  have divided := @Layout.split _ _ _ _ _ p nb size prevSize 0 _ layout rfl free_below
    request.aligned request.minimal fits
  rw [List.append_cons] at divided
  have result := (divided.release (by rw [last_or_append]; rfl) inner used).settle row
  refine ⟨_, ?_, ⟨⟨_, result⟩, rfl, rfl⟩, ?_, bordered⟩
  · exact proceed (layout.chunksize free_sized) (asserted (decide_eq_true fits)
      (proceed unlinking (proceed linking (proceed footing rfl))))
  · rw [result.held_eq, held_unlent result.row.nodup rfl, List.append_assoc,
      List.singleton_append, List.append_cons, held_refoot, ← List.append_cons, layout.held_eq]
    exact held_replace layout.row.nodup rfl

theorem Layout.at_top (layout : Layout base regions arena pieces) :
    ∃ left size prevSize, pieces = left ++ [⟨arena.mdTop, size, prevSize, .top⟩] := by
  obtain ⟨left, ⟨addr, size, prevSize, kind⟩, shape, same, place⟩ := layout.last
  dsimp only at same place
  rw [same, place] at shape
  exact ⟨left, size, prevSize, shape⟩

theorem Layout.check_top (layout : Layout base regions arena pieces) :
    arena.checkTop = some () := by
  obtain ⟨left, size, prevSize, shape⟩ := layout.at_top
  subst shape
  obtain ⟨earlier, region, same, _, _, stop⟩ := layout.ends
  have paged := layout.ground.paged region (by rw [same]; exact List.getLast?_concat)
  rw [← stop] at paged
  exact proceed (layout.chunksize top_sized) (assert_of (decide_eq_true paged))

theorem Orderly.use_top (orderly : Orderly base regions arena)
    (sized : arena.chunksize arena.mdTop = some size) (request : ChunkSize nb)
    (fits : nb + minSize ≤ size) :
    ∃ after, arena.useTop nb = some after ∧ Kept base regions arena after ∧
      after.held = Function.update arena.held arena.mdTop (some nb) ∧
      Bordered after arena.mdTop := by
  obtain ⟨pieces, layout⟩ := orderly
  obtain ⟨left, topsize, prevSize, shape⟩ := layout.at_top
  subst shape
  have found := layout.chunksize top_sized
  cases sized.symm.trans found
  have positive : 0 < nb := Nat.lt_of_lt_of_le (by decide) request.minimal
  have short : nb < size := Nat.lt_of_lt_of_le (Nat.lt_add_of_pos_right (by decide)) fits
  obtain ⟨fresh, unused⟩ := layout.vacant_at (Nat.lt_add_of_pos_right positive)
    (Nat.add_lt_add_left short arena.mdTop)
  obtain ⟨linked, linking, row⟩ := layout.row.link_remainder
    ⟨arena.mdTop, size, prevSize, .taken⟩ ⟨arena.mdTop + nb, size - nb, 0, .top⟩ fresh unused
    ⟨rfl, rfl, rfl, rfl⟩ rfl rfl rfl rfl
  have row := row.set_head ⟨arena.mdTop, nb, prevSize, .taken⟩ rfl rfl rfl rfl
    (layout.used_before (Or.inr rfl))
  have row := row.set_place ⟨arena.mdTop, nb, prevSize, .held⟩ rfl rfl rfl rfl
  have divided := @Layout.divide_top _ _ _ _ _ nb size prevSize 0 layout request.aligned
    request.minimal fits
  have result := divided.settle row
  have splitting : splitChunk arena.htbl arena.mdTop nb = some (setHead linked arena.mdTop nb) :=
    proceed layout.row.at (asserted (decide_eq_true fits) (proceed linking rfl))
  refine ⟨_, ?_, ⟨⟨_, result⟩, rfl, rfl⟩, ?_, result.row.bordered (layout.used_before (Or.inr rfl))⟩
  · exact proceed found (asserted (decide_eq_true fits)
      (proceed splitting (proceed result.check_top rfl)))
  · refine result.held_eq.trans ?_
    rw [held_skip result.row.nodup rfl, layout.held_eq]
    exact held_replace layout.row.nodup rfl

theorem Orderly.top_unheld (orderly : Orderly base regions arena) : arena.held arena.mdTop = none := by
  obtain ⟨pieces, layout⟩ := orderly
  obtain ⟨left, topsize, prevSize, shape⟩ := layout.at_top
  subst shape
  exact not_held_of_placed layout.row.at_last fun same => by cases same

end SriGlibcMalloc.Chunks
