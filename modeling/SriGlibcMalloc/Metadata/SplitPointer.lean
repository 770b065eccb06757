import SriGlibcMalloc.Metadata.Resize

/-!
# The address function follows the split pointer

`metadata_bindex` before and after the state update of an expansion and of a
contraction, for every hash and every `(maxp, p)` from which the table may
still grow. Nothing is assumed of the rest of the table.
-/

namespace SriGlibcMalloc.MetadataTable

set_option autoImplicit false

/-- The states of `(maxp, p)` from which `metadata_expand_check` may expand. -/
structure Expandable (table : Metadata) : Prop where
  power : ∃ exponent, 8 ≤ exponent ∧ exponent ≤ 31 ∧ table.maxp = 2 ^ exponent
  split : table.p < table.maxp
  room : table.maxp + table.p < cfg.bincountMax

/-- `next` comes from `value` by a forward step of `(maxp, p)`. -/
structure Forward (maxp p value next : Nat) : Prop where
  stays : next ≠ value → value = p
  moves : value = p → next = p ∨ next = maxp + p
  saturated : ¬2 * maxp < cfg.bincountMax → next = value

/-- `previous` comes from `value` by a backward step that merges bin `source`
into bin `target`. -/
structure Backward (source target value previous : Nat) : Prop where
  stays : previous ≠ value → value = source
  merges : value = source → previous = target

section Arithmetic

variable {maxp p : Nat}

theorem forward_step (hash : Nat) (split : p < maxp) (room : maxp + p < cfg.bincountMax) :
    Forward maxp p (bindexAt hash maxp p)
      (bindexAt hash (splitAfter maxp p).1 (splitAfter maxp p).2) where
  stays := by
    intro changed
    by_contra other
    exact changed (bindex_at_split_other hash maxp p (by omega) split room other)
  moves := bindex_at_split_same hash maxp p (by omega) split
  saturated := by
    intro full
    have max : cfg.bincountMax = 4294967295 := rfl
    exact bindex_at_split_saturated hash maxp p (by omega) full

theorem backward_step (hash : Nat) (even : maxp % 2 = 0) (split : p < maxp)
    (room : maxp + p < cfg.bincountMax) :
    Backward (maxp + p - 1) (mergeBefore maxp p).2 (bindexAt hash maxp p)
      (bindexAt hash (mergeBefore maxp p).1 (mergeBefore maxp p).2) := by
  obtain ⟨below, last⟩ := merge_before_bounds even split
  have undone := split_after_merge even split
  have merged := bindex_at_merge hash (mergeBefore maxp p).1 (mergeBefore maxp p).2
    (by omega) below (by omega)
  rw [undone, last] at merged
  constructor
  · intro changed
    by_contra other
    exact changed (by rw [merged, if_neg other])
  · intro atLast
    rw [merged, if_pos atLast]

end Arithmetic

variable {table : Metadata}

theorem Expandable.even (expandable : Expandable table) : table.maxp % 2 = 0 := by
  obtain ⟨exponent, least, _, power⟩ := expandable.power
  rw [power]
  exact Nat.mod_eq_zero_of_dvd (dvd_pow_self 2 (by omega))

theorem Expandable.contract_indices (expandable : Expandable table) :
    contractIndices table =
      some (table.maxp + table.p - 1, (mergeBefore table.maxp table.p).2) := by
  have room := expandable.room
  have max : cfg.bincountMax = 4294967295 := rfl
  have halved : table.maxp >>> 1 = table.maxp / 2 := by
    rw [Nat.shiftRight_eq_div_pow]
  unfold contractIndices mergeBefore
  by_cases wrap : table.p = 0
  · rw [if_pos wrap, if_pos wrap, halved, wrap, Nat.add_zero]
  · simp only [if_neg wrap]
    rw [add_size_exact _ _ (by omega), Option.map_some]
    rw [show table.maxp + (table.p - 1) = table.maxp + table.p - 1 by omega]

theorem retreat_split_address (table : Metadata) :
    (retreatSplit table).maxp = (mergeBefore table.maxp table.p).1 ∧
      (retreatSplit table).p = (mergeBefore table.maxp table.p).2 := by
  have halved : table.maxp >>> 1 = table.maxp / 2 := by
    rw [Nat.shiftRight_eq_div_pow]
  unfold retreatSplit mergeBefore
  split_ifs with wrap
  · simp only [halved, and_self]
  · exact ⟨rfl, rfl⟩

theorem Expandable.advanced_power (expandable : Expandable table) :
    ∃ exponent, (advanceSplit table).maxp = 2 ^ exponent := by
  obtain ⟨exponent, _, _, power⟩ := expandable.power
  rw [advance_split_eq]
  simp only [splitAfter]
  split_ifs
  · exact ⟨exponent + 1, by rw [power, pow_succ, Nat.mul_comm]⟩
  · exact ⟨exponent, power⟩

theorem Expandable.retreated_power (expandable : Expandable table) :
    ∃ exponent, (retreatSplit table).maxp = 2 ^ exponent := by
  obtain ⟨exponent, least, _, power⟩ := expandable.power
  rw [(retreat_split_address table).1]
  unfold mergeBefore
  split_ifs
  · refine ⟨exponent - 1, ?_⟩
    obtain ⟨fewer, same⟩ := Nat.exists_eq_succ_of_ne_zero (show exponent ≠ 0 by omega)
    rw [power, same, Nat.succ_sub_one, pow_succ, Nat.mul_div_cancel _ (by omega)]
  · exact ⟨exponent, power⟩

/-- The address function at every state from which the table may expand: its
value is below the number of bins, and one step forward or backward moves only
the hashes of the bin that is split or merged. -/
theorem bindex_follows_split (build : Build) (table : Metadata) (chunk : Chunk)
    (expandable : Expandable table) :
    ∃ value next previous source target,
      metadataBindex build table chunk = .ok value ∧
      metadataBindex build (advanceSplit table) chunk = .ok next ∧
      metadataBindex build (retreatSplit table) chunk = .ok previous ∧
      contractIndices table = some (source, target) ∧
      (2 * table.maxp < cfg.bincountMax → value < table.maxp + table.p) ∧
      Forward table.maxp table.p value next ∧
      Backward source target value previous ∧
      source = table.maxp + table.p - 1 := by
  have split := expandable.split
  obtain ⟨exponent, _, _, power⟩ := expandable.power
  obtain ⟨advancedExponent, advancedPower⟩ := expandable.advanced_power
  obtain ⟨retreatedExponent, retreatedPower⟩ := expandable.retreated_power
  have advanced : bindexOf build.hash (advanceSplit table) chunk =
      bindexAt (build.hash chunk).toNat (splitAfter table.maxp table.p).1
        (splitAfter table.maxp table.p).2 := by
    rw [advance_split_eq]
    rfl
  have retreated : bindexOf build.hash (retreatSplit table) chunk =
      bindexAt (build.hash chunk).toNat (mergeBefore table.maxp table.p).1
        (mergeBefore table.maxp table.p).2 := by
    rw [bindexOf, (retreat_split_address table).1, (retreat_split_address table).2]
  refine ⟨_, _, _, _, _, metadata_bindex_pow build power chunk,
    metadata_bindex_pow build advancedPower chunk,
    metadata_bindex_pow build retreatedPower chunk, expandable.contract_indices, ?_, ?_, ?_, rfl⟩
  · exact fun _ => bindex_at_lt _ _ _ (by omega)
  · rw [advanced]
    exact forward_step _ split expandable.room
  · rw [retreated]
    exact backward_step _ expandable.even split expandable.room

/-- The step of a new table from `(256, 255)` to `(512, 0)`, and back to `(256, 254)`. -/
theorem bindex_follows_split_at_wrap :
    ∃ value next previous source target,
      metadataBindex ⟨true, false, fun _ => 767⟩
        { initMetadata 2 (fun _ => ⟨0, none⟩) 5 6 with p := 255 } 16 = .ok value ∧
      metadataBindex ⟨true, false, fun _ => 767⟩
        (advanceSplit { initMetadata 2 (fun _ => ⟨0, none⟩) 5 6 with p := 255 }) 16 = .ok next ∧
      metadataBindex ⟨true, false, fun _ => 767⟩
        (retreatSplit { initMetadata 2 (fun _ => ⟨0, none⟩) 5 6 with p := 255 }) 16 =
          .ok previous ∧
      contractIndices { initMetadata 2 (fun _ => ⟨0, none⟩) 5 6 with p := 255 } =
        some (source, target) ∧
      (2 * 256 < cfg.bincountMax → value < 256 + 255) ∧
      Forward 256 255 value next ∧ Backward source target value previous ∧
      source = 256 + 255 - 1 := by
  have room : 256 + 255 < cfg.bincountMax := by decide
  have expandable : Expandable { initMetadata 2 (fun _ => ⟨0, none⟩) 5 6 with p := 255 } :=
    ⟨⟨8, by decide, by decide, rfl⟩, by decide, room⟩
  exact bindex_follows_split ⟨true, false, fun _ => 767⟩ _ 16 expandable

end SriGlibcMalloc.MetadataTable
