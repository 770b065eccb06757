import SriGlibcMalloc.Metadata.Filling

/-!
# Contraction is the inverse of expansion

Both steps keep the buckets of the table, and the address function decides which
bin a bucket is in; so a round trip that restores `(maxp, p)` restores the bins.
The order inside a bin may differ: a merge appends what a split took out.
-/

namespace SriGlibcMalloc.MetadataTable

open KeyedStack Outcome

set_option autoImplicit false

/-- `after` has the numbers of `before` and in every bin the same buckets. -/
structure Restores (hash : Chunk → UInt32) (before : Metadata) (bins : Nat → List BucketPtr)
    (after : Metadata) : Prop where
  p : after.p = before.p
  maxp : after.maxp = before.maxp
  L : after.L = before.L
  bincount : after.bincount = before.bincount
  directoryCurrent : after.directoryCurrent = before.directoryCurrent
  buckets : ∃ bins', Chained hash after bins' ∧ ∀ index, (bins index).Perm (bins' index)

/-- The two bin assignments have the same buckets, wherever they are. -/
def SameBuckets (bins bins' : Nat → List BucketPtr) : Prop :=
  ∀ node, (∃ index, node ∈ bins index) ↔ ∃ index, node ∈ bins' index

variable {hash : Chunk → UInt32} {table before after small large : Metadata} {answers : Answers}
variable {bins bins' bins'' : Nat → List BucketPtr} (build : Build)

theorem SameBuckets.trans (first : SameBuckets bins bins') (second : SameBuckets bins' bins'') :
    SameBuckets bins bins'' := fun node => (first node).trans (second node)

theorem split_after_injective {maxp p maxp' p' : Nat}
    (same : splitAfter maxp p = splitAfter maxp' p') : maxp = maxp' ∧ p = p' := by
  unfold splitAfter at same
  split_ifs at same <;> simp only [Prod.mk.injEq] at same <;> omega

theorem Shape.level_unique (shape : Shape before) (afterShape : Shape after)
    (same : after.maxp = before.maxp) : after.L = before.L := by
  have powers : 2 ^ (8 + after.L) = 2 ^ (8 + before.L) := by
    rw [← afterShape.maxp_pow, ← shape.maxp_pow, same]
  have levels := Nat.pow_right_injective (Nat.le_refl 2) powers
  omega

theorem Chained.perm (chained : Chained hash before bins) (again : Chained hash after bins')
    (maxp : after.maxp = before.maxp) (p : after.p = before.p)
    (chunks : ∀ node, (after.bucket node).chunk = (before.bucket node).chunk)
    (same : SameBuckets bins bins') (index : Nat) : (bins index).Perm (bins' index) := by
  have address : ∀ chunk, bindexOf hash after chunk = bindexOf hash before chunk := by
    intro chunk
    simp only [bindexOf, maxp, p]
  apply (List.perm_ext_iff_of_nodup (chained.nodup index) (again.nodup index)).mpr
  intro node
  constructor
  · intro member
    obtain ⟨other, found⟩ := (same node).mp ⟨index, member⟩
    have home := again.addressed other node found
    rw [address, chunks, chained.addressed index node member] at home
    rwa [home]
  · intro member
    obtain ⟨other, found⟩ := (same node).mpr ⟨index, member⟩
    have home := chained.addressed other node found
    rw [← chunks, ← address, again.addressed index node member] at home
    rwa [home]

theorem Chained.restores (chained : Chained hash before bins) (again : Chained hash after bins')
    (shape : Shape before) (afterShape : Shape after) (maxp : after.maxp = before.maxp)
    (p : after.p = before.p)
    (chunks : ∀ node, (after.bucket node).chunk = (before.bucket node).chunk)
    (same : SameBuckets bins bins') : Restores hash before bins after where
  p := p
  maxp := maxp
  L := shape.level_unique afterShape maxp
  bincount := by rw [afterShape.bins, shape.bins, maxp, p]
  directoryCurrent := by
    rw [afterShape.current, shape.current, afterShape.bins, shape.bins, maxp, p]
  buckets := ⟨bins', again, chained.perm again maxp p chunks same⟩

theorem split_bins_members (outside : bins table.bincount = []) (split : table.p < table.bincount) :
    SameBuckets bins (splitBins hash table large bins) := by
  intro node
  constructor
  · rintro ⟨index, member⟩
    by_cases old : index = table.p
    · rw [old] at member
      by_cases moves : bindexOf hash large (large.bucket node).chunk = table.bincount
      · refine ⟨table.bincount, ?_⟩
        rw [splitBins, if_neg (by omega), if_pos rfl]
        exact List.mem_filter.mpr ⟨member, decide_eq_true moves⟩
      · refine ⟨table.p, ?_⟩
        rw [splitBins, if_pos rfl]
        exact List.mem_filter.mpr ⟨member, decide_eq_true moves⟩
    · have other : index ≠ table.bincount := by
        intro last
        rw [last, outside] at member
        cases member
      refine ⟨index, ?_⟩
      rwa [splitBins, if_neg old, if_neg other]
  · rintro ⟨index, member⟩
    unfold splitBins at member
    split_ifs at member
    · exact ⟨table.p, (List.mem_filter.mp member).1⟩
    · exact ⟨table.p, (List.mem_filter.mp member).1⟩
    · exact ⟨index, member⟩

theorem merge_bins_members (source target : Nat) :
    SameBuckets bins (mergeBins bins source target) := by
  intro node
  constructor
  · rintro ⟨index, member⟩
    by_cases moved : index = source ∨ index = target
    · refine ⟨target, ?_⟩
      rw [mergeBins, if_pos rfl, List.mem_append]
      rcases moved with last | kept
      · exact Or.inr (last ▸ member)
      · exact Or.inl (kept ▸ member)
    · rw [not_or] at moved
      refine ⟨index, ?_⟩
      rwa [mergeBins, if_neg moved.2, if_neg moved.1]
  · rintro ⟨index, member⟩
    unfold mergeBins at member
    split_ifs at member
    · rcases List.mem_append.mp member with kept | last
      · exact ⟨target, kept⟩
      · exact ⟨source, last⟩
    · cases member
    · exact ⟨index, member⟩

theorem split_bins_length (index : Nat) :
    ∃ other, (splitBins hash table large bins index).length ≤ (bins other).length := by
  unfold splitBins
  split_ifs
  · exact ⟨table.p, List.length_filter_le _ _⟩
  · exact ⟨table.p, List.length_filter_le _ _⟩
  · exact ⟨index, Nat.le_refl _⟩

theorem merge_bins_length (source target index : Nat) :
    ∃ left right, (mergeBins bins source target index).length ≤
      (bins left).length + (bins right).length := by
  unfold mergeBins
  split_ifs
  · exact ⟨target, source, Nat.le_of_eq List.length_append⟩
  · exact ⟨index, index, Nat.zero_le _⟩
  · exact ⟨index, index, Nat.le_add_right _ _⟩

/-- An expansion whose allocations succeed: only the debug assertion on the length of
the directory can stop it. -/
theorem Chained.expand_table (chained : Chained build.hash table bins) (shape : Shape table)
    (fresh : answers.Fresh table) (granted : answers.Granted)
    (room : table.bincount < cfg.bincountMax) (short : (bins table.p).length < table.fuel) :
    (DirectoryTooLong build table ∧
      metadataExpandTable build table answers = .error .assertDirectoryLengthMax) ∨
    ¬DirectoryTooLong build table ∧
    ∃ after bins', metadataExpandTable build table answers = .ok (true, after) ∧
      Shape after ∧ Enlarged table after ∧ Steady table after ∧
      Chained build.hash after bins' ∧ SameBuckets bins bins' ∧
      ∀ index, ∃ other, (bins' index).length ≤ (bins other).length := by
  have numbers := expand_table_enlarged build shape fresh room
  rcases expand_table_cases build shape fresh room with
    long | ⟨fine, ⟨refused, _⟩ | ⟨accepted, large, largeShape, adjacent, empty, _, run⟩⟩
  · exact Or.inl long
  · rcases refused with directory | segment
    · exact absurd directory.2 granted.2
    · exact absurd segment.2 granted.1
  · right
    obtain ⟨after, splitRun, relinks, afterShape, _, split⟩ :=
      chained.split build shape room short largeShape adjacent empty
    rw [splitRun, ok_bind] at run
    have positive := shape.maxp_positive
    have bins := shape.bins
    refine ⟨fine, after, _, run, afterShape, ((numbers.value run).1 accepted).1,
      adjacent.larger.trans relinks.steady, split, ?_, split_bins_length⟩
    apply split_bins_members
    · exact chained.outside _ (Nat.le_refl _)
    · omega

theorem Chained.contract_table (chained : Chained hash table bins) (shape : Shape table)
    (fresh : answers.Fresh table) (granted : answers.Granted) (wide : 256 < table.bincount)
    (short : ∀ index, (bins index).length ≤ table.fuel) :
    ∃ after bins', metadataContractTable build table answers = .ok after ∧
      Shape after ∧ Enlarged after table ∧ Steady table after ∧
      Chained hash after bins' ∧ SameBuckets bins bins' ∧
      ∀ index, ∃ left right, (bins' index).length ≤ (bins left).length + (bins right).length := by
  have numbers := contract_table_enlarged build shape fresh wide
  rcases contract_table_cases build shape fresh wide with
    ⟨_, refused, _⟩ | ⟨_, ready, redirected, readyShape, _, run⟩
  · exact absurd refused granted.2
  · have steadyReady := redirected.steady
    have readyWide : 256 < ready.bincount := by
      rw [redirected.rest]
      exact wide
    have readyChained : Chained hash ready bins := by
      rw [redirected.rest]
      exact ⟨chained.chain, chained.outside, chained.nodup, chained.addressed⟩
    have sameBins : table.bincount = ready.bincount := by rw [redirected.rest]
    have sameMaxp : table.maxp = ready.maxp := by rw [redirected.rest]
    have sameP : table.p = ready.p := by rw [redirected.rest]
    obtain ⟨moved, movedRun, movedBins, steady, small, _, merged, _⟩ :=
      readyChained.merge readyShape readyWide rfl rfl (by rw [steadyReady.fuel]; exact short _)
    rw [sameBins, sameMaxp, sameP, movedRun, ok_bind, ← movedBins] at run
    exact ⟨retreated moved, _, run, small, (numbers.value run).1, steadyReady.trans steady, merged,
      merge_bins_members _ _, merge_bins_length _ _⟩

/-- Expanding and then contracting, and contracting and then expanding, restore the
table, at every `(maxp, p)` and whether or not a segment or a directory comes or goes.
What remains is the debug assertion on the length of the directory. -/
theorem resize_inverse (table : Metadata) (bins : Nat → List BucketPtr)
    (first second : Answers) (shape : Shape table) (chained : Chained build.hash table bins)
    (room : table.bincount < cfg.bincountMax) (firstGranted : first.Granted)
    (secondGranted : second.Granted) (fresh : first.Fresh table)
    (short : ∀ left right, (bins left).length + (bins right).length < table.fuel) :
    Ensures (fun result => result.1 = true ∧ (second.Fresh result.2 →
          ∃ after, metadataContractTable build result.2 second = .ok after ∧
            Restores build.hash table bins after))
        (fun _ => DirectoryTooLong build table) (metadataExpandTable build table first) ∧
      (0 < table.L → ∃ small, metadataContractTable build table first = .ok small ∧
        (second.Fresh small →
          Ensures (fun result => result.1 = true ∧ Restores build.hash table bins result.2)
            (fun _ => DirectoryTooLong build small)
            (metadataExpandTable build small second))) := by
  have alone : ∀ index, (bins index).length < table.fuel := by
    intro index
    have pair := short index index
    omega
  constructor
  · rcases chained.expand_table build shape fresh firstGranted room (alone _) with
      ⟨long, run⟩ | ⟨_, large, largeBins, run, largeShape, enlarged, steady, split, same, lengths⟩
    · rw [run]
      exact long
    · rw [run]
      refine ⟨rfl, fun again => ?_⟩
      have wide : 256 < large.bincount := by
        have least := shape.maxp_at_least
        have bins := shape.bins
        have more := enlarged.bincount
        omega
      obtain ⟨after, afterBins, contracts, afterShape, back, onward, merged, kept, _⟩ :=
        split.contract_table build largeShape again secondGranted wide (by
          intro index
          obtain ⟨other, shorter⟩ := lengths index
          have bound := alone other
          rw [steady.fuel]
          omega)
      refine ⟨after, contracts, ?_⟩
      obtain ⟨maxp, p⟩ := split_after_injective (back.split.trans enlarged.split.symm)
      exact chained.restores merged shape afterShape maxp p (steady.trans onward).chunk
        (same.trans kept)
  · intro deep
    obtain ⟨small, smallBins, run, smallShape, enlarged, steady, merged, same, lengths⟩ :=
      chained.contract_table build shape fresh firstGranted (shape.wide deep)
        (fun index => Nat.le_of_lt (alone index))
    refine ⟨small, run, fun again => ?_⟩
    have fewer := enlarged.bincount
    obtain ⟨left, right, shorter⟩ := lengths small.p
    have pair := short left right
    rcases merged.expand_table build smallShape again secondGranted (by omega)
      (by rw [steady.fuel]; omega) with
      ⟨long, expands⟩ | ⟨_, after, afterBins, expands, afterShape, grown, onward, split, kept, _⟩
    · rw [expands]
      exact long
    · rw [expands]
      refine ⟨rfl, ?_⟩
      have numbers : (after.maxp, after.p) = (table.maxp, table.p) :=
        grown.split.symm.trans enlarged.split
      simp only [Prod.mk.injEq] at numbers
      exact chained.restores split shape afterShape numbers.1 numbers.2
        (steady.trans onward).chunk (same.trans kept)

theorem Shape.second_round (shape : Shape table) (bincount : table.bincount = 513) :
    table.L = 1 ∧ table.maxp = 512 ∧ table.p = 1 := by
  have bins := shape.bins
  have split := shape.split
  have doubling := shape.doubling
  rw [shape.minimum] at doubling
  have level : table.L = 1 := by
    rcases Nat.lt_trichotomy table.L 1 with shallow | one | deep
    · rw [Nat.lt_one_iff.mp shallow] at doubling
      omega
    · exact one
    · have larger := Nat.pow_le_pow_right Nat.two_pos (show 2 ≤ table.L from deep)
      omega
  rw [level] at doubling
  omega

def spreadOps : List Op := addsOf (fun index => index + 1) 2048

/-- They fill 513 bins: the first of 512 has been split a second time. -/
theorem spread_run : ∃ replies table bins,
    Run ⟨true, false, UInt32.ofNat⟩ granted (initMetadata 8192 (fun _ => ⟨0, none⟩) 5 6) spreadOps
        replies table ∧
      table.bincount = 513 ∧ Shape table ∧ Chained UInt32.ofNat table bins ∧
      bins 1 ≠ [] ∧ bins 512 ≠ [] ∧
      ∀ left right, (bins left).length + (bins right).length < table.fuel := by
  obtain ⟨replies, table, run, filled⟩ := fill_run UInt32.ofNat (fun index => index + 1)
    (show 2048 ≤ 2 ^ 20 by decide) (show 2048 + 1 < 8192 by decide)
  have begins := init_holds UInt32.ofNat 8192 (fun _ => ⟨0, none⟩) 5 6
  obtain ⟨kept, fuel⟩ := run_holds _ begins run (adds_of_admissible (by decide)) (by decide +kernel)
  obtain ⟨bins, chained, stacked⟩ := kept.chains
  obtain ⟨_, maxp, p⟩ := kept.shape.second_round filled.bincount
  have occupied : ∀ chunk, stack (specEntries spreadOps) chunk ≠ [] →
      bins (bindexAt (UInt32.ofNat chunk).toNat 512 1) ≠ [] := by
    intro chunk present empty
    have read := stacked chunk
    rw [bindexOf, maxp, p, empty] at read
    exact present read
  refine ⟨replies, table, bins, run, filled.bincount, kept.shape, chained,
    occupied 1 (by decide +kernel), occupied 512 (by decide +kernel), ?_⟩
  intro left right
  have entries : (specEntries spreadOps).length = 2048 := adds_of_length
  have first : (bins left).length ≤ _ := chained.bin_length stacked
  have second : (bins right).length ≤ _ := chained.bin_length stacked
  have given : table.fuel = 8192 := fuel
  unfold spreadOps at entries
  omega

theorem spread_resize_inverse : ∃ replies table bins,
    Run ⟨true, false, UInt32.ofNat⟩ granted (initMetadata 8192 (fun _ => ⟨0, none⟩) 5 6) spreadOps
        replies table ∧
      bins 1 ≠ [] ∧ bins 512 ≠ [] ∧
      (∃ first second large after,
        metadataExpandTable ⟨true, false, UInt32.ofNat⟩ table first = .ok (true, large) ∧
        metadataContractTable ⟨true, false, UInt32.ofNat⟩ large second = .ok after ∧
        Restores UInt32.ofNat table bins after) ∧
      ∃ first second small after,
        metadataContractTable ⟨true, false, UInt32.ofNat⟩ table first = .ok small ∧
        metadataExpandTable ⟨true, false, UInt32.ofNat⟩ small second = .ok (true, after) ∧
        Restores UInt32.ofNat table bins after := by
  obtain ⟨replies, table, bins, run, bincount, shape, chained, one, last, short⟩ := spread_run
  have shipped : ∀ built, ¬DirectoryTooLong ⟨true, false, UInt32.ofNat⟩ built :=
    fun _ long => absurd long.1 (by decide)
  have room : table.bincount < cfg.bincountMax := by
    rw [bincount]
    decide
  have alone : ∀ index, (bins index).length < table.fuel := fun index =>
    Nat.lt_of_le_of_lt (Nat.le_add_left _ _) (short index index)
  obtain ⟨first, allowed, fresh⟩ := shape.granted_answers
  refine ⟨replies, table, bins, run, one, last, ?_, ?_⟩
  · rcases chained.expand_table ⟨true, false, UInt32.ofNat⟩ shape fresh allowed room (alone _) with
      ⟨long, _⟩ | ⟨_, large, _, expands, largeShape, _⟩
    · exact absurd long (shipped table)
    · obtain ⟨second, again, unused⟩ := largeShape.granted_answers
      obtain ⟨_, back⟩ := (resize_inverse ⟨true, false, UInt32.ofNat⟩ table bins first second shape
        chained room allowed again fresh short).1.value expands
      obtain ⟨after, contracts, restored⟩ := back unused
      exact ⟨first, second, large, after, expands, contracts, restored⟩
  · obtain ⟨small, _, contracts, smallShape, _⟩ := chained.contract_table
      ⟨true, false, UInt32.ofNat⟩ shape fresh allowed (by omega) fun index => Nat.le_of_lt (alone index)
    obtain ⟨second, again, unused⟩ := smallShape.granted_answers
    have deep : 0 < table.L := by
      rw [(shape.second_round bincount).1]
      exact Nat.one_pos
    obtain ⟨smaller, same, back⟩ := (resize_inverse ⟨true, false, UInt32.ofNat⟩ table bins first
      second shape chained room allowed again fresh short).2 deep
    cases Except.ok.inj (contracts.symm.trans same)
    obtain ⟨⟨success, after⟩, expands, works, restored⟩ := (back unused).returns fun _ => shipped small
    cases works
    exact ⟨first, second, small, after, contracts, expands, restored⟩

end SriGlibcMalloc.MetadataTable
