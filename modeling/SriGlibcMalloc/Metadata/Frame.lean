import SriGlibcMalloc.Metadata.Shape
import SriGlibcMalloc.Outcome.Ensures

/-!
# What the list loops may change

`Relinks` says that a loop changed bucket links, the census and the slots of
given bins, and nothing else. Every loop of `metadata.c` is bounded by it,
whatever the chains look like, so the structural invariant survives all of
them.
-/

namespace SriGlibcMalloc.MetadataTable

open Outcome

set_option autoImplicit false

/-- `after` differs from `before` in bucket links, in the census and in the
slots of the bins that `touched` allows. -/
structure Relinks (touched : Nat → Prop) (before after : Metadata) : Prop where
  rest : after = { before with
    bucket := after.bucket, segment := after.segment, count := after.count }
  chunk : ∀ node, (after.bucket node).chunk = (before.bucket node).chunk
  slots : ∀ bin, after.slot bin ≠ before.slot bin →
    ∃ index, touched index ∧ binAt before index = bin

namespace Relinks

variable {touched : Nat → Prop} {before middle after : Metadata}

theorem refl (table : Metadata) : Relinks touched table table where
  rest := rfl
  chunk _ := rfl
  slots _ changed := absurd rfl changed

theorem directory (relinks : Relinks touched before after) :
    after.directory = before.directory := by
  rw [relinks.rest]

theorem maxp (relinks : Relinks touched before after) : after.maxp = before.maxp := by
  rw [relinks.rest]

theorem p (relinks : Relinks touched before after) : after.p = before.p := by
  rw [relinks.rest]

theorem bincount (relinks : Relinks touched before after) : after.bincount = before.bincount := by
  rw [relinks.rest]

theorem binAt (relinks : Relinks touched before after) (index : Nat) :
    binAt after index = binAt before index := by
  simp only [MetadataTable.binAt, relinks.directory]

theorem bindexOf (relinks : Relinks touched before after) (hash : Chunk → UInt32)
    (chunk : Chunk) : bindexOf hash after chunk = bindexOf hash before chunk := by
  simp only [MetadataTable.bindexOf, relinks.maxp, relinks.p]

theorem trans (first : Relinks touched before middle) (second : Relinks touched middle after) :
    Relinks touched before after where
  rest := by
    rw [second.rest, first.rest]
  chunk node := (second.chunk node).trans (first.chunk node)
  slots bin changed := by
    by_cases same : middle.slot bin = before.slot bin
    · obtain ⟨index, allowed, atBin⟩ := second.slots bin (by rwa [same])
      exact ⟨index, allowed, (first.binAt index).symm.trans atBin⟩
    · exact first.slots bin same

theorem setNextBucket {bucket : BucketPtr} {value : Option BucketPtr} :
    Relinks touched before (before.setNextBucket bucket value) where
  rest := rfl
  chunk node := Metadata.chunk_set_next before bucket node value
  slots _ changed := absurd rfl changed

theorem setSlot {index : Nat} {bin : BinPtr} {value : Option BucketPtr}
    (allowed : touched index) (atBin : MetadataTable.binAt before index = bin) :
    Relinks touched before (before.setSlot bin value) where
  rest := rfl
  chunk _ := rfl
  slots other changed := by
    by_cases same : other = bin
    · exact ⟨index, allowed, atBin.trans same.symm⟩
    · exact absurd (Metadata.slot_set_slot_of_ne before bin other value same) changed

theorem recount (count : Nat) : Relinks touched before (before.setCount count) where
  rest := rfl
  chunk _ := rfl
  slots _ changed := absurd rfl changed

/-- The structural invariant does not see what the list loops do to the bins in use. -/
theorem shape (relinks : Relinks touched before after)
    (inUse : ∀ index, touched index → index < before.bincount)
    (invariant : Shape before) : Shape after := by
  have unchanged : ∀ seg offset, offset < 256 →
      (∀ index, before.directory index = some seg → before.bincount ≤ 256 * index + offset) →
      after.segment seg offset = before.segment seg offset := by
    intro seg offset small unused
    by_contra changed
    obtain ⟨index, allowed, atBin⟩ := relinks.slots (seg, offset) changed
    have bound := inUse index allowed
    obtain ⟨stored, atDirectory⟩ := invariant.present _ (invariant.segindex_lt bound)
    simp only [MetadataTable.binAt, atDirectory, Option.getD_some, Prod.mk.injEq] at atBin
    obtain ⟨sameSegment, sameOffset⟩ := atBin
    rw [sameSegment] at atDirectory
    have above := unused _ atDirectory
    omega
  rw [relinks.rest]
  exact
    { minimum := invariant.minimum
      doubling := invariant.doubling
      depth := invariant.depth
      split := invariant.split
      bins := invariant.bins
      atMost := invariant.atMost
      length := invariant.length
      lengthBound := invariant.lengthBound
      current := invariant.current
      currentLe := invariant.currentLe
      present := invariant.present
      absent := invariant.absent
      distinct := invariant.distinct
      emptyAbove := by
        intro index offset seg stored small above
        change after.segment seg offset = none
        rw [unchanged seg offset small]
        · exact invariant.emptyAbove index offset seg stored small above
        · intro other otherStored
          rw [invariant.distinct other index seg otherStored stored]
          exact above
      emptyPool := by
        intro seg pooled offset small
        change after.segment seg offset = none
        rw [unchanged seg offset small]
        · exact invariant.emptyPool seg pooled offset small
        · intro other stored
          exact absurd stored (pooled other) }

end Relinks

section Loops

variable {table : Metadata} {bin : BinPtr} {index : Nat} {touched : Nat → Prop}

theorem unlink_relinks {previous : Option BucketPtr} {bucket : BucketPtr}
    (allowed : touched index) (atBin : binAt table index = bin) :
    Relinks touched table (unlinkBucket table bin previous bucket) := by
  cases previous with
  | none => exact Relinks.setSlot allowed atBin
  | some before => exact Relinks.setNextBucket

theorem link_relinks {last : Option BucketPtr} {bucket : BucketPtr}
    (allowed : touched index) (atBin : binAt table index = bin) :
    Relinks touched table (linkBucket table bin last bucket) := by
  cases last with
  | none => exact Relinks.setSlot allowed atBin
  | some last => exact Relinks.setNextBucket

theorem link_front_relinks {bucket : BucketPtr} (allowed : touched index)
    (atBin : binAt table index = bin) : Relinks touched table (linkFront table bin bucket) := by
  have next : Relinks touched table (table.setNextBucket bucket (table.slot bin)) :=
    Relinks.setNextBucket
  have linked : Relinks touched (table.setNextBucket bucket (table.slot bin))
      ((table.setNextBucket bucket (table.slot bin)).setSlot bin (some bucket)) :=
    Relinks.setSlot allowed atBin
  exact (next.trans linked).trans (Relinks.recount _)

theorem promote_relinks {previous : Option BucketPtr} {bucket : BucketPtr}
    (allowed : touched index) (atBin : binAt table index = bin) :
    Relinks touched table (promote table bin previous bucket) := by
  cases previous with
  | none => exact Relinks.refl table
  | some before =>
      simp only [promote]
      split_ifs
      · exact Relinks.setNextBucket.trans
          (Relinks.setNextBucket.trans (Relinks.setSlot allowed atBin))
      · exact Relinks.refl table

theorem lookup_loop_fault {chunk : Chunk} {fuel : Nat} {previous current : Option BucketPtr} :
    Ensures (fun _ => True) (· = Fault.endlessChain)
      (lookupLoop table chunk fuel previous current) := by
  induction fuel generalizing previous current with
  | zero => rfl
  | succ fuel ih =>
      cases current with
      | none => trivial
      | some bucket =>
          simp only [lookupLoop]
          split_ifs
          · trivial
          · exact ih

theorem delete_loop_relinks {chunk : Chunk} {fuel : Nat} {previous current : Option BucketPtr}
    (allowed : touched index) (atBin : binAt table index = bin) :
    Ensures (fun result => Relinks touched table result.2) (· = Fault.endlessChain)
      (deleteLoop chunk bin fuel previous current table) := by
  induction fuel generalizing previous current with
  | zero => rfl
  | succ fuel ih =>
      cases current with
      | none => exact Relinks.refl table
      | some bucket =>
          simp only [deleteLoop]
          split_ifs with found
          · exact (unlink_relinks allowed atBin).trans (Relinks.recount _)
          · exact ih

theorem delete_all_loop_relinks {chunk : Chunk} {fuel count : Nat}
    {previous current : Option BucketPtr}
    (allowed : touched index) (atBin : binAt table index = bin) :
    Ensures (fun result => Relinks touched table result.2) (· = Fault.endlessChain)
      (deleteAllLoop chunk bin fuel count previous current table) := by
  induction fuel generalizing count previous current table with
  | zero => rfl
  | succ fuel ih =>
      cases current with
      | none => exact Relinks.refl table
      | some bucket =>
          simp only [deleteAllLoop]
          split_ifs with found
          · have step : Relinks touched table (unlinkBucket table bin previous bucket) :=
              unlink_relinks allowed atBin
            exact (ih ((step.binAt index).trans atBin)).weaken
              (fun _ onward => step.trans onward) (fun _ fault => fault)
          · exact ih atBin

theorem split_buckets_relinks (build : Build) {newBindex oldIndex newIndex exponent : Nat}
    {oldbin newbin : BinPtr} (fuel : Nat) (current previous last : Option BucketPtr)
    (power : table.maxp = 2 ^ exponent)
    (oldAllowed : touched oldIndex) (atOld : binAt table oldIndex = oldbin)
    (newAllowed : touched newIndex) (atNew : binAt table newIndex = newbin) :
    Ensures (Relinks touched table) (· = Fault.endlessChain)
      (splitBuckets build newBindex oldbin newbin fuel current previous last table) := by
  induction fuel generalizing current previous last table with
  | zero => rfl
  | succ fuel ih =>
      cases current with
      | none => exact Relinks.refl table
      | some bucket =>
          simp only [splitBuckets, metadata_bindex_pow build power, ok_bind]
          split_ifs with moves
          · have linked : Relinks touched table (linkBucket table newbin last bucket) :=
              link_relinks newAllowed atNew
            have step : Relinks touched table
                ((unlinkBucket (linkBucket table newbin last bucket) oldbin previous
                  bucket).setNextBucket bucket none) :=
              (linked.trans (unlink_relinks oldAllowed
                ((linked.binAt oldIndex).trans atOld))).trans Relinks.setNextBucket
            exact (ih _ _ _ (step.maxp.trans power) ((step.binAt oldIndex).trans atOld)
              ((step.binAt newIndex).trans atNew)).weaken
              (fun _ onward => step.trans onward) (fun _ fault => fault)
          · exact ih _ _ _ power atOld atNew

theorem last_bucket_fault (fuel : Nat) (bucket : BucketPtr) :
    Ensures (fun _ => True) (· = Fault.endlessChain) (lastBucket table fuel bucket) := by
  induction fuel generalizing bucket with
  | zero => rfl
  | succ fuel ih =>
      simp only [lastBucket]
      cases table.nextBucket bucket with
      | none => trivial
      | some next => exact ih next

theorem move_buckets_relinks {srcIndex tgtIndex : Nat} {srcbin tgtbin : BinPtr}
    (srcAllowed : touched srcIndex) (atSrc : binAt table srcIndex = srcbin)
    (tgtAllowed : touched tgtIndex) (atTgt : binAt table tgtIndex = tgtbin) :
    Ensures (fun after => Relinks touched table after ∧ after.slot srcbin = none)
      (· = Fault.endlessChain) (moveBuckets table srcbin tgtbin) := by
  unfold moveBuckets
  cases source : table.slot srcbin with
  | none => exact ⟨Relinks.refl table, source⟩
  | some src =>
      cases table.slot tgtbin with
      | none =>
          exact ⟨(Relinks.setSlot tgtAllowed atTgt).trans (Relinks.setSlot srcAllowed atSrc),
            Metadata.slot_set_slot _ _ _⟩
      | some tgt =>
          refine (last_bucket_fault table.fuel tgt).bind ?_
          intro last _
          exact ⟨Relinks.setNextBucket.trans (Relinks.setSlot srcAllowed atSrc),
            Metadata.slot_set_slot _ _ _⟩

end Loops

end SriGlibcMalloc.MetadataTable
