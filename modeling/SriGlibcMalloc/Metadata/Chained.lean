import Mathlib.Data.List.Perm.Subperm
import SriGlibcMalloc.KeyedStack.Basic
import SriGlibcMalloc.Metadata.Loops
import SriGlibcMalloc.Metadata.Resize

/-!
# The chains of the table

`Chained` ties every bin to a list of buckets that the address function of the
current `(maxp, p)` sends there. `relink` is the rule for all pointer surgery:
a loop that only touches some bins keeps the invariant when it leaves good
chains in those. `Holds` relates the table to a keyed stack.
-/

namespace SriGlibcMalloc.MetadataTable

open PointerList KeyedStack

set_option autoImplicit false

structure Chained (hash : Chunk → UInt32) (table : Metadata)
    (bins : Nat → List BucketPtr) : Prop where
  chain : ∀ index < table.bincount, Chain table.nextBucket (topOf table index) (bins index)
  outside : ∀ index, table.bincount ≤ index → bins index = []
  nodup : ∀ index, (bins index).Nodup
  addressed : ∀ index, ∀ node ∈ bins index,
    bindexOf hash table (table.bucket node).chunk = index

/-- The buckets of a chain that carry `chunk`. -/
def carrying (table : Metadata) (chunk : Chunk) (nodes : List BucketPtr) : List BucketPtr :=
  nodes.filter fun node => (table.bucket node).chunk = chunk

/-- The table holds exactly `entries`, newest first for every chunk. -/
structure Holds (hash : Chunk → UInt32) (table : Metadata)
    (entries : Entries Chunk BucketPtr) : Prop where
  shape : Shape table
  chains : ∃ bins, Chained hash table bins ∧ ∀ chunk,
    stack entries chunk = carrying table chunk (bins (bindexOf hash table chunk))
  count : table.count = entries.length
  addresses : ∀ entry ∈ entries, 0 < entry.2 ∧ entry.2 < 2 ^ 64

section

variable {hash : Chunk → UInt32} {table before after : Metadata}
variable {bins bins' : Nat → List BucketPtr} {entries : Entries Chunk BucketPtr}

theorem Chained.apart {left right : Nat} {node : BucketPtr} (chained : Chained hash table bins)
    (inLeft : node ∈ bins left) (inRight : node ∈ bins right) : left = right :=
  (chained.addressed left node inLeft).symm.trans (chained.addressed right node inRight)

theorem Relinks.carrying {touched : Nat → Prop} (relinks : Relinks touched before after)
    (chunk : Chunk) (nodes : List BucketPtr) :
    carrying after chunk nodes = carrying before chunk nodes := by
  simp only [MetadataTable.carrying, relinks.chunk]

theorem Relinks.slot_top {touched : Nat → Prop} (relinks : Relinks touched before after)
    (index : Nat) : topOf after index = after.slot (MetadataTable.binAt before index) := by
  rw [MetadataTable.topOf, relinks.binAt]

theorem Relinks.topOf {touched : Nat → Prop} {index : Nat} (shape : Shape before)
    (relinks : Relinks touched before after) (bound : index < before.bincount)
    (inUse : ∀ touchedIndex, touched touchedIndex → touchedIndex < before.bincount)
    (untouched : ¬touched index) : topOf after index = topOf before index := by
  simp only [MetadataTable.topOf, relinks.binAt]
  by_contra changed
  obtain ⟨other, member, same⟩ := relinks.slots _ changed
  have equal := shape.bin_at_injective (inUse other member) bound same
  exact untouched (equal ▸ member)

/-- The rule for pointer surgery. -/
theorem Chained.relink {touched : Nat → Prop} (chained : Chained hash before bins)
    (shape : Shape before) (relinks : Relinks touched before after)
    (inUse : ∀ index, touched index → index < before.bincount)
    (kept : ∀ index, ¬touched index → bins' index = bins index)
    (frame : ∀ index, ¬touched index → ∀ node ∈ bins index,
      after.nextBucket node = before.nextBucket node)
    (chain : ∀ index, touched index → Chain after.nextBucket (topOf after index) (bins' index))
    (nodup : ∀ index, touched index → (bins' index).Nodup)
    (addressed : ∀ index, touched index → ∀ node ∈ bins' index,
      bindexOf hash before (before.bucket node).chunk = index) :
    Chained hash after bins' where
  chain index bound := by
    rw [relinks.bincount] at bound
    by_cases member : touched index
    · exact chain index member
    · rw [kept index member, relinks.topOf shape bound inUse member]
      exact segment_frame (frame index member) (chained.chain index bound)
  outside index bound := by
    rw [relinks.bincount] at bound
    rw [kept index (fun member => absurd (inUse index member) (by omega))]
    exact chained.outside index bound
  nodup index := by
    by_cases member : touched index
    · exact nodup index member
    · rw [kept index member]
      exact chained.nodup index
  addressed index node inBin := by
    rw [relinks.bindexOf, relinks.chunk]
    by_cases member : touched index
    · exact addressed index member node inBin
    · rw [kept index member] at inBin
      exact chained.addressed index node inBin

theorem Chained.relink_bin {index : Nat} {nodes : List BucketPtr}
    (chained : Chained hash before bins) (shape : Shape before) (bound : index < before.bincount)
    (relinks : Relinks (· = index) before after)
    (frame : ∀ other, other ≠ index → ∀ node ∈ bins other,
      after.nextBucket node = before.nextBucket node)
    (chain : Chain after.nextBucket (topOf after index) nodes) (nodup : nodes.Nodup)
    (addressed : ∀ node ∈ nodes, bindexOf hash before (before.bucket node).chunk = index) :
    Chained hash after (Function.update bins index nodes) := by
  refine chained.relink shape relinks ?_ ?_ frame ?_ ?_ ?_
  · intro touched same
    exact same ▸ bound
  · intro other different
    exact Function.update_of_ne different _ _
  · intro touched same
    rw [same, Function.update_self]
    exact chain
  · intro touched same
    rw [same, Function.update_self]
    exact nodup
  · intro touched same
    rw [same, Function.update_self]
    exact addressed

/-- Surgery on one bin that only reorders or removes buckets of that bin. -/
theorem Chained.outside_frame {index : Nat} (chained : Chained hash before bins)
    (frame : ∀ node, node ∉ bins index → after.nextBucket node = before.nextBucket node) :
    ∀ other, other ≠ index → ∀ node ∈ bins other,
      after.nextBucket node = before.nextBucket node := by
  intro other different node member
  apply frame node
  intro inside
  exact different (chained.apart member inside)

theorem Chained.bin_length {index : Nat} (chained : Chained hash table bins)
    (stacked : ∀ chunk, stack entries chunk =
      carrying table chunk (bins (bindexOf hash table chunk))) :
    (bins index).length ≤ entries.length := by
  have subset : bins index ⊆ entries.map (fun entry => entry.2) := by
    intro node member
    have carried : node ∈ stack entries (table.bucket node).chunk := by
      rw [stacked, chained.addressed index node member]
      simp [carrying, member]
    rw [mem_stack] at carried
    exact List.mem_map.mpr ⟨_, carried, rfl⟩
  have shorter := (List.subperm_of_subset (chained.nodup index) subset).length_le
  simpa using shorter

theorem Holds.chunk_of_mem (holds : Holds hash table entries) {chunk : Chunk} {node : BucketPtr}
    (member : node ∈ stack entries chunk) : (table.bucket node).chunk = chunk := by
  obtain ⟨bins, _, stacked⟩ := holds.chains
  rw [stacked] at member
  simpa [carrying] using (List.mem_filter.mp member).2

theorem Chained.holds {entries' : Entries Chunk BucketPtr} {index : Nat}
    (chained : Chained hash before bins) (nodes : List BucketPtr) (shape : Shape before)
    (bound : index < before.bincount) (relinks : Relinks (· = index) before after)
    (frame : ∀ other, other ≠ index → ∀ node ∈ bins other,
      after.nextBucket node = before.nextBucket node)
    (chain : Chain after.nextBucket (topOf after index) nodes) (nodup : nodes.Nodup)
    (addressed : ∀ node ∈ nodes, bindexOf hash before (before.bucket node).chunk = index)
    (stacked : ∀ chunk, stack entries chunk =
      carrying before chunk (bins (bindexOf hash before chunk)))
    (inside : ∀ chunk, bindexOf hash before chunk = index →
      stack entries' chunk = carrying before chunk nodes)
    (elsewhere : ∀ chunk, bindexOf hash before chunk ≠ index →
      stack entries' chunk = stack entries chunk)
    (count : after.count = entries'.length)
    (addresses : ∀ entry ∈ entries', 0 < entry.2 ∧ entry.2 < 2 ^ 64) :
    Holds hash after entries' where
  shape := relinks.shape (fun _ same => same ▸ bound) shape
  chains := by
    refine ⟨_, chained.relink_bin shape bound relinks frame chain nodup addressed, ?_⟩
    intro chunk
    rw [relinks.bindexOf, relinks.carrying]
    by_cases here : bindexOf hash before chunk = index
    · rw [here, Function.update_self]
      exact inside chunk here
    · rw [Function.update_of_ne here, elsewhere chunk here]
      exact stacked chunk
  count := count
  addresses := addresses

theorem first_carrying (table : Metadata) (chunk : Chunk) (nodes : List BucketPtr) :
    (carrying table chunk nodes = [] ∧ ∀ node ∈ nodes, (table.bucket node).chunk ≠ chunk) ∨
    ∃ front node back, nodes = front ++ node :: back ∧
      (∀ earlier ∈ front, (table.bucket earlier).chunk ≠ chunk) ∧
      (table.bucket node).chunk = chunk ∧
      carrying table chunk nodes = node :: carrying table chunk back := by
  induction nodes with
  | nil => exact Or.inl ⟨rfl, by simp⟩
  | cons first nodes ih =>
      by_cases found : (table.bucket first).chunk = chunk
      · exact Or.inr ⟨[], first, nodes, rfl, by simp, found, by simp [carrying, found]⟩
      · rcases ih with ⟨empty, absent⟩ | ⟨front, node, back, shape, absent, here, rest⟩
        · left
          exact ⟨by simpa [carrying, found] using empty, by simpa [found] using absent⟩
        · right
          refine ⟨first :: front, node, back, by simp [shape], by simpa [found] using absent,
            here, ?_⟩
          simpa [carrying, found] using rest

theorem carrying_skips {chunk : Chunk} {front : List BucketPtr}
    (absent : ∀ node ∈ front, (table.bucket node).chunk ≠ chunk) :
    carrying table chunk front = [] := by
  simpa [carrying] using absent

theorem carrying_filter {chunk : Chunk} {nodes : List BucketPtr} {pass : BucketPtr → Bool}
    (passes : ∀ node, (table.bucket node).chunk = chunk → pass node = true) :
    carrying table chunk (nodes.filter pass) = carrying table chunk nodes := by
  simp only [carrying, List.filter_filter]
  apply List.filter_congr
  intro node _
  by_cases same : (table.bucket node).chunk = chunk
  · simp [same, passes node same]
  · simp [same]

@[simp] theorem carrying_append (chunk : Chunk) (front back : List BucketPtr) :
    carrying table chunk (front ++ back) =
      carrying table chunk front ++ carrying table chunk back := by
  simp [carrying]

end

end SriGlibcMalloc.MetadataTable
