import SriGlibcMalloc.Bins.Links
import SriGlibcMalloc.Bins.SizeHeads

/-!
# The skip list of a large bin

The lists of the arena are what the pointers read, and the skip list of each large bin is a
ring of the first chunks of each size. The invariant is stated for one list at a time; an
operation on one list leaves the others alone because no record is on two of them.
-/

namespace SriGlibcMalloc.Bins

open CircularList EntryPoints
open MainArena (wrapSub wrap_sub_exact)

set_option autoImplicit false

def FreeChunk.node (chunk : FreeChunk) : Node := .chunk chunk.addr

def records (index : Nat) (chunks : List FreeChunk) : List Node :=
  .header index :: chunks.map FreeChunk.node

def firstLarge : Nat := 64

/-- What the pointers say of one list, its skip list apart. -/
structure Listed (links : Links) (index : Nat) (chunks : List FreeChunk) : Prop where
  reads : Ring links.fd links.bk (records index chunks)
  sizes : ∀ chunk ∈ chunks, links.size chunk.node = chunk.size
  waiting : index = 1 → ∀ chunk ∈ chunks, inSmallbinRange chunk.size = false →
    links.fdNextsize chunk.node = .null

def FreeChunk.Separate (first second : FreeChunk) : Prop :=
  first.addr + first.size ≤ second.addr ∨ second.addr + second.size ≤ first.addr

instance (first second : FreeChunk) : Decidable (first.Separate second) :=
  inferInstanceAs (Decidable (_ ∨ _))

def Outside (lists : Nat → List FreeChunk) (chunk : FreeChunk) : Prop :=
  ∀ i, ∀ other ∈ lists i, chunk.Separate other

structure Agree (links after : Links) (node : Node) : Prop where
  size : after.size node = links.size node
  fd : after.fd node = links.fd node
  bk : after.bk node = links.bk node
  fdNextsize : after.fdNextsize node = links.fdNextsize node
  bkNextsize : after.bkNextsize node = links.bkNextsize node

/-- What is asked of the skip list of a large bin, which lies within the records of the bin. -/
structure SkipRule where
  Holds : Links → Nat → List FreeChunk → Prop
  frame : ∀ {links after : Links} {index : Nat} {chunks : List FreeChunk},
    Holds links index chunks → (∀ node ∈ records index chunks, Agree links after node) →
      Holds after index chunks

/-- The pointers read the lists, of chunks that do not overlap. -/
structure Kept (rule : SkipRule) (lists : Nat → List FreeChunk) (links : Links) : Prop where
  listed : ∀ i, Listed links i (lists i)
  skips : ∀ i, firstLarge ≤ i → rule.Holds links i (lists i)
  nodup : ∀ i, (lists i).Nodup
  valid : ∀ i, ∀ chunk ∈ lists i, chunk.Valid
  placed : ∀ i, 1 < i → ∀ chunk ∈ lists i, binIndex chunk.size = i
  separate : ∀ i j first second, first ∈ lists i → second ∈ lists j →
    i = j ∧ first = second ∨ first.Separate second

/-- The bin is in order, and its skip list is a ring of the first chunks of each size. -/
structure InOrder (links : Links) (index : Nat) (chunks : List FreeChunk) : Prop where
  header : links.fdNextsize (.header index) = .null ∨
    links.fdNextsize (.header index) = .header index
  ordered : Descending chunks
  heads : Ring links.fdNextsize links.bkNextsize ((sizeHeads chunks).map FreeChunk.node)
  skipped : ∀ chunk ∈ chunks, chunk ∉ sizeHeads chunks → links.fdNextsize chunk.node = .null

variable {links after : Links} {lists : Nat → List FreeChunk} {index : Nat} {rule : SkipRule}
variable {chunks front back : List FreeChunk} {chunk victim first second : FreeChunk}
variable {node : Node}

theorem header_record : Node.header index ∈ records index chunks := List.mem_cons_self

theorem chunk_record (member : chunk ∈ chunks) : chunk.node ∈ records index chunks :=
  List.mem_cons_of_mem _ (List.mem_map_of_mem member)

theorem separate_addr (valid : first.Valid) (valid' : second.Valid)
    (separate : first.Separate second) : first.addr ≠ second.addr := by
  have positive := valid.size.minimal
  have positive' := valid'.size.minimal
  unfold FreeChunk.Separate at separate
  simp only [minSize] at positive positive'
  omega

theorem Kept.record_inj (kept : Kept rule lists links) {i j : Nat}
    (left : first ∈ lists i) (right : second ∈ lists j) (same : first.node = second.node) :
    i = j ∧ first = second := by
  refine (kept.separate i j first second left right).resolve_right fun separate => ?_
  have valid := kept.valid i first left
  have valid' := kept.valid j second right
  exact separate_addr valid valid' separate (Node.chunk.inj same)

theorem Kept.apart (kept : Kept rule lists links) {i j : Nat} (differs : i ≠ j)
    (member : node ∈ records i (lists i)) : node ∉ records j (lists j) := by
  intro other
  rcases List.mem_cons.mp member with rfl | inside
  · rcases List.mem_cons.mp other with same | inside
    · exact differs (Node.header.inj same)
    · obtain ⟨chunk, _, same⟩ := List.mem_map.mp inside
      cases same
  · obtain ⟨chunk, here, rfl⟩ := List.mem_map.mp inside
    rcases List.mem_cons.mp other with same | there
    · cases same
    · obtain ⟨second, there, same⟩ := List.mem_map.mp there
      exact differs (kept.record_inj here there same.symm).1

theorem Kept.distinct (kept : Kept rule lists links) (index : Nat) :
    (records index (lists index)).Nodup := by
  refine List.nodup_cons.mpr ⟨?_, ?_⟩
  · intro member
    obtain ⟨chunk, _, same⟩ := List.mem_map.mp member
    cases same
  · apply List.Nodup.map_on _ (kept.nodup index)
    intro first left second right same
    exact (kept.record_inj left right same).2

theorem Kept.absent (kept : Kept rule lists links) (valid : victim.Valid)
    (outside : Outside lists victim) (index : Nat) :
    victim.node ∉ records index (lists index) := by
  intro member
  rcases List.mem_cons.mp member with same | inside
  · cases same
  · obtain ⟨chunk, here, same⟩ := List.mem_map.mp inside
    have valid' := kept.valid index chunk here
    exact separate_addr valid valid' (outside index chunk here) (Node.chunk.inj same).symm

theorem Listed.frame (listed : Listed links index chunks)
    (agree : ∀ node ∈ records index chunks, Agree links after node) :
    Listed after index chunks := by
  have same : ∀ chunk ∈ chunks, Agree links after chunk.node := fun chunk member =>
    agree _ (chunk_record member)
  constructor
  case reads =>
    exact listed.reads.frame (fun node member => (agree node member).fd)
      fun node member => (agree node member).bk
  case sizes =>
    intro chunk member
    rw [(same chunk member).size]
    exact listed.sizes chunk member
  case waiting =>
    intro unsorted chunk member large
    rw [(same chunk member).fdNextsize]
    exact listed.waiting unsorted chunk member large

theorem InOrder.frame (inOrder : InOrder links index chunks)
    (agree : ∀ node ∈ records index chunks, Agree links after node) :
    InOrder after index chunks := by
  have same : ∀ chunk ∈ chunks, Agree links after chunk.node := fun chunk member =>
    agree _ (chunk_record member)
  constructor
  case header =>
    rw [(agree _ header_record).fdNextsize]
    exact inOrder.header
  case ordered => exact inOrder.ordered
  case heads =>
    apply inOrder.heads.frame
    · intro node member
      obtain ⟨chunk, inside, rfl⟩ := List.mem_map.mp member
      exact (same chunk (size_heads_members _ chunk inside)).fdNextsize
    · intro node member
      obtain ⟨chunk, inside, rfl⟩ := List.mem_map.mp member
      exact (same chunk (size_heads_members _ chunk inside)).bkNextsize
  case skipped =>
    intro chunk member later
    rw [(same chunk member).fdNextsize]
    exact inOrder.skipped chunk member later

def orderRule : SkipRule where
  Holds := InOrder
  frame := InOrder.frame

abbrev Follows : (Nat → List FreeChunk) → Links → Prop := Kept orderRule

theorem Follows.in_order (follows : Follows lists links) (large : firstLarge ≤ index) :
    InOrder links index (lists index) :=
  follows.skips index large

/-- One list becomes another one, which is listed. -/
theorem Kept.change (kept : Kept rule lists links)
    (agree : ∀ j, j ≠ index → ∀ node ∈ records j (lists j), Agree links after node)
    (listed : Listed after index chunks)
    (skips : firstLarge ≤ index → rule.Holds after index chunks) (nodup : chunks.Nodup)
    (valid : ∀ chunk ∈ chunks, chunk.Valid)
    (placed : 1 < index → ∀ chunk ∈ chunks, binIndex chunk.size = index)
    (within : ∀ first ∈ chunks, ∀ second ∈ chunks, first = second ∨ first.Separate second)
    (across : ∀ j, j ≠ index → ∀ first ∈ chunks, ∀ second ∈ lists j, first.Separate second) :
    Kept rule (Function.update lists index chunks) after := by
  have read : ∀ i, i = index ∧ Function.update lists index chunks i = chunks ∨
      i ≠ index ∧ Function.update lists index chunks i = lists i := by
    intro i
    by_cases same : i = index
    · left
      rw [same, Function.update_self]
      exact ⟨rfl, rfl⟩
    · right
      rw [Function.update_of_ne same]
      exact ⟨same, rfl⟩
  constructor
  case listed =>
    intro i
    rcases read i with ⟨rfl, shape⟩ | ⟨differs, shape⟩
    · rw [shape]
      exact listed
    · rw [shape]
      exact (kept.listed i).frame (agree i differs)
  case skips =>
    intro i large
    rcases read i with ⟨rfl, shape⟩ | ⟨differs, shape⟩
    · rw [shape]
      exact skips large
    · rw [shape]
      exact rule.frame (kept.skips i large) (agree i differs)
  case nodup =>
    intro i
    rcases read i with ⟨_, shape⟩ | ⟨_, shape⟩
    · rw [shape]
      exact nodup
    · rw [shape]
      exact kept.nodup i
  case valid =>
    intro i
    rcases read i with ⟨_, shape⟩ | ⟨_, shape⟩
    · rw [shape]
      exact valid
    · rw [shape]
      exact kept.valid i
  case placed =>
    intro i large
    rcases read i with ⟨rfl, shape⟩ | ⟨_, shape⟩
    · rw [shape]
      exact placed large
    · rw [shape]
      exact kept.placed i large
  case separate =>
    intro i j first second left right
    rcases read i with ⟨here, shape⟩ | ⟨away, shape⟩
    · rw [shape] at left
      rcases read j with ⟨there, shape'⟩ | ⟨elsewhere, shape'⟩
      · rw [shape'] at right
        exact (within first left second right).imp_left fun same => ⟨here.trans there.symm, same⟩
      · rw [shape'] at right
        exact Or.inr (across j elsewhere first left second right)
    · rw [shape] at left
      rcases read j with ⟨_, shape'⟩ | ⟨_, shape'⟩
      · rw [shape'] at right
        exact Or.inr (across i away second right first left).symm
      · rw [shape'] at right
        exact kept.separate i j first second left right

theorem Kept.fewer (kept : Kept rule lists links)
    (agree : ∀ j, j ≠ index → ∀ node ∈ records j (lists j), Agree links after node)
    (sublist : chunks.Sublist (lists index)) (listed : Listed after index chunks)
    (skips : firstLarge ≤ index → rule.Holds after index chunks) :
    Kept rule (Function.update lists index chunks) after := by
  apply kept.change agree listed skips ((kept.nodup index).sublist sublist)
  · exact fun chunk member => kept.valid index chunk (sublist.subset member)
  · exact fun large chunk member => kept.placed index large chunk (sublist.subset member)
  · intro first left second right
    exact (kept.separate index index first second (sublist.subset left)
      (sublist.subset right)).imp_left And.right
  · intro j differs first left second right
    refine (kept.separate index j first second (sublist.subset left) right).resolve_left ?_
    exact fun same => differs same.1.symm

theorem Kept.more (kept : Kept rule lists links) (front back : List FreeChunk)
    (agree : ∀ j, j ≠ index → ∀ node ∈ records j (lists j), Agree links after node)
    (shape : lists index = front ++ back) (listed : Listed after index (front ++ victim :: back))
    (skips : firstLarge ≤ index → rule.Holds after index (front ++ victim :: back))
    (valid : victim.Valid) (placed : 1 < index → binIndex victim.size = index)
    (outside : Outside lists victim) :
    Kept rule (Function.update lists index (front ++ victim :: back)) after := by
  have origin : ∀ chunk,
      chunk ∈ front ++ victim :: back ↔ chunk = victim ∨ chunk ∈ lists index := by
    intro chunk
    rw [shape]
    simp only [List.mem_append, List.mem_cons]
    tauto
  apply kept.change agree listed skips
  case nodup =>
    apply List.nodup_middle.mpr
    rw [← shape]
    refine List.nodup_cons.mpr ⟨?_, kept.nodup index⟩
    intro member
    exact separate_addr valid valid (outside index victim member) rfl
  case valid =>
    intro chunk member
    rcases (origin chunk).mp member with rfl | old
    · exact valid
    · exact kept.valid index chunk old
  case placed =>
    intro large chunk member
    rcases (origin chunk).mp member with rfl | old
    · exact placed large
    · exact kept.placed index large chunk old
  case within =>
    intro first left second right
    rcases (origin first).mp left with rfl | old
    · rcases (origin second).mp right with rfl | old'
      · exact Or.inl rfl
      · exact Or.inr (outside index second old')
    · rcases (origin second).mp right with rfl | old'
      · exact Or.inr (outside index first old).symm
      · exact (kept.separate index index first second old old').imp_left And.right
  case across =>
    intro j differs first left second right
    rcases (origin first).mp left with rfl | old
    · exact outside j second right
    · refine (kept.separate index j first second old right).resolve_left ?_
      exact fun same => differs same.1.symm

end SriGlibcMalloc.Bins
