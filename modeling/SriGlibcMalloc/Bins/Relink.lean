import SriGlibcMalloc.Bins.SkipRing

/-!
# Putting a chunk on a list

A pointer operation changes one list, and the pointers read the new one. A chunk becomes
the first one of a list, or goes to its place in a large bin.
-/

namespace SriGlibcMalloc.Bins

open CircularList EntryPoints

set_option autoImplicit false

variable {links after : Links} {lists : Nat → List FreeChunk} {index fuel : Nat}
variable {chunks front back : List FreeChunk} {chunk victim first second : FreeChunk}
variable {node target : Node} {rule : SkipRule}

theorem Agree.refl : Agree links links node := ⟨rfl, rfl, rfl, rfl, rfl⟩

theorem Agree.trans {between : Links} (left : Agree links between node)
    (right : Agree between after node) : Agree links after node :=
  ⟨right.size.trans left.size, right.fd.trans left.fd, right.bk.trans left.bk,
    right.fdNextsize.trans left.fdNextsize, right.bkNextsize.trans left.bkNextsize⟩

theorem set_size_agree (other : node ≠ target) (size : Nat) :
    Agree links (links.setSize target size) node :=
  ⟨Function.update_of_ne other .., rfl, rfl, rfl, rfl⟩

theorem set_fd_agree {value : Node} (other : node ≠ target) :
    Agree links (links.setFd target value) node :=
  ⟨rfl, Function.update_of_ne other .., rfl, rfl, rfl⟩

theorem set_bk_agree {value : Node} (other : node ≠ target) :
    Agree links (links.setBk target value) node :=
  ⟨rfl, rfl, Function.update_of_ne other .., rfl, rfl⟩

theorem set_fd_nextsize_agree {value : Node} (other : node ≠ target) :
    Agree links (links.setFdNextsize target value) node :=
  ⟨rfl, rfl, rfl, Function.update_of_ne other .., rfl⟩

theorem set_bk_nextsize_agree {value : Node} (other : node ≠ target) :
    Agree links (links.setBkNextsize target value) node :=
  ⟨rfl, rfl, rfl, rfl, Function.update_of_ne other ..⟩

theorem link_agree {bck fwd : Node} (fresh : node ≠ target) (before : node ≠ bck)
    (later : node ≠ fwd) : Agree links (links.link target bck fwd) node :=
  ((set_bk_agree fresh).trans (set_fd_agree fresh)).trans
    ((set_bk_agree later).trans (set_fd_agree before))

theorem link_nextsize_agree {fwd : Node} (fresh : node ≠ target)
    (before : node ≠ links.bkNextsize fwd) (later : node ≠ fwd) :
    Agree links (links.linkNextsize target fwd) node :=
  ((set_fd_nextsize_agree fresh).trans (set_bk_nextsize_agree fresh)).trans
    ((set_bk_nextsize_agree later).trans (set_fd_nextsize_agree before))

theorem clear_nextsize_agree (other : node ≠ target) (size : Nat) :
    Agree links (links.clearNextsize target size) node := by
  unfold Links.clearNextsize
  split_ifs
  · exact Agree.refl
  · exact (set_fd_nextsize_agree other).trans (set_bk_nextsize_agree other)

@[simp] theorem clear_nextsize_fd (links : Links) (target : Node) (size : Nat) :
    (links.clearNextsize target size).fd = links.fd := by
  unfold Links.clearNextsize
  split_ifs <;> rfl

@[simp] theorem clear_nextsize_size (links : Links) (target : Node) (size : Nat) :
    (links.clearNextsize target size).size = links.size := by
  unfold Links.clearNextsize
  split_ifs <;> rfl

theorem clear_nextsize_null (links : Links) (target : Node) {size : Nat}
    (large : inSmallbinRange size = false) :
    (links.clearNextsize target size).fdNextsize target = .null := by
  unfold Links.clearNextsize
  rw [large]
  exact Function.update_self ..

theorem records_append : records index (front ++ victim :: back) =
    (.header index :: front.map FreeChunk.node) ++ victim.node :: back.map FreeChunk.node := by
  unfold records
  rw [List.map_append]
  rfl

theorem records_without : records index (front ++ back) =
    (.header index :: front.map FreeChunk.node) ++ back.map FreeChunk.node := by
  unfold records
  rw [List.map_append]
  rfl

theorem Kept.other (kept : Kept rule lists links) {j : Nat} (differs : j ≠ index)
    (member : node ∈ records j (lists j)) (here : target ∈ records index (lists index)) :
    node ≠ target := by
  rintro rfl
  exact kept.apart differs member here

theorem Kept.unlisted (kept : Kept rule lists links) (valid : victim.Valid)
    (outside : Outside lists victim) {j : Nat} (member : node ∈ records j (lists j)) :
    node ≠ victim.node := by
  rintro rfl
  exact kept.absent valid outside j member

theorem Kept.around (kept : Kept rule lists links) (member : victim ∈ lists index) :
    (links.fd victim.node ∈ records index (lists index) ∧
        links.bk (links.fd victim.node) = victim.node) ∧
      links.bk victim.node ∈ records index (lists index) ∧
        links.fd (links.bk victim.node) = victim.node :=
  ⟨(kept.listed index).reads.onward (chunk_record member),
    (kept.listed index).reads.backward (chunk_record member)⟩

theorem Kept.last (kept : Kept rule lists links) (shape : lists index = front ++ [victim]) :
    links.bk (.header index) = victim.node ∧ links.fd victim.node = .header index := by
  have reads := (kept.listed index).reads
  have member : victim ∈ lists index := by
    rw [shape]
    exact List.mem_append_right _ List.mem_cons_self
  have ahead : links.fd victim.node = .header index := by
    rw [shape, records_append] at reads
    exact reads.next_last
  have back := (kept.around member).1.2
  rw [ahead] at back
  exact ⟨back, ahead⟩

/-- The pointers of the records that are on lists are all that counts. -/
theorem Kept.frame (kept : Kept rule lists links)
    (agree : ∀ i, ∀ node ∈ records i (lists i), Agree links after node) :
    Kept rule lists after where
  listed := fun i => (kept.listed i).frame (agree i)
  skips := fun i large => rule.frame (kept.skips i large) (agree i)
  nodup := kept.nodup
  valid := kept.valid
  placed := kept.placed
  separate := kept.separate

theorem InOrder.header_same (inOrder : InOrder links index chunks)
    (same : after.fdNextsize (.header index) = links.fdNextsize (.header index)) :
    after.fdNextsize (.header index) = .null ∨
      after.fdNextsize (.header index) = .header index := by
  rw [same]
  exact inOrder.header

theorem link_first_kept (kept : Kept rule lists links) (small : index < firstLarge)
    (valid : victim.Valid) (outside : Outside lists victim)
    (size : links.size victim.node = victim.size)
    (placed : 1 < index → binIndex victim.size = index)
    (waiting : index = 1 → inSmallbinRange victim.size = false →
      links.fdNextsize victim.node = .null) :
    Kept rule (Function.update lists index (victim :: lists index))
      (links.link victim.node (.header index) (links.fd (.header index))) := by
  have listed := kept.listed index
  have absent := kept.absent valid outside index
  obtain ⟨inside, _⟩ := listed.reads.onward header_record
  apply kept.more [] (lists index) _ rfl _ _ valid placed outside
  · intro j differs node member
    apply link_agree
    · exact kept.unlisted valid outside member
    · exact kept.other differs member header_record
    · exact kept.other differs member inside
  · constructor
    case reads => exact listed.reads.push_after (kept.distinct index) absent
    case sizes =>
      intro chunk member
      rcases List.mem_cons.mp member with rfl | old
      · exact size
      · exact listed.sizes chunk old
    case waiting =>
      intro unsorted chunk member large
      rcases List.mem_cons.mp member with rfl | old
      · exact waiting unsorted large
      · exact listed.waiting unsorted chunk old large
  · exact fun large => absurd small (Nat.not_lt.mpr large)

theorem link_unsorted_eq (links : Links) (victim : Node) (size : Nat)
    (back : links.bk (links.fd unsortedChunks) = unsortedChunks) :
    links.linkUnsorted victim size =
      some (((links.setSize victim size).clearNextsize victim size).link victim unsortedChunks
        (links.fd unsortedChunks)) := by
  unfold Links.linkUnsorted Links.clearNextsize
  dsimp only
  rw [if_neg (not_not.mpr back)]
  split_ifs <;> rfl

theorem link_unsorted_kept (kept : Kept rule lists links) (valid : victim.Valid)
    (outside : Outside lists victim) :
    ∃ after, links.linkUnsorted victim.node victim.size = some after ∧
      Kept rule (Function.update lists 1 (victim :: lists 1)) after := by
  have back := ((kept.listed 1).reads.onward header_record).2
  have prepared : Kept rule lists
      ((links.setSize victim.node victim.size).clearNextsize victim.node victim.size) := by
    apply kept.frame
    intro i node member
    have away := kept.unlisted valid outside member
    exact (set_size_agree away _).trans (clear_nextsize_agree away _)
  refine ⟨_, link_unsorted_eq links victim.node victim.size back, ?_⟩
  have linked := @link_first_kept _ lists 1 victim rule prepared (by decide) valid outside
    (by rw [clear_nextsize_size]; exact Function.update_self ..)
    (fun impossible => absurd impossible (by decide)) fun _ => clear_nextsize_null _ _
  rw [clear_nextsize_fd] at linked
  exact linked

theorem Follows.head_around (follows : Follows lists links) (large : firstLarge ≤ index)
    (head : chunk ∈ sizeHeads (lists index)) :
    (links.fdNextsize chunk.node ∈ (sizeHeads (lists index)).map FreeChunk.node ∧
        links.bkNextsize (links.fdNextsize chunk.node) = chunk.node) ∧
      links.bkNextsize chunk.node ∈ (sizeHeads (lists index)).map FreeChunk.node ∧
        links.fdNextsize (links.bkNextsize chunk.node) = chunk.node :=
  ⟨(follows.in_order large).heads.onward (List.mem_map_of_mem head),
    (follows.in_order large).heads.backward (List.mem_map_of_mem head)⟩

theorem heads_records (member : node ∈ (sizeHeads chunks).map FreeChunk.node) :
    node ∈ records index chunks := by
  obtain ⟨chunk, head, rfl⟩ := List.mem_map.mp member
  exact chunk_record (size_heads_members chunks chunk head)

theorem Follows.head_not_null (follows : Follows lists links) (large : firstLarge ≤ index)
    (head : chunk ∈ sizeHeads (lists index)) : links.fdNextsize chunk.node ≠ .null := by
  obtain ⟨other, _, same⟩ := List.mem_map.mp (follows.head_around large head).1.1
  rw [← same]
  rintro ⟨⟩

theorem Follows.heads_distinct (follows : Follows lists links) (index : Nat) :
    ((sizeHeads (lists index)).map FreeChunk.node).Nodup := by
  apply List.Nodup.map_on _ (size_heads_nodup _)
  intro first left second right same
  exact (follows.record_inj (size_heads_members _ first left)
    (size_heads_members _ second right) same).2

theorem Follows.not_head (follows : Follows lists links) (inside : chunk ∈ lists index)
    (later : chunk ∉ sizeHeads (lists index))
    (head : node ∈ (sizeHeads (lists index)).map FreeChunk.node) : chunk.node ≠ node := by
  rintro rfl
  obtain ⟨other, member, same⟩ := List.mem_map.mp head
  have equal := (follows.record_inj (size_heads_members _ other member) inside same).2
  exact later (equal ▸ member)

theorem head_not_header (head : node ∈ (sizeHeads chunks).map FreeChunk.node) :
    Node.header index ≠ node := by
  rintro rfl
  obtain ⟨_, _, same⟩ := List.mem_map.mp head
  cases same

theorem small_of_index (valid : victim.Valid) (small : binIndex victim.size < firstLarge) :
    inSmallbinRange victim.size = true := by
  by_contra large
  have word := valid.size.word
  have above := (small_iff word).not.mp large
  rw [binIndex, if_neg large] at small
  have bounds := largebin_index_bounds (by omega) word
  simp only [firstLarge] at small
  omega

theorem large_of_index (valid : victim.Valid) (large : firstLarge ≤ binIndex victim.size) :
    inSmallbinRange victim.size = false := by
  by_contra impossible
  have small := Bool.eq_true_of_not_eq_false impossible
  have below := (small_iff valid.size.word).mp small
  rw [binIndex, if_pos small, smallbin_index_eq below] at large
  simp only [firstLarge] at large
  omega

end SriGlibcMalloc.Bins
