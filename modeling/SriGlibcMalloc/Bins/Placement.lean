import Mathlib.Data.List.Find
import SriGlibcMalloc.Bins.Relink

/-!
# A chunk is placed in a bin

A small bin takes a chunk at its front. A large bin is kept in order: a chunk of a new size
comes before the first smaller one, or last, and is put on the skip list; a chunk of a size
that is there becomes the second of this size.
-/

namespace SriGlibcMalloc.Bins

open CircularList EntryPoints

set_option autoImplicit false

variable {links after : Links} {lists : Nat → List FreeChunk} {index fuel : Nat}
variable {front back headsFront headsBack : List FreeChunk} {chunk victim next : FreeChunk}
variable {node : Node} {rule : SkipRule}

theorem link_nextsize_ring (follows : Follows lists links) (large : firstLarge ≤ index)
    (valid : victim.Valid) (outside : Outside lists victim)
    (heads : sizeHeads (lists index) = headsFront ++ next :: headsBack) :
    Ring (links.linkNextsize victim.node next.node).fdNextsize
      (links.linkNextsize victim.node next.node).bkNextsize
      ((headsFront ++ victim :: next :: headsBack).map FreeChunk.node) := by
  have ring := (follows.in_order large).heads
  have distinct := follows.heads_distinct index
  have absent : victim.node ∉ (sizeHeads (lists index)).map FreeChunk.node := fun head =>
    follows.absent valid outside index (heads_records head)
  rw [heads, List.map_append, List.map_cons] at ring distinct absent
  rw [List.map_append, List.map_cons, List.map_cons]
  exact ring.insert distinct absent

theorem link_nextsize_kept (follows : Follows lists links) (large : firstLarge ≤ index)
    (valid : victim.Valid) (outside : Outside lists victim)
    (head : next ∈ sizeHeads (lists index)) (member : node ∈ records index (lists index))
    (skipped : node ∉ (sizeHeads (lists index)).map FreeChunk.node) :
    (links.linkNextsize victim.node next.node).fdNextsize node = links.fdNextsize node := by
  obtain ⟨_, behind, _⟩ := follows.head_around large head
  apply Agree.fdNextsize
  apply link_nextsize_agree
  · exact follows.unlisted valid outside member
  · rintro rfl
    exact skipped behind
  · rintro rfl
    exact skipped (List.mem_map_of_mem head)

theorem link_nextsize_away (follows : Follows lists links) (large : firstLarge ≤ index)
    (head : next ∈ sizeHeads (lists index)) (fresh : node ≠ victim.node)
    (away : node ∉ records index (lists index)) :
    Agree links (links.linkNextsize victim.node next.node) node := by
  obtain ⟨_, behind, _⟩ := follows.head_around large head
  apply link_nextsize_agree fresh
  · rintro rfl
    exact away (heads_records behind)
  · rintro rfl
    exact away (heads_records (List.mem_map_of_mem head))

theorem link_away {bck fwd : Node} (fresh : node ≠ victim.node)
    (away : node ∉ records index (lists index)) (before : bck ∈ records index (lists index))
    (later : fwd ∈ records index (lists index)) :
    Agree links (links.link victim.node bck fwd) node := by
  apply link_agree fresh
  · rintro rfl
    exact away before
  · rintro rfl
    exact away later

theorem seek_not_larger {first : FreeChunk} {rest : List FreeChunk} {size : Nat}
    (follows : Follows lists links) (large : firstLarge ≤ index)
    (shape : lists index = first :: rest)
    (hit : (lists index).find? (fun chunk => decide (chunk.size ≤ size)) = some next)
    (enough : (lists index).length ≤ fuel) :
    seek links.fdNextsize (fun node => decide (links.size node ≤ size)) fuel first.node =
      some next.node := by
  have listed := follows.listed index
  have chain := ((follows.in_order large).heads).chain
  have length := (size_heads_sublist (lists index)).length_le
  have found : ((sizeHeads (lists index)).map FreeChunk.node).find?
      (fun node => decide (links.size node ≤ size)) = some next.node := by
    rw [List.find?_map, List.find?_congr fun chunk member => ?_, find_size_heads, hit]
    · rfl
    · dsimp only [Function.comp_apply]
      rw [listed.sizes chunk (size_heads_members _ chunk member)]
  rw [← List.length_map FreeChunk.node] at length
  rw [shape] at chain found length enough
  exact seek_chain chain found (Nat.le_trans length enough)

theorem kept_of_insert (kept : Kept rule lists links) (large : firstLarge ≤ index)
    (valid : victim.Valid) (outside : Outside lists victim)
    (size : links.size victim.node = victim.size) (placed : binIndex victim.size = index)
    (shape : lists index = front ++ back)
    (agree : ∀ node, node ≠ victim.node → node ∉ records index (lists index) →
      Agree links after node)
    (sizes : after.size = links.size)
    (reads : Ring after.fd after.bk (records index (front ++ victim :: back)))
    (skips : rule.Holds after index (front ++ victim :: back)) :
    Kept rule (Function.update lists index (front ++ victim :: back)) after := by
  have listed := kept.listed index
  apply kept.more front back _ shape _ (fun _ => skips) valid (fun _ => placed) outside
  · intro j differs node member
    exact agree node (kept.unlisted valid outside member) (kept.apart differs member)
  · constructor
    case reads => exact reads
    case sizes =>
      intro chunk member
      rw [sizes]
      rw [List.mem_append, List.mem_cons] at member
      rcases member with early | rfl | late
      · exact listed.sizes chunk (shape ▸ List.mem_append_left back early)
      · exact size
      · exact listed.sizes chunk (shape ▸ List.mem_append_right front late)
    case waiting =>
      intro unsorted
      rw [unsorted] at large
      exact absurd large (by decide)

section

variable (follows : Follows lists links) (large : firstLarge ≤ index) (valid : victim.Valid)
variable (outside : Outside lists victim) (size : links.size victim.node = victim.size)
variable (placed : binIndex victim.size = index)

include follows large valid outside size placed

/-- The pointers of the bin and those of its skip list are all there is to show. -/
theorem follows_of_insert (shape : lists index = front ++ back)
    (agree : ∀ node, node ≠ victim.node → node ∉ records index (lists index) →
      Agree links after node)
    (sizes : after.size = links.size)
    (reads : Ring after.fd after.bk (records index (front ++ victim :: back)))
    (header : after.fdNextsize (.header index) = links.fdNextsize (.header index))
    (larger : ∀ chunk ∈ front, victim.size ≤ chunk.size)
    (smaller : ∀ chunk ∈ back, chunk.size ≤ victim.size)
    (heads : Ring after.fdNextsize after.bkNextsize
      ((sizeHeads (front ++ victim :: back)).map FreeChunk.node))
    (skipped : ∀ chunk ∈ front ++ victim :: back, chunk ∉ sizeHeads (front ++ victim :: back) →
      after.fdNextsize chunk.node = .null) :
    Follows (Function.update lists index (front ++ victim :: back)) after := by
  have inOrder := follows.in_order large
  have ordered := inOrder.ordered
  rw [shape] at ordered
  apply kept_of_insert follows large valid outside size placed shape agree sizes reads
  exact ⟨inOrder.header_same header, ordered.insert larger smaller, heads, skipped⟩

theorem place_alone (empty : lists index = []) :
    Follows (Function.update lists index [victim])
      (((links.setFdNextsize victim.node victim.node).setBkNextsize victim.node
        victim.node).link victim.node (.header index) (links.fd (.header index))) := by
  have listed := follows.listed index
  have absent := follows.absent valid outside index
  have distinct := follows.distinct index
  have reads := listed.reads
  have own := (reads.onward header_record).1
  have differs : Node.header index ≠ victim.node := by rintro ⟨⟩
  rw [empty] at reads absent distinct
  have shape : lists index = [] ++ [] := empty
  apply follows_of_insert follows large valid outside size placed shape
  case agree =>
    intro node fresh away
    exact ((set_fd_nextsize_agree fresh).trans (set_bk_nextsize_agree fresh)).trans
      (link_away fresh away header_record own)
  case sizes => rfl
  case reads => exact reads.push_after distinct absent
  case header =>
    have kept : (links.setFdNextsize victim.node victim.node).fdNextsize (.header index) =
        links.fdNextsize (.header index) := (set_fd_nextsize_agree differs).fdNextsize
    exact kept
  case larger => exact fun _ absent => absurd absent List.not_mem_nil
  case smaller => exact fun _ absent => absurd absent List.not_mem_nil
  case heads => exact ring_singleton ⟨Function.update_self .., Function.update_self ..⟩
  case skipped =>
    intro chunk member later
    exact absurd member later

theorem place_last {first : FreeChunk} {rest : List FreeChunk}
    (shape : lists index = first :: rest)
    (larger : ∀ chunk ∈ first :: rest, victim.size < chunk.size) :
    Follows (Function.update lists index (first :: rest ++ [victim]))
      ((links.linkNextsize victim.node first.node).link victim.node (links.bk (.header index))
        (.header index)) := by
  have listed := follows.listed index
  have absent := follows.absent valid outside index
  have distinct := follows.distinct index
  have last := (listed.reads.backward header_record).1
  have heads : sizeHeads (lists index) = [] ++ first :: (sizeHeads rest).filter
      fun other => other.size ≠ first.size := by
    rw [shape]
    rfl
  have head : first ∈ sizeHeads (lists index) := by
    rw [heads]
    exact List.mem_cons_self
  have after : sizeHeads (first :: rest ++ [victim]) = sizeHeads (first :: rest) ++ [victim] := by
    apply size_heads_append
    intro chunk member other new
    rw [List.mem_singleton.mp new]
    exact Nat.ne_of_lt (larger chunk member)
  apply follows_of_insert follows large valid outside size placed
  case shape =>
    rw [shape]
    exact (List.append_nil _).symm
  case agree =>
    intro node fresh away
    exact (link_nextsize_away follows large head fresh away).trans
      (link_away fresh away last header_record)
  case sizes => rfl
  case reads =>
    have pushed : Ring _ _ ([victim.node] ++ records index (lists index)) :=
      listed.reads.push distinct absent
    rw [shape] at pushed
    rw [records_append]
    exact pushed.rotate
  case header =>
    apply link_nextsize_kept follows large valid outside head header_record
    exact fun inside => head_not_header inside rfl
  case larger => exact fun chunk member => Nat.le_of_lt (larger chunk member)
  case smaller => exact fun _ absent => absurd absent List.not_mem_nil
  case heads =>
    have ring : Ring _ _ ([victim.node] ++ (sizeHeads (first :: rest)).map FreeChunk.node) :=
      link_nextsize_ring follows large valid outside heads
    rw [after, List.map_append]
    exact ring.rotate
  case skipped =>
    intro chunk member later
    rw [after, List.mem_append, not_or, ← shape] at later
    rcases List.mem_append.mp member with old | new
    · rw [← shape] at old
      refine Eq.trans ?_ ((follows.in_order large).skipped chunk old later.1)
      apply link_nextsize_kept follows large valid outside head (chunk_record old)
      exact fun inside => follows.not_head old later.1 inside rfl
    · exact absurd new later.2

theorem place_before (shape : lists index = front ++ next :: back)
    (larger : ∀ chunk ∈ front, victim.size < chunk.size) (smaller : next.size < victim.size) :
    Follows (Function.update lists index (front ++ victim :: next :: back))
      ((links.linkNextsize victim.node next.node).link victim.node (links.bk next.node)
        next.node) := by
  have listed := follows.listed index
  have absent := follows.absent valid outside index
  have distinct := follows.distinct index
  have ordered := (follows.in_order large).ordered
  have member : next ∈ lists index := by
    rw [shape]
    exact List.mem_append_right _ List.mem_cons_self
  have before := (listed.reads.backward (chunk_record member)).1
  rw [shape] at ordered
  have lower : ∀ chunk ∈ next :: back, chunk.size < victim.size := by
    intro chunk inside
    rcases List.mem_cons.mp inside with rfl | later
    · exact smaller
    · exact Nat.lt_of_le_of_lt (ordered.after chunk later) smaller
  have heads : sizeHeads (lists index) = sizeHeads front ++ next :: (sizeHeads back).filter
      fun other => other.size ≠ next.size := by
    rw [shape]
    apply ordered.size_heads
    intro chunk early
    have above := larger chunk early
    omega
  have head : next ∈ sizeHeads (lists index) := by
    rw [heads]
    exact List.mem_append_right _ List.mem_cons_self
  have after : sizeHeads (front ++ victim :: next :: back) =
      sizeHeads front ++ victim :: sizeHeads (next :: back) := by
    rw [← size_heads_cons fun chunk inside => Nat.ne_of_lt (lower chunk inside)]
    apply size_heads_append
    intro chunk early other late
    have above := larger chunk early
    rcases List.mem_cons.mp late with rfl | late
    · exact Nat.ne_of_lt above
    · have below := lower other late
      omega
  apply follows_of_insert follows large valid outside size placed shape
  case agree =>
    intro node fresh away
    exact (link_nextsize_away follows large head fresh away).trans
      (link_away fresh away before (chunk_record member))
  case sizes => rfl
  case reads =>
    have reads := listed.reads
    rw [shape, records_append] at reads distinct absent
    rw [records_append]
    exact reads.insert distinct absent
  case header =>
    apply link_nextsize_kept follows large valid outside head header_record
    exact fun inside => head_not_header inside rfl
  case larger => exact fun chunk early => Nat.le_of_lt (larger chunk early)
  case smaller => exact fun chunk late => Nat.le_of_lt (lower chunk late)
  case heads =>
    rw [after]
    exact link_nextsize_ring follows large valid outside heads
  case skipped =>
    intro chunk inside later
    have old : chunk ∈ lists index ∧ chunk ∉ sizeHeads (lists index) := by
      rw [after, List.mem_append, List.mem_cons, not_or, not_or] at later
      rw [List.mem_append, List.mem_cons] at inside
      rw [heads, shape, List.mem_append, List.mem_append, not_or]
      exact ⟨inside.imp_right fun late => late.resolve_left later.2.1, later.1, later.2.2⟩
    refine Eq.trans ?_ ((follows.in_order large).skipped chunk old.1 old.2)
    apply link_nextsize_kept follows large valid outside head (chunk_record old.1)
    exact fun inside => follows.not_head old.1 old.2 inside rfl

theorem place_second (shape : lists index = front ++ next :: back)
    (larger : ∀ chunk ∈ front, victim.size < chunk.size) (same : victim.size = next.size)
    (null : links.fdNextsize victim.node = .null) :
    Follows (Function.update lists index (front ++ next :: victim :: back))
      (links.link victim.node next.node (links.fd next.node)) := by
  have listed := follows.listed index
  have absent := follows.absent valid outside index
  have distinct := follows.distinct index
  have ordered := (follows.in_order large).ordered
  have member : next ∈ lists index := by
    rw [shape]
    exact List.mem_append_right _ List.mem_cons_self
  have ahead := (listed.reads.onward (chunk_record member)).1
  have split : lists index = (front ++ [next]) ++ back := by
    rw [shape, List.append_assoc]
    rfl
  have heads : sizeHeads ((front ++ [next]) ++ victim :: back) = sizeHeads (lists index) := by
    rw [split]
    apply size_heads_skip
    exact ⟨next, List.mem_append_right _ List.mem_cons_self, same.symm⟩
  have inserted : Follows (Function.update lists index ((front ++ [next]) ++ victim :: back))
      (links.link victim.node next.node (links.fd next.node)) := by
    apply follows_of_insert follows large valid outside size placed split
    case agree =>
      intro node fresh away
      exact link_away fresh away (chunk_record member) ahead
    case sizes => rfl
    case reads =>
      have reads := listed.reads
      rw [shape, records_append] at reads distinct absent
      rw [List.append_assoc]
      unfold records
      rw [List.map_append]
      exact reads.insert_after distinct absent
    case header => rfl
    case larger =>
      intro chunk early
      rcases List.mem_append.mp early with before | here
      · exact Nat.le_of_lt (larger chunk before)
      · rw [List.mem_singleton.mp here]
        exact Nat.le_of_eq same
    case smaller =>
      intro chunk late
      rw [same]
      rw [shape] at ordered
      exact ordered.after chunk late
    case heads =>
      rw [heads]
      exact (follows.in_order large).heads
    case skipped =>
      intro chunk inside later
      rw [heads] at later
      rw [List.mem_append, List.mem_cons] at inside
      by_cases new : chunk = victim
      · rw [new]
        exact null
      · refine (follows.in_order large).skipped chunk ?_ later
        rw [split, List.mem_append]
        exact inside.imp_right fun late => late.resolve_left new
  rw [List.append_assoc] at inserted
  exact inserted

theorem place_large_follows (null : links.fdNextsize victim.node = .null)
    (enough : (lists index).length ≤ fuel) :
    ∃ after, links.placeLarge fuel victim.node victim.size (.header index) = some after ∧
      Follows (Function.update lists index (insertLarge victim (lists index))) after := by
  have listed := follows.listed index
  have ordered := (follows.in_order large).ordered
  have reads := listed.reads
  unfold Links.placeLarge
  dsimp only
  cases shape : lists index with
  | nil =>
      have own : links.fd (.header index) = .header index := by
        rw [shape] at reads
        exact (reads.closed _ rfl _ rfl).next
      rw [if_pos own]
      exact ⟨_, rfl, place_alone follows large valid outside size placed shape⟩
  | cons first rest =>
      have start : links.fd (.header index) = first.node := by
        rw [shape] at reads
        exact @Ring.next_eq _ _ _ [] _ _ _ reads
      obtain ⟨smallest, last⟩ := Option.isSome_iff_exists.mp
        (List.getLast?_isSome.mpr (List.cons_ne_nil first rest))
      have inside : smallest ∈ lists index := by
        rw [shape]
        exact List.mem_of_getLast? last
      have split : lists index = (first :: rest).dropLast ++ [smallest] := by
        rw [shape]
        exact (List.dropLast_append_getLast? smallest last).symm
      have bottom := (follows.last split).1
      rw [start, if_neg (by rintro ⟨⟩), bottom, listed.sizes smallest inside]
      unfold insertLarge
      rw [last]
      dsimp only
      by_cases below : victim.size < smallest.size
      · rw [if_pos below, if_pos below]
        refine ⟨_, rfl, ?_⟩
        rw [← bottom]
        apply place_last follows large valid outside size placed shape
        intro chunk member
        rw [split] at ordered
        rw [← shape, split] at member
        rcases List.mem_append.mp member with early | here
        · exact Nat.lt_of_lt_of_le below (ordered.before chunk early)
        · rw [List.mem_singleton.mp here]
          exact below
      · rw [if_neg below, if_neg below]
        obtain ⟨front, next, back, cut, small, larger, hit⟩ :=
          first_not_larger last (Nat.not_lt.mp below)
        rw [← shape] at hit cut
        have member : next ∈ lists index := by
          rw [cut]
          exact List.mem_append_right _ List.mem_cons_self
        rw [seek_not_larger follows large shape hit enough, Option.bind_some,
          if_neg (by rintro ⟨⟩), listed.sizes next member, ← shape, cut,
          insert_sorted_at larger small]
        by_cases same : victim.size = next.size
        · rw [if_pos same, if_pos same]
          refine ⟨_, rfl, ?_⟩
          rw [(follows.around member).1.2]
          exact place_second follows large valid outside size placed cut larger same null
        · rw [if_neg same, if_neg same]
          have smaller := Nat.lt_of_le_of_ne small (Ne.symm same)
          exact ⟨_, rfl, place_before follows large valid outside size placed cut larger smaller⟩

end

theorem place_follows (follows : Follows lists links) (valid : victim.Valid)
    (outside : Outside lists victim) (size : links.size victim.node = victim.size)
    (null : inSmallbinRange victim.size = false → links.fdNextsize victim.node = .null)
    (enough : (lists (binIndex victim.size)).length ≤ fuel) :
    ∃ after, links.place fuel victim.node victim.size = some after ∧
      Follows (Function.update lists (binIndex victim.size)
        (if inSmallbinRange victim.size then victim :: lists (binIndex victim.size)
          else insertLarge victim (lists (binIndex victim.size)))) after := by
  have bounds := bin_index_bounds valid.size
  have word := valid.size.word
  unfold Links.place
  dsimp only
  by_cases small : inSmallbinRange victim.size = true
  · rw [if_pos small, if_pos small]
    refine ⟨_, rfl, link_first_kept follows ?_ valid outside size (fun _ => rfl) ?_⟩
    · rw [binIndex, if_pos small, smallbin_index_eq ((small_iff word).mp small)]
      have below := (small_iff word).mp small
      simp only [firstLarge]
      omega
    · intro _ large
      exact null large
  · have large := Bool.eq_false_of_not_eq_true small
    rw [if_neg small, if_neg small]
    apply place_large_follows follows _ valid outside size rfl (null large) enough
    by_contra impossible
    exact small (small_of_index valid (Nat.not_le.mp impossible))

end SriGlibcMalloc.Bins
