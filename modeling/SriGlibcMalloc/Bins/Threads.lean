import SriGlibcMalloc.Bins.Pointers
import SriGlibcMalloc.CircularList.Pairing

/-!
# The skip lists, when a bin may be out of order

The records of a large bin that have pointers of a skip list, the bin perhaps among them, fall into
rings, and the first chunk is on one. So every walk that starts at the first chunk stays within
the bin, a chunk can be put before any record that such a walk ends at, and any chunk can be
unlinked.
-/

namespace SriGlibcMalloc.Bins

open CircularList EntryPoints
open MainArena (wrapSub wrap_sub_exact)

set_option autoImplicit false

structure Threaded (links : Links) (index : Nat) (chunks : List FreeChunk) : Prop where
  header : links.size (.header index) = 0
  paired : Paired .null links.fdNextsize links.bkNextsize {node | node ∈ records index chunks}
  first : ∀ chunk ∈ chunks.head?, links.fdNextsize chunk.node ≠ .null

variable {links after : Links} {lists : Nat → List FreeChunk} {index nb fuel : Nat}
variable {front back chunks : List FreeChunk} {chunk victim next : FreeChunk} {node fwd : Node}

theorem Threaded.frame (threaded : Threaded links index chunks)
    (agree : ∀ node ∈ records index chunks, Agree links after node) :
    Threaded after index chunks := by
  constructor
  case header =>
    rw [(agree _ header_record).size]
    exact threaded.header
  case paired =>
    exact threaded.paired.frame (fun node member => (agree node member).fdNextsize)
      fun node member => (agree node member).bkNextsize
  case first =>
    intro chunk isFirst
    rw [(agree _ (chunk_record (List.mem_of_mem_head? isFirst))).fdNextsize]
    exact threaded.first chunk isFirst

def threadRule : SkipRule where
  Holds := Threaded
  frame := Threaded.frame

/-- The lists that the pointers read, in whatever order. -/
abbrev Carries : (Nat → List FreeChunk) → Links → Prop := Kept threadRule

theorem Carries.threaded (carries : Carries lists links) (large : firstLarge ≤ index) :
    Threaded links index (lists index) :=
  carries.skips index large

theorem records_insert : {node | node ∈ records index (front ++ victim :: back)} =
    insert victim.node {node | node ∈ records index (front ++ back)} := by
  ext node
  change node ∈ records index (front ++ victim :: back) ↔
    node = victim.node ∨ node ∈ records index (front ++ back)
  rw [records_append, records_without]
  simp only [List.mem_append, List.mem_cons]
  tauto

theorem records_remove (distinct : (records index (front ++ victim :: back)).Nodup) :
    {node | node ∈ records index (front ++ back)} =
      {node | node ∈ records index (front ++ victim :: back)} \ {victim.node} := by
  rw [records_append, List.nodup_middle, List.nodup_cons, ← records_without] at distinct
  have absent : victim.node ∉ {node | node ∈ records index (front ++ back)} := distinct.1
  rw [records_insert, Set.insert_sdiff_self_of_notMem absent]

theorem link_before_reads (carries : Carries lists links) (valid : victim.Valid)
    (outside : Outside lists victim) (member : fwd ∈ records index (lists index)) :
    ∃ front back, lists index = front ++ back ∧
      Ring (links.link victim.node (links.bk fwd) fwd).fd
        (links.link victim.node (links.bk fwd) fwd).bk (records index (front ++ victim :: back)) ∧
      (front = [] → fwd = .header index ∧ lists index = [] ∨
        ∃ first ∈ (lists index).head?, fwd = first.node) := by
  have reads := (carries.listed index).reads
  have absent := carries.absent valid outside index
  have distinct := carries.distinct index
  rcases List.mem_cons.mp member with rfl | inside
  · refine ⟨lists index, [], (List.append_nil _).symm, ?_, fun empty => Or.inl ⟨rfl, empty⟩⟩
    have pushed : Ring _ _ ([victim.node] ++ records index (lists index)) :=
      reads.push distinct absent
    rw [records_append]
    exact pushed.rotate
  · obtain ⟨chunk, inList, rfl⟩ := List.mem_map.mp inside
    obtain ⟨front, back, shape⟩ := List.append_of_mem inList
    refine ⟨front, chunk :: back, shape, ?_, fun empty => Or.inr ⟨chunk, ?_, rfl⟩⟩
    · rw [shape, records_append] at reads distinct absent
      rw [records_append]
      exact reads.insert distinct absent
    · rw [shape, empty]
      rfl

section

variable (carries : Carries lists links) (large : firstLarge ≤ index) (valid : victim.Valid)
variable (outside : Outside lists victim) (size : links.size victim.node = victim.size)
variable (placed : binIndex victim.size = index)

include carries large valid outside size placed

theorem link_before_carries (prepared : Links) (member : fwd ∈ records index (lists index))
    (fd : prepared.fd = links.fd) (bk : prepared.bk = links.bk) (sizes : prepared.size = links.size)
    (agree : ∀ node, node ≠ victim.node → node ∉ records index (lists index) →
      Agree links prepared node)
    (paired : Paired .null prepared.fdNextsize prepared.bkNextsize
      (insert victim.node {node | node ∈ records index (lists index)}))
    (still : ∀ node, links.fdNextsize node ≠ .null → prepared.fdNextsize node ≠ .null)
    (first : prepared.fdNextsize victim.node ≠ .null ∨
      lists index ≠ [] ∧ ∀ chunk ∈ (lists index).head?, fwd ≠ chunk.node) :
    ∃ chunks, (∀ chunk ∈ chunks, chunk = victim ∨ chunk ∈ lists index) ∧
      Carries (Function.update lists index chunks)
        (prepared.link victim.node (links.bk fwd) fwd) := by
  obtain ⟨front, back, shape, reads, position⟩ :=
    @link_before_reads _ _ _ victim fwd carries valid outside member
  have threaded := carries.threaded large
  have before := ((carries.listed index).reads.backward member).1
  refine ⟨front ++ victim :: back, ?_, ?_⟩
  · intro chunk inside
    rw [shape]
    simp only [List.mem_append, List.mem_cons] at inside ⊢
    tauto
  · apply kept_of_insert carries large valid outside size placed shape
    case agree =>
      intro node fresh away
      exact (agree node fresh away).trans (link_away fresh away before member)
    case sizes => exact sizes
    case reads =>
      have same : (prepared.link victim.node (links.bk fwd) fwd).fd =
          (links.link victim.node (links.bk fwd) fwd).fd := by
        unfold Links.link Links.setFd Links.setBk
        dsimp only
        rw [fd]
      have same' : (prepared.link victim.node (links.bk fwd) fwd).bk =
          (links.link victim.node (links.bk fwd) fwd).bk := by
        unfold Links.link Links.setFd Links.setBk
        dsimp only
        rw [bk]
      rw [same, same']
      exact reads
    case skips =>
      constructor
      case header => exact (congrFun sizes _).trans threaded.header
      case paired =>
        rw [records_insert, ← shape]
        exact paired
      case first =>
        intro chunk isFirst
        cases front with
        | nil =>
            cases isFirst
            rcases first with used | ⟨occupied, others⟩
            · exact used
            · rcases position rfl with ⟨_, empty⟩ | ⟨chunk, isHead, same⟩
              · exact absurd empty occupied
              · exact absurd same (others chunk isHead)
        | cons start rest =>
            apply still
            apply threaded.first
            rw [shape]
            exact isFirst

theorem link_nextsize_carries {at' : Node} (member : fwd ∈ records index (lists index))
    (onList : at' ∈ records index (lists index)) (used : links.fdNextsize at' ≠ .null) :
    ∃ chunks, (∀ chunk ∈ chunks, chunk = victim ∨ chunk ∈ lists index) ∧
      Carries (Function.update lists index chunks)
        ((links.linkNextsize victim.node at').link victim.node (links.bk fwd) fwd) := by
  have threaded := carries.threaded large
  have absent := carries.absent valid outside index
  have before := (threaded.paired.backward at' onList used).1
  have notNull : victim.node ≠ .null := by rintro ⟨⟩
  have unused : victim.node ∈ {node | node ∈ records index (lists index)} →
      links.fdNextsize victim.node = .null := fun inside => absurd inside absent
  apply link_before_carries carries large valid outside size placed
    (links.linkNextsize victim.node at') member rfl rfl rfl
  case agree =>
    intro node fresh away
    apply link_nextsize_agree fresh
    · rintro rfl
      exact away before
    · rintro rfl
      exact away onList
  case paired => exact threaded.paired.insert unused notNull onList used
  case still =>
    intro node here
    unfold Links.linkNextsize Links.setFdNextsize Links.setBkNextsize
    dsimp only
    rw [Function.update_apply, Function.update_apply]
    split_ifs
    · exact notNull
    · exact threaded.paired.not_null onList
    · exact here
  case first =>
    left
    unfold Links.linkNextsize Links.setFdNextsize Links.setBkNextsize
    dsimp only
    rw [Function.update_apply, Function.update_self]
    split_ifs
    · exact notNull
    · exact threaded.paired.not_null onList

/-- A chunk is placed in a large bin, wherever the walk along the skip list ends. -/
theorem place_large_carries (null : links.fdNextsize victim.node = .null)
    (done : links.placeLarge fuel victim.node victim.size (.header index) = some after) :
    ∃ chunks, (∀ chunk ∈ chunks, chunk = victim ∨ chunk ∈ lists index) ∧
      Carries (Function.update lists index chunks) after := by
  have listed := carries.listed index
  have threaded := carries.threaded large
  have absent := carries.absent valid outside index
  have onward := listed.reads.onward header_record
  have notNull : victim.node ≠ .null := by rintro ⟨⟩
  unfold Links.placeLarge at done
  dsimp only at done
  cases shape : lists index with
  | nil =>
      have own : links.fd (.header index) = .header index ∧
          links.bk (.header index) = .header index := by
        have reads := listed.reads
        rw [shape] at reads
        exact ⟨(reads.closed _ rfl _ rfl).next, (reads.closed _ rfl _ rfl).prev⟩
      rw [if_pos own.1, own.1] at done
      cases done
      have unused : victim.node ∈ {node | node ∈ records index (lists index)} →
          links.fdNextsize victim.node = .null := fun inside => absurd inside absent
      have placedBefore := link_before_carries carries large valid outside size placed
        ((links.setFdNextsize victim.node victim.node).setBkNextsize victim.node victim.node)
        header_record rfl rfl rfl ?_ (threaded.paired.own unused notNull) ?_ ?_
      · rw [own.2] at placedBefore
        rw [← shape]
        exact placedBefore
      · intro node fresh _
        exact (set_fd_nextsize_agree fresh).trans (set_bk_nextsize_agree fresh)
      · intro node used
        unfold Links.setFdNextsize Links.setBkNextsize
        dsimp only
        rw [Function.update_apply]
        split_ifs
        · exact notNull
        · exact used
      · left
        exact (Function.update_self ..).trans_ne notNull
  | cons first rest =>
      have reads := listed.reads
      rw [shape] at reads
      have start : links.fd (.header index) = first.node := @Ring.next_eq _ _ _ [] _ _ _ reads
      have top : links.bk first.node = .header index := by
        rw [← start]
        exact onward.2
      have inside : first ∈ lists index := by
        rw [shape]
        exact List.mem_cons_self
      have isHead : first ∈ (lists index).head? := by
        rw [shape]
        exact rfl
      have used := threaded.first first isHead
      rw [start, if_neg (by rintro ⟨⟩)] at done
      rw [← shape]
      split_ifs at done with below
      · cases done
        exact link_nextsize_carries carries large valid outside size placed header_record
          (chunk_record inside) used
      · obtain ⟨target, walked, done⟩ := Option.bind_eq_some_iff.mp done
        obtain ⟨⟨member, further⟩, _⟩ :=
          threaded.paired.seek_onward ⟨chunk_record inside, used⟩ walked
        rw [if_neg (threaded.paired.not_null member)] at done
        split_ifs at done with same
        · cases done
          have around := listed.reads.onward member
          rw [around.2]
          have away : target ≠ .header index := by
            rintro rfl
            rw [threaded.header] at same
            have minimal := valid.size.minimal
            rw [same] at minimal
            exact absurd minimal (by decide)
          have placedBefore := link_before_carries carries large valid outside size placed links
            around.1 rfl rfl rfl (fun _ _ _ => Agree.refl) (threaded.paired.idle null notNull)
            (fun _ still => still) (Or.inr ⟨?_, ?_⟩)
          · rw [around.2] at placedBefore
            exact placedBefore
          · rw [shape]
            exact List.cons_ne_nil first rest
          · intro chunk isFirst equal
            cases Option.mem_unique isFirst isHead
            rw [equal, top] at around
            exact away around.2.symm
        · cases done
          exact link_nextsize_carries carries large valid outside size placed member member further

end

theorem threaded_of_unlink (carries : Carries lists links) (large : firstLarge ≤ index)
    (shape : lists index = front ++ victim :: back) (sizes : after.size = links.size)
    (paired : Paired .null after.fdNextsize after.bkNextsize
      ({node | node ∈ records index (lists index)} \ {victim.node}))
    (still : ∀ node, links.fdNextsize node ≠ .null → after.fdNextsize node ≠ .null)
    (first : front = [] → ∀ chunk ∈ back.head?, after.fdNextsize chunk.node ≠ .null) :
    Threaded after index (front ++ back) := by
  have threaded := carries.threaded large
  have distinct := carries.distinct index
  constructor
  case header => exact (congrFun sizes _).trans threaded.header
  case paired =>
    rw [shape] at distinct paired
    rw [records_remove distinct]
    exact paired
  case first =>
    intro chunk isFirst
    cases front with
    | nil => exact first rfl chunk isFirst
    | cons start rest =>
        apply still
        apply threaded.first
        rw [shape]
        exact isFirst

theorem update_not_null {pointers : Node → Node} {at' target : Node} (notNull : target ≠ .null)
    (used : pointers node ≠ .null) : Function.update pointers at' target node ≠ .null := by
  rw [Function.update_apply]
  split_ifs
  · exact notNull
  · exact used

/-- Any chunk of a large bin can be unlinked. -/
theorem unlink_large_carries (carries : Carries lists links) (large : firstLarge ≤ index)
    (shape : lists index = front ++ victim :: back) :
    ∃ after, links.binUnlink victim.node = some after ∧
      Carries (Function.update lists index (front ++ back)) after := by
  have threaded := carries.threaded large
  have member : victim ∈ lists index := by
    rw [shape]
    exact List.mem_append_right _ List.mem_cons_self
  have here : victim.node ∈ {node | node ∈ records index (lists index)} := chunk_record member
  obtain ⟨ahead, _⟩ := carries.around member
  have notNull : links.fd victim.node ≠ .null := threaded.paired.not_null ahead.1
  have next : ∀ chunk ∈ back.head?, links.fd victim.node = chunk.node := by
    intro chunk isNext
    cases back with
    | nil => cases isNext
    | cons second rest =>
        cases isNext
        have reads := (carries.listed index).reads
        rw [shape, records_append] at reads
        exact reads.next_eq
  by_cases unused : links.fdNextsize victim.node = .null
  · rw [bin_unlink_eq carries member]
    refine ⟨_, unlink_nextsize_none _ _ (Or.inr unused),
      kept_of_skips carries large shape (fun _ _ => Agree.refl) rfl rfl rfl ?_⟩
    refine threaded_of_unlink carries large shape rfl (threaded.paired.drop unused)
      (fun _ used => used) fun alone => ?_
    have used := threaded.first victim (by rw [shape, alone]; rfl)
    exact absurd unused used
  · obtain ⟨onward, _, behind⟩ := threaded.paired.onward _ here unused
    obtain ⟨backward, before⟩ := threaded.paired.backward _ here unused
    have onwardNotNull := threaded.paired.not_null onward
    have untouched : ∀ node, node ∉ records index (lists index) → ∀ record,
        record ∈ records index (lists index) → node ≠ record := by
      rintro node outside record inside rfl
      exact outside inside
    rw [bin_unlink_ring carries large member unused behind before]
    by_cases offRing : links.fdNextsize (links.fd victim.node) = .null
    · rw [if_pos offRing]
      by_cases alone : links.fdNextsize victim.node = victim.node
      · rw [if_pos alone]
        refine ⟨_, rfl, kept_of_skips carries large shape ?_ rfl rfl rfl ?_⟩
        · exact fun node away => own_agree (untouched node away _ ahead.1)
        · refine threaded_of_unlink carries large shape rfl
            (threaded.paired.inherit here alone ahead.1 offRing)
            (fun _ used => update_not_null notNull used) fun _ chunk isNext => ?_
          rw [← next chunk isNext]
          exact (Function.update_self ..).trans_ne notNull
      · rw [if_neg alone]
        refine ⟨_, rfl, kept_of_skips carries large shape ?_ rfl rfl rfl ?_⟩
        · exact fun node away => substitute_agree (untouched node away _ ahead.1)
            (untouched node away _ onward) (untouched node away _ backward)
        · refine threaded_of_unlink carries large shape rfl
            (threaded.paired.substitute here unused alone ahead.1 offRing)
            (fun _ used => update_not_null notNull (update_not_null onwardNotNull used))
            fun _ chunk isNext => ?_
          rw [← next chunk isNext]
          unfold Links.nextsizeSubstitute Links.setFdNextsize Links.setBkNextsize
          dsimp only
          rw [Function.update_apply, Function.update_self]
          split_ifs
          · exact notNull
          · exact onwardNotNull
    · rw [if_neg offRing]
      refine ⟨_, rfl, kept_of_skips carries large shape ?_ rfl rfl rfl ?_⟩
      · exact fun node away => remove_agree (untouched node away _ onward)
          (untouched node away _ backward)
      · refine threaded_of_unlink carries large shape rfl (threaded.paired.remove here unused)
          (fun _ used => update_not_null onwardNotNull used) fun _ chunk isNext => ?_
        rw [← next chunk isNext]
        exact update_not_null onwardNotNull offRing

theorem bin_unlink_carries (carries : Carries lists links) (positive : 0 < index)
    (shape : lists index = front ++ victim :: back) :
    ∃ after, links.binUnlink victim.node = some after ∧
      Carries (Function.update lists index (front ++ back)) after := by
  rcases Nat.lt_or_ge index firstLarge with small | large
  · exact unlink_small carries positive small shape
  · exact unlink_large_carries carries large shape

theorem place_carries (carries : Carries lists links) (valid : victim.Valid)
    (outside : Outside lists victim) (size : links.size victim.node = victim.size)
    (null : inSmallbinRange victim.size = false → links.fdNextsize victim.node = .null)
    (done : links.place fuel victim.node victim.size = some after) :
    ∃ chunks, (∀ chunk ∈ chunks, chunk = victim ∨ chunk ∈ lists (binIndex victim.size)) ∧
      Carries (Function.update lists (binIndex victim.size) chunks) after := by
  unfold Links.place at done
  dsimp only at done
  by_cases small : inSmallbinRange victim.size = true
  · rw [if_pos small] at done
    cases done
    have index : binIndex victim.size = smallbinIndex victim.size := if_pos small
    have few : binIndex victim.size < firstLarge := by
      rw [index]
      exact (smallbin_index_bounds valid.size small).2
    refine ⟨_, fun chunk member => List.mem_cons.mp member,
      link_first_kept carries few valid outside size (fun _ => rfl) fun _ large => null large⟩
  · rw [if_neg small] at done
    have large := Bool.eq_false_of_not_eq_true small
    refine place_large_carries carries ?_ valid outside size rfl (null large) done
    by_contra impossible
    exact small (small_of_index valid (Nat.not_le.mp impossible))

theorem carved_bins {i : Nat} (bin : 1 < i) : carved lists victim nb i = lists i := by
  unfold carved
  split_ifs
  · rfl
  · exact Function.update_of_ne (Nat.ne_of_gt bin) ..

theorem take_chunk_carries (carries : Carries lists links) (bin : 1 < index)
    (shape : lists index = front ++ victim :: back) (request : ChunkSize nb)
    (fits : nb ≤ victim.size) :
    ∃ after rest, links.takeChunk victim.node nb = some after ∧ Carries rest after ∧
      ∀ i, 1 < i → rest i = Function.update lists index (front ++ back) i := by
  obtain ⟨after, taken, rest⟩ := take_chunk_kept carries shape
    (bin_unlink_carries carries (Nat.lt_trans Nat.one_pos bin) shape) request fits
  exact ⟨after, _, taken, rest, fun i inside => carved_bins inside⟩

theorem taken_subset (shape : lists index = front ++ victim :: back) (i : Nat) :
    Function.update lists index (front ++ back) i ⊆ lists i := by
  by_cases same : i = index
  · rw [same, Function.update_self, shape]
    exact (List.Sublist.append_left (List.sublist_cons_self victim back) front).subset
  · rw [Function.update_of_ne same]
    exact List.Subset.refl _

theorem take_best_fit_carries (carries : Carries lists links) (request : ChunkSize nb)
    (done : links.takeBestFit fuel nb = some after) :
    ∃ rest, (∀ i, 1 < i → rest i ⊆ lists i) ∧ Carries rest after := by
  unfold Links.takeBestFit at done
  dsimp only at done
  split_ifs at done with nothing
  · cases done
    exact ⟨lists, fun _ _ => List.Subset.refl _, carries⟩
  rw [not_or, not_or] at nothing
  obtain ⟨notSmall, occupied, _⟩ := nothing
  have bounds := largebin_index_bounds (Nat.not_lt.mp ((small_iff request.word).not.mp notSmall))
    request.word
  have bin : 1 < largebinIndex64 nb := Nat.lt_of_lt_of_le (by decide) bounds.1
  have threaded := carries.threaded bounds.1
  have reads := (carries.listed (largebinIndex64 nb)).reads
  obtain ⟨target, walked, done⟩ := Option.bind_eq_some_iff.mp done
  -- The first chunk is on a ring, and so is whatever the walk ends at.
  have start : links.fd (.header (largebinIndex64 nb)) ∈
        {node | node ∈ records (largebinIndex64 nb) (lists (largebinIndex64 nb))} ∧
      links.fdNextsize (links.fd (.header (largebinIndex64 nb))) ≠ .null := by
    refine ⟨(reads.onward header_record).1, ?_⟩
    cases shape : lists (largebinIndex64 nb) with
    | nil =>
        rw [shape] at reads
        exact absurd (reads.closed _ rfl _ rfl).next occupied
    | cons first rest =>
        rw [shape] at reads
        have ahead : links.fd (.header (largebinIndex64 nb)) = first.node :=
          @Ring.next_eq _ _ _ [] _ _ _ reads
        rw [ahead]
        exact threaded.first first (by rw [shape]; rfl)
  have before := threaded.paired.backward _ start.1 start.2
  have used : links.fdNextsize (links.bkNextsize (links.fd (.header (largebinIndex64 nb)))) ≠
      .null := by
    rw [before.2]
    exact threaded.paired.not_null start.1
  obtain ⟨⟨member, _⟩, found⟩ := threaded.paired.seek_backward ⟨before.1, used⟩ walked
  have fits : nb ≤ links.size target := of_decide_eq_true found
  have takes : ∀ node ∈ records (largebinIndex64 nb) (lists (largebinIndex64 nb)),
      nb ≤ links.size node → links.takeChunk node nb = some after →
        ∃ rest, (∀ i, 1 < i → rest i ⊆ lists i) ∧ Carries rest after := by
    intro node inside large taken
    rcases List.mem_cons.mp inside with rfl | inside
    · rw [threaded.header] at large
      have minimal := request.minimal
      simp only [minSize] at minimal
      omega
    · obtain ⟨victim, inList, rfl⟩ := List.mem_map.mp inside
      obtain ⟨front, back, shape⟩ := List.append_of_mem inList
      rw [(carries.listed _).sizes victim inList] at large
      obtain ⟨after', rest, taken', carried, lists'⟩ :=
        take_chunk_carries carries bin shape request large
      rw [taken] at taken'
      cases taken'
      refine ⟨rest, fun i regular => ?_, carried⟩
      rw [lists' i regular]
      exact taken_subset shape i
  split_ifs at done with second
  · refine takes _ (reads.onward member).1 ?_ done
    rw [← second.2]
    exact fits
  · exact takes target member fits done

end SriGlibcMalloc.Bins
