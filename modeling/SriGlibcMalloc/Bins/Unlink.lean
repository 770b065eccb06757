import SriGlibcMalloc.Bins.Relink

/-!
# Taking a chunk off a list

Taking the last chunk of a large bin needs care when no other chunk has its size: the bin
itself would take its place on the skip list.
-/

namespace SriGlibcMalloc.Bins

open CircularList EntryPoints

set_option autoImplicit false

variable {links after : Links} {lists : Nat → List FreeChunk} {index : Nat}
variable {chunks front back : List FreeChunk} {chunk victim first second : FreeChunk}
variable {node : Node} {rule : SkipRule}

def Links.bypass (links : Links) (victim : Node) : Links :=
  (links.setBk (links.fd victim) (links.bk victim)).setFd (links.bk victim) (links.fd victim)

theorem bypass_reads (kept : Kept rule lists links)
    (shape : lists index = front ++ victim :: back) :
    Ring (links.bypass victim.node).fd (links.bypass victim.node).bk
      (records index (front ++ back)) := by
  have reads := (kept.listed index).reads
  have distinct := kept.distinct index
  rw [shape, records_append] at reads distinct
  rw [records_without]
  exact reads.remove distinct

theorem bypass_agree (kept : Kept rule lists links) (member : victim ∈ lists index) {j : Nat}
    (differs : j ≠ index) (other : node ∈ records j (lists j)) :
    Agree links (links.bypass victim.node) node := by
  obtain ⟨⟨ahead, _⟩, behind, _⟩ := kept.around member
  exact (set_bk_agree (kept.other differs other ahead)).trans
    (set_fd_agree (kept.other differs other behind))

theorem bypass_kept (kept : Kept rule lists links) (small : index < firstLarge)
    (shape : lists index = front ++ victim :: back) :
    Kept rule (Function.update lists index (front ++ back)) (links.bypass victim.node) := by
  have listed := kept.listed index
  have member : victim ∈ lists index := by
    rw [shape]
    exact List.mem_append_right _ List.mem_cons_self
  have sublist : (front ++ back).Sublist (lists index) := by
    rw [shape]
    exact List.Sublist.append_left (List.sublist_cons_self victim back) front
  apply kept.fewer (fun j differs node other => bypass_agree kept member differs other) sublist
  · constructor
    case reads => exact bypass_reads kept shape
    case sizes => exact fun chunk inside => listed.sizes chunk (sublist.subset inside)
    case waiting =>
      exact fun unsorted chunk inside => listed.waiting unsorted chunk (sublist.subset inside)
  · exact fun large => absurd small (Nat.not_lt.mpr large)

theorem take_last_kept (kept : Kept rule lists links) (small : index < firstLarge)
    (shape : lists index = front ++ [victim]) :
    Kept rule (Function.update lists index front) (links.takeLast (.header index)) := by
  obtain ⟨last, ahead⟩ := kept.last shape
  have taken := bypass_kept kept small shape
  unfold Links.bypass at taken
  rw [ahead, List.append_nil] at taken
  unfold Links.takeLast
  rw [last]
  exact taken

/-- The last chunk of a bin is the only one of its size, others are larger, and the bin has
never been on its skip list. -/
structure Exposed (links : Links) (index : Nat) (chunks : List FreeChunk) (victim : FreeChunk) :
    Prop where
  last : chunks.getLast? = some victim
  others : chunks ≠ [victim]
  single : ∀ chunk ∈ chunks, chunk.size = victim.size → chunk = victim
  header : links.fdNextsize (.header index) = .null

theorem bin_unlink_eq (kept : Kept rule lists links) (member : victim ∈ lists index) :
    links.binUnlink victim.node =
      (links.bypass victim.node).unlinkNextsize victim.node (links.fd victim.node) := by
  obtain ⟨⟨_, ahead⟩, _, behind⟩ := kept.around member
  unfold Links.binUnlink
  dsimp only
  rw [if_neg (not_or.mpr ⟨not_not.mpr ahead, not_not.mpr behind⟩)]
  rfl

theorem unlink_nextsize_none (p fdp : Node)
    (none : inSmallbinRange (links.size p) = true ∨ links.fdNextsize p = .null) :
    links.unlinkNextsize p fdp = some links := by
  unfold Links.unlinkNextsize
  dsimp only
  rw [if_pos none]

theorem unlink_small (kept : Kept rule lists links) (positive : 0 < index)
    (small : index < firstLarge) (shape : lists index = front ++ victim :: back) :
    ∃ after, links.binUnlink victim.node = some after ∧
      Kept rule (Function.update lists index (front ++ back)) after := by
  have listed := kept.listed index
  have member : victim ∈ lists index := by
    rw [shape]
    exact List.mem_append_right _ List.mem_cons_self
  have valid := kept.valid index victim member
  refine ⟨links.bypass victim.node, ?_, bypass_kept kept small shape⟩
  rw [bin_unlink_eq kept member]
  apply unlink_nextsize_none
  have size : (links.bypass victim.node).size victim.node = victim.size :=
    listed.sizes victim member
  rw [size]
  by_cases fits : inSmallbinRange victim.size = true
  · exact Or.inl fits
  · right
    rcases Nat.lt_or_ge 1 index with above | below
    · rw [← kept.placed index above victim member] at small
      exact absurd (small_of_index valid small) fits
    · have unsorted : index = 1 := by omega
      exact listed.waiting unsorted victim member (Bool.eq_false_of_not_eq_true fits)

theorem kept_of_skips (kept : Kept rule lists links) (large : firstLarge ≤ index)
    (shape : lists index = front ++ victim :: back)
    (agree : ∀ node, node ∉ records index (lists index) →
      Agree (links.bypass victim.node) after node)
    (fd : after.fd = (links.bypass victim.node).fd) (bk : after.bk = (links.bypass victim.node).bk)
    (size : after.size = links.size) (skips : rule.Holds after index (front ++ back)) :
    Kept rule (Function.update lists index (front ++ back)) after := by
  have listed := kept.listed index
  have member : victim ∈ lists index := by
    rw [shape]
    exact List.mem_append_right _ List.mem_cons_self
  have sublist : (front ++ back).Sublist (lists index) := by
    rw [shape]
    exact List.Sublist.append_left (List.sublist_cons_self victim back) front
  apply kept.fewer _ sublist _ fun _ => skips
  · intro j differs node other
    exact (bypass_agree kept member differs other).trans
      (agree node (kept.apart differs other))
  · constructor
    case reads =>
      rw [fd, bk]
      exact bypass_reads kept shape
    case sizes =>
      intro chunk inside
      rw [size]
      exact listed.sizes chunk (sublist.subset inside)
    case waiting =>
      intro unsorted
      rw [unsorted] at large
      exact absurd large (by decide)

theorem follows_of_heads (follows : Follows lists links) (large : firstLarge ≤ index)
    (shape : lists index = front ++ victim :: back)
    (agree : ∀ node, node ∉ records index (lists index) →
      Agree (links.bypass victim.node) after node)
    (fd : after.fd = (links.bypass victim.node).fd) (bk : after.bk = (links.bypass victim.node).bk)
    (size : after.size = links.size)
    (header : after.fdNextsize (.header index) = .null ∨
      after.fdNextsize (.header index) = .header index)
    (heads : Ring after.fdNextsize after.bkNextsize
      ((sizeHeads (front ++ back)).map FreeChunk.node))
    (skipped : ∀ chunk ∈ front ++ back, chunk ∉ sizeHeads (front ++ back) →
      after.fdNextsize chunk.node = .null) :
    Follows (Function.update lists index (front ++ back)) after := by
  have ordered := (follows.in_order large).ordered
  rw [shape] at ordered
  apply kept_of_skips follows large shape agree fd bk size
  refine ⟨header, ordered.sublist ?_, heads, skipped⟩
  exact List.Sublist.append_left (List.sublist_cons_self victim back) front

/-- What becomes of the skip list when the next record on the list is not on it, and the
chunk is alone on it. -/
def Links.nextsizeOwn (links : Links) (fdp : Node) : Links :=
  (links.setFdNextsize fdp fdp).setBkNextsize fdp fdp

def Links.nextsizeSubstitute (links : Links) (p fdp : Node) : Links :=
  (((links.setFdNextsize fdp (links.fdNextsize p)).setBkNextsize fdp
    (links.bkNextsize p)).setBkNextsize (links.fdNextsize p) fdp).setFdNextsize
      (links.bkNextsize p) fdp

def Links.nextsizeRemove (links : Links) (p : Node) : Links :=
  (links.setBkNextsize (links.fdNextsize p) (links.bkNextsize p)).setFdNextsize
    (links.bkNextsize p) (links.fdNextsize p)

theorem own_agree {fdp : Node} (other : node ≠ fdp) : Agree links (links.nextsizeOwn fdp) node :=
  (set_fd_nextsize_agree other).trans (set_bk_nextsize_agree other)

theorem substitute_agree {p fdp : Node} (other : node ≠ fdp) (next : node ≠ links.fdNextsize p)
    (prev : node ≠ links.bkNextsize p) : Agree links (links.nextsizeSubstitute p fdp) node :=
  ((set_fd_nextsize_agree other).trans (set_bk_nextsize_agree other)).trans
    ((set_bk_nextsize_agree next).trans (set_fd_nextsize_agree prev))

theorem remove_agree {p : Node} (next : node ≠ links.fdNextsize p)
    (prev : node ≠ links.bkNextsize p) : Agree links (links.nextsizeRemove p) node :=
  (set_bk_nextsize_agree next).trans (set_fd_nextsize_agree prev)

theorem unlink_nextsize_eq (links : Links) {p : Node} (fdp : Node)
    (large : inSmallbinRange (links.size p) = false) (head : links.fdNextsize p ≠ .null)
    (ahead : links.bkNextsize (links.fdNextsize p) = p)
    (behind : links.fdNextsize (links.bkNextsize p) = p) :
    links.unlinkNextsize p fdp =
      if links.fdNextsize fdp = .null then
        if links.fdNextsize p = p then some (links.nextsizeOwn fdp)
        else some (links.nextsizeSubstitute p fdp)
      else some (links.nextsizeRemove p) := by
  unfold Links.unlinkNextsize
  dsimp only
  rw [large, if_neg (not_or.mpr ⟨Bool.false_ne_true, head⟩),
    if_neg (not_or.mpr ⟨not_not.mpr ahead, not_not.mpr behind⟩)]
  rfl

/-- What `bin_unlink` does to a chunk that is on a skip list. -/
theorem bin_unlink_ring (kept : Kept rule lists links) (large : firstLarge ≤ index)
    (member : victim ∈ lists index) (used : links.fdNextsize victim.node ≠ .null)
    (ahead : links.bkNextsize (links.fdNextsize victim.node) = victim.node)
    (behind : links.fdNextsize (links.bkNextsize victim.node) = victim.node) :
    links.binUnlink victim.node =
      if links.fdNextsize (links.fd victim.node) = .null then
        if links.fdNextsize victim.node = victim.node then
          some ((links.bypass victim.node).nextsizeOwn (links.fd victim.node))
        else
          some ((links.bypass victim.node).nextsizeSubstitute victim.node (links.fd victim.node))
      else some ((links.bypass victim.node).nextsizeRemove victim.node) := by
  have size : (links.bypass victim.node).size victim.node = victim.size :=
    (kept.listed index).sizes victim member
  have placed := kept.placed index (Nat.lt_of_lt_of_le (by decide) large) victim member
  rw [bin_unlink_eq kept member]
  apply unlink_nextsize_eq
  · rw [size]
    rw [← placed] at large
    exact large_of_index (kept.valid index victim member) large
  · exact used
  · exact ahead
  · exact behind

theorem bin_unlink_head (follows : Follows lists links) (large : firstLarge ≤ index)
    (head : victim ∈ sizeHeads (lists index)) :
    links.binUnlink victim.node =
      if links.fdNextsize (links.fd victim.node) = .null then
        if links.fdNextsize victim.node = victim.node then
          some ((links.bypass victim.node).nextsizeOwn (links.fd victim.node))
        else
          some ((links.bypass victim.node).nextsizeSubstitute victim.node (links.fd victim.node))
      else some ((links.bypass victim.node).nextsizeRemove victim.node) := by
  obtain ⟨⟨_, ahead⟩, _, behind⟩ := follows.head_around large head
  exact bin_unlink_ring follows large (size_heads_members _ victim head)
    (follows.head_not_null large head) ahead behind

theorem unlink_skipped (follows : Follows lists links) (large : firstLarge ≤ index)
    (shape : lists index = front ++ victim :: back)
    (before : ∃ chunk ∈ front, chunk.size = victim.size) :
    ∃ after, links.binUnlink victim.node = some after ∧
      Follows (Function.update lists index (front ++ back)) after := by
  have listed := follows.listed index
  have nodup := follows.nodup index
  rw [shape, List.nodup_middle, List.nodup_cons] at nodup
  have member : victim ∈ lists index := by
    rw [shape]
    exact List.mem_append_right _ List.mem_cons_self
  have heads : sizeHeads (lists index) = sizeHeads (front ++ back) := by
    rw [shape]
    exact size_heads_skip before
  have later : victim ∉ sizeHeads (lists index) := by
    rw [heads]
    exact fun head => nodup.1 (size_heads_members _ victim head)
  refine ⟨links.bypass victim.node, ?_, ?_⟩
  · rw [bin_unlink_eq follows member]
    exact unlink_nextsize_none _ _ (Or.inr ((follows.in_order large).skipped victim member later))
  · apply follows_of_heads follows large shape (fun _ _ => Agree.refl) rfl rfl rfl (follows.in_order large).header
    · rw [← heads]
      exact (follows.in_order large).heads
    · intro chunk inside skipped
      rw [← heads] at skipped
      refine (follows.in_order large).skipped chunk ?_ skipped
      rw [shape]
      exact (List.Sublist.append_left (List.sublist_cons_self victim back) front).subset inside

theorem unlink_substituted (follows : Follows lists links) (large : firstLarge ≤ index)
    (shape : lists index = front ++ victim :: second :: back)
    (first : ∀ chunk ∈ front, chunk.size ≠ victim.size) (same : second.size = victim.size) :
    ∃ after, links.binUnlink victim.node = some after ∧
      Follows (Function.update lists index (front ++ second :: back)) after := by
  have listed := follows.listed index
  have ordered := (follows.in_order large).ordered
  have ring := (follows.in_order large).heads
  have distinct := follows.heads_distinct index
  have nodup := follows.nodup index
  rw [shape, List.nodup_middle, List.nodup_cons] at nodup
  have member : victim ∈ lists index := by
    rw [shape]
    exact List.mem_append_right _ List.mem_cons_self
  have member' : second ∈ lists index := by
    rw [shape]
    exact List.mem_append_right _ (List.mem_cons_of_mem _ List.mem_cons_self)
  rw [shape] at ordered
  have heads := ordered.size_heads first
  rw [← shape, size_heads_same same] at heads
  have onward : sizeHeads (front ++ second :: back) =
      sizeHeads front ++ sizeHeads (second :: back) := by
    apply Descending.size_heads
    · exact ordered.sublist (List.Sublist.append_left (List.sublist_cons_self _ _) front)
    · rw [same]
      exact first
  rw [sizeHeads.eq_2 second, same] at onward
  have later : second ∉ sizeHeads (lists index) := by
    rw [heads]
    intro head
    rcases List.mem_append.mp head with early | late
    · exact first second (size_heads_members _ second early) same
    · rcases List.mem_cons.mp late with rfl | late
      · exact nodup.1 (List.mem_append_right _ List.mem_cons_self)
      · exact of_decide_eq_true (List.mem_filter.mp late).2 same
  generalize (sizeHeads back).filter (fun other => decide (other.size ≠ victim.size)) = rest at *
  have head : victim ∈ sizeHeads (lists index) := by
    rw [heads]
    exact List.mem_append_right _ List.mem_cons_self
  have ahead : links.fd victim.node = second.node := by
    have reads := listed.reads
    rw [shape, records_append] at reads
    exact reads.next_eq
  have null : links.fdNextsize second.node = .null := (follows.in_order large).skipped second member' later
  obtain ⟨⟨onList, there⟩, onList', here⟩ := follows.head_around large head
  have kept : ∀ chunk ∈ front ++ second :: back,
      chunk ∉ sizeHeads (front ++ second :: back) →
        chunk ∈ lists index ∧ chunk ∉ sizeHeads (lists index) ∧ chunk.node ≠ second.node := by
    intro chunk inside skipped
    have old : chunk ∈ lists index := by
      rw [shape]
      exact (List.Sublist.append_left (List.sublist_cons_self victim _) front).subset inside
    rw [onward, List.mem_append, List.mem_cons, not_or, not_or] at skipped
    refine ⟨old, ?_, ?_⟩
    · rw [heads, List.mem_append, List.mem_cons, not_or, not_or]
      refine ⟨skipped.1, ?_, skipped.2.2⟩
      rintro rfl
      exact nodup.1 inside
    · intro equal
      exact skipped.2.1 (follows.record_inj old member' equal).2
  rw [bin_unlink_head follows large head, ahead, if_pos null]
  have touched : second.node ∈ records index (lists index) := chunk_record member'
  have header : Node.header index ≠ second.node := by rintro ⟨⟩
  have untouched : ∀ node, node ∉ records index (lists index) → ∀ record,
      record ∈ records index (lists index) → node ≠ record := by
    rintro node away record inside rfl
    exact away inside
  rw [heads, List.map_append, List.map_cons] at ring distinct
  by_cases alone : rest.map FreeChunk.node ++ (sizeHeads front).map FreeChunk.node = []
  · obtain ⟨noRest, noFront⟩ := List.append_eq_nil_iff.mp alone
    rw [noRest, noFront] at ring
    have onward' : links.fdNextsize victim.node = victim.node :=
      (ring.closed victim.node rfl victim.node rfl).next
    rw [if_pos onward']
    refine ⟨_, rfl, follows_of_heads follows large shape ?_ rfl rfl rfl ?_ ?_ ?_⟩
    · exact fun node away => own_agree (untouched node away _ touched)
    · exact (follows.in_order large).header_same (own_agree header).fdNextsize
    · rw [onward, List.map_append, List.map_cons, noRest, noFront]
      exact ring_singleton ⟨Function.update_self .., Function.update_self ..⟩
    · intro chunk inside skipped
      obtain ⟨old, missing, differs⟩ := kept chunk inside skipped
      exact (own_agree differs).fdNextsize.trans ((follows.in_order large).skipped chunk old missing)
  · rw [if_neg (ring.next_ne distinct alone)]
    have absent : second.node ∉
        (sizeHeads front).map FreeChunk.node ++ victim.node :: rest.map FreeChunk.node := by
      rw [← List.map_cons, ← List.map_append, ← heads]
      exact fun inside => follows.not_head member' later inside rfl
    refine ⟨_, rfl, follows_of_heads follows large shape ?_ rfl rfl rfl ?_ ?_ ?_⟩
    · intro node away
      exact substitute_agree (untouched node away _ touched)
        (untouched node away _ (heads_records onList))
        (untouched node away _ (heads_records onList'))
    · exact (follows.in_order large).header_same (substitute_agree header (head_not_header onList)
        (head_not_header onList')).fdNextsize
    · rw [onward, List.map_append, List.map_cons]
      exact ring.substitute distinct alone absent
    · intro chunk inside skipped
      obtain ⟨old, missing, differs⟩ := kept chunk inside skipped
      have same : _ = links.fdNextsize chunk.node := (substitute_agree differs
        (follows.not_head old missing onList) (follows.not_head old missing onList')).fdNextsize
      exact same.trans ((follows.in_order large).skipped chunk old missing)

theorem unlink_removed (follows : Follows lists links) (large : firstLarge ≤ index)
    (shape : lists index = front ++ victim :: back)
    (first : ∀ chunk ∈ front, chunk.size ≠ victim.size)
    (lower : ∀ chunk ∈ back, chunk.size ≠ victim.size)
    (next : links.fdNextsize (links.fd victim.node) ≠ .null) :
    ∃ after, links.binUnlink victim.node = some after ∧
      Follows (Function.update lists index (front ++ back)) after := by
  have listed := follows.listed index
  have ordered := (follows.in_order large).ordered
  have ring := (follows.in_order large).heads
  have distinct := follows.heads_distinct index
  have nodup := follows.nodup index
  rw [shape, List.nodup_middle, List.nodup_cons] at nodup
  rw [shape] at ordered
  have heads := ordered.size_heads first
  rw [← shape, size_heads_cons lower] at heads
  have rest : sizeHeads (front ++ back) = sizeHeads front ++ sizeHeads back := by
    apply size_heads_append
    intro chunk before other after
    have above := ordered.before chunk before
    have below := ordered.after other after
    have differs := first chunk before
    omega
  have head : victim ∈ sizeHeads (lists index) := by
    rw [heads]
    exact List.mem_append_right _ List.mem_cons_self
  obtain ⟨⟨onList, _⟩, onList', _⟩ := follows.head_around large head
  rw [bin_unlink_head follows large head, if_neg next]
  refine ⟨_, rfl, follows_of_heads follows large shape ?_ rfl rfl rfl ?_ ?_ ?_⟩
  · rintro node away
    apply remove_agree
    · rintro rfl
      exact away (heads_records onList)
    · rintro rfl
      exact away (heads_records onList')
  · exact (follows.in_order large).header_same
      (remove_agree (head_not_header onList) (head_not_header onList')).fdNextsize
  · rw [heads, List.map_append, List.map_cons] at ring distinct
    rw [rest, List.map_append]
    exact ring.remove distinct
  · intro chunk inside skipped
    have old : chunk ∈ lists index := by
      rw [shape]
      exact (List.Sublist.append_left (List.sublist_cons_self victim back) front).subset inside
    have later : chunk ∉ sizeHeads (lists index) := by
      rw [rest, List.mem_append] at skipped
      rw [heads, List.mem_append, List.mem_cons]
      rintro (early | rfl | late)
      · exact skipped (Or.inl early)
      · exact nodup.1 inside
      · exact skipped (Or.inr late)
    have same : _ = links.fdNextsize chunk.node := (remove_agree
      (follows.not_head old later onList) (follows.not_head old later onList')).fdNextsize
    exact same.trans ((follows.in_order large).skipped chunk old later)

theorem unlink_alone (follows : Follows lists links) (large : firstLarge ≤ index)
    (shape : lists index = [victim]) (header : links.fdNextsize (.header index) = .null) :
    ∃ after, links.binUnlink victim.node = some after ∧
      Follows (Function.update lists index []) after := by
  have ring := (follows.in_order large).heads
  have only : sizeHeads (lists index) = [victim] := by
    rw [shape]
    rfl
  have head : victim ∈ sizeHeads (lists index) := by
    rw [only]
    exact List.mem_cons_self
  have last : lists index = [] ++ [victim] := shape
  have onward : links.fdNextsize victim.node = victim.node := by
    rw [only] at ring
    exact (ring.closed victim.node rfl victim.node rfl).next
  rw [bin_unlink_head follows large head, (follows.last last).2, if_pos header, if_pos onward]
  refine ⟨_, rfl, follows_of_heads follows large last ?_ rfl rfl rfl ?_ ?_ ?_⟩
  · rintro node away
    apply own_agree
    rintro rfl
    exact away header_record
  · exact Or.inr (Function.update_self ..)
  · exact ring_nil
  · intro chunk absent
    cases absent

theorem unlink_large (follows : Follows lists links) (large : firstLarge ≤ index)
    (shape : lists index = front ++ victim :: back)
    (safe : ¬Exposed links index (lists index) victim) :
    ∃ after, links.binUnlink victim.node = some after ∧
      Follows (Function.update lists index (front ++ back)) after := by
  have listed := follows.listed index
  have ordered := (follows.in_order large).ordered
  rw [shape] at ordered
  by_cases before : ∃ chunk ∈ front, chunk.size = victim.size
  · exact unlink_skipped follows large shape before
  have first : ∀ chunk ∈ front, chunk.size ≠ victim.size :=
    fun chunk member same => before ⟨chunk, member, same⟩
  cases back with
  | nil =>
      have ahead := (follows.last shape).2
      have none : ∀ chunk ∈ ([] : List FreeChunk), chunk.size ≠ victim.size := by
        intro chunk absent
        cases absent
      by_cases header : links.fdNextsize (.header index) = .null
      · have alone : front = [] := by
          by_contra others
          refine safe ⟨?_, ?_, ?_, header⟩
          · rw [shape, List.getLast?_concat]
          · rw [shape]
            intro alone
            exact others (List.append_left_eq_self.mp alone)
          · intro chunk member same
            rw [shape] at member
            rcases List.mem_append.mp member with early | here
            · exact absurd same (first chunk early)
            · exact List.mem_singleton.mp here
        rw [alone] at shape ⊢
        exact unlink_alone follows large shape header
      · apply unlink_removed follows large shape first none
        rw [ahead]
        exact header
  | cons second back =>
      by_cases same : second.size = victim.size
      · exact unlink_substituted follows large shape first same
      · have lower : ∀ chunk ∈ second :: back, chunk.size ≠ victim.size := by
          intro chunk member
          have top := ordered.after second List.mem_cons_self
          have rest : Descending ((front ++ [victim]) ++ second :: back) := by
            rw [List.append_assoc]
            exact ordered
          rcases List.mem_cons.mp member with rfl | later
          · exact same
          · have below := rest.after chunk later
            omega
        apply unlink_removed follows large shape first lower
        have ahead : links.fd victim.node = second.node := by
          have reads := listed.reads
          rw [shape, records_append] at reads
          exact reads.next_eq
        rw [ahead]
        apply follows.head_not_null large
        have heads := ordered.size_heads first
        rw [← shape, size_heads_cons lower] at heads
        rw [heads, sizeHeads.eq_2 second]
        exact List.mem_append_right _ (List.mem_cons_of_mem _ List.mem_cons_self)

theorem bin_unlink_follows (follows : Follows lists links) (positive : 0 < index)
    (shape : lists index = front ++ victim :: back)
    (safe : firstLarge ≤ index → ¬Exposed links index (lists index) victim) :
    ∃ after, links.binUnlink victim.node = some after ∧
      Follows (Function.update lists index (front ++ back)) after := by
  rcases Nat.lt_or_ge index firstLarge with small | large
  · exact unlink_small follows positive small shape
  · exact unlink_large follows large shape (safe large)

end SriGlibcMalloc.Bins
