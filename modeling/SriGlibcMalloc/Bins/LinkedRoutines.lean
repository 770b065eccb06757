import SriGlibcMalloc.Bins.Placement
import SriGlibcMalloc.Bins.Unlink

/-!
# The routines on the pointers

Each part of `_int_malloc` does with the pointers what it does with the lists of the arena.
Only taking a chunk of a large bin asks for more than that the pointers read the lists.
-/

namespace SriGlibcMalloc.Bins

open CircularList EntryPoints
open MainArena (wrapSub wrap_sub_exact)

set_option autoImplicit false

/-- The lists of an arena; bin 1 has the unsorted chunks. -/
def Arena.lists (arena : Arena) : Nat → List FreeChunk :=
  Function.update arena.bins 1 arena.unsorted

def carved (lists : Nat → List FreeChunk) (victim : FreeChunk) (nb : Nat) : Nat → List FreeChunk :=
  let remainderSize := wrapSub victim.size nb
  if remainderSize < minSize then lists
  else Function.update lists 1 (⟨victim.addr + nb, remainderSize⟩ :: lists 1)

def takenSmall (lists : Nat → List FreeChunk) (nb : Nat) : Nat → List FreeChunk :=
  let index := smallbinIndex nb
  if inSmallbinRange nb then Function.update lists index (lists index).dropLast else lists

variable {arena next : Arena} {links after : Links} {lists : Nat → List FreeChunk}
variable {index nb : Nat} {rule : SkipRule} {front back chunks : List FreeChunk}
variable {chunk victim : FreeChunk}

@[simp] theorem lists_unsorted (arena : Arena) : arena.lists 1 = arena.unsorted :=
  Function.update_self ..

theorem lists_bin (bin : 1 < index) : arena.lists index = arena.bins index :=
  Function.update_of_ne (Nat.ne_of_gt bin) ..

theorem set_bin_lists (bin : 1 < index) :
    (arena.setBin index chunks).lists = Function.update arena.lists index chunks :=
  Function.update_comm (Nat.ne_of_gt bin) ..

theorem unsorted_lists (arena : Arena) (chunks : List FreeChunk) (lastRemainder : Option Nat) :
    Arena.lists { arena with unsorted := chunks, lastRemainder := lastRemainder } =
      Function.update arena.lists 1 chunks :=
  (Function.update_idem ..).symm

theorem Kept.removed_outside (kept : Kept rule lists links)
    (shape : lists index = front ++ victim :: back) :
    Outside (Function.update lists index (front ++ back)) victim := by
  have member : victim ∈ lists index := by
    rw [shape]
    exact List.mem_append_right _ List.mem_cons_self
  have nodup := kept.nodup index
  rw [shape, List.nodup_middle, List.nodup_cons] at nodup
  intro i other inside
  by_cases same : i = index
  · rw [same, Function.update_self] at inside
    have old : other ∈ lists index := by
      rw [shape]
      exact (List.Sublist.append_left (List.sublist_cons_self victim back) front).subset inside
    refine (kept.separate index index victim other member old).resolve_left ?_
    rintro ⟨_, rfl⟩
    exact nodup.1 inside
  · rw [Function.update_of_ne same] at inside
    exact (kept.separate index i victim other member inside).resolve_left
      fun equal => same equal.1.symm

theorem Outside.part (outside : Outside lists victim) (above : victim.addr ≤ chunk.addr)
    (below : chunk.addr + chunk.size ≤ victim.addr + victim.size) : Outside lists chunk := by
  intro i other member
  have apart := outside i other member
  unfold FreeChunk.Separate at apart ⊢
  omega

theorem Kept.erase_eq (kept : Kept rule lists links)
    (shape : lists index = front ++ victim :: back) :
    (lists index).erase victim = front ++ back := by
  have nodup := kept.nodup index
  rw [shape, List.nodup_middle, List.nodup_cons] at nodup
  have absent : victim ∉ front := fun member => nodup.1 (List.mem_append_left back member)
  rw [shape, List.erase_append_right _ absent, List.erase_cons_head]

theorem carve_kept (kept : Kept rule lists links) (valid : victim.Valid)
    (outside : Outside lists victim) (request : ChunkSize nb) (fits : nb ≤ victim.size) :
    ∃ after, links.carve victim.addr victim.size nb = some after ∧
      Kept rule (carved lists victim nb) after := by
  have word := valid.size.word
  unfold Links.carve carved
  dsimp only
  by_cases exhausted : wrapSub victim.size nb < minSize
  · rw [if_pos exhausted, if_pos exhausted]
    exact ⟨links, rfl, kept⟩
  · rw [if_neg exhausted, if_neg exhausted]
    have exact' : wrapSub victim.size nb = victim.size - nb := wrap_sub_exact fits (by omega)
    have prepared : Kept rule lists (links.setSize victim.node nb) := by
      apply kept.frame
      intro i node member
      exact set_size_agree (kept.unlisted valid outside member) nb
    have room : nb + minSize ≤ victim.size := by omega
    have inside : Outside lists ⟨victim.addr + nb, wrapSub victim.size nb⟩ := by
      apply outside.part
      · exact Nat.le_add_right _ _
      · dsimp only
        omega
    exact link_unsorted_kept prepared (remainder_valid valid request room) inside

theorem take_chunk_kept (kept : Kept rule lists links)
    (shape : lists index = front ++ victim :: back)
    (unlinks : ∃ after, links.binUnlink victim.node = some after ∧
      Kept rule (Function.update lists index (front ++ back)) after)
    (request : ChunkSize nb) (fits : nb ≤ victim.size) :
    ∃ after, links.takeChunk victim.node nb = some after ∧
      Kept rule (carved (Function.update lists index (front ++ back)) victim nb) after := by
  have member : victim ∈ lists index := by
    rw [shape]
    exact List.mem_append_right _ List.mem_cons_self
  obtain ⟨unlinked, taken, rest⟩ := unlinks
  obtain ⟨after, carved, split⟩ := carve_kept rest (kept.valid index victim member)
    (kept.removed_outside shape) request fits
  refine ⟨after, ?_, split⟩
  unfold Links.takeChunk FreeChunk.node
  have size : links.size (.chunk victim.addr) = victim.size :=
    (kept.listed index).sizes victim member
  have taken' : links.binUnlink (.chunk victim.addr) = some unlinked := taken
  dsimp only
  rw [taken', size, Option.bind_some]
  exact carved

theorem carve_lists (arena : Arena) (victim : FreeChunk) (nb : Nat) (advertise : Bool) :
    (arena.carve victim nb advertise).2.lists = carved arena.lists victim nb := by
  unfold Arena.carve carved
  dsimp only
  by_cases exhausted : wrapSub victim.size nb < minSize
  · rw [if_pos exhausted, if_pos exhausted]
  · rw [if_neg exhausted, if_neg exhausted, unsorted_lists, lists_unsorted]

theorem take_chunk_follows (follows : Follows arena.lists links) (bin : 1 < index)
    (shape : arena.bins index = front ++ victim :: back)
    (safe : firstLarge ≤ index → ¬Exposed links index (arena.bins index) victim)
    (request : ChunkSize nb) (fits : nb ≤ victim.size) (advertise : Bool) :
    ∃ after, links.takeChunk victim.node nb = some after ∧
      Follows ((arena.setBin index (front ++ back)).carve victim nb advertise).2.lists after := by
  rw [← lists_bin bin] at shape safe
  rw [carve_lists, set_bin_lists bin]
  exact take_chunk_kept follows shape
    (bin_unlink_follows follows (Nat.lt_trans Nat.one_pos bin) shape safe) request fits

theorem smallbin_index_bounds (request : ChunkSize nb) (small : inSmallbinRange nb = true) :
    1 < smallbinIndex nb ∧ smallbinIndex nb < firstLarge := by
  have below := (small_iff request.word).mp small
  have minimal := request.minimal
  rw [smallbin_index_eq below]
  simp only [minSize, firstLarge] at *
  omega

theorem take_small_kept (kept : Kept rule lists links) (request : ChunkSize nb) :
    ∃ after, links.takeSmall nb = some after ∧ Kept rule (takenSmall lists nb) after := by
  unfold Links.takeSmall takenSmall
  dsimp only
  by_cases small : inSmallbinRange nb = true
  · have few := (smallbin_index_bounds request small).2
    rw [if_pos small]
    rcases List.eq_nil_or_concat' (lists (smallbinIndex nb)) with empty | ⟨front, victim, shape⟩
    · have reads := (kept.listed (smallbinIndex nb)).reads
      rw [empty] at reads
      have own : links.bk (.header (smallbinIndex nb)) = .header (smallbinIndex nb) :=
        (reads.closed _ rfl _ rfl).prev
      rw [empty, if_pos (Or.inr own)]
      refine ⟨links, rfl, ?_⟩
      rw [List.dropLast_nil, ← empty, Function.update_eq_self]
      exact kept
    · obtain ⟨last, ahead⟩ := kept.last shape
      have member : victim ∈ lists (smallbinIndex nb) := by
        rw [shape]
        exact List.mem_append_right _ List.mem_cons_self
      have behind := (kept.around member).2.2
      have occupied : ¬(inSmallbinRange nb = false ∨ victim.node = .header (smallbinIndex nb)) := by
        rw [small]
        rintro (impossible | impossible) <;> cases impossible
      rw [last, if_neg occupied, if_neg (not_not.mpr behind), shape, List.dropLast_concat]
      exact ⟨_, rfl, take_last_kept kept few shape⟩
  · rw [if_neg small, if_pos (Or.inl (Bool.eq_false_of_not_eq_true small))]
    exact ⟨links, rfl, kept⟩

theorem take_small_lists (request : ChunkSize nb) :
    (arena.takeSmall nb).2.lists = takenSmall arena.lists nb := by
  unfold Arena.takeSmall takenSmall
  dsimp only
  by_cases small : inSmallbinRange nb = true
  · have bin := (smallbin_index_bounds request small).1
    rw [if_pos small, if_pos small, lists_bin bin]
    cases last : (arena.bins (smallbinIndex nb)).getLast? with
    | none =>
        rw [List.getLast?_eq_none_iff.mp last, List.dropLast_nil]
        refine (Function.update_eq_self_iff.mpr ?_).symm
        rw [lists_bin bin]
        exact (List.getLast?_eq_none_iff.mp last).symm
    | some victim => exact set_bin_lists bin
  · rw [if_neg small, if_neg small]

theorem take_small_follows (follows : Follows arena.lists links) (request : ChunkSize nb) :
    ∃ after, links.takeSmall nb = some after ∧ Follows (arena.takeSmall nb).2.lists after := by
  rw [take_small_lists request]
  exact take_small_kept follows request

/-- The order in which the pointers of the only record are written is of no account. -/
theorem relink_eq {Record : Type} [DecidableEq Record] (pointers : Record → Record)
    {bin remainder : Record} (differs : remainder ≠ bin) :
    Function.update (Function.update pointers bin remainder) remainder bin =
      Function.update (Function.update (Function.update pointers bin bin) remainder bin) bin
        remainder := by
  rw [Function.update_comm differs, Function.update_idem]

theorem split_remainder_eq (victim : FreeChunk) (nb : Nat)
    (last : links.bk unsortedChunks = victim.node) (alone : links.bk victim.node = unsortedChunks) :
    links.splitRemainder victim.addr victim.size nb =
      ((((links.takeLast unsortedChunks).setSize victim.node nb).setSize
        (.chunk (victim.addr + nb)) (wrapSub victim.size nb)).clearNextsize
          (.chunk (victim.addr + nb)) (wrapSub victim.size nb)).link
            (.chunk (victim.addr + nb)) unsortedChunks unsortedChunks := by
  have differs : Node.chunk (victim.addr + nb) ≠ unsortedChunks := by rintro ⟨⟩
  have fd := relink_eq links.fd differs
  have bk := relink_eq links.bk differs
  unfold Links.splitRemainder Links.takeLast Links.clearNextsize
  rw [last, alone]
  unfold Links.link Links.setFdNextsize Links.setBkNextsize Links.setFd Links.setBk Links.setSize
  dsimp only
  rw [fd, bk]
  split_ifs <;> rfl

theorem split_remainder_kept (kept : Kept rule lists links) (shape : lists 1 = [victim])
    (request : ChunkSize nb) (room : nb + minSize < victim.size) :
    Kept rule (Function.update lists 1 [⟨victim.addr + nb, wrapSub victim.size nb⟩])
      (links.splitRemainder victim.addr victim.size nb) := by
  have last : lists 1 = [] ++ [victim] := shape
  have member : victim ∈ lists 1 := by
    rw [shape]
    exact List.mem_cons_self
  have valid := kept.valid 1 victim member
  have word := valid.size.word
  have remainder := remainder_valid valid request (Nat.le_of_lt room)
  have exact' : wrapSub victim.size nb = victim.size - nb :=
    wrap_sub_exact (by omega) (by omega)
  obtain ⟨bottom, ahead⟩ := kept.last last
  have alone : links.bk victim.node = unsortedChunks := by
    have reads := (kept.listed 1).reads
    rw [shape] at reads
    exact (List.isChain_cons_cons.mp reads.chain).1.prev
  have taken := take_last_kept kept (by decide) last
  have outside := kept.removed_outside last
  have outside' : Outside (Function.update lists 1 [])
      ⟨victim.addr + nb, wrapSub victim.size nb⟩ := by
    apply outside.part
    · exact Nat.le_add_right _ _
    · dsimp only
      omega
  have prepared := taken.frame fun i node inside =>
    ((set_size_agree (taken.unlisted valid outside inside) nb).trans
      (set_size_agree (taken.unlisted remainder outside' inside) (wrapSub victim.size nb))).trans
        (clear_nextsize_agree (taken.unlisted remainder outside' inside)
          (wrapSub victim.size nb))
  have start : (links.takeLast unsortedChunks).fd unsortedChunks = unsortedChunks := by
    unfold Links.takeLast
    rw [show links.bk unsortedChunks = victim.node from bottom, alone]
    exact Function.update_self unsortedChunks unsortedChunks links.fd
  have linked := @link_first_kept _ _ 1 ⟨victim.addr + nb, wrapSub victim.size nb⟩ rule prepared
    (by decide) remainder outside' (by rw [clear_nextsize_size]; exact Function.update_self ..)
    (fun impossible => absurd impossible (by decide)) fun _ => clear_nextsize_null _ _
  rw [clear_nextsize_fd, Function.update_self, Function.update_idem] at linked
  have relinked : Kept rule _ (Links.link _ (.chunk (victim.addr + nb)) unsortedChunks
    ((links.takeLast unsortedChunks).fd unsortedChunks)) := linked
  rw [start] at relinked
  rw [split_remainder_eq victim nb bottom alone]
  exact relinked

theorem Kept.alone_iff (kept : Kept rule lists links) (shape : lists 1 = front ++ [victim]) :
    links.bk victim.node = unsortedChunks ↔ (lists 1).length = 1 := by
  have reads := (kept.listed 1).reads
  rw [shape, List.length_append, List.length_singleton, Nat.add_eq_right, List.length_eq_zero_iff]
  rcases List.eq_nil_or_concat' front with empty | ⟨others, before, split⟩
  · rw [shape, empty] at reads
    exact iff_of_true (List.isChain_cons_cons.mp reads.chain).1.prev empty
  · have occupied : front ≠ [] := by
      rw [split]
      exact List.concat_ne_nil before others
    refine iff_of_false ?_ occupied
    have linked : links.fd before.node = victim.node := by
      rw [shape, split, List.append_assoc, List.singleton_append, records_append] at reads
      exact reads.next_eq
    have member : before ∈ lists 1 := by
      rw [shape, split]
      exact List.mem_append_left _ (List.mem_append_right _ List.mem_cons_self)
    have back := (kept.around member).1.2
    rw [linked] at back
    rw [back]
    rintro ⟨⟩

theorem bin_chunk_lists (arena : Arena) (valid : victim.Valid) :
    (arena.binChunk victim).lists = Function.update arena.lists (binIndex victim.size)
      (if inSmallbinRange victim.size then victim :: arena.lists (binIndex victim.size)
        else insertLarge victim (arena.lists (binIndex victim.size))) := by
  have bin : 1 < binIndex victim.size := (bin_index_bounds valid.size).1
  rw [lists_bin bin, ← set_bin_lists bin]
  rfl

theorem sort_unsorted_follows {answer : Option FreeChunk} (follows : Follows arena.lists links)
    (request : ChunkSize nb)
    (sorted : arena.sortUnsorted nb 1 = some (answer, next)) :
    ∃ after, Linkage.sortUnsorted ⟨arena, links⟩ nb = some after ∧ Follows next.lists after := by
  rw [Arena.sortUnsorted] at sorted
  unfold Linkage.sortUnsorted
  dsimp only
  rcases List.eq_nil_or_concat' arena.unsorted with empty | ⟨front, victim, shape⟩
  · have reads := (follows.listed 1).reads
    rw [lists_unsorted, empty] at reads
    have own : links.bk unsortedChunks = .header 1 := (reads.closed _ rfl _ rfl).prev
    rw [empty] at sorted
    cases sorted
    rw [own]
    exact ⟨links, rfl, follows⟩
  · have listed : arena.lists 1 = front ++ [victim] := by
      rw [lists_unsorted, shape]
    have member : victim ∈ arena.lists 1 := by
      rw [listed]
      exact List.mem_append_right _ List.mem_cons_self
    have valid := follows.valid 1 victim member
    have last : links.bk unsortedChunks = .chunk victim.addr := (follows.last listed).1
    have size : links.size (.chunk victim.addr) = victim.size :=
      (follows.listed 1).sizes victim member
    have alone := follows.alone_iff listed
    have taken := take_last_kept follows (by decide) listed
    have rest : Function.update arena.lists 1 front =
        Arena.lists { arena with unsorted := front } :=
      (unsorted_lists arena front arena.lastRemainder).symm
    rw [shape, List.getLast?_concat, List.dropLast_concat] at sorted
    rw [last]
    dsimp only at sorted ⊢
    rw [size]
    by_cases corrupted : arena.corrupted victim = true
    · rw [if_pos corrupted] at sorted
      cases sorted
    have splits : (inSmallbinRange nb && decide (links.bk (.chunk victim.addr) = unsortedChunks) &&
        decide (arena.lastRemainder = some victim.addr) && decide (nb + minSize < victim.size)) =
          arena.splitsRemainder victim nb := by
      unfold Arena.splitsRemainder
      rw [← lists_unsorted, ← decide_eq_decide.mpr alone]
      rfl
    rw [if_neg corrupted] at sorted
    rw [if_neg corrupted, splits]
    by_cases split : arena.splitsRemainder victim nb = true
    · have facts := split
      simp only [Arena.splitsRemainder, Bool.and_eq_true, decide_eq_true_eq] at facts
      obtain ⟨⟨⟨_, single⟩, _⟩, room⟩ := facts
      have only : arena.lists 1 = [victim] := by
        rw [← lists_unsorted, listed, List.length_append, List.length_singleton,
          Nat.add_eq_right, List.length_eq_zero_iff] at single
        rw [listed, single]
        rfl
      rw [if_pos split] at sorted
      cases sorted
      rw [if_pos split]
      refine ⟨_, rfl, ?_⟩
      rw [unsorted_lists]
      exact split_remainder_kept follows only request room
    rw [if_neg split] at sorted
    rw [if_neg split]
    by_cases fits : victim.size = nb
    · rw [if_pos fits] at sorted
      cases sorted
      rw [if_pos fits, ← rest]
      exact ⟨_, rfl, taken⟩
    · rw [if_neg fits] at sorted
      cases sorted
      have outside := follows.removed_outside listed
      rw [List.append_nil, rest] at outside
      rw [rest] at taken
      rw [if_neg fits, bin_chunk_lists _ valid]
      apply place_follows taken valid outside size
      · exact (follows.listed 1).waiting rfl victim member
      · rw [lists_bin (bin_index_bounds valid.size).1]
        exact Nat.le_refl _

theorem second_of_size_eq (absent : victim ∉ front) :
    secondOfSize victim (front ++ victim :: back) =
      match back.head? with
      | some next => if next.size = victim.size then next else victim
      | none => victim := by
  have dropped : (front ++ victim :: back).dropWhile (fun chunk => decide (chunk ≠ victim)) =
      victim :: back := by
    rw [List.dropWhile_append_of_pos, List.dropWhile_cons_of_neg]
    · simp
    · intro chunk member
      rw [decide_eq_true_eq]
      rintro rfl
      exact absent member
  unfold secondOfSize
  rw [dropped]
  rfl

theorem seek_best_fit {fuel : Nat} {first : FreeChunk} {rest : List FreeChunk}
    (follows : Follows lists links) (large : firstLarge ≤ index)
    (shape : lists index = first :: rest) (fits : nb ≤ first.size)
    (enough : (lists index).length ≤ fuel) :
    ∃ head ∈ sizeHeads (lists index),
      (sizeHeads (lists index)).reverse.find? (fun chunk => decide (nb ≤ chunk.size)) =
        some head ∧
      seek links.bkNextsize (fun node => decide (nb ≤ links.size node)) fuel
        (links.bkNextsize first.node) = some head.node := by
  have listed := follows.listed index
  have ring := ((follows.in_order large).heads).reverse
  have length := (size_heads_sublist (lists index)).length_le
  have start : first ∈ sizeHeads (lists index) := by
    rw [shape]
    exact List.mem_cons_self
  obtain ⟨head, hit⟩ : ∃ head, (sizeHeads (lists index)).reverse.find?
      (fun chunk => decide (nb ≤ chunk.size)) = some head := by
    rw [← Option.isSome_iff_exists, List.find?_isSome]
    exact ⟨first, List.mem_reverse.mpr start, decide_eq_true fits⟩
  have member := List.mem_reverse.mp (List.mem_of_find?_eq_some hit)
  refine ⟨head, member, hit, ?_⟩
  rw [← List.map_reverse] at ring
  have found : ((sizeHeads (lists index)).reverse.map FreeChunk.node).find?
      (fun node => decide (nb ≤ links.size node)) = some head.node := by
    rw [List.find?_map, List.find?_congr fun chunk inside => ?_, hit]
    · rfl
    · dsimp only [Function.comp_apply]
      have old := size_heads_members _ chunk (List.mem_reverse.mp inside)
      rw [listed.sizes chunk old]
  have isLast : first.node ∈ ((sizeHeads (lists index)).reverse.map FreeChunk.node).getLast? := by
    rw [List.getLast?_map, List.getLast?_reverse, shape]
    rfl
  obtain ⟨lowest, higher, turned⟩ := List.exists_cons_of_ne_nil
    (List.reverse_ne_nil_iff.mpr (List.ne_nil_of_mem start))
  rw [← List.length_reverse, ← List.length_map FreeChunk.node, turned] at length
  rw [turned] at ring found isLast
  rw [(ring.closed first.node isLast lowest.node rfl).next]
  exact seek_chain ring.chain found (Nat.le_trans length enough)

theorem second_node (follows : Follows lists links) {head : FreeChunk}
    (member : head ∈ lists index) :
    (if head.node ≠ links.bk (.header index) ∧
        links.size head.node = links.size (links.fd head.node) then links.fd head.node
      else head.node) = (secondOfSize head (lists index)).node := by
  have listed := follows.listed index
  obtain ⟨front, back, shape⟩ := List.append_of_mem member
  have nodup := follows.nodup index
  rw [shape, List.nodup_middle, List.nodup_cons] at nodup
  have absent : head ∉ front := fun inside => nodup.1 (List.mem_append_left back inside)
  have chosen := @second_of_size_eq front back head absent
  rw [← shape] at chosen
  rw [chosen]
  cases back with
  | nil =>
      have bottom := (follows.last shape).1
      rw [if_neg fun both => both.1 bottom.symm]
      rfl
  | cons second back =>
      have inside : second ∈ lists index := by
        rw [shape]
        exact List.mem_append_right _ (List.mem_cons_of_mem _ List.mem_cons_self)
      have ahead : links.fd head.node = second.node := by
        have reads := listed.reads
        rw [shape, records_append] at reads
        exact reads.next_eq
      have higher : head.node ≠ links.bk (.header index) := by
        intro bottom
        have around := (listed.reads.backward header_record).2
        rw [← bottom, ahead] at around
        cases around
      rw [ahead, listed.sizes head member, listed.sizes second inside, List.head?_cons]
      dsimp only
      by_cases same : second.size = head.size
      · rw [if_pos ⟨higher, same.symm⟩, if_pos same]
      · rw [if_neg fun both => same both.2.symm, if_neg same]

theorem take_best_fit_eq {fuel : Nat} (follows : Follows lists links)
    (request : inSmallbinRange nb = false) (large : firstLarge ≤ largebinIndex64 nb)
    (enough : (lists (largebinIndex64 nb)).length ≤ fuel) :
    links.takeBestFit fuel nb =
      match bestFitVictim (lists (largebinIndex64 nb)) nb with
      | none => some links
      | some victim => links.takeChunk victim.node nb := by
  have listed := follows.listed (largebinIndex64 nb)
  have reads := listed.reads
  unfold Links.takeBestFit bestFitVictim
  dsimp only
  rw [request]
  cases shape : lists (largebinIndex64 nb) with
  | nil =>
      have own : links.fd (.header (largebinIndex64 nb)) = .header (largebinIndex64 nb) := by
        rw [shape] at reads
        exact (reads.closed _ rfl _ rfl).next
      rw [if_pos (Or.inr (Or.inl own))]
  | cons first rest =>
      have start : links.fd (.header (largebinIndex64 nb)) = first.node := by
        rw [shape] at reads
        exact @Ring.next_eq _ _ _ [] _ _ _ reads
      have inside : first ∈ lists (largebinIndex64 nb) := by
        rw [shape]
        exact List.mem_cons_self
      rw [start, listed.sizes first inside]
      dsimp only
      by_cases fits : nb ≤ first.size
      · obtain ⟨head, member, hit, walked⟩ := seek_best_fit follows large shape fits enough
        have chosen := second_node follows (size_heads_members _ head member)
        rw [shape] at hit chosen
        rw [if_neg, if_pos fits, walked, hit, Option.bind_some, Option.map_some]
        · dsimp only
          rw [← chosen]
          split_ifs <;> rfl
        · rintro (impossible | impossible | small)
          · cases impossible
          · cases impossible
          · exact absurd fits (Nat.not_le.mpr small)
      · rw [if_pos (Or.inr (Or.inr (Nat.not_le.mp fits))), if_neg fits]

theorem take_best_fit_follows {fuel : Nat} (follows : Follows arena.lists links)
    (request : ChunkSize nb) (enough : (arena.bins (largebinIndex64 nb)).length ≤ fuel)
    (safe : inSmallbinRange nb = false → ∀ victim,
      bestFitVictim (arena.bins (largebinIndex64 nb)) nb = some victim →
        ¬Exposed links (largebinIndex64 nb) (arena.bins (largebinIndex64 nb)) victim) :
    ∃ after, links.takeBestFit fuel nb = some after ∧
      Follows (arena.takeBestFit nb).2.lists after := by
  by_cases small : inSmallbinRange nb = true
  · unfold Links.takeBestFit Arena.takeBestFit
    dsimp only
    rw [if_pos small, if_pos (Or.inl small)]
    exact ⟨links, rfl, follows⟩
  have large := Bool.eq_false_of_not_eq_true small
  have above := (small_iff request.word).not.mp small
  have bounds := largebin_index_bounds (Nat.not_lt.mp above) request.word
  have bin : 1 < largebinIndex64 nb := by omega
  have listed : arena.lists (largebinIndex64 nb) = arena.bins (largebinIndex64 nb) := lists_bin bin
  have chosen := take_best_fit_eq follows large bounds.1 (listed ▸ enough)
  rw [listed] at chosen
  rw [chosen]
  unfold Arena.takeBestFit
  dsimp only
  rw [if_neg small]
  cases found : bestFitVictim (arena.bins (largebinIndex64 nb)) nb with
  | none => exact ⟨links, rfl, follows⟩
  | some victim =>
      obtain ⟨member, fits⟩ := best_fit_victim_spec found
      obtain ⟨front, back, shape⟩ := List.append_of_mem member
      have erased := follows.erase_eq (listed.trans shape)
      rw [listed] at erased
      dsimp only
      rw [erased]
      exact take_chunk_follows follows bin shape (fun _ => safe large victim found) request fits
        false

theorem take_scanned_follows {answer : Option FreeChunk} (binned : Binned arena)
    (follows : Follows arena.lists links) (request : ChunkSize nb)
    (taken : arena.takeScanned scanFuel nb = some (answer, next))
    (safe : ∀ found index victim, arena.search scanFuel nb = some found →
      found.place = some (index, victim) → firstLarge ≤ index →
        ¬Exposed links index (arena.bins index) victim) :
    ∃ after, Linkage.takeScanned ⟨arena, links⟩ nb = some after ∧ Follows next.lists after := by
  obtain ⟨⟨binmap, place⟩, searched, lowest⟩ := binned.search request
  unfold Arena.takeScanned at taken
  unfold Linkage.takeScanned
  rw [searched] at taken
  rw [searched, Option.bind_some]
  cases place with
  | none =>
      cases taken
      exact ⟨links, rfl, follows⟩
  | some place =>
      obtain ⟨index, victim⟩ := place
      obtain ⟨above, _, last, _⟩ := lowest.something index victim rfl
      have fits := binned.larger request (List.mem_of_getLast? last) above
      have bounds := bin_index_bounds request
      have bin : 1 < index := by omega
      have shape : arena.bins index = (arena.bins index).dropLast ++ [victim] :=
        (List.dropLast_append_getLast? victim last).symm
      have bottom := (follows.last ((lists_bin bin).trans shape)).1
      have cleared : Follows (Arena.lists { arena with binmap := binmap }) links := follows
      have split := take_chunk_follows cleared bin shape (safe _ index victim searched rfl) request
        (Nat.le_of_lt fits) true
      rw [List.append_nil] at split
      have result := (Prod.mk.inj (Option.some.inj taken)).2
      dsimp only
      rw [bottom, ← result]
      exact split

end SriGlibcMalloc.Bins
