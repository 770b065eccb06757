import SriGlibcMalloc.Metadata.Frame

/-!
# The list loops of the table

One specification per loop of `metadata.c`: what it returns and what the chain
of its bin is afterwards, together with the frame (links outside the bin, and
everything that is not a link, are unchanged). `keyOf` names the chunks of the
buckets, which no loop changes.
-/

namespace SriGlibcMalloc.MetadataTable

open PointerList

set_option autoImplicit false

variable {table : Metadata} {bin : BinPtr} {index : Nat}
variable {keyOf : BucketPtr → Chunk} {front back rest : List BucketPtr}

theorem link_front_next {bucket : BucketPtr} :
    (linkFront table bin bucket).nextBucket =
      Function.update table.nextBucket bucket (table.slot bin) :=
  Metadata.next_set_next table bucket (table.slot bin)

theorem link_front_slot {bucket : BucketPtr} :
    (linkFront table bin bucket).slot bin = some bucket :=
  Metadata.slot_set_slot (table.setNextBucket bucket (table.slot bin)) bin (some bucket)

theorem unlink_next_of_ne {previous : Option BucketPtr} {bucket node : BucketPtr}
    (different : previous ≠ some node) :
    (unlinkBucket table bin previous bucket).nextBucket node = table.nextBucket node := by
  cases previous with
  | none => rfl
  | some before =>
      have other : node ≠ before := fun equal => different (by rw [equal])
      simp only [unlinkBucket, Metadata.next_set_next, Function.update_of_ne other]

theorem unlink_chain {bucket : BucketPtr}
    (chain : Chain table.nextBucket (table.slot bin) (front ++ bucket :: back))
    (nodup : (front ++ bucket :: back).Nodup) :
    Chain (unlinkBucket table bin front.getLast? bucket).nextBucket
      ((unlinkBucket table bin front.getLast? bucket).slot bin) (front ++ back) := by
  obtain ⟨middle, left, atBucket, right⟩ := segment_append.mp chain
  subst atBucket
  rcases List.eq_nil_or_concat' front with empty | ⟨init, last, shape⟩
  · subst empty
    simpa [unlinkBucket] using right
  · subst shape
    have lastFresh : last ∉ init := by
      simp only [List.append_assoc, List.singleton_append] at nodup
      have pairs := (List.nodup_append.mp nodup).2.2
      intro member
      exact pairs last member last (by simp) rfl
    have lastOutside : last ∉ back := by
      simp only [List.append_assoc, List.singleton_append] at nodup
      have tail := (List.nodup_append.mp nodup).2.1
      simp only [List.nodup_cons, List.mem_cons, not_or] at tail
      exact tail.1.2
    simp only [List.getLast?_append, List.getLast?_singleton, Option.some_or, unlinkBucket,
      Metadata.next_set_next, Metadata.slot_set_next]
    exact segment_append.mpr ⟨_, segment_update_last lastFresh left,
      segment_update_frame lastOutside right⟩

theorem unlink_count {previous : Option BucketPtr} {bucket : BucketPtr} :
    (unlinkBucket table bin previous bucket).count = table.count := by
  cases previous <;> rfl

theorem unlink_slot_of_ne {previous : Option BucketPtr} {bucket : BucketPtr} {other : BinPtr}
    (different : other ≠ bin) :
    (unlinkBucket table bin previous bucket).slot other = table.slot other := by
  cases previous with
  | none => exact Metadata.slot_set_slot_of_ne table bin other _ different
  | some before => rfl

theorem get_last_or_cons (node : BucketPtr) (nodes : List BucketPtr)
    (previous : Option BucketPtr) :
    (node :: nodes).getLast?.or previous = nodes.getLast?.or (some node) := by
  cases nodes with
  | nil => simp
  | cons next nodes => simp [List.getLast?_cons]

theorem delete_loop_absent {chunk : Chunk} {fuel : Nat} {previous current : Option BucketPtr}
    (chain : Chain table.nextBucket current rest)
    (absent : ∀ bucket ∈ rest, (table.bucket bucket).chunk ≠ chunk)
    (enough : rest.length < fuel) :
    deleteLoop chunk bin fuel previous current table = .ok (false, table) := by
  induction rest generalizing fuel previous current with
  | nil =>
      obtain ⟨fuel, rfl⟩ := Nat.exists_eq_succ_of_ne_zero (Nat.ne_of_gt enough)
      have atEnd : current = none := chain
      subst atEnd
      rfl
  | cons bucket rest ih =>
      obtain ⟨fuel, rfl⟩ := Nat.exists_eq_succ_of_ne_zero (Nat.ne_of_gt (Nat.zero_lt_of_lt enough))
      obtain ⟨atBucket, tail⟩ := chain
      subst atBucket
      have different := absent bucket (by simp)
      simp only [deleteLoop, if_neg (Ne.symm different)]
      exact ih tail (fun later member => absent later (by simp [member]))
        (by simpa using enough)

theorem delete_loop_found {chunk : Chunk} {fuel : Nat} {previous current : Option BucketPtr}
    {bucket : BucketPtr} (chain : Chain table.nextBucket current (front ++ bucket :: back))
    (absent : ∀ earlier ∈ front, (table.bucket earlier).chunk ≠ chunk)
    (found : (table.bucket bucket).chunk = chunk) (enough : front.length < fuel) :
    deleteLoop chunk bin fuel previous current table =
      .ok (true, (unlinkBucket table bin (front.getLast?.or previous) bucket).setCount
        (wrapSub table.count 1)) := by
  induction front generalizing fuel previous current with
  | nil =>
      obtain ⟨fuel, rfl⟩ := Nat.exists_eq_succ_of_ne_zero (Nat.ne_of_gt enough)
      obtain ⟨atBucket, tail⟩ := chain
      subst atBucket
      simp only [deleteLoop, found, if_true, pure_ok, unlink_count]
      rfl
  | cons first front ih =>
      obtain ⟨fuel, rfl⟩ := Nat.exists_eq_succ_of_ne_zero (Nat.ne_of_gt (Nat.zero_lt_of_lt enough))
      obtain ⟨atFirst, tail⟩ := chain
      subst atFirst
      have different := absent first (by simp)
      simp only [deleteLoop, if_neg (Ne.symm different), get_last_or_cons]
      exact ih tail (fun earlier member => absent earlier (by simp [member]))
        (by simpa using enough)

theorem delete_all_loop_spec {fuel : Nat} {current : Option BucketPtr}
    (chunk : Chunk) (count : Nat)
    (keys : ∀ node, (table.bucket node).chunk = keyOf node)
    (atBin : binAt table index = bin)
    (chain : Chain table.nextBucket (table.slot bin) (front ++ rest))
    (nodup : (front ++ rest).Nodup) (atRest : current = rest.head?)
    (enough : rest.length < fuel) :
    ∃ after, deleteAllLoop chunk bin fuel count front.getLast? current table =
        .ok (count + (rest.filter (fun node => keyOf node = chunk)).length, after) ∧
      after.count = table.count ∧
      Chain after.nextBucket (after.slot bin)
        (front ++ rest.filter (fun node => keyOf node ≠ chunk)) ∧
      ∀ node, node ∉ front ++ rest → after.nextBucket node = table.nextBucket node := by
  induction rest generalizing front fuel count current table with
  | nil =>
      obtain ⟨fuel, rfl⟩ := Nat.exists_eq_succ_of_ne_zero (Nat.ne_of_gt enough)
      subst atRest
      exact ⟨table, rfl, rfl, chain, fun _ _ => rfl⟩
  | cons bucket rest ih =>
      obtain ⟨fuel, rfl⟩ := Nat.exists_eq_succ_of_ne_zero (Nat.ne_of_gt (Nat.zero_lt_of_lt enough))
      subst atRest
      have shorter : rest.length < fuel := by simpa using enough
      obtain ⟨middle, left, atBucket, tail⟩ := segment_append.mp chain
      have nextIsRest : table.nextBucket bucket = rest.head? := chain_start tail
      by_cases found : keyOf bucket = chunk
      · have previousOther : front.getLast? ≠ some bucket := by
          intro same
          have member := List.mem_of_getLast? same
          exact (List.nodup_append.mp nodup).2.2 bucket member bucket (by simp) rfl
        have unlinked := unlink_chain chain nodup
        have relinks : Relinks (· = index) table
            (unlinkBucket table bin front.getLast? bucket) := unlink_relinks rfl atBin
        have fewer : (front ++ rest).Nodup :=
          nodup.sublist (by simp)
        obtain ⟨after, run, census, finalChain, frame⟩ :=
          ih (count + 1) (fun node => (relinks.chunk node).trans (keys node))
            ((relinks.binAt index).trans atBin) unlinked fewer rfl shorter
        refine ⟨after, ?_, census.trans unlink_count, ?_, ?_⟩
        · simp only [List.head?_cons, deleteAllLoop, keys, found, if_true]
          rw [unlink_next_of_ne previousOther, nextIsRest, run]
          simp only [List.filter_cons, found, decide_true, if_true, List.length_cons]
          congr 2
          omega
        · simpa [List.filter_cons, found] using finalChain
        · intro node outside
          simp only [List.mem_append, List.mem_cons, not_or] at outside
          rw [frame node (by simp [outside]), unlink_next_of_ne]
          intro same
          exact outside.1 (List.mem_of_getLast? same)
      · have regrouped : front ++ bucket :: rest = (front ++ [bucket]) ++ rest := by simp
        rw [regrouped] at chain nodup
        obtain ⟨after, run, census, finalChain, frame⟩ :=
          ih count keys atBin chain nodup rfl shorter
        refine ⟨after, ?_, census, ?_, ?_⟩
        · simp only [List.head?_cons, deleteAllLoop, keys, if_neg (Ne.symm found)]
          rw [nextIsRest]
          simpa [List.filter_cons, found] using run
        · simpa [List.filter_cons, found] using finalChain
        · intro node outside
          exact frame node (by rwa [← regrouped])

theorem lookup_loop_absent {chunk : Chunk} {fuel : Nat} {previous current : Option BucketPtr}
    (chain : Chain table.nextBucket current rest)
    (absent : ∀ bucket ∈ rest, (table.bucket bucket).chunk ≠ chunk)
    (enough : rest.length < fuel) :
    ∃ last, lookupLoop table chunk fuel previous current = .ok (none, last) := by
  induction rest generalizing fuel previous current with
  | nil =>
      obtain ⟨fuel, rfl⟩ := Nat.exists_eq_succ_of_ne_zero (Nat.ne_of_gt enough)
      have atEnd : current = none := chain
      subst atEnd
      exact ⟨previous, rfl⟩
  | cons bucket rest ih =>
      obtain ⟨fuel, rfl⟩ := Nat.exists_eq_succ_of_ne_zero (Nat.ne_of_gt (Nat.zero_lt_of_lt enough))
      obtain ⟨atBucket, tail⟩ := chain
      subst atBucket
      have different := absent bucket (by simp)
      simp only [lookupLoop, if_neg (Ne.symm different)]
      exact ih tail (fun later member => absent later (by simp [member]))
        (by simpa using enough)

theorem lookup_loop_found {chunk : Chunk} {fuel : Nat} {previous current : Option BucketPtr}
    {bucket : BucketPtr} (chain : Chain table.nextBucket current (front ++ bucket :: back))
    (absent : ∀ earlier ∈ front, (table.bucket earlier).chunk ≠ chunk)
    (found : (table.bucket bucket).chunk = chunk) (enough : front.length < fuel) :
    lookupLoop table chunk fuel previous current =
      .ok (some bucket, front.getLast?.or previous) := by
  induction front generalizing fuel previous current with
  | nil =>
      obtain ⟨fuel, rfl⟩ := Nat.exists_eq_succ_of_ne_zero (Nat.ne_of_gt enough)
      obtain ⟨atBucket, tail⟩ := chain
      subst atBucket
      simp [lookupLoop, found]
  | cons first front ih =>
      obtain ⟨fuel, rfl⟩ := Nat.exists_eq_succ_of_ne_zero (Nat.ne_of_gt (Nat.zero_lt_of_lt enough))
      obtain ⟨atFirst, tail⟩ := chain
      subst atFirst
      have different := absent first (by simp)
      simp only [lookupLoop, if_neg (Ne.symm different), get_last_or_cons]
      exact ih tail (fun earlier member => absent earlier (by simp [member]))
        (by simpa using enough)

/-- The chain after a hit: a bucket in the first two positions stays where it
is, a deeper one moves to the front. -/
def promoted (front : List BucketPtr) (bucket : BucketPtr) (back : List BucketPtr) :
    List BucketPtr :=
  if front.length < 2 then front ++ bucket :: back else bucket :: (front ++ back)

theorem promote_chain {bucket : BucketPtr}
    (chain : Chain table.nextBucket (table.slot bin) (front ++ bucket :: back))
    (nodup : (front ++ bucket :: back).Nodup) :
    let after := promote table bin (front.getLast?.or (table.slot bin)) bucket
    after.count = table.count ∧
      Chain after.nextBucket (after.slot bin) (promoted front bucket back) ∧
      ∀ node, node ∉ front ++ bucket :: back → after.nextBucket node = table.nextBucket node := by
  intro after
  have start := chain_start chain
  by_cases shallow : front.length < 2
  · have same : after = table := by
      cases front with
      | nil => simp [after, promote, start]
      | cons first others =>
          have single : others = [] := by
            simp only [List.length_cons] at shallow
            exact List.length_eq_zero_iff.mp (by omega)
          simp [after, promote, start, single]
    rw [same]
    refine ⟨rfl, ?_, fun _ _ => rfl⟩
    rw [promoted, if_pos shallow]
    exact chain
  · obtain ⟨first, deeper, shape⟩ : ∃ first deeper, front = first :: deeper := by
      cases front with
      | nil => simp at shallow
      | cons first deeper => exact ⟨first, deeper, rfl⟩
    have deeperNonempty : deeper ≠ [] := by
      intro empty
      simp [shape, empty] at shallow
    obtain ⟨last, atLast⟩ : ∃ last, deeper.getLast? = some last :=
      ⟨_, List.getLast?_eq_some_getLast deeperNonempty⟩
    have lastMember := List.mem_of_getLast? atLast
    have frontLast : front.getLast? = some last := by
      rw [shape, List.getLast?_cons, atLast]
      rfl
    have lastNotFirst : some last ≠ table.slot bin := by
      rw [start, shape]
      intro same
      simp only [List.cons_append, List.head?_cons, Option.some.injEq] at same
      rw [shape] at nodup
      simp only [List.cons_append, List.nodup_cons, List.mem_append, not_or] at nodup
      exact nodup.1.1 (same ▸ lastMember)
    have bucketNotLast : bucket ≠ last := by
      intro same
      have pairs := (List.nodup_append.mp nodup).2.2
      exact pairs last (by rw [shape]; simp [lastMember]) bucket (by simp) same.symm
    have bucketFresh : bucket ∉ front ++ back := by
      exact (List.nodup_cons.mp (List.nodup_middle.mp nodup)).1
    have unlinked := unlink_chain chain nodup
    have result : after =
        ((unlinkBucket table bin front.getLast? bucket).setNextBucket bucket
          (table.slot bin)).setSlot bin (some bucket) := by
      simp only [after, promote, frontLast, Option.some_or, unlinkBucket]
      rw [if_pos lastNotFirst]
      rfl
    have slotKept : (unlinkBucket table bin front.getLast? bucket).slot bin = table.slot bin := by
      simp [frontLast, unlinkBucket]
    rw [result]
    refine ⟨?_, ?_, ?_⟩
    · change (unlinkBucket table bin front.getLast? bucket).count = table.count
      exact unlink_count
    · rw [promoted, if_neg shallow]
      refine ⟨Metadata.slot_set_slot _ _ _, ?_⟩
      simp only [Metadata.next_set_slot, Metadata.next_set_next, Function.update_self]
      rw [slotKept] at unlinked
      exact segment_update_frame bucketFresh unlinked
    · intro node outside
      simp only [List.mem_append, List.mem_cons, not_or] at outside
      simp only [Metadata.next_set_slot, Metadata.next_set_next]
      rw [Function.update_of_ne outside.2.1]
      refine unlink_next_of_ne ?_
      rw [frontLast]
      intro same
      rw [Option.some.injEq] at same
      exact outside.1 (by rw [shape, ← same]; simp [lastMember])

theorem link_spec {bucket : BucketPtr} {other : BinPtr} {linked : Metadata}
    (different : other ≠ bin) (chain : Chain table.nextBucket (table.slot bin) front)
    (nodup : front.Nodup) (linkedDef : linked = linkBucket table bin front.getLast? bucket) :
    linked.count = table.count ∧ linked.slot other = table.slot other ∧
      Segment linked.nextBucket (linked.slot bin) front (some bucket) ∧
      ∀ node, node ∉ front → linked.nextBucket node = table.nextBucket node := by
  subst linkedDef
  rcases List.eq_nil_or_concat' front with empty | ⟨init, last, shape⟩
  · subst empty
    exact ⟨rfl, Metadata.slot_set_slot_of_ne _ _ _ _ different,
      Metadata.slot_set_slot _ _ _, fun _ _ => rfl⟩
  · subst shape
    have lastFresh : last ∉ init := fun member =>
      (List.nodup_append.mp nodup).2.2 last member last (by simp) rfl
    simp only [List.getLast?_append, List.getLast?_singleton, Option.some_or, linkBucket]
    refine ⟨rfl, rfl, ?_, ?_⟩
    · rw [Metadata.next_set_next, Metadata.slot_set_next]
      exact segment_update_last lastFresh chain
    · intro node outside
      have other : node ≠ last := fun equal => outside (by simp [equal])
      rw [Metadata.next_set_next, Function.update_of_ne other]

theorem split_buckets_spec (build : Build) {newBindex oldIndex newIndex fuel exponent : Nat}
    {oldbin newbin : BinPtr} {keep news : List BucketPtr} {current : Option BucketPtr}
    (keys : ∀ node, (table.bucket node).chunk = keyOf node)
    (power : table.maxp = 2 ^ exponent)
    (atOld : binAt table oldIndex = oldbin) (atNew : binAt table newIndex = newbin)
    (different : oldbin ≠ newbin)
    (oldChain : Chain table.nextBucket (table.slot oldbin) (keep ++ rest))
    (newChain : Chain table.nextBucket (table.slot newbin) news)
    (nodup : (keep ++ rest ++ news).Nodup) (atRest : current = rest.head?)
    (enough : rest.length < fuel) :
    ∃ after, splitBuckets build newBindex oldbin newbin fuel current keep.getLast?
        news.getLast? table = .ok after ∧
      after.count = table.count ∧
      Chain after.nextBucket (after.slot oldbin)
        (keep ++ rest.filter (fun node => bindexOf build.hash table (keyOf node) ≠ newBindex)) ∧
      Chain after.nextBucket (after.slot newbin)
        (news ++ rest.filter (fun node => bindexOf build.hash table (keyOf node) = newBindex)) ∧
      ∀ node, node ∉ keep ++ rest ++ news → after.nextBucket node = table.nextBucket node := by
  induction rest generalizing keep news fuel current table with
  | nil =>
      obtain ⟨fuel, rfl⟩ := Nat.exists_eq_succ_of_ne_zero (Nat.ne_of_gt enough)
      subst atRest
      exact ⟨table, rfl, rfl, by simpa using oldChain,
        by simpa using newChain, fun _ _ => rfl⟩
  | cons bucket rest ih =>
      obtain ⟨fuel, rfl⟩ := Nat.exists_eq_succ_of_ne_zero (Nat.ne_of_gt (Nat.zero_lt_of_lt enough))
      subst atRest
      have shorter : rest.length < fuel := by simpa using enough
      obtain ⟨middle, left, atBucket, tail⟩ := segment_append.mp oldChain
      have nextIsRest : table.nextBucket bucket = rest.head? := chain_start tail
      obtain ⟨oldNodup, newNodup, apart⟩ := List.nodup_append.mp nodup
      have bucketNotNew : bucket ∉ news := fun member => apart bucket (by simp) bucket member rfl
      have bucketFresh : bucket ∉ keep ++ rest := by
        exact (List.nodup_cons.mp (List.nodup_middle.mp oldNodup)).1
      have keepLastNot : ∀ node, node ∉ keep → keep.getLast? ≠ some node :=
        fun node outside same => outside (List.mem_of_getLast? same)
      by_cases moves : bindexOf build.hash table (keyOf bucket) = newBindex
      · -- the bucket goes to the end of the new bin
        obtain ⟨linked, linkedDef⟩ : ∃ linked,
            linked = linkBucket table newbin news.getLast? bucket := ⟨_, rfl⟩
        have linkRelinks : Relinks (fun touched => touched = oldIndex ∨ touched = newIndex)
            table linked := by
          rw [linkedDef]
          exact link_relinks (Or.inr rfl) atNew
        obtain ⟨linkCount, oldSlot, newSegment, linkFrame⟩ :=
          link_spec different newChain newNodup linkedDef
        have oldLinked : Chain linked.nextBucket (linked.slot oldbin) (keep ++ bucket :: rest) := by
          rw [oldSlot]
          exact segment_frame
            (fun node member => linkFrame node (fun inNew => apart node member node inNew rfl))
            oldChain
        have oldUnlinked := unlink_chain oldLinked oldNodup
        obtain ⟨unlinked, unlinkedDef⟩ : ∃ unlinked,
            unlinked = unlinkBucket linked oldbin keep.getLast? bucket := ⟨_, rfl⟩
        rw [← unlinkedDef] at oldUnlinked
        have unlinkFrame : ∀ node, node ∉ keep →
            unlinked.nextBucket node = linked.nextBucket node := by
          intro node outside
          rw [unlinkedDef]
          exact unlink_next_of_ne (keepLastNot node outside)
        have newKept : ∀ node ∈ news, node ∉ keep := fun node inNew inKeep =>
          apart node (by simp [inKeep]) node inNew rfl
        have newSlot : unlinked.slot newbin = linked.slot newbin := by
          rw [unlinkedDef]
          exact unlink_slot_of_ne (Ne.symm different)
        obtain ⟨cut, cutDef⟩ : ∃ cut, cut = unlinked.setNextBucket bucket none := ⟨_, rfl⟩
        have relinks : Relinks (fun touched => touched = oldIndex ∨ touched = newIndex)
            table cut := by
          rw [cutDef, unlinkedDef]
          refine linkRelinks.trans (Relinks.trans ?_ Relinks.setNextBucket)
          exact unlink_relinks (Or.inl rfl) ((linkRelinks.binAt oldIndex).trans atOld)
        have cutNext : cut.nextBucket = Function.update unlinked.nextBucket bucket none := by
          rw [cutDef, Metadata.next_set_next]
        have cutOld : Chain cut.nextBucket (cut.slot oldbin) (keep ++ rest) := by
          rw [cutNext, cutDef, Metadata.slot_set_next]
          exact segment_update_frame bucketFresh oldUnlinked
        have cutNew : Chain cut.nextBucket (cut.slot newbin) (news ++ [bucket]) := by
          rw [cutNext, cutDef, Metadata.slot_set_next, newSlot]
          refine segment_append.mpr ⟨some bucket, ?_, rfl, by simp⟩
          refine segment_update_frame bucketNotNew (segment_frame ?_ newSegment)
          exact fun node inNew => unlinkFrame node (newKept node inNew)
        have cutNodup : (keep ++ rest ++ (news ++ [bucket])).Nodup := by
          refine (List.Perm.nodup_iff ?_).mp nodup
          simp only [List.append_assoc, List.cons_append]
          refine List.Perm.append_left keep ?_
          rw [← List.append_assoc]
          exact (List.perm_append_singleton bucket (rest ++ news)).symm
        obtain ⟨after, run, census, finalOld, finalNew, frame⟩ :=
          ih
            (fun node => (relinks.chunk node).trans (keys node)) (relinks.maxp.trans power)
            ((relinks.binAt oldIndex).trans atOld) ((relinks.binAt newIndex).trans atNew)
            cutOld cutNew cutNodup rfl shorter
        have cutCount : cut.count = table.count := by
          rw [cutDef, unlinkedDef]
          exact unlink_count.trans linkCount
        have sameBindex : ∀ chunk, bindexOf build.hash cut chunk =
            bindexOf build.hash table chunk := relinks.bindexOf build.hash
        simp only [sameBindex] at finalOld finalNew
        refine ⟨after, ?_, census.trans cutCount, ?_, ?_, ?_⟩
        · have unlinkedNext : unlinked.nextBucket bucket = rest.head? := by
            rw [unlinkFrame bucket (fun inKeep => bucketFresh (by simp [inKeep])),
              linkFrame bucket bucketNotNew, nextIsRest]
          simp only [List.head?_cons, splitBuckets, keys, metadata_bindex_pow build power,
            ok_bind, if_pos moves]
          rw [← linkedDef, ← unlinkedDef, unlinkedNext, ← cutDef]
          simpa using run
        · simpa [List.filter_cons, moves] using finalOld
        · simpa [List.filter_cons, moves] using finalNew
        · intro node outside
          simp only [List.mem_append, List.mem_cons, not_or] at outside
          obtain ⟨⟨notKeep, notBucket, notRest⟩, notNew⟩ := outside
          rw [frame node (by simp [notKeep, notRest, notNew, notBucket]), cutNext,
            Function.update_of_ne notBucket, unlinkFrame node notKeep, linkFrame node notNew]
      · have regrouped : keep ++ bucket :: rest = (keep ++ [bucket]) ++ rest := by simp
        rw [regrouped] at oldChain nodup
        obtain ⟨after, run, census, finalOld, finalNew, frame⟩ :=
          ih keys power atOld atNew oldChain newChain nodup rfl shorter
        refine ⟨after, ?_, census, ?_, ?_, ?_⟩
        · simp only [List.head?_cons, splitBuckets, keys, metadata_bindex_pow build power,
            ok_bind, if_neg moves]
          rw [nextIsRest]
          simpa using run
        · simpa [List.filter_cons, moves] using finalOld
        · simpa [List.filter_cons, moves] using finalNew
        · intro node outside
          exact frame node (by rwa [← regrouped])

theorem last_bucket_spec {fuel : Nat} {first last : BucketPtr}
    (chain : Chain table.nextBucket (some first) (front ++ [last]))
    (enough : front.length < fuel) : lastBucket table fuel first = .ok last := by
  induction front generalizing first fuel with
  | nil =>
      obtain ⟨fuel, rfl⟩ := Nat.exists_eq_succ_of_ne_zero (Nat.ne_of_gt enough)
      obtain ⟨atLast, atEnd⟩ := chain
      cases atLast
      have stops : table.nextBucket last = none := atEnd
      simp [lastBucket, stops]
  | cons node front ih =>
      obtain ⟨fuel, rfl⟩ := Nat.exists_eq_succ_of_ne_zero (Nat.ne_of_gt (Nat.zero_lt_of_lt enough))
      obtain ⟨atNode, tail⟩ := chain
      cases atNode
      obtain ⟨next, atNext⟩ : ∃ next, table.nextBucket node = some next := by
        cases front with
        | nil => exact ⟨_, tail.1⟩
        | cons next front => exact ⟨_, tail.1⟩
      rw [atNext] at tail
      simp only [lastBucket, atNext]
      exact ih tail (by simpa using enough)

theorem move_buckets_spec {srcbin tgtbin : BinPtr} {srcNodes tgtNodes : List BucketPtr}
    (different : srcbin ≠ tgtbin)
    (srcChain : Chain table.nextBucket (table.slot srcbin) srcNodes)
    (tgtChain : Chain table.nextBucket (table.slot tgtbin) tgtNodes)
    (nodup : (tgtNodes ++ srcNodes).Nodup) (enough : tgtNodes.length ≤ table.fuel) :
    ∃ after, moveBuckets table srcbin tgtbin = .ok after ∧
      after.count = table.count ∧ after.slot srcbin = none ∧
      Chain after.nextBucket (after.slot tgtbin) (tgtNodes ++ srcNodes) ∧
      ∀ node, node ∉ tgtNodes → after.nextBucket node = table.nextBucket node := by
  cases srcStart : table.slot srcbin with
  | none =>
      rw [srcStart] at srcChain
      have empty := chain_none srcChain
      subst empty
      refine ⟨table, by simp [moveBuckets, srcStart], rfl, srcStart, ?_,
        fun _ _ => rfl⟩
      simpa using tgtChain
  | some src =>
      rw [srcStart] at srcChain
      cases tgtStart : table.slot tgtbin with
      | none =>
          rw [tgtStart] at tgtChain
          have empty := chain_none tgtChain
          subst empty
          refine ⟨(table.setSlot tgtbin (some src)).setSlot srcbin none,
            by simp [moveBuckets, srcStart, tgtStart], rfl,
            Metadata.slot_set_slot _ _ _, ?_, fun _ _ => rfl⟩
          rw [Metadata.slot_set_slot_of_ne _ _ _ _ (Ne.symm different), Metadata.slot_set_slot]
          simpa using srcChain
      | some tgt =>
          rw [tgtStart] at tgtChain
          rcases List.eq_nil_or_concat' tgtNodes with empty | ⟨init, last, shape⟩
          · subst empty
            cases tgtChain
          · subst shape
            have short : init.length < table.fuel := by
              simp only [List.length_append, List.length_singleton] at enough
              omega
            obtain ⟨tgtNodup, _, apart⟩ := List.nodup_append.mp nodup
            have lastFresh : last ∉ init := fun member =>
              (List.nodup_append.mp tgtNodup).2.2 last member last (by simp) rfl
            have lastNotSrc : last ∉ srcNodes := fun member =>
              apart last (by simp) last member rfl
            refine ⟨(table.setNextBucket last (some src)).setSlot srcbin none, ?_, rfl,
              Metadata.slot_set_slot _ _ _, ?_, ?_⟩
            · simp [moveBuckets, srcStart, tgtStart, last_bucket_spec tgtChain short]
            · rw [Metadata.slot_set_slot_of_ne _ _ _ _ (Ne.symm different),
                Metadata.slot_set_next, Metadata.next_set_slot, Metadata.next_set_next, tgtStart]
              exact segment_append.mpr ⟨some src, segment_update_last lastFresh tgtChain,
                segment_update_frame lastNotSrc srcChain⟩
            · intro node outside
              have other : node ≠ last := fun equal => outside (by simp [equal])
              rw [Metadata.next_set_slot, Metadata.next_set_next, Function.update_of_ne other]

end SriGlibcMalloc.MetadataTable
