import SriGlibcMalloc.Bins.Run

/-!
# The order of a large bin

A large bin lists its chunks by size, the largest first, and the skip list has the first
chunk of each size. What an insertion and a removal do to these chunks.
-/

namespace SriGlibcMalloc.Bins

set_option autoImplicit false

def Descending (bin : List FreeChunk) : Prop :=
  bin.Pairwise fun first second => second.size ≤ first.size

variable {bin front back : List FreeChunk} {victim chunk next : FreeChunk} {size : Nat}

theorem filter_size_heads (bin : List FreeChunk) (size : Nat) :
    (sizeHeads bin).filter (fun chunk => chunk.size ≠ size) =
      sizeHeads (bin.filter fun chunk => chunk.size ≠ size) := by
  induction bin with
  | nil => rfl
  | cons first rest ih =>
      rw [sizeHeads]
      by_cases same : first.size = size
      · rw [List.filter_cons_of_neg (by simp [same]), List.filter_cons_of_neg (by simp [same]),
          same, List.filter_filter]
        simp only [Bool.and_self]
        exact ih
      · rw [List.filter_cons_of_pos (by simp [same]), List.filter_cons_of_pos (by simp [same]),
          sizeHeads, ← ih, List.filter_filter, List.filter_filter]
        simp only [Bool.and_comm]

theorem size_heads_sublist (bin : List FreeChunk) : (sizeHeads bin).Sublist bin := by
  induction bin with
  | nil => exact List.Sublist.refl []
  | cons first rest ih =>
      rw [sizeHeads]
      exact (List.filter_sublist.trans ih).cons_cons first

theorem size_heads_nodup (bin : List FreeChunk) : (sizeHeads bin).Nodup := by
  induction bin with
  | nil => exact List.nodup_nil
  | cons first rest ih =>
      rw [sizeHeads, List.nodup_cons]
      refine ⟨?_, ih.filter _⟩
      intro member
      simpa using (List.mem_filter.mp member).2

/-- The skip list has a chunk if no other one of its size comes before it. -/
theorem mem_size_heads_iff {bin : List FreeChunk} :
    chunk ∈ sizeHeads bin ↔ ∃ front back, bin = front ++ chunk :: back ∧
      ∀ other ∈ front, other.size ≠ chunk.size := by
  induction bin with
  | nil => simp [sizeHeads]
  | cons first rest ih =>
      rw [sizeHeads, List.mem_cons, List.mem_filter, ih, decide_eq_true_eq]
      constructor
      · rintro (rfl | ⟨⟨front, back, rfl, differs⟩, other⟩)
        · exact ⟨[], rest, rfl, fun _ absent => absurd absent List.not_mem_nil⟩
        · refine ⟨first :: front, back, rfl, ?_⟩
          intro earlier member
          rcases List.mem_cons.mp member with rfl | later
          · exact other.symm
          · exact differs earlier later
      · rintro ⟨front, back, shape, differs⟩
        cases front with
        | nil =>
            cases shape
            exact Or.inl rfl
        | cons start front =>
            cases shape
            refine Or.inr ⟨⟨front, back, rfl, ?_⟩, (differs first List.mem_cons_self).symm⟩
            exact fun other member => differs other (List.mem_cons_of_mem first member)

theorem size_heads_append (apart : ∀ chunk ∈ front, ∀ other ∈ back, other.size ≠ chunk.size) :
    sizeHeads (front ++ back) = sizeHeads front ++ sizeHeads back := by
  induction front with
  | nil => rfl
  | cons first rest ih =>
      have later : (sizeHeads back).filter (fun other => other.size ≠ first.size) =
          sizeHeads back := by
        rw [List.filter_eq_self]
        intro other member
        have inside := size_heads_members back other member
        exact decide_eq_true (apart first List.mem_cons_self other inside)
      rw [List.cons_append, sizeHeads, sizeHeads,
        ih fun chunk member => apart chunk (List.mem_cons_of_mem first member),
        List.filter_append, later]
      rfl

theorem size_heads_skip (before : ∃ chunk ∈ front, chunk.size = victim.size) :
    sizeHeads (front ++ victim :: back) = sizeHeads (front ++ back) := by
  induction front with
  | nil =>
      obtain ⟨_, absent, _⟩ := before
      cases absent
  | cons first rest ih =>
      rw [List.cons_append, List.cons_append, sizeHeads, sizeHeads]
      by_cases same : first.size = victim.size
      · rw [filter_size_heads, filter_size_heads, List.filter_append, List.filter_append,
          List.filter_cons_of_neg (by simp [same])]
      · obtain ⟨chunk, member, equal⟩ := before
        rcases List.mem_cons.mp member with here | later
        · rw [here] at equal
          exact absurd equal same
        · rw [ih ⟨chunk, later, equal⟩]

theorem size_heads_cons (lower : ∀ other ∈ back, other.size ≠ victim.size) :
    sizeHeads (victim :: back) = victim :: sizeHeads back := by
  have split := @size_heads_append [victim] back fun chunk member other later => by
    rw [List.mem_singleton.mp member]
    exact lower other later
  exact split

theorem size_heads_same (same : chunk.size = victim.size) :
    sizeHeads (victim :: chunk :: back) =
      victim :: (sizeHeads back).filter fun other => other.size ≠ victim.size := by
  rw [sizeHeads, sizeHeads, List.filter_cons_of_neg (by simp [same]), same, List.filter_filter]
  simp only [Bool.and_self]

/-- The walk along the skip list finds the first chunk that is not larger. -/
theorem find_size_heads (bin : List FreeChunk) (size : Nat) :
    (sizeHeads bin).find? (fun chunk => decide (chunk.size ≤ size)) =
      bin.find? fun chunk => decide (chunk.size ≤ size) := by
  induction bin with
  | nil => rfl
  | cons first rest ih =>
      rw [sizeHeads]
      by_cases small : first.size ≤ size
      · rw [List.find?_cons_of_pos (by simpa using small),
          List.find?_cons_of_pos (by simpa using small)]
      · rw [List.find?_cons_of_neg (by simpa using small),
          List.find?_cons_of_neg (by simpa using small), List.find?_filter, ← ih]
        congr 1
        funext chunk
        by_cases lower : chunk.size ≤ size
        · have differs : chunk.size ≠ first.size := by omega
          simp [lower, differs]
        · simp [lower]

theorem insert_sorted_at (larger : ∀ chunk ∈ front, victim.size < chunk.size)
    (fits : next.size ≤ victim.size) :
    insertSorted victim (front ++ next :: back) =
      front ++ if victim.size = next.size then next :: victim :: back
        else victim :: next :: back := by
  induction front with
  | nil =>
      rw [List.nil_append, List.nil_append, insertSorted, if_neg (Nat.not_lt.mpr fits)]
  | cons first rest ih =>
      rw [List.cons_append, List.cons_append, insertSorted,
        if_pos (larger first List.mem_cons_self),
        ih fun chunk member => larger chunk (List.mem_cons_of_mem first member)]

theorem first_not_larger {smallest : FreeChunk} (last : bin.getLast? = some smallest)
    (fits : smallest.size ≤ size) :
    ∃ front next back, bin = front ++ next :: back ∧ next.size ≤ size ∧
      (∀ chunk ∈ front, size < chunk.size) ∧
        bin.find? (fun chunk => decide (chunk.size ≤ size)) = some next := by
  have found : (bin.find? fun chunk => decide (chunk.size ≤ size)).isSome := by
    rw [List.find?_isSome]
    exact ⟨smallest, List.mem_of_getLast? last, decide_eq_true fits⟩
  obtain ⟨next, found⟩ := Option.isSome_iff_exists.mp found
  obtain ⟨small, front, back, shape, larger⟩ := List.find?_eq_some_iff_append.mp found
  refine ⟨front, next, back, shape, of_decide_eq_true small, ?_, found⟩
  intro chunk member
  have above := larger chunk member
  simpa using above

theorem Descending.insert (ordered : Descending (front ++ back))
    (larger : ∀ chunk ∈ front, victim.size ≤ chunk.size)
    (smaller : ∀ chunk ∈ back, chunk.size ≤ victim.size) :
    Descending (front ++ victim :: back) := by
  obtain ⟨left, right, across⟩ := List.pairwise_append.mp ordered
  refine List.pairwise_append.mpr ⟨left, List.pairwise_cons.mpr ⟨smaller, right⟩, ?_⟩
  intro chunk member other later
  rcases List.mem_cons.mp later with same | old
  · rw [same]
    exact larger chunk member
  · exact across chunk member other old

theorem Descending.after (ordered : Descending (front ++ chunk :: back)) :
    ∀ other ∈ back, other.size ≤ chunk.size :=
  (List.pairwise_cons.mp (List.pairwise_append.mp ordered).2.1).1

theorem Descending.before (ordered : Descending (front ++ chunk :: back)) :
    ∀ other ∈ front, chunk.size ≤ other.size :=
  fun other member => (List.pairwise_append.mp ordered).2.2 other member chunk List.mem_cons_self

theorem Descending.size_heads (ordered : Descending (front ++ chunk :: back))
    (first : ∀ other ∈ front, other.size ≠ chunk.size) :
    sizeHeads (front ++ chunk :: back) = sizeHeads front ++ sizeHeads (chunk :: back) := by
  apply size_heads_append
  intro larger before other later
  have above := ordered.before larger before
  have differs := first larger before
  rcases List.mem_cons.mp later with rfl | after
  · exact differs.symm
  · have below := ordered.after other after
    omega

theorem Descending.heads (ordered : Descending bin) :
    (sizeHeads bin).Pairwise fun first second => second.size < first.size := by
  induction bin with
  | nil => exact .nil
  | cons first rest ih =>
      obtain ⟨lower, ordered⟩ := List.pairwise_cons.mp ordered
      rw [sizeHeads]
      refine List.pairwise_cons.mpr ⟨?_, (ih ordered).filter _⟩
      intro other member
      obtain ⟨inside, differs⟩ := List.mem_filter.mp member
      have below := lower other (size_heads_members rest other inside)
      exact Nat.lt_of_le_of_ne below (of_decide_eq_true differs)

end SriGlibcMalloc.Bins
