import SriGlibcMalloc.BoundaryTags.Walk

/-!
# Changing a row and its regions

Inner pieces can be replaced by others that fill the same part of their region. The last
region of a row can be resized, and others can be opened after it or dropped.
-/

namespace SriGlibcMalloc.BoundaryTags

set_option autoImplicit false

/-- Inner pieces that fill a part of a region. -/
inductive Tiles : Nat → List Piece → Nat → Prop
  | nil (start : Nat) : Tiles start [] start
  | cons {start stop : Nat} {piece : Piece} {rest : List Piece} (place : piece.addr = start)
      (inner : piece.kind.inner) (tail : Tiles (start + piece.size) rest stop) :
      Tiles start (piece :: rest) stop

def firstStart : List Region → Nat
  | [] => 0
  | first :: _ => first.start

/-- The pieces lead to a place in the last region. -/
def Reaches (earlier : List Region) (region : Region) (pieces : List Piece) (addr : Nat) : Prop :=
  walk (earlier ++ [region], firstStart (earlier ++ [region])) pieces = some ([region], addr)

variable {regions later earlier more : List Region} {region region' fresh : Region}
variable {pieces left right old new : List Piece} {piece post : Piece}
variable {cursor reached : Cursor} {start stop addr : Nat}

theorem tiles_singleton (place : piece.addr = start) (inner : piece.kind.inner)
    (ends : start + piece.size = stop) : Tiles start [piece] stop := by
  refine .cons place inner ?_
  rw [ends]
  exact .nil stop

theorem tiles_pair {next : Piece} (place : piece.addr = start) (inner : piece.kind.inner)
    (place' : next.addr = start + piece.size) (inner' : next.kind.inner)
    (ends : start + piece.size + next.size = stop) : Tiles start [piece, next] stop :=
  .cons place inner (tiles_singleton place' inner' ends)

theorem Tiles.walk (tiles : Tiles start pieces stop) :
    walk (region :: later, start) pieces = some (region :: later, stop) := by
  induction tiles with
  | nil => rfl
  | cons place inner tail ih =>
      rw [walk_cons, advance_inner inner place, Option.bind_some]
      exact ih

theorem walk_inner (walked : walk (region :: later, start) pieces = some reached)
    (inner : ∀ piece ∈ pieces, piece.kind.inner) :
    ∃ stop, reached = (region :: later, stop) ∧ Tiles start pieces stop := by
  induction pieces generalizing start with
  | nil =>
      cases walked
      exact ⟨start, rfl, .nil start⟩
  | cons piece rest ih =>
      obtain ⟨next, moved, walked⟩ := Option.bind_eq_some_iff.mp (walk_cons ▸ walked)
      have own := inner piece List.mem_cons_self
      obtain ⟨place, ⟨_, same⟩ | ⟨closes, _⟩ | ⟨top, _⟩⟩ := advance_spec moved
      · subst same
        obtain ⟨stop, result, tiles⟩ :=
          ih walked fun piece member => inner piece (List.mem_cons_of_mem _ member)
        exact ⟨stop, result, .cons place own tiles⟩
      · rw [own.1] at closes
        cases closes
      · exact absurd top own.2

theorem Fills.swap (fills : Fills regions (left ++ (old ++ right))) (occupied : old ≠ [])
    (inner : ∀ piece ∈ old, piece.kind.inner)
    (same : ∀ start stop, Tiles start old stop → Tiles start new stop) :
    Fills regions (left ++ (new ++ right)) := by
  apply fills.replace
  intro cursor reached walked
  obtain ⟨regions, start⟩ := cursor
  cases regions with
  | nil => exact absurd (walk_done walked) occupied
  | cons region later =>
      obtain ⟨stop, result, tiles⟩ := walk_inner walked inner
      rw [result]
      exact (same start stop tiles).walk

theorem Fills.adjacent {next : Piece} (fills : Fills regions (left ++ piece :: next :: right))
    (inner : piece.kind.inner) : next.addr = piece.addr + piece.size := by
  obtain ⟨first, later, stop, shape, walked⟩ := fills
  rw [walk_append] at walked
  obtain ⟨⟨regions, start⟩, _, walked⟩ := Option.bind_eq_some_iff.mp walked
  rw [walk_cons] at walked
  obtain ⟨cursor, moved, walked⟩ := Option.bind_eq_some_iff.mp walked
  rw [walk_cons] at walked
  obtain ⟨cursor', moved', _⟩ := Option.bind_eq_some_iff.mp walked
  cases regions with
  | nil => cases moved
  | cons region others =>
      obtain ⟨place, ⟨_, same⟩ | ⟨closes, _⟩ | ⟨top, _⟩⟩ := advance_spec moved
      · subst same
        rw [place]
        exact (advance_spec moved').1
      · rw [inner.1] at closes
        cases closes
      · exact absurd top inner.2

theorem Fills.none_inside {addr : Nat} (fills : Fills regions pieces)
    (apart : regions.Pairwise Region.Apart) (positive : ∀ piece ∈ pieces, 0 < piece.size)
    (member : piece ∈ pieces) (low : piece.addr < addr) (high : addr < piece.addr + piece.size) :
    addr ∉ addrs pieces := by
  intro listed
  obtain ⟨other, found, same⟩ := List.mem_map.mp listed
  have size := positive other found
  have symmetric : Std.Symm Piece.Apart := ⟨fun _ _ apart => apart.symm⟩
  rcases eq_or_ne piece other with equal | differs
  · rw [equal] at low
    omega
  · rcases (fills.apart apart).forall member found differs with before | behind
    · omega
    · omega

theorem walk_covers {addr : Nat} (walked : walk (region :: later, start) pieces = some ([], stop))
    (within : start ≤ addr ∧ addr < region.stop ∨
      ∃ other ∈ later, other.start ≤ addr ∧ addr < other.stop) :
    ∃ piece ∈ pieces, piece.addr ≤ addr ∧ addr < piece.addr + piece.size := by
  induction pieces generalizing region later start with
  | nil => cases walked
  | cons first rest induction =>
      obtain ⟨next, moved, walked⟩ := Option.bind_eq_some_iff.mp (walk_cons ▸ walked)
      have later' (found : ∃ piece ∈ rest, piece.addr ≤ addr ∧ addr < piece.addr + piece.size) :
          ∃ piece ∈ first :: rest, piece.addr ≤ addr ∧ addr < piece.addr + piece.size := by
        obtain ⟨piece, member, covers⟩ := found
        exact ⟨piece, List.mem_cons_of_mem _ member, covers⟩
      obtain ⟨place, ⟨_, same⟩ | ⟨_, ends, next, others, same, reached⟩ | ⟨_, ends, same, reached⟩⟩ :=
        advance_spec moved
      · subst same
        rcases within with own | elsewhere
        · by_cases here : addr < start + first.size
          · exact ⟨first, List.mem_cons_self, by omega, by omega⟩
          · exact later' (induction walked (Or.inl ⟨Nat.le_of_not_lt here, own.2⟩))
        · exact later' (induction walked (Or.inr elsewhere))
      · subst same reached
        rcases within with own | ⟨other, listed, covers⟩
        · exact ⟨first, List.mem_cons_self, by omega, by omega⟩
        · rcases List.mem_cons.mp listed with same | listed
          · subst same
            exact later' (induction walked (Or.inl covers))
          · exact later' (induction walked (Or.inr ⟨other, listed, covers⟩))
      · subst same
        rcases within with own | ⟨other, listed, _⟩
        · exact ⟨first, List.mem_cons_self, by omega, by omega⟩
        · cases listed

theorem Fills.covers {addr : Nat} (fills : Fills regions pieces) (listed : region ∈ regions)
    (low : region.start ≤ addr) (high : addr < region.stop) :
    ∃ piece ∈ pieces, piece.addr ≤ addr ∧ addr < piece.addr + piece.size := by
  obtain ⟨first, later, stop, same, walked⟩ := fills
  subst same
  rcases List.mem_cons.mp listed with same | listed
  · subst same
    exact walk_covers walked (Or.inl ⟨low, high⟩)
  · exact walk_covers walked (Or.inr ⟨region, listed, low, high⟩)

theorem walk_more (walked : walk (regions, start) pieces = some (region :: later, addr)) :
    walk (regions ++ more, start) pieces = some (region :: later ++ more, addr) := by
  induction pieces generalizing regions start with
  | nil =>
      cases walked
      rfl
  | cons piece rest ih =>
      obtain ⟨next, moved, walked⟩ := Option.bind_eq_some_iff.mp (walk_cons ▸ walked)
      cases regions with
      | nil => cases moved
      | cons first regions =>
          rw [walk_cons, List.cons_append]
          obtain ⟨place, ⟨inner, same⟩ | ⟨closes, ends, next', others, same, shape⟩ |
            ⟨_, _, _, same⟩⟩ := advance_spec moved
          · subst same
            rw [advance_inner inner place, Option.bind_some]
            exact ih walked
          · subst same shape
            rw [List.cons_append, advance_closes closes place ends, Option.bind_some]
            exact ih walked
          · subst same
            rw [walk_done walked] at walked
            cases walked

theorem walk_suffix (walked : walk (regions, start) pieces = some reached) :
    reached.1 <:+ regions := by
  induction pieces generalizing regions start with
  | nil =>
      cases walked
      exact List.suffix_rfl
  | cons piece rest ih =>
      obtain ⟨next, moved, walked⟩ := Option.bind_eq_some_iff.mp (walk_cons ▸ walked)
      cases regions with
      | nil => cases moved
      | cons first regions =>
          obtain ⟨_, ⟨_, same⟩ | ⟨_, _, _, _, _, same⟩ | ⟨_, _, _, same⟩⟩ := advance_spec moved
          · subst same
            exact ih walked
          · subst same
            exact (ih walked).trans (List.suffix_cons first regions)
          · subst same
            exact (ih walked).trans (List.nil_suffix)

theorem walk_not_back : walk (more, start) pieces ≠ some (region :: later ++ more, addr) := by
  intro walked
  have bound := (walk_suffix walked).length_le
  rw [List.length_append, List.length_cons] at bound
  omega

theorem walk_fewer (walked : walk (regions ++ more, start) pieces =
    some (region :: later ++ more, addr)) :
    walk (regions, start) pieces = some (region :: later, addr) := by
  induction pieces generalizing regions start with
  | nil =>
      have same := Prod.mk.inj (Option.some.inj walked)
      rw [List.append_cancel_right same.1, same.2]
      rfl
  | cons piece rest ih =>
      cases regions with
      | nil => exact absurd walked walk_not_back
      | cons first regions =>
          obtain ⟨next, moved, walked⟩ := Option.bind_eq_some_iff.mp (walk_cons ▸ walked)
          rw [walk_cons]
          rw [List.cons_append] at moved
          obtain ⟨place, ⟨inner, same⟩ | ⟨closes, ends, next', others, shape, same⟩ |
            ⟨_, _, _, same⟩⟩ := advance_spec moved
          · subst same
            rw [advance_inner inner place, Option.bind_some]
            exact ih walked
          · subst same
            cases regions with
            | nil => exact absurd walked walk_not_back
            | cons second regions =>
                cases shape
                rw [advance_closes closes place ends, Option.bind_some]
                exact ih walked
          · subst same
            rw [walk_done walked] at walked
            cases walked

theorem walk_low (low : firstStart regions ≤ start)
    (walked : walk (regions, start) pieces = some (region :: later, addr)) :
    region.start ≤ addr := by
  induction pieces generalizing regions start with
  | nil =>
      cases walked
      exact low
  | cons piece rest ih =>
      obtain ⟨next, moved, walked⟩ := Option.bind_eq_some_iff.mp (walk_cons ▸ walked)
      cases regions with
      | nil => cases moved
      | cons first regions =>
          obtain ⟨_, ⟨_, same⟩ | ⟨_, _, next', others, shape, same⟩ | ⟨_, _, _, same⟩⟩ :=
            advance_spec moved
          · subst same
            exact ih (Nat.le_trans low (Nat.le_add_right _ _)) walked
          · subst same shape
            exact ih (Nat.le_refl _) walked
          · subst same
            rw [walk_done walked] at walked
            cases walked

theorem walk_resize (sameStart : region'.start = region.start)
    (walked : walk (earlier ++ [region], start) pieces = some ([region], addr)) :
    walk (earlier ++ [region'], start) pieces = some ([region'], addr) := by
  induction pieces generalizing earlier start with
  | nil =>
      have same := Prod.mk.inj (Option.some.inj walked)
      have nothing : earlier = [] := List.append_cancel_right (same.1.trans (List.nil_append _).symm)
      rw [nothing, same.2]
      rfl
  | cons piece rest ih =>
      obtain ⟨next, moved, walked⟩ := Option.bind_eq_some_iff.mp (walk_cons ▸ walked)
      rw [walk_cons]
      cases earlier with
      | nil =>
          obtain ⟨place, ⟨inner, same⟩ | ⟨_, _, _, _, impossible, _⟩ | ⟨_, _, _, same⟩⟩ :=
            advance_spec moved
          · subst same
            rw [List.nil_append, advance_inner inner place, Option.bind_some]
            exact @ih [] _ walked
          · cases impossible
          · subst same
            rw [walk_done walked] at walked
            cases walked
      | cons first earlier =>
          obtain ⟨place, ⟨inner, same⟩ | ⟨closes, ends, next', others, shape, same⟩ |
            ⟨_, _, _, same⟩⟩ := advance_spec moved
          · subst same
            rw [List.cons_append, advance_inner inner place, Option.bind_some]
            exact @ih (first :: earlier) _ walked
          · subst same
            cases earlier with
            | nil =>
                cases shape
                rw [List.cons_append, List.nil_append, advance_closes closes place ends,
                  Option.bind_some, sameStart]
                exact @ih [] _ walked
            | cons second earlier =>
                cases shape
                rw [List.cons_append, List.cons_append, advance_closes closes place ends,
                  Option.bind_some]
                exact @ih (_ :: earlier) _ walked
          · subst same
            rw [walk_done walked] at walked
            cases walked

theorem first_start_append (occupied : earlier ≠ []) :
    firstStart (earlier ++ more) = firstStart earlier := by
  cases earlier with
  | nil => exact absurd rfl occupied
  | cons first rest => rfl

theorem first_start_resize (sameStart : region'.start = region.start) :
    firstStart (earlier ++ [region']) = firstStart (earlier ++ [region]) := by
  cases earlier with
  | nil => exact sameStart
  | cons first rest => rfl

theorem Fills.begins (fills : Fills regions (piece :: pieces)) :
    piece.addr = firstStart regions := by
  obtain ⟨first, later, stop, shape, walked⟩ := fills
  subst shape
  rw [walk_cons] at walked
  obtain ⟨cursor, moved, _⟩ := Option.bind_eq_some_iff.mp walked
  exact (advance_spec moved).1

/-- A piece and the next one are in the same region unless the first ends its region. -/
theorem Fills.shared {next : Piece} (fills : Fills regions (left ++ piece :: next :: right))
    (inner : piece.kind.inner) :
    ∃ region ∈ regions, region.start ≤ piece.addr ∧ next.addr + next.size ≤ region.stop := by
  obtain ⟨first, later, stop, shape, walked⟩ := fills
  rw [walk_append] at walked
  obtain ⟨⟨open', start⟩, before, walked⟩ := Option.bind_eq_some_iff.mp walked
  rw [walk_cons] at walked
  obtain ⟨cursor, moved, walked⟩ := Option.bind_eq_some_iff.mp walked
  rw [walk_cons] at walked
  obtain ⟨cursor', moved', walked⟩ := Option.bind_eq_some_iff.mp walked
  have suffix := walk_suffix before
  cases open' with
  | nil => cases moved
  | cons region others =>
      have begins : firstStart regions ≤ first.start := by
        rw [shape]
        exact Nat.le_refl _
      have low := walk_low begins before
      refine ⟨region, suffix.subset List.mem_cons_self, ?_⟩
      obtain ⟨place, ⟨_, same⟩ | ⟨closes, _⟩ | ⟨top, _⟩⟩ := advance_spec moved
      · subst same
        rw [place]
        refine ⟨low, ?_⟩
        obtain ⟨place', ⟨_, same⟩ | ⟨_, ends, _⟩ | ⟨_, ends, _⟩⟩ := advance_spec moved'
        · subst same
          rw [place']
          exact walk_bound walked
        · exact Nat.le_of_eq (place' ▸ ends)
        · exact Nat.le_of_eq (place' ▸ ends)
      · rw [inner.1] at closes
        cases closes
      · exact absurd top inner.2

theorem reaches_start : Reaches [] region [] region.start := rfl

theorem reaches_nil (reaches : Reaches earlier region [] addr) : earlier = [] ∧ addr = region.start := by
  obtain ⟨same, place⟩ := Prod.mk.inj (Option.some.inj reaches)
  have nothing : earlier = [] := List.append_cancel_right (same.trans (List.nil_append _).symm)
  subst nothing
  exact ⟨rfl, place.symm⟩

theorem Reaches.resize (reaches : Reaches earlier region pieces addr)
    (sameStart : region'.start = region.start) : Reaches earlier region' pieces addr := by
  unfold Reaches
  rw [first_start_resize sameStart]
  exact walk_resize sameStart reaches

theorem Reaches.at_start (reaches : Reaches earlier region pieces addr)
    (outer : ∀ piece ∈ pieces.getLast?, ¬piece.kind.inner) : addr = region.start := by
  rcases List.eq_nil_or_concat' pieces with empty | ⟨left, last, shape⟩
  · rw [empty] at reaches
    exact (reaches_nil reaches).2
  · subst shape
    have notInner := outer last List.getLast?_concat
    unfold Reaches at reaches
    rw [walk_append] at reaches
    obtain ⟨⟨regions, start⟩, walked, reaches⟩ := Option.bind_eq_some_iff.mp reaches
    rw [walk_cons] at reaches
    obtain ⟨cursor, moved, reaches⟩ := Option.bind_eq_some_iff.mp reaches
    cases reaches
    cases regions with
    | nil => cases moved
    | cons current later =>
        obtain ⟨_, ⟨inner, _⟩ | ⟨_, _, next, others, same, reached⟩ | ⟨_, _, _, reached⟩⟩ :=
          advance_spec moved
        · exact absurd inner notInner
        · subst same
          have same := Prod.mk.inj reached
          rw [same.2, (List.cons.inj same.1).1]
        · cases reached

theorem Reaches.tiles (reaches : Reaches earlier region left addr)
    (tiles : Tiles addr right stop) : Reaches earlier region (left ++ right) stop := by
  unfold Reaches
  rw [walk_append, reaches, Option.bind_some]
  exact tiles.walk

theorem Reaches.fills (reaches : Reaches earlier region pieces addr) (top : piece.kind = .top)
    (place : piece.addr = addr) (ends : addr + piece.size = region.stop) :
    Fills (earlier ++ [region]) (pieces ++ [piece]) := by
  have whole : walk (earlier ++ [region], firstStart (earlier ++ [region])) (pieces ++ [piece]) =
      some ([], region.stop) := by
    rw [walk_append, reaches, Option.bind_some, walk_cons, advance_top top place ends]
    rfl
  cases earlier with
  | nil => exact ⟨region, [], region.stop, rfl, whole⟩
  | cons first rest => exact ⟨first, rest ++ [region], region.stop, rfl, whole⟩

theorem Fills.reaches (fills : Fills (earlier ++ [region]) (pieces ++ [piece])) :
    Reaches earlier region pieces piece.addr ∧ piece.kind = .top ∧
      piece.addr + piece.size = region.stop := by
  have top := fills.last.mpr rfl
  obtain ⟨first, later, stop, shape, walked⟩ := fills
  have begins : first.start = firstStart (earlier ++ [region]) := by
    rw [shape]
    rfl
  rw [begins, walk_append] at walked
  obtain ⟨⟨regions, start⟩, before, walked⟩ := Option.bind_eq_some_iff.mp walked
  rw [walk_cons] at walked
  obtain ⟨next, moved, _⟩ := Option.bind_eq_some_iff.mp walked
  have suffix := walk_suffix before
  cases regions with
  | nil => cases moved
  | cons found others =>
      obtain ⟨place, ⟨inner, _⟩ | ⟨closes, _⟩ | ⟨_, ends, last, _⟩⟩ := advance_spec moved
      · exact absurd top inner.2
      · rw [top] at closes
        cases closes
      · subst last
        have same : found = region := by
          have tail := List.singleton_suffix_iff_getLast?_eq_some.mp suffix
          rw [List.getLast?_concat] at tail
          exact (Option.some.inj tail).symm
        subst same
        refine ⟨?_, top, place ▸ ends⟩
        rw [place]
        exact before

theorem Reaches.opens (reaches : Reaches earlier region pieces addr)
    (closes : post.kind.closes = true) (place : post.addr = addr)
    (ends : addr + post.size = region.stop) :
    Reaches (earlier ++ [region]) fresh (pieces ++ [post]) fresh.start := by
  unfold Reaches
  have begins : firstStart (earlier ++ [region] ++ [fresh]) = firstStart (earlier ++ [region]) :=
    first_start_append (List.append_ne_nil_of_right_ne_nil _ (List.cons_ne_nil _ _))
  have more : walk (earlier ++ [region] ++ [fresh], firstStart (earlier ++ [region])) pieces =
      some ([region] ++ [fresh], addr) := walk_more reaches
  rw [begins, walk_append, more, Option.bind_some, walk_cons, List.singleton_append,
    advance_closes closes place ends]
  rfl

/-- A row that leads to the start of the last region ends with what ends the one before. -/
theorem Reaches.closes (reaches : Reaches (earlier ++ [region]) fresh pieces fresh.start)
    (positive : ∀ piece ∈ pieces, 0 < piece.size) :
    ∃ left post, pieces = left ++ [post] ∧ post.kind.closes = true ∧
      post.addr + post.size = region.stop ∧ Reaches earlier region left post.addr := by
  have begins : firstStart (earlier ++ [region] ++ [fresh]) = firstStart (earlier ++ [region]) :=
    first_start_append (List.append_ne_nil_of_right_ne_nil _ (List.cons_ne_nil _ _))
  unfold Reaches at reaches
  rw [begins] at reaches
  rcases List.eq_nil_or_concat' pieces with empty | ⟨left, post, shape⟩
  · subst empty
    have same := (Prod.mk.inj (Option.some.inj reaches)).1
    have lengths := congrArg List.length same
    rw [List.length_append, List.length_append] at lengths
    simp only [List.length_singleton] at lengths
    omega
  · subst shape
    rw [walk_append] at reaches
    obtain ⟨⟨regions, start⟩, before, walked⟩ := Option.bind_eq_some_iff.mp reaches
    rw [walk_cons] at walked
    obtain ⟨next, moved, walked⟩ := Option.bind_eq_some_iff.mp walked
    cases walked
    have suffix := walk_suffix before
    cases regions with
    | nil => cases moved
    | cons found others =>
        have low := walk_low (Nat.le_of_eq begins) before
        obtain ⟨place, ⟨_, same⟩ | ⟨closes, ends, _, _, _, same⟩ | ⟨_, _, _, same⟩⟩ :=
          advance_spec moved
        · have size := positive post (List.mem_append_right _ List.mem_cons_self)
          obtain ⟨shape, reached⟩ := Prod.mk.inj same
          obtain ⟨found', _⟩ := List.cons.inj shape
          rw [← found'] at low
          omega
        · obtain ⟨shape, _⟩ := Prod.mk.inj same
          subst shape
          have last : found = region := by
            obtain ⟨front, shape⟩ := suffix
            have same : (front ++ [found]) ++ [fresh] = (earlier ++ [region]) ++ [fresh] := by
              rw [List.append_assoc]
              exact shape
            have tails := List.append_inj_right' (List.append_cancel_right same) rfl
            exact (List.cons.inj tails).1
          subst last
          refine ⟨left, post, rfl, closes, ?_, ?_⟩
          · rw [place, ends]
          · rw [place]
            exact @walk_fewer _ [] [fresh] found left _ _ before
        · cases same

end SriGlibcMalloc.BoundaryTags
