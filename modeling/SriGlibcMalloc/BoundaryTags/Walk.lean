import SriGlibcMalloc.BoundaryTags.Table
import Mathlib.Data.List.Pairwise

/-!
# Rows of pieces that fill regions

A cursor walks over a row: every piece starts where the last one ended, a post ends its
region and leads to the next one, and the top ends the last region.
-/

namespace SriGlibcMalloc.BoundaryTags

set_option autoImplicit false

structure Region where
  start : Nat
  stop : Nat
  deriving DecidableEq, Repr

/-- The regions that are not finished, and an address in the first of them. -/
abbrev Cursor := List Region × Nat

def Kind.closes : Kind → Bool
  | .post => true
  | _ => false

def advance (cursor : Cursor) (piece : Piece) : Option Cursor :=
  match cursor.1 with
  | [] => none
  | region :: later =>
      if piece.addr ≠ cursor.2 then none
      else if piece.kind.closes then
        match later with
        | [] => none
        | next :: _ =>
            if piece.addr + piece.size = region.stop then some (later, next.start) else none
      else if piece.kind = .top then
        if piece.addr + piece.size = region.stop ∧ later = [] then some ([], region.stop) else none
      else some (cursor.1, piece.addr + piece.size)

def walk (cursor : Cursor) (pieces : List Piece) : Option Cursor := pieces.foldlM advance cursor

def Fills (regions : List Region) (pieces : List Piece) : Prop :=
  ∃ first later stop, regions = first :: later ∧
    walk (regions, first.start) pieces = some ([], stop)

def Region.Apart (one other : Region) : Prop := one.stop ≤ other.start ∨ other.stop ≤ one.start

def Piece.Apart (one other : Piece) : Prop :=
  one.addr + one.size ≤ other.addr ∨ other.addr + other.size ≤ one.addr

def Piece.Inside (piece : Piece) (region : Region) : Prop :=
  region.start ≤ piece.addr ∧ piece.addr + piece.size ≤ region.stop

def Kind.inner (kind : Kind) : Prop := kind.closes = false ∧ kind ≠ .top

variable {regions later : List Region} {region : Region} {pieces left right : List Piece}
variable {piece other : Piece} {cursor reached : Cursor} {start stop : Nat}

@[simp]
theorem walk_cons : walk cursor (piece :: pieces) = (advance cursor piece).bind fun next =>
    walk next pieces := List.foldlM_cons

theorem walk_append : walk cursor (left ++ right) = (walk cursor left).bind fun next =>
    walk next right := List.foldlM_append

theorem advance_spec (moved : advance (region :: later, start) piece = some reached) :
    piece.addr = start ∧
      (piece.kind.inner ∧ reached = (region :: later, start + piece.size) ∨
      piece.kind.closes = true ∧ start + piece.size = region.stop ∧
        (∃ next others, later = next :: others ∧ reached = (later, next.start)) ∨
      piece.kind = .top ∧ start + piece.size = region.stop ∧ later = [] ∧
        reached = ([], region.stop)) := by
  unfold advance at moved
  dsimp only at moved
  by_cases place : piece.addr = start
  · rw [if_neg (not_not.mpr place), place] at moved
    refine ⟨place, ?_⟩
    by_cases closes : piece.kind.closes = true
    · rw [if_pos closes] at moved
      cases later with
      | nil => cases moved
      | cons next others =>
          dsimp only at moved
          split_ifs at moved with ends
          cases moved
          exact Or.inr (Or.inl ⟨closes, ends, next, others, rfl, rfl⟩)
    · rw [if_neg closes] at moved
      by_cases top : piece.kind = .top
      · rw [if_pos top] at moved
        split_ifs at moved with ends
        cases moved
        exact Or.inr (Or.inr ⟨top, ends.1, ends.2, rfl⟩)
      · rw [if_neg top] at moved
        cases moved
        exact Or.inl ⟨⟨Bool.eq_false_iff.mpr closes, top⟩, rfl⟩
  · rw [if_pos place] at moved
    cases moved

theorem advance_inner (inner : piece.kind.inner) (place : piece.addr = start) :
    advance (region :: later, start) piece = some (region :: later, start + piece.size) := by
  unfold advance
  dsimp only
  rw [if_neg (not_not.mpr place), if_neg (Bool.eq_false_iff.mp inner.1), if_neg inner.2, place]

theorem advance_closes {next : Region} (closes : piece.kind.closes = true)
    (place : piece.addr = start) (ends : start + piece.size = region.stop) :
    advance (region :: next :: later, start) piece = some (next :: later, next.start) := by
  unfold advance
  dsimp only
  rw [if_neg (not_not.mpr place), if_pos closes, place, if_pos ends]

theorem advance_top (top : piece.kind = .top) (place : piece.addr = start)
    (ends : start + piece.size = region.stop) :
    advance ([region], start) piece = some ([], region.stop) := by
  unfold advance
  dsimp only
  rw [if_neg (not_not.mpr place), top, if_neg (by decide), if_pos rfl, place, if_pos ⟨ends, rfl⟩]

theorem walk_bound (walked : walk (region :: later, start) pieces = some ([], stop)) :
    start ≤ region.stop := by
  induction pieces generalizing start with
  | nil => cases walked
  | cons piece rest induction =>
      obtain ⟨next, moved, walked⟩ := Option.bind_eq_some_iff.mp (walk_cons ▸ walked)
      obtain ⟨_, ⟨_, same⟩ | ⟨_, ends, _⟩ | ⟨_, ends, _⟩⟩ := advance_spec moved
      · subst same
        exact Nat.le_trans (Nat.le_add_right _ _) (induction walked)
      · exact Nat.le_trans (Nat.le_add_right _ _) (Nat.le_of_eq ends)
      · exact Nat.le_trans (Nat.le_add_right _ _) (Nat.le_of_eq ends)

theorem walk_done (walked : walk ([], start) pieces = some reached) : pieces = [] := by
  cases pieces with
  | nil => rfl
  | cons piece rest => cases walked

/-- Every piece lies in the rest of the first region or in a later one. -/
theorem walk_inside (walked : walk (region :: later, start) pieces = some ([], stop)) :
    ∀ piece ∈ pieces, piece.Inside ⟨start, region.stop⟩ ∨
      ∃ other ∈ later, piece.Inside other := by
  induction pieces generalizing region later start with
  | nil => exact fun _ member => nomatch member
  | cons first rest induction =>
      obtain ⟨next, moved, walked⟩ := Option.bind_eq_some_iff.mp (walk_cons ▸ walked)
      intro piece member
      obtain ⟨place, ⟨_, same⟩ | ⟨_, ends, next, others, same, reached⟩ | ⟨_, ends, same, reached⟩⟩ :=
        advance_spec moved
      · subst same
        rcases List.mem_cons.mp member with same | member
        · subst same
          have bound := walk_bound walked
          exact Or.inl ⟨Nat.le_of_eq place.symm, place ▸ bound⟩
        · rcases induction walked piece member with inside | elsewhere
          · exact Or.inl ⟨Nat.le_trans (Nat.le_add_right _ _) inside.1, inside.2⟩
          · exact Or.inr elsewhere
      · subst same reached
        rcases List.mem_cons.mp member with same | member
        · subst same
          exact Or.inl ⟨Nat.le_of_eq place.symm, Nat.le_of_eq (place ▸ ends)⟩
        · rcases induction walked piece member with inside | ⟨other, listed, inside⟩
          · exact Or.inr ⟨next, List.mem_cons_self, inside⟩
          · exact Or.inr ⟨other, List.mem_cons_of_mem _ listed, inside⟩
      · subst reached
        rw [walk_done walked] at member
        rcases List.mem_cons.mp member with same | impossible
        · subst same
          exact Or.inl ⟨Nat.le_of_eq place.symm, Nat.le_of_eq (place ▸ ends)⟩
        · cases impossible

theorem walk_apart (apart : (region :: later).Pairwise Region.Apart) (low : region.start ≤ start)
    (walked : walk (region :: later, start) pieces = some ([], stop)) :
    pieces.Pairwise Piece.Apart := by
  induction pieces generalizing region later start with
  | nil => exact List.Pairwise.nil
  | cons first rest induction =>
      obtain ⟨next, moved, walked⟩ := Option.bind_eq_some_iff.mp (walk_cons ▸ walked)
      obtain ⟨elsewhere, others⟩ := List.pairwise_cons.mp apart
      obtain ⟨place, ⟨_, same⟩ | ⟨_, ends, next, rest', same, reached⟩ | ⟨_, _, _, reached⟩⟩ :=
        advance_spec moved
      · subst same
        refine List.pairwise_cons.mpr ⟨?_, induction apart (by omega) walked⟩
        intro other member
        have bound := walk_bound walked
        rcases walk_inside walked other member with inside | ⟨region', listed, inside⟩
        · exact Or.inl (place ▸ inside.1)
        · rcases elsewhere region' listed with before | behind
          · exact Or.inl (Nat.le_trans (place ▸ bound) (Nat.le_trans before inside.1))
          · exact Or.inr (Nat.le_trans inside.2 (Nat.le_trans behind (place ▸ low)))
      · subst same reached
        refine List.pairwise_cons.mpr ⟨?_, induction others (Nat.le_refl _) walked⟩
        intro other member
        have listed : ∃ region' ∈ next :: rest', other.Inside region' := by
          rcases walk_inside walked other member with inside | ⟨region', listed, inside⟩
          · exact ⟨next, List.mem_cons_self, inside⟩
          · exact ⟨region', List.mem_cons_of_mem _ listed, inside⟩
        obtain ⟨region', listed, inside⟩ := listed
        rcases elsewhere region' listed with before | behind
        · exact Or.inl (Nat.le_trans (Nat.le_of_eq (place ▸ ends)) (Nat.le_trans before inside.1))
        · exact Or.inr (Nat.le_trans inside.2 (Nat.le_trans behind (place ▸ low)))
      · subst reached
        rw [walk_done walked]
        exact List.pairwise_singleton _ _

theorem Fills.apart (fills : Fills regions pieces) (apart : regions.Pairwise Region.Apart) :
    pieces.Pairwise Piece.Apart := by
  obtain ⟨first, later, stop, same, walked⟩ := fills
  subst same
  exact walk_apart apart (Nat.le_refl _) walked

theorem Fills.inside (fills : Fills regions pieces) :
    ∀ piece ∈ pieces, ∃ region ∈ regions, piece.Inside region := by
  obtain ⟨first, later, stop, same, walked⟩ := fills
  subst same
  intro piece member
  rcases walk_inside walked piece member with inside | ⟨region, listed, inside⟩
  · exact ⟨first, List.mem_cons_self, inside⟩
  · exact ⟨region, List.mem_cons_of_mem _ listed, inside⟩

theorem Fills.nodup (fills : Fills regions pieces) (apart : regions.Pairwise Region.Apart)
    (positive : ∀ piece ∈ pieces, 0 < piece.size) : (addrs pieces).Nodup := by
  rw [List.Nodup, List.pairwise_map]
  apply (fills.apart apart).imp_of_mem
  intro one other oneListed otherListed apart same
  have first := positive one oneListed
  have second := positive other otherListed
  rcases apart with before | behind
  · omega
  · omega

theorem walk_last (walked : walk (region :: later, start) (left ++ piece :: right) = some ([], stop)) :
    piece.kind = .top ↔ right = [] := by
  induction left generalizing region later start with
  | nil =>
      obtain ⟨next, moved, walked⟩ := Option.bind_eq_some_iff.mp (walk_cons ▸ walked)
      obtain ⟨_, ⟨inner, same⟩ | ⟨post, _, next', others, same, reached⟩ | ⟨top, _, _, reached⟩⟩ :=
        advance_spec moved
      · subst same
        refine iff_of_false inner.2 fun same => ?_
        rw [same] at walked
        cases walked
      · subst same reached
        refine iff_of_false (fun top => ?_) fun same => ?_
        · rw [top] at post
          cases post
        · rw [same] at walked
          cases walked
      · subst reached
        exact iff_of_true top (walk_done walked)
  | cons first rest induction =>
      rw [List.cons_append] at walked
      obtain ⟨next, moved, walked⟩ := Option.bind_eq_some_iff.mp (walk_cons ▸ walked)
      obtain ⟨_, ⟨_, same⟩ | ⟨_, _, next', others, same, reached⟩ | ⟨_, _, _, reached⟩⟩ :=
        advance_spec moved
      · subst same
        exact induction walked
      · subst same reached
        exact induction walked
      · subst reached
        exact absurd (walk_done walked) (List.append_ne_nil_of_right_ne_nil _ (List.cons_ne_nil _ _))

theorem Fills.last (fills : Fills regions (left ++ piece :: right)) :
    piece.kind = .top ↔ right = [] := by
  obtain ⟨first, later, stop, same, walked⟩ := fills
  subst same
  exact walk_last walked

theorem Fills.next (fills : Fills regions (left ++ piece :: right)) (below : piece.kind ≠ .top) :
    ∃ next others, right = next :: others := by
  cases right with
  | nil => exact absurd (fills.last.mpr rfl) below
  | cons next others => exact ⟨next, others, rfl⟩

/-- Some pieces in the middle of a row are replaced by others that fill the same part. -/
theorem Fills.replace {old new : List Piece} (fills : Fills regions (left ++ (old ++ right)))
    (same : ∀ cursor reached, walk cursor old = some reached → walk cursor new = some reached) :
    Fills regions (left ++ (new ++ right)) := by
  obtain ⟨first, later, stop, shape, walked⟩ := fills
  refine ⟨first, later, stop, shape, ?_⟩
  rw [walk_append] at walked ⊢
  obtain ⟨cursor, before, walked⟩ := Option.bind_eq_some_iff.mp walked
  rw [walk_append] at walked
  obtain ⟨reached, middle, after⟩ := Option.bind_eq_some_iff.mp walked
  rw [before, Option.bind_some, walk_append, same cursor reached middle]
  exact after

end SriGlibcMalloc.BoundaryTags
