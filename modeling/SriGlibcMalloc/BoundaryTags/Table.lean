import Mathlib.Logic.Function.Basic
import Mathlib.Data.List.Basic

/-!
# Pieces of memory and their tags

A row of adjacent pieces is described by a table of tags, one for the address of each
piece: its size, whether the piece before it is free and then how large that is, links to
both neighbours, and the list that the piece is on. The table of a row is a function of the
row, so that a change of tags is an equation between tables.
-/

namespace SriGlibcMalloc.BoundaryTags

set_option autoImplicit false

inductive Place
  | held
  | fast
  | bin
  deriving DecidableEq, Repr

/-- A piece is owned, kept aside, free, one before the end of a region, the post that ends a
region (with no size in its tag), or the last. While a piece changes its place it is
on no list: loose when it counts as free, taken when it does not. -/
inductive Kind
  | held
  | cached
  | free
  | loose
  | taken
  | guard
  | post
  | top
  deriving DecidableEq, Repr

def Kind.place : Kind → Option Place
  | .held => some .held
  | .cached => some .fast
  | .free => some .bin
  | _ => none

/-- A piece, with what its tag says about the size of the piece before it. -/
structure Piece where
  addr : Nat
  size : Nat
  prevSize : Nat
  kind : Kind
  deriving DecidableEq, Repr

structure Tag where
  size : Nat
  prevInuse : Bool
  prevSize : Nat
  next : Option Nat
  prev : Option Nat
  place : Option Place
  deriving DecidableEq, Repr

abbrev Table := Nat → Option Tag

/-- The size in the tag; a post has none. -/
def Piece.recorded (piece : Piece) : Nat := if piece.kind = .post then 0 else piece.size

def Piece.isFree (piece : Piece) : Bool := piece.kind = .free || piece.kind = .loose

def tag (before : Option Piece) (piece : Piece) (after : Option Nat) : Tag where
  size := piece.recorded
  prevInuse := !before.any Piece.isFree
  prevSize := piece.prevSize
  next := after
  prev := before.map Piece.addr
  place := piece.kind.place

def headAddr (after : Option Nat) : List Piece → Option Nat
  | [] => after
  | piece :: _ => some piece.addr

def lastOr (before : Option Piece) : List Piece → Option Piece
  | [] => before
  | piece :: rest => lastOr (some piece) rest

/-- The table of a row, over the tags of other addresses. -/
def table (base : Table) (after : Option Nat) (before : Option Piece) : List Piece → Table
  | [] => base
  | piece :: rest =>
      Function.update (table base after (some piece) rest) piece.addr
        (some (tag before piece (headAddr after rest)))

def retag (tags : Table) (addr : Nat) (change : Tag → Tag) : Table :=
  Function.update tags addr ((tags addr).map change)

abbrev addrs (pieces : List Piece) : List Nat := pieces.map Piece.addr

variable {base tags : Table} {after : Option Nat} {before : Option Piece}
variable {piece other : Piece} {left right pieces : List Piece} {addr : Nat}
variable {change : Tag → Tag} {value : Option Tag}

@[simp]
theorem last_or_append : lastOr before (left ++ right) = lastOr (lastOr before left) right := by
  induction left generalizing before with
  | nil => rfl
  | cons piece rest induction => exact induction

@[simp]
theorem head_addr_append :
    headAddr after (left ++ right) = headAddr (headAddr after right) left := by
  cases left with
  | nil => rfl
  | cons piece rest => rfl

theorem table_append (left right : List Piece) :
    table base after before (left ++ right) =
      table (table base after (lastOr before left) right) (headAddr after right) before left := by
  induction left generalizing before with
  | nil => rfl
  | cons piece rest induction =>
      rw [List.cons_append, table, induction, head_addr_append]
      rfl

theorem table_of_not_mem (absent : addr ∉ addrs pieces) :
    table base after before pieces addr = base addr := by
  induction pieces generalizing before with
  | nil => rfl
  | cons piece rest induction =>
      obtain ⟨differs, absent⟩ := not_or.mp (mt List.mem_cons.mpr absent)
      rw [table, Function.update_of_ne differs, induction absent]

@[simp]
theorem retag_self : retag tags addr change addr = (tags addr).map change :=
  Function.update_self _ _ _

theorem retag_of_ne {asked : Nat} (differs : asked ≠ addr) :
    retag tags addr change asked = tags asked := Function.update_of_ne differs _ _

theorem retag_comm {asked : Nat} {change' : Tag → Tag} (differs : addr ≠ asked) :
    retag (retag tags addr change) asked change' = retag (retag tags asked change') addr change := by
  unfold retag
  rw [Function.update_of_ne differs.symm, Function.update_of_ne differs,
    Function.update_comm differs]

theorem table_at (absent : piece.addr ∉ addrs left) :
    table base after before (left ++ piece :: right) piece.addr =
      some (tag (lastOr before left) piece (headAddr after right)) := by
  rw [table_append left, table_of_not_mem absent, table, Function.update_self]

/-- A row depends on the piece before it only through its address and whether it is free. -/
theorem table_before (sameAddr : piece.addr = other.addr) (sameFree : piece.isFree = other.isFree) :
    table base after (some piece) pieces = table base after (some other) pieces := by
  cases pieces with
  | nil => rfl
  | cons first rest =>
      rw [table, table]
      congr 2
      simp only [tag, Option.any_some, Option.map_some, sameAddr, sameFree]

theorem nodup_at (nodup : (addrs (left ++ piece :: right)).Nodup) :
    piece.addr ∉ addrs left ∧ piece.addr ∉ addrs right := by
  rw [addrs, List.map_append, List.map_cons, List.nodup_append] at nodup
  obtain ⟨_, rest, apart⟩ := nodup
  exact ⟨fun member => apart _ member _ List.mem_cons_self rfl, (List.nodup_cons.mp rest).1⟩

theorem nodup_next (nodup : (addrs (left ++ piece :: other :: right)).Nodup) :
    other.addr ∉ addrs left ∧ other.addr ≠ piece.addr ∧ other.addr ∉ addrs right := by
  rw [List.append_cons] at nodup
  obtain ⟨before, behind⟩ := nodup_at nodup
  rw [addrs, List.map_append, List.mem_append, not_or] at before
  exact ⟨before.1, fun same => before.2 (List.mem_singleton.mpr same), behind⟩

theorem table_next (nodup : (addrs (left ++ piece :: other :: right)).Nodup) :
    table base after before (left ++ piece :: other :: right) other.addr =
      some (tag (some piece) other (headAddr after right)) := by
  rw [List.append_cons] at nodup ⊢
  rw [table_at (nodup_at nodup).1, last_or_append]
  rfl

theorem table_congr_base {base' : Table} (same : base addr = base' addr) :
    table base after before pieces addr = table base' after before pieces addr := by
  induction pieces generalizing before with
  | nil => exact same
  | cons piece rest induction =>
      rw [table, table, Function.update_apply, Function.update_apply, induction]

/-- Outside of a window a row does not change when the window keeps its first address and
what the next piece says about it. -/
theorem table_outside (old new right : List Piece) (absentOld : addr ∉ addrs old)
    (absentNew : addr ∉ addrs new) (sameHead : ∀ after, headAddr after old = headAddr after new)
    (sameLast : ∀ before, table base after (lastOr before old) right =
      table base after (lastOr before new) right) :
    table base after before (left ++ (old ++ right)) addr =
      table base after before (left ++ (new ++ right)) addr := by
  rw [table_append, head_addr_append, sameHead, table_append left, head_addr_append]
  apply table_congr_base
  rw [table_append old, table_append new, table_of_not_mem absentOld, table_of_not_mem absentNew,
    sameLast]

def Piece.SameTag (piece other : Piece) : Prop :=
  other.addr = piece.addr ∧ other.recorded = piece.recorded ∧
    other.prevSize = piece.prevSize ∧ other.kind.place = piece.kind.place

theorem Piece.SameTag.tag_eq (same : piece.SameTag other) :
    tag before other after = tag before piece after := by
  unfold tag
  rw [same.2.1, same.2.2.1, same.2.2.2]

theorem retag_piece (nodup : (addrs (left ++ piece :: right)).Nodup)
    (sameAddr : other.addr = piece.addr) (sameFree : other.isFree = piece.isFree)
    (changed : ∀ after, change (tag (lastOr before left) piece after) =
      tag (lastOr before left) other after) :
    retag (table base after before (left ++ piece :: right)) piece.addr change =
      table base after before (left ++ other :: right) := by
  funext asked
  by_cases own : asked = piece.addr
  · subst own
    have absent := (nodup_at nodup).1
    rw [retag_self, table_at absent, Option.map_some, changed, ← sameAddr]
    rw [← sameAddr] at absent
    exact (table_at absent).symm
  · rw [retag_of_ne own]
    apply table_outside [piece] [other] right
    · exact fun member => own (List.mem_singleton.mp member)
    · exact fun member => own ((List.mem_singleton.mp member).trans sameAddr)
    · exact fun _ => congrArg some sameAddr.symm
    · exact fun _ => table_before sameAddr.symm sameFree.symm

/-- A change of the next tag follows a change of what it says about the piece. -/
theorem retag_next {next next' : Piece} (nodup : (addrs (left ++ piece :: next :: right)).Nodup)
    (same : piece.SameTag other) (sameAddr : next'.addr = next.addr)
    (sameFree : next'.isFree = next.isFree)
    (changed : ∀ after, change (tag (some piece) next after) = tag (some other) next' after) :
    retag (table base after before (left ++ piece :: next :: right)) next.addr change =
      table base after before (left ++ other :: next' :: right) := by
  funext asked
  have absent := (nodup_at nodup).1
  obtain ⟨nextAbsent, differs, _⟩ := nodup_next nodup
  by_cases own : asked = next.addr
  · subst own
    rw [retag_self, table_next nodup, Option.map_some, changed, List.append_cons, ← sameAddr,
      table_at]
    · rw [last_or_append]
      rfl
    · rw [addrs, List.map_append, List.mem_append, not_or, sameAddr]
      exact ⟨nextAbsent, fun member =>
        differs ((List.mem_singleton.mp member).trans same.1)⟩
  · rw [retag_of_ne own]
    by_cases first : asked = piece.addr
    · subst first
      rw [table_at absent]
      have absent' : other.addr ∉ addrs left := same.1 ▸ absent
      rw [← same.1, table_at absent', same.tag_eq]
      congr 2
      exact congrArg some sameAddr.symm
    · apply table_outside [piece, next] [other, next'] right
      · intro member
        rcases List.mem_cons.mp member with impossible | member
        · exact first impossible
        · exact own (List.mem_singleton.mp member)
      · intro member
        rcases List.mem_cons.mp member with impossible | member
        · exact first (impossible.trans same.1)
        · exact own ((List.mem_singleton.mp member).trans sameAddr)
      · exact fun _ => congrArg some same.1.symm
      · exact fun _ => table_before sameAddr.symm sameFree.symm

end SriGlibcMalloc.BoundaryTags
