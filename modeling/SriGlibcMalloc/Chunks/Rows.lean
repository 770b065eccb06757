import SriGlibcMalloc.Chunks.Records
import Mathlib.Data.List.Nodup

/-!
# What the changes of records do to a row

Every change of records turns the table of a row into the table of another row. The
conditions say how the pieces of the two rows are related.
-/

namespace SriGlibcMalloc.Chunks

open BoundaryTags
open EntryPoints (minSize)

set_option autoImplicit false

/-- The records are those of a row of pieces, besides those of other addresses. -/
structure Row (base tags : Table) (pieces : List Piece) : Prop where
  same : tags = table base none none pieces
  nodup : (addrs pieces).Nodup
  unused : ∀ piece ∈ pieces, base piece.addr = none

variable {base tags : Table} {before : Option Piece} {pieces left right : List Piece}
variable {piece other next next' new : Piece} {size : Nat}

theorem Row.at (row : Row base tags (left ++ piece :: right)) :
    tags piece.addr = some (tag (lastOr none left) piece (headAddr none right)) := by
  rw [row.same]
  exact table_at (nodup_at row.nodup).1

theorem Row.next_at (row : Row base tags (left ++ piece :: next :: right)) :
    tags next.addr = some (tag (some piece) next (headAddr none right)) := by
  rw [row.same]
  exact table_next row.nodup

theorem Row.at_last (row : Row base tags (left ++ [piece])) :
    tags piece.addr = some (tag (lastOr none left) piece none) := row.at

theorem Row.bordered (row : Row base tags (left ++ piece :: right))
    (used : (lastOr none left).any Piece.isFree = false) :
    (tags piece.addr).any Tag.prevInuse = true := by
  rw [row.at]
  change (!(lastOr none left).any Piece.isFree) = true
  rw [used]
  rfl

theorem Row.next_sane (row : Row base tags (left ++ piece :: next :: right))
    (adjacent : next.addr = piece.addr + piece.recorded) :
    mdNextSanityCheck tags piece.addr = true := by
  unfold mdNextSanityCheck lookupChunk
  rw [row.at, Option.any_some, tag, headAddr, ← adjacent, row.next_at]
  exact decide_eq_true rfl

theorem Row.prev_sane (row : Row base tags (left ++ piece :: next :: right))
    (foot : piece.addr = next.addr - next.prevSize) :
    mdPrevSanityCheck tags next.addr = true := by
  unfold mdPrevSanityCheck lookupChunk
  rw [row.next_at, Option.any_some, tag, Option.map_some, ← foot, row.at]
  exact decide_eq_true rfl

theorem Row.rename (row : Row base tags (left ++ piece :: right))
    (sameAddr : other.addr = piece.addr) :
    (addrs (left ++ other :: right)).Nodup ∧ ∀ own ∈ left ++ other :: right, base own.addr = none := by
  have same : addrs (left ++ other :: right) = addrs (left ++ piece :: right) := by
    rw [addrs, List.map_append, List.map_cons, sameAddr, ← List.map_cons, ← List.map_append]
  refine ⟨same ▸ row.nodup, ?_⟩
  intro own member
  rcases List.mem_append.mp member with inLeft | inRight
  · exact row.unused own (List.mem_append_left _ inLeft)
  · rcases List.mem_cons.mp inRight with this | inRight
    · rw [this, sameAddr]
      exact row.unused piece (List.mem_append_right _ List.mem_cons_self)
    · exact row.unused own (List.mem_append_right _ (List.mem_cons_of_mem _ inRight))

theorem Row.change {change : Tag → Tag} (row : Row base tags (left ++ piece :: right))
    (sameAddr : other.addr = piece.addr) (sameFree : other.isFree = piece.isFree)
    (changed : ∀ after, change (tag (lastOr none left) piece after) =
      tag (lastOr none left) other after) :
    Row base (retag tags piece.addr change) (left ++ other :: right) := by
  obtain ⟨nodup, unused⟩ := row.rename sameAddr
  refine ⟨?_, nodup, unused⟩
  rw [row.same]
  exact retag_piece row.nodup sameAddr sameFree changed

/-- A change of the next record may be one of what it says about the piece. -/
theorem Row.change_next {change : Tag → Tag}
    (row : Row base tags (left ++ piece :: next :: right)) (same : piece.SameTag other)
    (sameAddr : next'.addr = next.addr) (sameFree : next'.isFree = next.isFree)
    (changed : ∀ after, change (tag (some piece) next after) = tag (some other) next' after) :
    Row base (retag tags next.addr change) (left ++ other :: next' :: right) := by
  obtain ⟨nodup, unused⟩ := row.rename same.1
  have renamed : Row base (table base none none (left ++ other :: next :: right))
      (left ++ other :: next :: right) := ⟨rfl, nodup, unused⟩
  rw [List.append_cons] at renamed
  obtain ⟨nodup, unused⟩ := renamed.rename sameAddr
  rw [← List.append_cons] at nodup unused
  refine ⟨?_, nodup, unused⟩
  rw [row.same]
  exact BoundaryTags.retag_next row.nodup same sameAddr sameFree changed

theorem Row.set_head (row : Row base tags (left ++ piece :: right)) (other : Piece)
    (sameAddr : other.addr = piece.addr) (sameFree : other.isFree = piece.isFree)
    (samePrev : other.prevSize = piece.prevSize) (samePlace : other.kind.place = piece.kind.place)
    (used : (lastOr none left).any Piece.isFree = false) :
    Row base (setHead tags piece.addr other.recorded) (left ++ other :: right) := by
  apply row.change sameAddr sameFree
  intro after
  simp only [tag, samePrev, samePlace, used, Bool.not_false]

theorem Row.set_head_size (row : Row base tags (left ++ piece :: right)) (other : Piece)
    (sameAddr : other.addr = piece.addr) (sameFree : other.isFree = piece.isFree)
    (samePrev : other.prevSize = piece.prevSize)
    (samePlace : other.kind.place = piece.kind.place) :
    Row base (setHeadSize tags piece.addr other.recorded) (left ++ other :: right) := by
  apply row.change sameAddr sameFree
  intro after
  simp only [tag, samePrev, samePlace]

theorem Row.set_place (row : Row base tags (left ++ piece :: right)) (other : Piece)
    (sameAddr : other.addr = piece.addr) (sameFree : other.isFree = piece.isFree)
    (sameSize : other.recorded = piece.recorded) (samePrev : other.prevSize = piece.prevSize) :
    Row base (setPlace tags piece.addr other.kind.place) (left ++ other :: right) := by
  apply row.change sameAddr sameFree
  intro after
  simp only [tag, sameSize, samePrev]

theorem Row.bin_unlink (row : Row base tags (left ++ piece :: right)) (other : Piece)
    (listed : piece.kind.place = some .bin) (sameAddr : other.addr = piece.addr)
    (sameFree : other.isFree = piece.isFree) (sameSize : other.recorded = piece.recorded)
    (samePrev : other.prevSize = piece.prevSize) (unlisted : other.kind.place = none) :
    ∃ after, binUnlink tags piece.addr = some after ∧ Row base after (left ++ other :: right) := by
  refine ⟨_, ?_, row.set_place other sameAddr sameFree sameSize samePrev⟩
  unfold binUnlink
  rw [row.at, unlisted]
  exact congrArg (Option.bind · _) (assert_of (decide_eq_true listed))

theorem Row.set_inuse_bit (row : Row base tags (left ++ piece :: next :: right)) (other : Piece)
    (adjacent : next.addr = piece.addr + piece.recorded) (same : piece.SameTag other)
    (used : other.isFree = false) :
    ∃ after, setInuseBit tags piece.addr = some after ∧
      Row base after (left ++ other :: next :: right) := by
  have changed := @Row.change_next _ _ _ _ _ other _ next
    (fun tag => { tag with prevInuse := true }) row same rfl rfl
  refine ⟨_, ?_, changed ?_⟩
  · unfold setInuseBit
    rw [assert_of (row.next_sane adjacent), row.at]
    rfl
  · intro after
    simp only [tag, Option.any_some, used, Bool.not_false, Option.map_some, same.1]

theorem Row.clear_inuse_bit (row : Row base tags (left ++ piece :: next :: right)) (other : Piece)
    (same : piece.SameTag other) (free : other.isFree = true) :
    Row base (clearInuseBit tags next.addr) (left ++ other :: next :: right) := by
  apply row.change_next same rfl rfl
  intro after
  simp only [tag, Option.any_some, free, Bool.not_true, Option.map_some, same.1]

theorem Row.set_foot (row : Row base tags (left ++ piece :: next :: right)) (next' : Piece)
    (adjacent : next.addr = piece.addr + piece.recorded) (sameAddr : next'.addr = next.addr)
    (sameFree : next'.isFree = next.isFree) (sameSize : next'.recorded = next.recorded)
    (samePlace : next'.kind.place = next.kind.place) (foot : next'.prevSize = piece.recorded) :
    ∃ after, setFoot tags piece.addr = some after ∧
      Row base after (left ++ piece :: next' :: right) := by
  have changed := @Row.change_next _ _ _ _ _ piece _ next'
    (fun after => { after with prevSize := piece.recorded }) row ⟨rfl, rfl, rfl, rfl⟩ sameAddr
    sameFree
  refine ⟨_, ?_, changed ?_⟩
  · unfold setFoot
    rw [assert_of (row.next_sane adjacent), row.at]
    rfl
  · intro after
    simp only [tag, sameSize, samePlace, foot]

theorem Row.inuse_bit (row : Row base tags (left ++ piece :: next :: right))
    (adjacent : next.addr = piece.addr + piece.recorded) :
    inuseBit tags piece.addr = some (!piece.isFree) := by
  unfold inuseBit
  rw [assert_of (row.next_sane adjacent), row.at]
  change ((tags next.addr).bind fun found => some found.prevInuse) = _
  rw [row.next_at]
  rfl

theorem set_prev_of_of_ne {tags : Table} {temp : Option Nat} {p asked : Nat}
    (differs : temp ≠ some asked) : setPrevOf tags temp p asked = tags asked := by
  cases temp with
  | none => rfl
  | some temp => exact retag_of_ne fun same => differs (congrArg some same.symm)

theorem set_prev_of_self {tags : Table} {p asked : Nat} :
    setPrevOf tags (some asked) p asked =
      (tags asked).map fun tag => { tag with prev := some p } := retag_self

/-- A new record stands between one and what followed it. -/
structure Linked (tags linked : Table) (p remainder size : Nat) (found : Tag) : Prop where
  fresh : linked remainder = some ⟨size, true, 0, found.next, some p, none⟩
  own : linked p = some { found with next := some remainder }
  behind : ∀ asked, found.next = some asked →
    linked asked = (tags asked).map fun tag => { tag with prev := some remainder }
  elsewhere : ∀ asked, asked ≠ remainder → asked ≠ p → found.next ≠ some asked →
    linked asked = tags asked

theorem link_remainder_spec {tags : Table} {p remainder : Nat} {found : Tag}
    (listed : tags p = some found) (fresh : remainder ≠ p) (nextFresh : found.next ≠ some remainder)
    (nextOther : found.next ≠ some p) :
    ∃ linked, linkRemainder tags p remainder size = some linked ∧
      Linked tags linked p remainder size found := by
  unfold linkRemainder
  rw [listed]
  refine ⟨_, rfl, ?_, ?_, ?_, ?_⟩
  · rw [setHead, retag_self, set_prev_of_of_ne nextFresh, setNext, retag_of_ne fresh, setPrev,
      retag_self, setNext, retag_self, registerChunk, Function.update_self]
    rfl
  · rw [setHead, retag_of_ne fresh.symm, set_prev_of_of_ne nextOther, setNext, retag_self, setPrev,
      retag_of_ne fresh.symm, setNext, retag_of_ne fresh.symm, registerChunk,
      Function.update_of_ne fresh.symm, listed]
    rfl
  · intro asked next
    have notNew : asked ≠ remainder := fun same => nextFresh (same ▸ next)
    have notOwn : asked ≠ p := fun same => nextOther (same ▸ next)
    rw [next, setHead, retag_of_ne notNew, set_prev_of_self, setNext, retag_of_ne notOwn, setPrev,
      retag_of_ne notNew, setNext, retag_of_ne notNew, registerChunk,
      Function.update_of_ne notNew]
  · intro asked notNew notOwn notNext
    rw [setHead, retag_of_ne notNew, set_prev_of_of_ne notNext, setNext, retag_of_ne notOwn,
      setPrev, retag_of_ne notNew, setNext, retag_of_ne notNew, registerChunk,
      Function.update_of_ne notNew]

theorem absorb_spec {tags : Table} {p next : Nat} {found : Tag}
    (listed : tags next = some found) (differs : next ≠ p) (nextOther : found.next ≠ some p)
    (nextSelf : found.next ≠ some next) :
    ∃ merged, absorb tags p next = some merged ∧ merged next = none ∧
      merged p = (tags p).map (fun tag => { tag with next := found.next }) ∧
      (∀ asked, found.next = some asked →
        merged asked = (tags asked).map fun tag => { tag with prev := some p }) ∧
      ∀ asked, asked ≠ next → asked ≠ p → found.next ≠ some asked →
        merged asked = tags asked := by
  unfold absorb
  rw [listed]
  refine ⟨_, rfl, ?_, ?_, ?_, ?_⟩
  · exact Function.update_self _ _ _
  · rw [unregisterChunk, Function.update_of_ne differs.symm, set_prev_of_of_ne nextOther, setNext,
      retag_self]
  · intro asked behind
    have notNext : asked ≠ next := fun same => nextSelf (same ▸ behind)
    have notOwn : asked ≠ p := fun same => nextOther (same ▸ behind)
    rw [behind, unregisterChunk, Function.update_of_ne notNext, set_prev_of_self, setNext,
      retag_of_ne notOwn]
  · intro asked notNext notOwn notBehind
    rw [unregisterChunk, Function.update_of_ne notNext, set_prev_of_of_ne notBehind, setNext,
      retag_of_ne notOwn]

theorem head_addr_ne {pieces : List Piece} {addr : Nat} (absent : addr ∉ addrs pieces) :
    headAddr none pieces ≠ some addr := by
  cases pieces with
  | nil => exact fun impossible => by cases impossible
  | cons first rest =>
      exact fun same => absent (List.mem_cons.mpr (Or.inl (Option.some.inj same).symm))

theorem nodup_with (nodup : (addrs (left ++ piece :: right)).Nodup)
    (fresh : new.addr ∉ addrs (left ++ piece :: right)) (sameAddr : other.addr = piece.addr) :
    (addrs (left ++ other :: new :: right)).Nodup := by
  rw [List.append_cons, addrs, List.map_append, List.map_cons, List.nodup_middle, List.nodup_cons,
    List.map_append, List.append_assoc, List.map_singleton, List.singleton_append, sameAddr]
  rw [addrs, List.map_append, List.map_cons] at nodup fresh
  exact ⟨fresh, nodup⟩

theorem Linked.row {linked : Table} (nodup : (addrs (left ++ piece :: right)).Nodup)
    (fresh : new.addr ∉ addrs (left ++ piece :: right)) (same : piece.SameTag other)
    (used : other.isFree = false) (sameFree : new.isFree = piece.isFree) (foot : new.prevSize = 0)
    (unlisted : new.kind.place = none)
    (link : Linked (table base none before (left ++ piece :: right)) linked piece.addr new.addr
      new.recorded (tag (lastOr before left) piece (headAddr none right))) :
    linked = table base none before (left ++ other :: new :: right) := by
  have nodup' := nodup_with nodup fresh same.1
  funext asked
  by_cases isNew : asked = new.addr
  · rw [isNew, link.fresh, table_next nodup']
    simp only [tag, Option.any_some, used, foot, Option.map_some, same.1, Bool.not_false, unlisted]
  by_cases own : asked = piece.addr
  · rw [own, link.own, ← same.1, table_at (nodup_at nodup').1, same.tag_eq]
    rfl
  cases right with
  | nil =>
      have nothing : headAddr none [] ≠ some asked := by
        intro impossible
        cases impossible
      rw [link.elsewhere asked isNew own nothing]
      apply table_outside [piece] [other, new] []
      · exact fun member => own (List.mem_singleton.mp member)
      · intro member
        rcases List.mem_cons.mp member with impossible | member
        · exact own (impossible.trans same.1)
        · exact isNew (List.mem_singleton.mp member)
      · exact fun _ => congrArg some same.1.symm
      · exact fun _ => rfl
  | cons behind rest =>
      by_cases next : asked = behind.addr
      · subst next
        rw [List.append_cons] at nodup'
        rw [link.behind _ rfl, table_next nodup, List.append_cons, table_next nodup']
        simp only [tag, Option.any_some, Option.map_some, sameFree]
      · rw [link.elsewhere asked isNew own fun same => next (Option.some.inj same).symm]
        apply table_outside [piece, behind] [other, new, behind] rest
        · intro member
          rcases List.mem_cons.mp member with impossible | member
          · exact own impossible
          · exact next (List.mem_singleton.mp member)
        · intro member
          rcases List.mem_cons.mp member with impossible | member
          · exact own (impossible.trans same.1)
          · rcases List.mem_cons.mp member with impossible | member
            · exact isNew impossible
            · exact next (List.mem_singleton.mp member)
        · exact fun _ => congrArg some same.1.symm
        · exact fun _ => rfl

theorem Row.link_remainder (row : Row base tags (left ++ piece :: right)) (other new : Piece)
    (fresh : new.addr ∉ addrs (left ++ piece :: right)) (unused : base new.addr = none)
    (same : piece.SameTag other) (used : other.isFree = false)
    (sameFree : new.isFree = piece.isFree) (foot : new.prevSize = 0)
    (unlisted : new.kind.place = none) :
    ∃ after, linkRemainder tags piece.addr new.addr new.recorded = some after ∧
      Row base after (left ++ other :: new :: right) := by
  have nodup' := nodup_with row.nodup fresh same.1
  obtain ⟨_, freshPiece, freshRight⟩ := nodup_next nodup'
  obtain ⟨linked, result, link⟩ :=
    @link_remainder_spec new.recorded _ _ _ _ row.at (same.1 ▸ freshPiece)
      (head_addr_ne freshRight) (head_addr_ne (nodup_at row.nodup).2)
  refine ⟨linked, result, ?_, nodup', ?_⟩
  · rw [row.same] at link
    exact link.row row.nodup fresh same used sameFree foot unlisted
  · intro own member
    rw [List.append_cons] at member
    rcases List.mem_append.mp member with member | member
    · exact (row.rename same.1).2 own
        (List.mem_append.mpr ((List.mem_append.mp member).imp id fun single =>
          List.mem_cons.mpr (Or.inl (List.mem_singleton.mp single))))
    · rcases List.mem_cons.mp member with this | member
      · rw [this]
        exact unused
      · exact row.unused own (List.mem_append_right _ (List.mem_cons_of_mem _ member))

theorem nodup_without (nodup : (addrs (left ++ piece :: next :: right)).Nodup)
    (sameAddr : other.addr = piece.addr) :
    (addrs (left ++ other :: right)).Nodup ∧ next.addr ∉ addrs (left ++ other :: right) := by
  rw [List.append_cons, addrs, List.map_append, List.map_cons, List.nodup_middle, List.nodup_cons,
    List.map_append, List.append_assoc, List.map_singleton, List.singleton_append,
    ← sameAddr] at nodup
  rw [addrs, List.map_append, List.map_cons]
  exact ⟨nodup.2, nodup.1⟩

theorem nodup_less (nodup : (addrs (left ++ piece :: right)).Nodup) :
    (addrs (left ++ right)).Nodup :=
  nodup.sublist (((List.sublist_cons_self piece right).append_left left).map Piece.addr)

theorem not_mem_less {addr : Nat} (absent : addr ∉ addrs (left ++ piece :: next :: right)) :
    addr ∉ addrs (left ++ piece :: right) := by
  intro listed
  apply absent
  rw [addrs, List.map_append, List.mem_append] at listed ⊢
  exact listed.imp id fun member => (List.mem_cons.mp member).elim
    (fun own => List.mem_cons.mpr (Or.inl own))
    (fun later => List.mem_cons_of_mem _ (List.mem_cons_of_mem _ later))

/-- A chunk that takes in the next one is free when that was. -/
theorem absorb_row (nodup : (addrs (left ++ piece :: next :: right)).Nodup)
    (unused : base next.addr = none) (same : piece.SameTag other)
    (sameFree : other.isFree = next.isFree) :
    absorb (table base none before (left ++ piece :: next :: right)) piece.addr next.addr =
      some (table base none before (left ++ other :: right)) := by
  obtain ⟨nodup', absentNext⟩ := nodup_without nodup same.1
  obtain ⟨_, differs, absentRight⟩ := nodup_next nodup
  have listed : table base none before (left ++ piece :: next :: right) next.addr = _ :=
    table_next nodup
  obtain ⟨merged, result, nextTag, ownTag, behindTag, elsewhere⟩ :=
    absorb_spec listed differs (head_addr_ne (same.1 ▸ (nodup_at nodup').2)) (head_addr_ne absentRight)
  rw [result]
  apply congrArg some
  funext asked
  by_cases taken : asked = next.addr
  · rw [taken, nextTag, table_of_not_mem absentNext, unused]
  by_cases own : asked = piece.addr
  · rw [own, ownTag, table_at (nodup_at nodup).1, Option.map_some, ← same.1,
      table_at (nodup_at nodup').1, same.tag_eq]
    rfl
  cases right with
  | nil =>
      rw [elsewhere asked taken own fun impossible => by cases impossible]
      apply table_outside [piece, next] [other] []
      · intro member
        rcases List.mem_cons.mp member with impossible | member
        · exact own impossible
        · exact taken (List.mem_singleton.mp member)
      · exact fun member => own ((List.mem_singleton.mp member).trans same.1)
      · exact fun _ => congrArg some same.1.symm
      · exact fun _ => rfl
  | cons behind rest =>
      by_cases follows : asked = behind.addr
      · subst follows
        rw [List.append_cons] at nodup
        rw [behindTag _ rfl, List.append_cons, table_next nodup, table_next nodup']
        simp only [tag, Option.any_some, Option.map_some, sameFree, same.1]
      · rw [elsewhere asked taken own fun same => follows (Option.some.inj same).symm]
        apply table_outside [piece, next, behind] [other, behind] rest
        · intro member
          rcases List.mem_cons.mp member with impossible | member
          · exact own impossible
          · rcases List.mem_cons.mp member with impossible | member
            · exact taken impossible
            · exact follows (List.mem_singleton.mp member)
        · intro member
          rcases List.mem_cons.mp member with impossible | member
          · exact own (impossible.trans same.1)
          · exact follows (List.mem_singleton.mp member)
        · exact fun _ => congrArg some same.1.symm
        · exact fun _ => rfl

theorem Row.merged (row : Row base tags (left ++ piece :: next :: right))
    (sameAddr : other.addr = piece.addr) :
    (addrs (left ++ other :: right)).Nodup ∧ ∀ own ∈ left ++ other :: right, base own.addr = none := by
  refine ⟨(nodup_without row.nodup sameAddr).1, ?_⟩
  intro own member
  apply (row.rename sameAddr).2 own
  rcases List.mem_append.mp member with inLeft | inRight
  · exact List.mem_append_left _ inLeft
  · rcases List.mem_cons.mp inRight with this | inRight
    · exact List.mem_append_right _ (List.mem_cons.mpr (Or.inl this))
    · exact List.mem_append_right _ (List.mem_cons_of_mem _ (List.mem_cons_of_mem _ inRight))

theorem Row.absorb (row : Row base tags (left ++ piece :: next :: right)) (other : Piece)
    (same : piece.SameTag other) (sameFree : other.isFree = next.isFree) :
    ∃ after, absorb tags piece.addr next.addr = some after ∧
      Row base after (left ++ other :: right) := by
  obtain ⟨nodup, unused⟩ := row.merged same.1
  have free : base next.addr = none :=
    row.unused next (List.mem_append_right _ (List.mem_cons_of_mem _ List.mem_cons_self))
  refine ⟨_, ?_, rfl, nodup, unused⟩
  rw [row.same]
  exact absorb_row row.nodup free same sameFree

theorem Row.merge_top (row : Row base tags (left ++ [piece, next])) (other : Piece)
    (same : piece.SameTag other) (sameFree : other.isFree = next.isFree) :
    Row base (unregisterChunk (setNext tags piece.addr none) next.addr) (left ++ [other]) := by
  obtain ⟨after, absorbed, merged⟩ := row.absorb other same sameFree
  unfold Chunks.absorb at absorbed
  rw [row.next_at] at absorbed
  cases absorbed
  exact merged

end SriGlibcMalloc.Chunks
