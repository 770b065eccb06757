import SriGlibcMalloc.Heaps.Model
import SriGlibcMalloc.Chunks.Layout

/-!
# What the changes of heaps do to a row

When an arena moves to a new heap, a post and a new top are linked behind the old top, and a
guard between the old top and the post. When a heap goes away, the post and top are pulled
out again.
-/

namespace SriGlibcMalloc.Heaps

open BoundaryTags
open Chunks

set_option autoImplicit false

variable {base tags : Table} {left right : List Piece} {piece other post guard top : Piece}
variable {p fencepost second n size : Nat} {found : Tag}

theorem link_fencepost_eq {linked : Table} (listed : tags p = some found) (last : found.next = none)
    (apart : fencepost ≠ p) (apart' : n ≠ p) (apart'' : n ≠ fencepost)
    (first : Linked tags linked p fencepost 0 found) :
    linkRemainder linked fencepost n size = some (linkFencepost tags p fencepost n size) := by
  have listed' : linked fencepost = some ⟨0, true, 0, none, some p, none⟩ := by
    rw [first.fresh, last]
  obtain ⟨both, linking, secondly⟩ := @link_remainder_spec size linked fencepost n _ listed' apart''
    (fun same => by cases same) (fun same => by cases same)
  rw [linking]
  refine congrArg some (funext fun asked => ?_)
  by_cases isNew : asked = n
  · subst isNew
    rw [secondly.fresh]
    simp only [linkFencepost, setHead, setPrev, setNext, registerChunk, retag_self,
      retag_of_ne apart', retag_of_ne apart'', Function.update_self, Function.update_of_ne apart'',
      Option.map_some]
  by_cases isPost : asked = fencepost
  · subst isPost
    rw [secondly.own]
    simp only [linkFencepost, setHead, setPrev, setNext, registerChunk, retag_self,
      retag_of_ne apart, retag_of_ne isNew, Function.update_self, Option.map_some]
  rw [secondly.elsewhere asked isNew isPost (fun same => by cases same)]
  by_cases isOwn : asked = p
  · subst isOwn
    rw [first.own]
    simp only [linkFencepost, setHead, setPrev, setNext, registerChunk, retag_self,
      retag_of_ne isNew, retag_of_ne isPost, Function.update_of_ne isNew,
      Function.update_of_ne isPost, listed, Option.map_some]
  · rw [first.elsewhere asked isPost isOwn (fun same => by rw [last] at same; cases same)]
    simp only [linkFencepost, setHead, setPrev, setNext, registerChunk, retag_of_ne isNew,
      retag_of_ne isPost, retag_of_ne isOwn, Function.update_of_ne isNew,
      Function.update_of_ne isPost]

/-- A post and a new top stand behind the old one. -/
theorem row_link_fencepost (row : Row base tags (left ++ [piece])) (other post top : Piece)
    (fresh : post.addr ∉ addrs (left ++ [piece])) (fresh' : top.addr ∉ addrs (left ++ [piece]))
    (apart : top.addr ≠ post.addr) (unused : base post.addr = none) (unused' : base top.addr = none)
    (same : piece.SameTag other) (used : piece.isFree = false) (used' : other.isFree = false)
    (isPost : post.kind = .post) (foot : post.prevSize = 0) (isTop : top.kind = .top)
    (foot' : top.prevSize = 0) :
    Row base (linkFencepost tags piece.addr post.addr top.addr top.size)
      (left ++ [other, post, top]) := by
  have notPiece {addr : Nat} (absent : addr ∉ addrs (left ++ [piece])) : addr ≠ piece.addr := by
    intro same
    exact absent (same ▸ List.mem_map_of_mem (List.mem_append_right _ List.mem_cons_self))
  have postFree : post.isFree = false := by
    unfold Piece.isFree
    rw [isPost]
    rfl
  have topFree : top.isFree = false := by
    unfold Piece.isFree
    rw [isTop]
    rfl
  have postless : post.recorded = 0 := if_pos isPost
  have topSized : top.recorded = top.size := if_neg (by rw [isTop]; decide)
  obtain ⟨linked, linking, first⟩ := @link_remainder_spec 0 tags piece.addr post.addr _ row.at_last
    (notPiece fresh) (fun same => by cases same) (fun same => by cases same)
  obtain ⟨linked', linking', row'⟩ := row.link_remainder other post fresh unused same used'
    (postFree.trans used.symm) foot (by rw [isPost]; rfl)
  rw [postless] at linking'
  cases linking'.symm.trans linking
  rw [List.append_cons] at row'
  have fresh'' : top.addr ∉ addrs (left ++ [other] ++ [post]) := by
    have moved := @not_mem_replace left [] piece other top.addr same.1 fresh'
    rw [addrs, List.map_append, List.mem_append, not_or]
    exact ⟨moved, fun member => apart (List.mem_singleton.mp member)⟩
  obtain ⟨both, linkingTop, row''⟩ := row'.link_remainder post top fresh'' unused'
    ⟨rfl, rfl, rfl, rfl⟩ postFree (topFree.trans postFree.symm) foot' (by rw [isTop]; rfl)
  rw [topSized, link_fencepost_eq row.at_last rfl (notPiece fresh) (notPiece fresh') apart first]
    at linkingTop
  rw [Option.some.inj linkingTop]
  rw [List.append_assoc] at row''
  exact row''

/-- A guard stands between a piece and the post behind it. -/
theorem row_link_second (row : Row base tags (left ++ piece :: post :: right)) (guard : Piece)
    (fresh : guard.addr ∉ addrs (left ++ piece :: post :: right)) (unused : base guard.addr = none)
    (used : piece.isFree = false) (isGuard : guard.kind = .guard) (foot : guard.prevSize = 0)
    (size : guard.size = 16) (adjacent : post.addr = guard.addr + 16) :
    ∃ after, linkSecondFencepost tags piece.addr post.addr guard.addr = some after ∧
      Row base after (left ++ piece :: guard :: { post with prevSize := 16 } :: right) := by
  have guardFree : guard.isFree = false := by
    unfold Piece.isFree
    rw [isGuard]
    rfl
  have recorded : guard.recorded = 16 := (if_neg (by rw [isGuard]; decide)).trans size
  obtain ⟨linked, linking, row'⟩ := row.link_remainder piece guard fresh unused
    ⟨rfl, rfl, rfl, rfl⟩ used (guardFree.trans used.symm) foot (by rw [isGuard]; rfl)
  rw [List.append_cons] at row'
  obtain ⟨footed, footing, row'⟩ := row'.set_foot { post with prevSize := 16 }
    (by rw [recorded]; exact adjacent) rfl rfl rfl rfl recorded.symm
  rw [← List.append_cons] at row'
  refine ⟨footed, ?_, row'⟩
  rw [← footing]
  unfold linkSecondFencepost
  refine congrArg (setFoot · guard.addr) ?_
  unfold linkRemainder at linking
  rw [row.at] at linking
  rw [← Option.some.inj linking, recorded]
  obtain ⟨_, postPiece, _⟩ := nodup_next row.nodup
  have guardPost : post.addr ≠ guard.addr := by omega
  refine congrArg (setHead · guard.addr 16) ?_
  change setNext (setPrev (setNext (setPrev _ post.addr _) guard.addr _) guard.addr _) piece.addr _ =
    setPrev (setNext (setPrev (setNext _ guard.addr _) guard.addr _) piece.addr _) post.addr _
  unfold setNext setPrev
  rw [retag_comm guardPost, retag_comm guardPost, retag_comm postPiece]
  rfl

theorem unregister_retag {addr : Nat} {change : Tag → Tag} (differs : addr ≠ p) :
    unregisterChunk (retag tags addr change) p = retag (unregisterChunk tags p) addr change := by
  unfold retag unregisterChunk
  rw [Function.update_of_ne differs, Function.update_comm differs]

theorem pull_fencepost_eq {merged : Table} {post : Tag} (listed : tags fencepost = some post)
    (follows : post.next = some n) (apart : p ≠ fencepost) (apart' : n ≠ fencepost)
    (absorbing : absorb tags p fencepost = some merged) :
    pullFencepost tags fencepost p n = some (unregisterChunk merged n) := by
  unfold absorb at absorbing
  unfold pullFencepost
  rw [listed] at absorbing ⊢
  rw [← Option.some.inj absorbing]
  change some (unregisterChunk (setPrevOf (setNext (unregisterChunk tags fencepost) p post.next)
    post.next p) n) = some (unregisterChunk (unregisterChunk (setPrevOf (setNext tags p post.next)
    post.next p) fencepost) n)
  rw [follows]
  unfold setPrevOf setPrev setNext
  dsimp only
  rw [unregister_retag apart', unregister_retag apart]

/-- The records after the post and top of a heap have been pulled out: all but the link of the
guard is as if the guard were the last piece. -/
theorem row_pull (row : Row base tags (left ++ [guard, post, top])) (other : Piece)
    (same : guard.SameTag other) (used : guard.isFree = false) (used' : post.isFree = false)
    (used'' : top.isFree = false) (other' : other.isFree = false) :
    ∃ merged, pullFencepost tags post.addr guard.addr top.addr =
        some (unregisterChunk merged top.addr) ∧ guard.addr ≠ top.addr ∧
      (unregisterChunk merged top.addr) guard.addr =
        some { tag (lastOr none left) guard none with next := some top.addr } ∧
      Row base (unregisterChunk (setNext merged guard.addr none) top.addr) (left ++ [other]) := by
  obtain ⟨_, guardPost, _⟩ := nodup_next row.nodup
  have shifted := row
  rw [List.append_cons] at shifted
  obtain ⟨_, postTop, _⟩ := nodup_next shifted.nodup
  obtain ⟨merged, absorbing, row'⟩ := row.absorb guard ⟨rfl, rfl, rfl, rfl⟩ (used.trans used'.symm)
  obtain ⟨_, guardTop, _⟩ := nodup_next row'.nodup
  refine ⟨merged, ?_, guardTop.symm, ?_, ?_⟩
  · exact pull_fencepost_eq row.next_at rfl guardPost.symm postTop absorbing
  · rw [unregisterChunk, Function.update_of_ne guardTop.symm, row'.at]
    rfl
  · exact row'.merge_top other same (other'.trans used''.symm)

theorem consolidate_last_eq {merged unlinked : Table} {last : Tag} {prev : Nat}
    (found : unregisterChunk merged n p = some last) (free : last.prevInuse = false)
    (follows : last.next = some n) (precedes : last.prev = some prev)
    (sane : mdPrevSanityCheck (unregisterChunk merged n) p = true) (apart : p ≠ n)
    (apart' : prev ≠ n) (apart'' : prev ≠ p)
    (unlinking : binUnlink (unregisterChunk (setNext merged p none) n) prev = some unlinked) :
    ∃ htbl, consolidateLast (unregisterChunk merged n) p = some (htbl, prev) ∧
      absorb unlinked prev p = some (setNext htbl prev none) := by
  have own : merged p = some last := by
    rw [← found, unregisterChunk, Function.update_of_ne apart]
  obtain ⟨before, listed, unlinking⟩ := Option.bind_eq_some_iff.mp unlinking
  obtain ⟨_, binned, result⟩ := Option.bind_eq_some_iff.mp unlinking
  cases result
  have inMerged : merged prev = some before := by
    rw [← listed, unregisterChunk, Function.update_of_ne apart', setNext, retag_of_ne apart'']
  have listed' : unregisterChunk (unregisterChunk merged n) p prev = some before := by
    rw [unregisterChunk, Function.update_of_ne apart'', unregisterChunk,
      Function.update_of_ne apart', inMerged]
  have unlinking' : binUnlink (unregisterChunk (unregisterChunk merged n) p) prev =
      some (setPlace (unregisterChunk (unregisterChunk merged n) p) prev none) :=
    proceed listed' (proceed binned rfl)
  refine ⟨setPrevOf (setNext (setPlace (unregisterChunk (unregisterChunk merged n) p) prev none)
    prev (some n)) (some n) prev, ?_, ?_⟩
  · unfold consolidateLast
    refine proceed found ?_
    rw [free, if_neg Bool.false_ne_true, follows]
    exact asserted sane (proceed precedes (proceed unlinking' rfl))
  · have ownUnlinked : setPlace (unregisterChunk (setNext merged p none) n) prev none p =
        some { last with next := none } := by
      rw [setPlace, retag_of_ne apart''.symm, unregisterChunk, Function.update_of_ne apart, setNext,
        retag_self, own]
      rfl
    unfold absorb
    rw [ownUnlinked]
    change some (unregisterChunk (setNext _ prev none) p) = some _
    refine congrArg some (funext fun asked => ?_)
    simp only [setPrevOf, setPrev, setNext, setPlace]
    by_cases isOwn : asked = p
    · subst isOwn
      simp only [unregisterChunk, Function.update_self, retag_of_ne apart''.symm,
        retag_of_ne apart]
    by_cases isPrev : asked = prev
    · subst isPrev
      simp only [unregisterChunk, retag_self, retag_of_ne apart', retag_of_ne apart'',
        Function.update_of_ne apart', Function.update_of_ne apart'', inMerged, Option.map_some]
    by_cases isNew : asked = n
    · subst isNew
      simp only [unregisterChunk, retag_self, retag_of_ne isPrev, Function.update_self,
        Function.update_of_ne isOwn, Option.map_none]
    · simp only [unregisterChunk, retag_of_ne isPrev, retag_of_ne isNew, retag_of_ne isOwn,
        Function.update_of_ne isOwn, Function.update_of_ne isNew]

end SriGlibcMalloc.Heaps
