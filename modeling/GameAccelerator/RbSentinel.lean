import GameAccelerator.RbBookkeeping
import GameAccelerator.RbCheckedFixup
import GameAccelerator.StoreAtomicity

namespace GameAccelerator.RbSentinel

open CString Platform RedBlack WhileLoop CheckedLoop RbEngine RbShape RbFocus RbDescent RbLink RbInsertFixup
  RbDeleteFixup RbUpdate RbContents RbCheckedFixup StoreAtomicity
open RbChecked (Misuse readChild writeChild readParent writeParent paint)

variable {T : RbTree} {x y z : Addr} {ctx : List (Frame Cell)} {c : Color} {t u l r : ColorTree Cell} {a : Cell}

section Insert

theorem insertDescent_ok (T : RbTree) (key : CStr) :
    RbChecked.insertDescent T key = finish .endless (insertDescent T key) := by
  apply checkedLoop_eq (fun _ => True) (fun _ _ => rfl) _ _ trivial
  intro st _ hcond
  rw [Bool.and_eq_true, bne_iff_ne] at hcond
  obtain ⟨d, hd⟩ := Option.isSome_iff_exists.mp hcond.2
  refine ⟨?_, trivial⟩
  rw [hd]
  dsimp only
  rw [readChild_ok hcond.1]
  rfl

theorem rbtreeSearch_ok (T : RbTree) (key : CStr) :
    RbChecked.rbtreeSearch T key = finish .endless (rbtreeSearch T key) := by
  apply checkedLoop_eq (fun _ => True) (fun _ _ => rfl) _ _ trivial
  intro x _ hcond
  rw [Bool.and_eq_true, bne_iff_ne] at hcond
  obtain ⟨d, hd⟩ := Option.isSome_iff_exists.mp hcond.2
  refine ⟨?_, trivial⟩
  rw [hd]
  exact readChild_ok hcond.1 d

theorem attach_ok (hz : z ≠ T.nil) (y : Addr) : RbChecked.attach T z y = .ok (attach T z y) := by
  have hend : ∀ T' : RbTree, T'.nil = T.nil →
      (do
        let T ← writeChild T' z .left T'.nil
        let T ← writeChild T z .right T.nil
        paint T z RED) = .ok (((T'.setChild z .left T'.nil).setChild z .right T'.nil).setColor z RED) := by
    intro T' hn
    rw [← hn] at hz
    have hz₁ : z ≠ (T'.setChild z .left T'.nil).nil := hz
    have hz₂ : z ≠ ((T'.setChild z .left T'.nil).setChild z .right T'.nil).nil := hz
    rw [writeChild_ok hz, ok_bind, writeChild_ok hz₁, ok_bind]
    exact paint_node hz₂ RED
  rw [RbChecked.attach, writeParent_ok hz, ok_bind, attach]
  split_ifs with hy hlt
  · exact hend _ rfl
  · rw [writeChild_ok hy, ok_bind]
    exact hend _ rfl
  · rw [writeChild_ok hy, ok_bind]
    exact hend _ rfl

theorem rbtreeInsert_ok (hT : Valid T t) (hz : (T.node a.addr).key = a.key)
    (hv : (T.node a.addr).value = a.value) (hfresh : a.addr ∉ t.toList.map Cell.addr) (hnil : a.addr ≠ T.nil)
    (hlt : a.addr < T.next) : RbChecked.rbtreeInsert T a.addr = finish .endless (rbtreeInsert T a.addr) := by
  rw [RbChecked.rbtreeInsert, rbtreeInsert, insertDescent_ok, hz]
  rcases locate hT a.key.text with ⟨ctx, rfl, hd, hb⟩ | ⟨ctx, c, l, b, r, rfl, hd, hne, hk⟩
  · obtain ⟨m, hm⟩ := hT.balanced
    obtain ⟨c, n, h0, hh⟩ := hm.hole
    cases h0
    have ha := attach_holds hT.holds hb hz hv hfresh hnil hlt
    rw [hd, finish, ok_bind]
    dsimp only
    rw [if_neg (not_not_intro rfl), if_neg (not_not_intro rfl), attach_ok hnil, ok_bind]
    exact rbtreeInsertFixup_ok ha (.red a .nil .nil) hh
  · rw [hd, finish, ok_bind]
    dsimp only
    rw [if_pos hne, if_pos hne]
    rfl

end Insert

section Delete

theorem rbtreeMini_ok (hT : Holds T (plug ctx (.node c l a r))) :
    RbChecked.rbtreeMini T a.addr = finish .endless (rbtreeMini T a.addr) := by
  have hread : ∀ x, (∃ k, MiniInv T ctx (.node c l a r) k x) → readChild T x .left = .ok (T.child x .left) := by
    rintro x ⟨k, ctx', d, l', b, r', -, -, rfl, hb, -⟩
    exact readChild_ok (ne_nil (show Holds T (plug (ctx' ++ ctx) (join .left d l' b r')) from hb)) .left
  apply checkedLoop_eq (fun x => ∃ k, MiniInv T ctx (.node c l a r) k x)
  · intro x hx
    rw [hread x hx]
    rfl
  · intro x hx hcond
    obtain ⟨k, hinv⟩ := hx
    obtain ⟨m, -, hstep⟩ := mini_step k x hinv hcond
    exact ⟨hread x ⟨k, hinv⟩, m, hstep⟩
  · exact ⟨_, [], c, l, a, r, rfl, rfl, rfl, hT, rfl⟩

theorem rbtreeSuccessor_ok (hT : Holds T (plug ctx (.node c l a r))) (hr : r ≠ .nil) :
    RbChecked.rbtreeSuccessor T a.addr = finish .endless (rbtreeSuccessor T a.addr) := by
  have ha : Holds T (plug ctx (join .left c l a r)) := hT
  have hright : T.child a.addr .right = ptr T.nil r := far_eq ha
  cases r with
  | nil => exact absurd rfl hr
  | node d l' b r' =>
      have hb : Holds T (plug (⟨.right, c, a, l⟩ :: ctx) (.node d l' b r')) := hT
      have hne : T.child a.addr .right ≠ T.nil := hright ▸ fun h => hr ((ptr_eq_nil hb).mp h)
      rw [RbChecked.rbtreeSuccessor, readParent_node (ne_nil ha), ok_bind, readChild_ok (ne_nil ha), ok_bind,
        rbtreeSuccessor, if_pos hne, if_pos hne, ok_bind, hright]
      exact rbtreeMini_ok hb

theorem onlyChild_ok (hy : y ≠ T.nil) : RbChecked.onlyChild T y = .ok (onlyChild T y) := by
  rw [RbChecked.onlyChild, readChild_ok hy, ok_bind, readChild_ok hy, ok_bind, onlyChild]
  split_ifs <;> rfl

theorem unlink_ok (hy : y ≠ T.nil) : RbChecked.unlink T y = .ok (unlink T y) := by
  have hy' : y ≠ (T.setParent (onlyChild T y) (T.parent y)).nil := hy
  rw [RbChecked.unlink, onlyChild_ok hy, ok_bind, readParent_node hy, ok_bind, replaceChild_ok hy', ok_bind]
  rfl

/-- The end of `rbtree_delete`. -/
theorem rebalance_ok (hT : Holds T (plug ctx u)) (hx : u = .nil → T.parent T.nil = top T.nil ctx)
    (hy : T.color y = byte c) (hb : Removed ctx u c) :
    (do
      if T.color y = BLACK then
        return (← RbChecked.rbtreeDeleteFixup (ptr T.nil u = T.nil) T (ptr T.nil u), y)
      else return (T, y)) =
    finish Misuse.endless
      (if T.color y = BLACK then (rbtreeDeleteFixup T (ptr T.nil u)).map fun T => (T, y) else some (T, y)) := by
  rw [hy]
  rcases hb with ⟨rfl, -⟩ | ⟨rfl, d, hu, hh⟩
  · rfl
  · rw [if_pos (by rfl), if_pos (by rfl), rbtreeDeleteFixup_ok hT hx hu hh decide_eq_true]
    exact finish_bind (fun _ => rfl) _

theorem removed_here (hy : z ≠ T.nil) (h : T.child z .left = T.nil ∨ T.child z .right = T.nil) :
    RbChecked.removed T z = .ok z := by
  rw [RbChecked.removed, readChild_ok hy, ok_bind, readChild_ok hy, ok_bind]
  split_ifs with hl hr
  · rfl
  · rfl
  · exact absurd h (not_or.mpr ⟨hl, hr⟩)

theorem removed_successor (hT : Holds T (plug ctx (.node c l a r))) (hl : l ≠ .nil) (hr : r ≠ .nil) :
    RbChecked.removed T a.addr = finish .endless (rbtreeSuccessor T a.addr) := by
  have ha : Holds T (plug ctx (join .left c l a r)) := hT
  obtain ⟨hleft, hright⟩ := not_or.mp (two_children hT hl hr)
  rw [RbChecked.removed, readChild_ok (ne_nil ha), ok_bind, if_neg hleft, readChild_ok (ne_nil ha), ok_bind,
    if_neg hright, rbtreeSuccessor_ok hT hr]

theorem delete_here_ok {s : Side} (hT : Valid T (plug ctx (join s c .nil a u))) :
    RbChecked.rbtreeDelete T a.addr = finish .endless (rbtreeDelete T a.addr) := by
  obtain ⟨m, hm⟩ := hT.balanced
  obtain ⟨hu, hx, hpar, hcol⟩ := unlink_ready hT.holds
  have hfew := few_children hT.holds
  rw [RbChecked.rbtreeDelete, removed_here (ne_nil hT.holds) hfew, ok_bind, unlink_ok (ne_nil hT.holds), ok_bind,
    rbtreeDelete, if_pos hfew]
  dsimp only
  rw [if_neg (not_not_intro rfl), hx]
  exact rebalance_ok hu hpar hcol (removed_of_balanced hm)

theorem delete_successor_ok (hl : l ≠ .nil) (hr : r ≠ .nil) (hT : Valid T (plug ctx (.node c l a r))) :
    RbChecked.rbtreeDelete T a.addr = finish .endless (rbtreeDelete T a.addr) := by
  have htwo := two_children hT.holds hl hr
  have hremoved := removed_successor hT.holds hl hr
  obtain ⟨ctx', d, b, v, rfl, -, hsucc⟩ := rbtreeSuccessor_spec hT.holds hr
  obtain ⟨m, hm⟩ := hT.balanced
  have hF : Holds T (plug (ctx' ++ ⟨.right, c, a, l⟩ :: ctx) (join .left d .nil b v)) := by
    rw [plug_right]
    exact hT.holds
  rw [← plug_right] at hm
  obtain ⟨hs, hpar, -⟩ := unlink_swap hF
  obtain ⟨hne, hx, hcol⟩ := swap_ready hF
  rw [RbChecked.rbtreeDelete, hremoved, hsucc, finish, ok_bind, unlink_ok (ne_nil hF), ok_bind, rbtreeDelete,
    if_neg htwo, hsucc]
  dsimp only
  rw [if_pos hne, hx]
  exact rebalance_ok hs hpar hcol (removed_of_balanced (s := .left) hm).change_item

theorem rbtreeDelete_ok (hT : Valid T (plug ctx (.node c l a r))) :
    RbChecked.rbtreeDelete T a.addr = finish .endless (rbtreeDelete T a.addr) := by
  by_cases hl : l = .nil
  · subst hl
    exact delete_here_ok (show Valid T (plug ctx (join .left c .nil a r)) from hT)
  · by_cases hr : r = .nil
    · subst hr
      exact delete_here_ok (show Valid T (plug ctx (join .right c .nil a l)) from hT)
    · exact delete_successor_ok hl hr hT

end Delete

section Calls

variable (hT : Valid T t)

include hT

theorem newNode_inserted (key value : CStr) : RbChecked.rbtreeInsert (newNode T key value) T.next =
    finish .endless (rbtreeInsert (newNode T key value) T.next) := by
  have hnode : (newNode T key value).node T.next =
      { T.node T.next with key := ⟨T.next + 1, key⟩, value := some ⟨T.next + 2, value⟩ } := by
    simp [newNode]
  change RbChecked.rbtreeInsert (newNode T key value) (newCell T key value).addr = _
  apply rbtreeInsert_ok (newNode_valid hT key value)
  · rw [newCell, hnode]
  · rw [newCell, hnode]
  · exact fresh_addr hT.holds le_rfl
  · exact hT.holds.nilBelow.ne'
  · exact Nat.lt_add_of_pos_right (by decide : 0 < 3)

omit hT in
theorem checkedSet_of_memory {al : Alloc} (hal : al.node ∧ al.key ∧ al.value) (key value : CStr) :
    RbChecked.kvsRbtreeSet al T key value = (do
      let T ← RbChecked.rbtreeInsert (newNode T key value) T.next
      return (0, { T with count := T.count + 1 })) := by
  rw [← newNode_eq]
  simp only [RbChecked.kvsRbtreeSet, hal.1, hal.2.1, hal.2.2, if_true]
  rfl

theorem kvsRbtreeSet_ok (al : Alloc) (key value : CStr) :
    RbChecked.kvsRbtreeSet al T key value = finish .endless (kvsRbtreeSet al T key value) := by
  by_cases hal : al.node ∧ al.key ∧ al.value
  · rw [set_of_memory hal, kvsRbtreeSet_eq, checkedSet_of_memory hal, newNode_inserted hT]
    exact finish_bind (fun _ => rfl) _
  · rw [RbChecked.kvsRbtreeSet, kvsRbtreeSet]
    split_ifs with hn hk hv
    · exact absurd ⟨hn, hk, hv⟩ hal
    · rfl
    · rfl
    · rfl

theorem kvsRbtreeDelete_ok (key : CStr) :
    RbChecked.kvsRbtreeDelete T key = finish .endless (kvsRbtreeDelete T key) := by
  rw [RbChecked.kvsRbtreeDelete, rbtreeSearch_ok, kvsRbtreeDelete, rbtreeSearch_eq]
  rcases locate hT key with ⟨ctx, rfl, hd, -⟩ | ⟨ctx, c, l, a, r, rfl, hd, hne, -⟩
  · rw [hd, Option.map_some, finish, ok_bind, if_pos rfl]
    dsimp only
    rw [if_pos rfl]
    rfl
  · rw [hd, Option.map_some, finish, ok_bind, if_neg hne, rbtreeDelete_ok hT]
    dsimp only
    rw [if_neg hne]
    exact finish_bind (fun _ => rfl) _

omit hT in
theorem kvsRbtreeGet_ok (T : RbTree) (key : CStr) :
    RbChecked.kvsRbtreeGet T key = finish .endless (kvsRbtreeGet T key) := by
  rw [RbChecked.kvsRbtreeGet, rbtreeSearch_ok, kvsRbtreeGet]
  exact finish_bind (fun _ => rfl) _

omit hT in
theorem kvsRbtreeModify_ok (al : Alloc) (T : RbTree) (key value : CStr) :
    RbChecked.kvsRbtreeModify al T key value = finish .endless (kvsRbtreeModify al T key value) := by
  rw [RbChecked.kvsRbtreeModify, rbtreeSearch_ok, kvsRbtreeModify]
  cases rbtreeSearch T key with
  | none => rfl
  | some node =>
      rw [finish, ok_bind]
      dsimp only
      split_ifs <;> rfl

theorem exec_ok (al : Alloc) (op : RbOp) : RbChecked.exec al T op = finish .endless (RbContents.exec al T op) := by
  cases op with
  | set key value =>
      rw [RbChecked.exec, kvsRbtreeSet_ok hT]
      exact finish_bind (fun _ => rfl) _
  | get key =>
      rw [RbChecked.exec, kvsRbtreeGet_ok]
      exact finish_bind (fun _ => rfl) _
  | delete key =>
      rw [RbChecked.exec, kvsRbtreeDelete_ok hT]
      exact finish_bind (fun _ => rfl) _
  | modify key value =>
      rw [RbChecked.exec, kvsRbtreeModify_ok]
      exact finish_bind (fun _ => rfl) _

end Calls

/-- On a tree that calls have built, every call ends and does not use nil as a
node. -/
theorem sentinel_never_used (mem : Addr → RbNode) (hT : Relation.ReflTransGen TreeCall (kvstoreRbtreeCreate mem) T)
    (al : Alloc) (op : RbOp) :
    T.color T.nil = BLACK ∧
      ∃ ret T', RbContents.exec al T op = some (ret, T') ∧ RbChecked.exec al T op = .ok (ret, T') := by
  obtain ⟨b, hb⟩ := tree_reached hT
  obtain ⟨ret, T', -, hrun, -⟩ := exec_binds hb al op
  obtain ⟨t, hv, -⟩ := hb
  refine ⟨hv.holds.nilBlack, ret, T', hrun, ?_⟩
  rw [exec_ok hv, hrun]
  rfl

theorem last_key_deleted_without_sentinel :
    ∃ T, Relation.ReflTransGen TreeCall (kvstoreRbtreeCreate RbBookkeeping.garbage) T ∧ T.color T.nil = BLACK ∧
      ∃ ret T', RbContents.exec .succeeds T (.delete RbBookkeeping.route) = some (ret, T') ∧
        RbChecked.exec .succeeds T (.delete RbBookkeeping.route) = .ok (ret, T') := by
  obtain ⟨T, hset, -⟩ := set_binds (stores_iff.mp (create_stores RbBookkeeping.garbage)) RbBookkeeping.route
    RbBookkeeping.route
  have hcall : TreeCall (kvstoreRbtreeCreate RbBookkeeping.garbage) T :=
    ⟨.succeeds, .set RbBookkeeping.route RbBookkeeping.route, .code 0, by rw [RbContents.exec, hset]; rfl⟩
  exact ⟨T, .single hcall, sentinel_never_used _ (.single hcall) .succeeds (.delete RbBookkeeping.route)⟩

end GameAccelerator.RbSentinel
