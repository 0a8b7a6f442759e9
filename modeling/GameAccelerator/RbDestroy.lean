import GameAccelerator.RbSentinel

namespace GameAccelerator.RbDestroy

open CString Platform RedBlack WhileLoop CheckedLoop RbEngine RbShape RbFocus RbDescent RbUpdate RbContents RbInvariant
  RbBookkeeping RbSentinel
open StoreAtomicity (TreeCall tree_reached)
open RbChecked (Misuse)

/-- One round of the loop of `kvstore_rbtree_destory`, over the functions it
calls. After the `break` the node is nil, which ends the loop as well. -/
def destoryBody (mini : RbTree → Addr → Except Misuse Addr) (delete : RbTree → Addr → Except Misuse (RbTree × Addr))
    (st : RbTree × Addr) : Except Misuse (RbTree × Addr) := do
  let node ← mini st.1 st.1.root
  if node = st.1.nil then return (st.1, node) else delete st.1 node

def destoryLoop (mini : RbTree → Addr → Except Misuse Addr) (delete : RbTree → Addr → Except Misuse (RbTree × Addr)) :
    Nat → RbTree × Addr → Except Misuse (RbTree × Addr) :=
  checkedLoop .endless (fun st => .ok (st.2 != st.1.nil)) (destoryBody mini delete)

/-- The list is what has been passed to `kvstore_free`. `rbtree_delete` never
returns NULL, so `if (!node)` adds nothing to it. -/
def destory (mini : RbTree → Addr → Except Misuse Addr) (delete : RbTree → Addr → Except Misuse (RbTree × Addr))
    (T : RbTree) : Except Misuse (RbTree × List Addr) := do
  let key := (T.node T.nil).key.block
  let st ← destoryLoop mini delete T.fuel (kvstoreFree T key, T.root)
  return (st.1, [key])

def kvstoreRbtreeDestory : RbTree → Except Misuse (RbTree × List Addr) :=
  destory (fun T x => finish .endless (rbtreeMini T x)) (fun T x => finish .endless (rbtreeDelete T x))

/-- `kvstore_rbtree_destory` up to the first use of nil as a node. -/
def checkedDestory : RbTree → Except Misuse (RbTree × List Addr) :=
  destory RbChecked.rbtreeMini RbChecked.rbtreeDelete

/-- The tree has been emptied, and each block of its nodes released once. -/
def Complete (T : RbTree) (r : Except Misuse (RbTree × List Addr)) : Prop :=
  ∃ T' freed, r = .ok (T', freed) ∧ T'.root = T'.nil ∧
    ∀ p, Reach T p → ∀ q ∈ blocks T p, (freed.map some).count q = 1

variable {mini : RbTree → Addr → Except Misuse Addr} {delete : RbTree → Addr → Except Misuse (RbTree × Addr)}
  {T T' : RbTree} {t : ColorTree Cell} {x : Addr}

/-- On the nodes of a tree the two functions do what they do in the engine. -/
structure Agrees (mini : RbTree → Addr → Except Misuse Addr)
    (delete : RbTree → Addr → Except Misuse (RbTree × Addr)) : Prop where
  mini_eq {T : RbTree} {ctx : List (Frame Cell)} {c : Color} {l r : ColorTree Cell} {a : Cell} :
    Valid T (plug ctx (.node c l a r)) → mini T a.addr = finish .endless (rbtreeMini T a.addr)
  delete_eq {T : RbTree} {ctx : List (Frame Cell)} {c : Color} {l r : ColorTree Cell} {a : Cell} :
    Valid T (plug ctx (.node c l a r)) → delete T a.addr = finish .endless (rbtreeDelete T a.addr)

theorem engine_agrees : Agrees (fun T x => finish .endless (rbtreeMini T x))
    (fun T x => finish .endless (rbtreeDelete T x)) :=
  ⟨fun _ => rfl, fun _ => rfl⟩

theorem checked_agrees : Agrees RbChecked.rbtreeMini RbChecked.rbtreeDelete :=
  ⟨fun hT => rbtreeMini_ok hT.holds, rbtreeDelete_ok⟩

/-- What no round changes. -/
structure Kept (T T' : RbTree) : Prop where
  nil : T'.nil = T.nil
  live : T'.live = T.live
  child : ∀ s, T'.child T.nil s = T.child T.nil s

theorem Kept.trans {T₁ : RbTree} (h : Kept T T₁) (h' : Kept T₁ T') : Kept T T' :=
  ⟨h'.nil.trans h.nil, h'.live.trans h.live, fun s => ((h.nil ▸ h'.child s).trans (h.child s))⟩

theorem empty_iff (hT : Holds T t) : T.root = T.nil ↔ t = .nil := by
  rw [hT.root]
  exact ptr_eq_nil (show Holds T (plug [] t) from hT)

/-- A round takes out the least node. -/
theorem destory_round (hE : Agrees mini delete) (hT : Valid T t) (ht : t ≠ .nil) (x : Addr) :
    ∃ T' t' y, destoryBody mini delete (T, x) = .ok (T', y) ∧ Valid T' t' ∧ y ≠ T'.nil ∧ Kept T T' ∧
      t'.toList.length + 1 = t.toList.length := by
  cases t with
  | nil => exact absurd rfl ht
  | node c l a r =>
      have hfocus : Valid T (plug [] (.node c l a r)) := hT
      have hroot : T.root = a.addr := hT.holds.root
      obtain ⟨ctx, d, b, v, he, -, hmin⟩ := rbtreeMini_spec hfocus.holds
      rw [he] at hT
      have hb : Valid T (plug ctx (join .left d .nil b v)) := hT
      have hne := ne_nil hb.holds
      obtain ⟨T', t', hrun, hv, hlist, -, hrest, hchild⟩ := delete_here hb
      have hnil : T'.nil = T.nil := by rw [hrest]
      refine ⟨T', t', b.addr, ?_, hv, hnil ▸ hne, ⟨hnil, by rw [hrest], hchild⟩, ?_⟩
      · rw [destoryBody]
        dsimp only
        rw [hroot, hE.mini_eq hfocus, hmin, finish, ok_bind, if_neg hne, hE.delete_eq hT, hrun]
        rfl
      · rw [hlist, he, toList_plug]
        simp only [ColorTree.toList, List.length_append, List.length_cons, List.length_nil]
        omega

/-- With as many rounds as there are nodes the tree is empty, and the loop still
runs: the node it tests is the one taken out last. -/
theorem destory_rounds (hE : Agrees mini delete) (hT : Valid T t) (hx : x ≠ T.nil) (fuel : Nat) :
    ∃ T' y, Valid T' .nil ∧ y ≠ T'.nil ∧ Kept T T' ∧
      destoryLoop mini delete (t.toList.length + fuel) (T, x) = destoryLoop mini delete fuel (T', y) := by
  induction hn : t.toList.length generalizing T t x with
  | zero =>
      have ht : t = .nil := by
        cases t with
        | nil => rfl
        | node c l a r => simp [ColorTree.toList] at hn
      subst ht
      exact ⟨T, x, hT, hx, ⟨rfl, rfl, fun _ => rfl⟩, by rw [Nat.zero_add]⟩
  | succ n ih =>
      have ht : t ≠ .nil := by
        rintro rfl
        cases hn
      obtain ⟨T₁, t₁, y, hbody, hv, hy, hk, hlen⟩ := destory_round hE hT ht x
      obtain ⟨T', y', hend, hy', hk', hloop⟩ := ih hv hy (by omega)
      refine ⟨T', y', hend, hy', hk.trans hk', ?_⟩
      rw [← hloop, Nat.succ_add, destoryLoop, checkedLoop, ok_bind, if_pos (bne_iff_ne.mpr hx), hbody, ok_bind]

/-- In the empty tree `rbtree_mini` reads the left child of nil. -/
theorem checked_last (hT : Valid T .nil) (hx : x ≠ T.nil) (fuel : Nat) :
    destoryLoop RbChecked.rbtreeMini RbChecked.rbtreeDelete (fuel + 1) (T, x) = .error .child := by
  have hmini : RbChecked.rbtreeMini T T.nil = .error .child := by
    apply checkedLoop_test
    rw [RbChecked.readChild, if_pos rfl]
    rfl
  rw [destoryLoop, checkedLoop, ok_bind, if_pos (bne_iff_ne.mpr hx), destoryBody]
  dsimp only
  rw [(empty_iff hT.holds).mpr rfl, hmini]
  rfl

/-- The loop ends after all if nil is its own left child. -/
theorem engine_last (hT : Valid T .nil) (hx : x ≠ T.nil) (hleft : T.child T.nil .left = T.nil) (fuel : Nat) :
    destoryLoop (fun T x => finish .endless (rbtreeMini T x)) (fun T x => finish .endless (rbtreeDelete T x))
      (fuel + 1) (T, x) = .ok (T, T.nil) := by
  have hmini : rbtreeMini T T.nil = some T.nil := by
    apply whileLoop_false
    rw [hleft, bne_self_eq_false]
  rw [destoryLoop, checkedLoop, ok_bind, if_pos (bne_iff_ne.mpr hx), destoryBody]
  dsimp only
  rw [(empty_iff hT.holds).mpr rfl, hmini, finish, ok_bind, if_pos rfl]
  apply checkedLoop_done
  rw [bne_self_eq_false]

theorem destory_empty (h : T.root = T.nil) (mini : RbTree → Addr → Except Misuse Addr)
    (delete : RbTree → Addr → Except Misuse (RbTree × Addr)) :
    destory mini delete T = .ok (kvstoreFree T (T.node T.nil).key.block, [(T.node T.nil).key.block]) := by
  rw [destory, destoryLoop, checkedLoop_done, ok_bind]
  · rfl
  · dsimp only
    rw [h, show (kvstoreFree T _).nil = T.nil from rfl, bne_self_eq_false]

/-- The nodes and one more round fit into the fuel. -/
theorem fuel_split (hT : Holds T t) : ∃ k, T.fuel = t.toList.length + (k + 1) :=
  Nat.exists_eq_add_of_lt hT.length_lt

theorem checkedDestory_eq (hT : Valid T t) (h : T.root ≠ T.nil) : checkedDestory T = .error .child := by
  obtain ⟨k, hk⟩ := fuel_split hT.holds
  obtain ⟨T', y, hv, hy, -, hloop⟩ :=
    destory_rounds checked_agrees (free_valid hT (T.node T.nil).key.block) h (k + 1)
  rw [checkedDestory, destory, hk, hloop, checked_last hv hy]
  rfl

/-- Where the loop ends, the tree is empty and its nodes have not been released. -/
theorem kvstoreRbtreeDestory_leaks (hT : Valid T t) (hleft : T.child T.nil .left = T.nil) :
    ∃ T', kvstoreRbtreeDestory T = .ok (T', [(T.node T.nil).key.block]) ∧ T'.root = T'.nil ∧
      T'.live = T.live.erase (T.node T.nil).key.block := by
  by_cases h : T.root = T.nil
  · exact ⟨_, destory_empty h _ _, h, rfl⟩
  · obtain ⟨k, hk⟩ := fuel_split hT.holds
    obtain ⟨T', y, hv, hy, hkept, hloop⟩ :=
      destory_rounds engine_agrees (free_valid hT (T.node T.nil).key.block) h (k + 1)
    have hleft' : T'.child T'.nil .left = T'.nil := by
      rw [hkept.nil, hkept.child]
      exact hleft
    refine ⟨T', ?_, (empty_iff hv.holds).mpr rfl, hkept.live⟩
    rw [kvstoreRbtreeDestory, destory, hk, hloop, engine_last hv hy hleft']
    rfl

/-- A tree with a node in it is never destroyed completely. -/
theorem destruction_complete_iff (mem : Addr → RbNode)
    (hT : Relation.ReflTransGen TreeCall (kvstoreRbtreeCreate mem) T) :
    Complete T (checkedDestory T) ↔ T.root = T.nil := by
  obtain ⟨b, t, hv, -⟩ := tree_reached hT
  constructor
  · rintro ⟨T', freed, hrun, -⟩
    by_contra h
    rw [checkedDestory_eq hv h] at hrun
    cases hrun
  · intro h
    have ht := (empty_iff hv.holds).mp h
    subst ht
    refine ⟨_, _, destory_empty h _ _, h, fun p hp => ?_⟩
    cases (reach_iff hv.holds p).mpr hp

theorem treeCalls_of_run {ops : List RbOp} {rs : List Ret} (h : run T ops = some (rs, T')) :
    Relation.ReflTransGen TreeCall T T' := by
  induction ops generalizing T rs with
  | nil =>
      cases h
      exact .refl
  | cons op ops ih =>
      rw [run] at h
      split at h
      · cases h
      · next ret T₁ hexec =>
        obtain ⟨⟨rs', T₂⟩, hrun, heq⟩ := Option.map_eq_some_iff.mp h
        cases heq
        exact .head ⟨.succeeds, op, ret, hexec⟩ (ih hrun)

/-- The tree whose keys have all been deleted is destroyed completely, and the
one that has still a key is not. -/
theorem destruction_complete_of_emptied :
    (∃ T, run (kvstoreRbtreeCreate garbage) [.set route route, .set lobby route, .delete route, .delete lobby] =
      some ([.code 0, .code 0, .code 0, .code 0], T) ∧ Complete T (checkedDestory T)) ∧
    ∃ T, run (kvstoreRbtreeCreate garbage) [.set route route, .set lobby route, .delete route] =
      some ([.code 0, .code 0, .code 0], T) ∧ ¬ Complete T (checkedDestory T) := by
  have hends (ops : List RbOp) (empty : Bool)
      (h : (run (kvstoreRbtreeCreate garbage) ops).map (fun r => decide (r.2.root = r.2.nil)) = some empty) :
      ∃ T, run (kvstoreRbtreeCreate garbage) ops = some ((mapRun (fun _ => none) ops).1, T) ∧
        (Complete T (checkedDestory T) ↔ empty = true) := by
    obtain ⟨T, t, rest, hT, -⟩ := run_books (create_books garbage) (create_stores garbage) ops
    rw [hT, Option.map_some, Option.some_inj] at h
    rw [← h, decide_eq_true_iff]
    exact ⟨T, hT, destruction_complete_iff garbage (treeCalls_of_run hT)⟩
  constructor
  · obtain ⟨T, hT, hiff⟩ := hends [.set route route, .set lobby route, .delete route, .delete lobby] true (by decide +kernel)
    exact ⟨T, hT, hiff.mpr rfl⟩
  · obtain ⟨T, hT, hiff⟩ := hends [.set route route, .set lobby route, .delete route] false (by decide +kernel)
    exact ⟨T, hT, fun h => Bool.false_ne_true (hiff.mp h)⟩

/-- Memory in which nil happens to be its own child. -/
def looped : Addr → RbNode := fun _ => ⟨RED, 0, 0, 0, ⟨0, route⟩, none⟩

/-- One key is set. To destroy the tree the left child of nil is read; where that
is nil, the node of the key with its strings is still live at the end. -/
theorem one_key_not_destroyed :
    (∃ T, run (kvstoreRbtreeCreate garbage) [.set route route] = some ([.code 0], T) ∧
      checkedDestory T = .error .child ∧ ¬ Complete T (checkedDestory T)) ∧
    ∃ T T', run (kvstoreRbtreeCreate looped) [.set route route] = some ([.code 0], T) ∧
      kvstoreRbtreeDestory T = .ok (T', [1]) ∧ T'.root = T'.nil ∧ T'.live = [4, 3, 2, 0] := by
  constructor
  · obtain ⟨T, t, rest, hT, hb⟩ := run_books (create_books garbage) (create_stores garbage) [.set route route]
    have hend : (run (kvstoreRbtreeCreate garbage) [.set route route]).map (fun r => (r.2.root, r.2.nil)) =
        some (2, 0) := by decide +kernel
    rw [hT, Option.map_some, Option.some_inj, Prod.mk.injEq] at hend
    have hrun := checkedDestory_eq hb.valid (by rw [hend.1, hend.2]; decide)
    refine ⟨T, hT, hrun, ?_⟩
    rw [hrun]
    rintro ⟨T', freed, h, -⟩
    cases h
  · obtain ⟨T, t, rest, hT, hb⟩ := run_books (create_books looped) (create_stores looped) [.set route route]
    have hend : (run (kvstoreRbtreeCreate looped) [.set route route]).map
        (fun r => (r.2.nil, r.2.child 0 .left, (r.2.node 0).key.block, r.2.live)) =
        some (0, 0, 1, [4, 3, 2, 1, 0]) := by decide +kernel
    rw [hT, Option.map_some, Option.some_inj, Prod.mk.injEq, Prod.mk.injEq, Prod.mk.injEq] at hend
    obtain ⟨hnil, hleft, hkey, hlive⟩ := hend
    obtain ⟨T', hrun, hroot, hl⟩ := kvstoreRbtreeDestory_leaks hb.valid (by rw [hnil, hleft])
    rw [hnil, hkey] at hrun hl
    exact ⟨T, T', hT, hrun, hroot, by rw [hl, hlive]; decide⟩

end GameAccelerator.RbDestroy
