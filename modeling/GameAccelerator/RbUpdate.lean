import GameAccelerator.RbDeleteFixup
import GameAccelerator.RbInsertFixup
import GameAccelerator.RbLink

namespace GameAccelerator.RbUpdate

open CString Platform RedBlack RbEngine RbShape RbFocus RbDescent RbLink RbInsertFixup RbDeleteFixup

def entry (a : Cell) : Str × Option Str := (a.key, a.value)

/-- The memory holds a red-black search tree. -/
structure Valid (T : RbTree) (t : ColorTree Cell) : Prop where
  holds : Holds T t
  ordered : Ordered t.toList
  balanced : ∃ m, Balanced t .black m

variable {T : RbTree} {ctx : List (Frame Cell)} {t u l r : ColorTree Cell} {a : Cell} {c : Color}

theorem ordered_congr {l l' : List Cell} (h : l.map Cell.key = l'.map Cell.key) : Ordered l ↔ Ordered l' := by
  have hkeys : ∀ l : List Cell, Ordered l ↔ (l.map Cell.key).Pairwise fun p q => p.text < q.text := fun l => by
    rw [Ordered, List.pairwise_map]
  rw [hkeys, hkeys, h]

theorem keys_of_entries {l l' : List Cell} (h : l.map entry = l'.map entry) : l.map Cell.key = l'.map Cell.key := by
  have hfirst : ∀ l : List Cell, l.map Cell.key = (l.map entry).map Prod.fst := fun l => by
    rw [List.map_map]
    rfl
  rw [hfirst, hfirst, h]

theorem modify_outside {p : Addr} (hT : Holds T t) (f : RbNode → RbNode) (hp : p ≠ T.nil)
    (hout : p ∉ t.toList.map Cell.addr) : Holds (T.modify p f) t := by
  have hkeep : ∀ q, q ≠ p → (T.modify p f).node q = T.node q := fun q hq => by rw [modify_node, if_neg hq]
  refine ⟨hT.root, hT.rep.congr fun e he => hkeep _ ?_, hT.nodup, hT.nilFresh, ?_, hT.below, hT.nilBelow⟩
  · exact fun h => hout (h ▸ List.mem_map_of_mem he)
  · rw [RbTree.color, modify_nil, hkeep _ hp.symm]
    exact hT.nilBlack

/-- `rbtree_insert` of an absent key. -/
theorem rbtreeInsert_new (hT : Valid T (plug ctx .nil)) (hb : Bounds ctx a.key.text)
    (hd : insertDescent T a.key.text = some (top T.nil ctx, T.nil))
    (hz : (T.node a.addr).key = a.key) (hv : (T.node a.addr).value = a.value)
    (hfresh : a.addr ∉ (plug ctx .nil).toList.map Cell.addr) (hnil : a.addr ≠ T.nil) (hlt : a.addr < T.next) :
    ∃ T' t', rbtreeInsert T a.addr = some T' ∧ Valid T' t' ∧ t'.toList = before ctx ++ a :: behind ctx ∧
      T' = { T with root := T'.root, node := T'.node } ∧ T'.node T.nil = T.node T.nil := by
  obtain ⟨m, hm⟩ := hT.balanced
  obtain ⟨c, n, h0, hh⟩ := hm.hole
  cases h0
  have ha := attach_holds hT.holds hb hz hv hfresh hnil hlt
  obtain ⟨T', t', m', hrun, hr, hbal⟩ := rbtreeInsertFixup_spec ha (.red a .nil .nil) hh
  have hlist : t'.toList = before ctx ++ a :: behind ctx := by
    rw [hr.toList, toList_plug]
    simp [ColorTree.toList]
  refine ⟨T', t', ?_, ⟨hr.holds, ?_, m', hbal⟩, hlist, rest_trans (attach_rest ..) hr.rest, ?_⟩
  · rw [rbtreeInsert, hz, hd]
    dsimp only
    rw [if_neg (by simp)]
    exact hrun
  · have ho := hT.ordered
    rw [toList_plug, ColorTree.toList, List.append_nil] at ho
    rw [hlist]
    refine List.pairwise_append.mpr ⟨(List.pairwise_append.mp ho).1,
      List.pairwise_cons.mpr ⟨hb.2, (List.pairwise_append.mp ho).2.1⟩, fun e he f hf => ?_⟩
    rcases List.mem_cons.mp hf with rfl | hf
    · exact hb.1 e he
    · exact (List.pairwise_append.mp ho).2.2 e he f hf
  · have hnil' : (attach T a.addr (top T.nil ctx)).nil = T.nil := by rw [attach_rest]
    rw [hr.frame _ (hnil' ▸ ha.nilFresh)]
    exact attach_nil hnil

/-- Taking out a node of colour `c` with at most one child has left a balanced
tree, or one that lacks a black node where the child `u` now stands. -/
def Removed (ctx : List (Frame Cell)) (u : ColorTree Cell) (c : Color) : Prop :=
  (c = .red ∧ ∃ m, Balanced (plug ctx u) .black m) ∨ c = .black ∧ ∃ d, Balanced u d 0 ∧ Hole ctx .black 1

theorem removed_of_balanced {s : Side} {m : Nat} (h : Balanced (plug ctx (join s c .nil a u)) .black m) :
    Removed ctx u c := by
  obtain ⟨d, n, hj, hh⟩ := h.hole
  cases c with
  | red =>
      obtain ⟨rfl, ht, hu⟩ := hj.of_joinRed
      cases ht
      exact Or.inl ⟨rfl, hh.black_of_red.plug hu⟩
  | black =>
      obtain ⟨rfl, m, ct, cu, rfl, ht, hu⟩ := hj.of_joinBlack
      cases ht
      exact Or.inr ⟨rfl, cu, hu, hh⟩

/-- The end of `rbtree_delete`, where the colour of the node taken out decides
about the fixup. -/
theorem rebalance {y : Addr} (hT : Holds T (plug ctx u)) (hx : u = .nil → T.parent T.nil = top T.nil ctx)
    (hy : T.color y = byte c) (hb : Removed ctx u c) :
    ∃ T' t', (if T.color y = BLACK then (rbtreeDeleteFixup T (ptr T.nil u)).map fun T => (T, y) else some (T, y)) =
        some (T', y) ∧ Reshapes T (plug ctx u) T' t' ∧ ∃ m, Balanced t' .black m := by
  rw [hy]
  rcases hb with ⟨rfl, hb⟩ | ⟨rfl, d, hu, hh⟩
  · exact ⟨T, plug ctx u, if_neg (by decide), .refl hT, hb⟩
  · obtain ⟨T', t', m, hrun, hr, hbal⟩ := rbtreeDeleteFixup_spec hT hx hu hh
    exact ⟨T', t', by rw [if_pos (by rfl), hrun]; rfl, hr, m, hbal⟩

theorem not_mem_unlinked {s : Side} (hT : Holds T (plug ctx (join s c .nil a u))) :
    a.addr ∉ (plug ctx u).toList.map Cell.addr := by
  rw [List.mem_map]
  rintro ⟨e, he, h⟩
  exact addr_ne hT (Or.inr (mem_plug.mp he)) h

theorem toList_unlinked {s : Side} (ctx : List (Frame Cell)) (c : Color) (a : Cell) (u : ColorTree Cell) :
    (plug ctx u).toList.Sublist (plug ctx (join s c .nil a u)).toList := by
  rw [toList_plug, toList_plug]
  refine (List.Sublist.append_left ?_ _).append_right _
  cases s
  · exact List.sublist_cons_self a _
  · exact List.sublist_append_left _ _

theorem unlink_node_self {s : Side} (hT : Holds T (plug ctx (join s c .nil a u))) :
    (unlink T a.addr).1.node a.addr = T.node a.addr :=
  (unlink_holds hT).2.2.2 _ (ne_nil hT) (not_mem_unlinked hT)

/-- What `rbtree_delete` has before it when a node with at most one child is out
of its place. -/
theorem unlink_ready {s : Side} (hT : Holds T (plug ctx (join s c .nil a u))) :
    let T₁ := (unlink T a.addr).1
    Holds T₁ (plug ctx u) ∧ (unlink T a.addr).2 = ptr T₁.nil u ∧ (u = .nil → T₁.parent T₁.nil = top T₁.nil ctx) ∧
      T₁.color a.addr = byte c := by
  intro T₁
  obtain ⟨hu, hx, hpar, -⟩ := unlink_holds hT
  have hnil : (unlink T a.addr).1.nil = T.nil := by rw [unlink_rest T a.addr]
  rw [← hnil] at hpar hx
  refine ⟨hu, hx, hpar, ?_⟩
  rw [RbTree.color, unlink_node_self hT]
  exact color_eq hT

/-- A node with at most one child on the side `s` has none on the other. -/
theorem few_children {s : Side} (hT : Holds T (plug ctx (join s c .nil a u))) :
    T.child a.addr .left = T.nil ∨ T.child a.addr .right = T.nil := by
  have hnear := near_eq hT
  cases s
  · exact Or.inl hnear
  · exact Or.inr hnear

/-- A node with at most one child is taken out itself. -/
theorem delete_here {s : Side} (hT : Valid T (plug ctx (join s c .nil a u))) :
    ∃ T' t', rbtreeDelete T a.addr = some (T', a.addr) ∧ Valid T' t' ∧
      t'.toList = before ctx ++ u.toList ++ behind ctx ∧ T'.node a.addr = T.node a.addr ∧
      T' = { T with root := T'.root, node := T'.node } ∧ ∀ s, T'.child T.nil s = T.child T.nil s := by
  obtain ⟨m, hm⟩ := hT.balanced
  obtain ⟨hu, hx, hpar, hcol⟩ := unlink_ready hT.holds
  obtain ⟨T', t', hrun, hr, hbal⟩ := rebalance hu hpar hcol (removed_of_balanced hm)
  refine ⟨T', t', ?_, ⟨hr.holds, ?_, hbal⟩, ?_, ?_, rest_trans (unlink_rest T a.addr) hr.rest, fun q => ?_⟩
  · rw [rbtreeDelete, if_pos (few_children hT.holds)]
    dsimp only
    rw [if_neg fun h : a.addr ≠ a.addr => h rfl, hx]
    exact hrun
  · rw [hr.toList]
    exact List.Pairwise.sublist (toList_unlinked ctx c a u) hT.ordered
  · rw [hr.toList, toList_plug]
  · rw [hr.frame _ (not_mem_unlinked hT.holds), unlink_node_self hT.holds]
  · have hnil : (unlink T a.addr).1.nil = T.nil := by rw [unlink_rest T a.addr]
    rw [RbTree.child, hr.frame _ (hnil ▸ hu.nilFresh)]
    exact unlink_child_nil T a.addr q

/-- Key and value of the cell `a` of the tree change places with those of the
node `y`, which is no longer in it. -/
theorem swapEntries_holds {s : Side} {y : Addr} (hT : Holds T (plug ctx (join s c u a t))) (hy : y ≠ T.nil)
    (hout : y ∉ (plug ctx (join s c u a t)).toList.map Cell.addr) :
    Holds (swapEntries T a.addr y) (plug ctx (join s c u ⟨a.addr, (T.node y).key, (T.node y).value⟩ t)) ∧
      (swapEntries T a.addr y).node y = { T.node y with key := a.key, value := a.value } ∧
      (swapEntries T a.addr y).parent T.nil = T.parent T.nil ∧
      swapEntries T a.addr y = { T with root := T.root, node := (swapEntries T a.addr y).node } := by
  have hya : y ≠ a.addr := fun h =>
    hout (h ▸ List.mem_map_of_mem (mem_plug.mpr (Or.inl (mem_join.mpr (Or.inl rfl)))))
  have hnode := holds_node hT
  have hkey : (T.node a.addr).key = a.key ∧ (T.node a.addr).value = a.value := by
    rw [hnode]
    cases s <;> exact ⟨rfl, rfl⟩
  have hmod := modify_holds (d := c) (b := ⟨a.addr, (T.node y).key, (T.node y).value⟩)
    (f := fun n => { n with key := (T.node y).key, value := (T.node y).value }) hT rfl fun _ _ _ => by
      cases s <;> rfl
  have hout' := hout
  rw [← addrs_plug ctx s c c u t (show (⟨a.addr, (T.node y).key, (T.node y).value⟩ : Cell).addr = a.addr from rfl)]
    at hout'
  refine ⟨modify_outside hmod (fun n => { n with key := (T.node a.addr).key, value := (T.node a.addr).value }) hy hout',
    ?_, ?_, rfl⟩
  · simp [swapEntries, hya, hkey]
  · simp [swapEntries, RbTree.parent, hy.symm, (ne_nil hT).symm]

theorem plug_right (ctx ctx' : List (Frame Cell)) (c : Color) (l : ColorTree Cell) (a : Cell) (u : ColorTree Cell) :
    plug (ctx' ++ ⟨.right, c, a, l⟩ :: ctx) u = plug ctx (.node c l a (plug ctx' u)) :=
  plug_append ctx' _ u

theorem Removed.change_item {s : Side} {ctx' : List (Frame Cell)} {d : Color} {b : Cell}
    (h : Removed (ctx' ++ ⟨s, c, a, l⟩ :: ctx) u d) : Removed (ctx' ++ ⟨s, c, b, l⟩ :: ctx) u d := by
  rcases h with ⟨hd, m, h⟩ | ⟨hd, e, hu, hh⟩
  · obtain ⟨d, n, hu, hh⟩ := h.hole
    exact Or.inl ⟨hd, hh.change_item.plug hu⟩
  · exact Or.inr ⟨hd, e, hu, hh.change_item⟩

theorem top_change_item {nil : Addr} {s : Side} (ctx' : List (Frame Cell)) (key : Str) (value : Option Str) :
    top nil (ctx' ++ ⟨s, c, ⟨a.addr, key, value⟩, l⟩ :: ctx) = top nil (ctx' ++ ⟨s, c, a, l⟩ :: ctx) := by
  cases ctx' <;> rfl

/-- `b` is taken out from below `a`, which gets its key and value. -/
theorem unlink_swap {ctx' : List (Frame Cell)} {d : Color} {b : Cell} {v : ColorTree Cell}
    (hT : Holds T (plug (ctx' ++ ⟨.right, c, a, l⟩ :: ctx) (join .left d .nil b v))) :
    let T₂ := swapEntries (unlink T b.addr).1 a.addr b.addr
    let F := ctx' ++ ⟨.right, c, ⟨a.addr, b.key, b.value⟩, l⟩ :: ctx
    Holds T₂ (plug F v) ∧ (v = .nil → T₂.parent T₂.nil = top T₂.nil F) ∧
      b.addr ∉ (plug F v).toList.map Cell.addr ∧
      T₂.node b.addr = { T.node b.addr with key := a.key, value := a.value } ∧
      T₂ = { T with root := T₂.root, node := T₂.node } := by
  intro T₂ F
  obtain ⟨hu, -, hpar, -⟩ := unlink_holds hT
  have hrest := unlink_rest T b.addr
  have hkeep := unlink_node_self hT
  have hnil : (unlink T b.addr).1.nil = T.nil := by rw [hrest]
  have hout := not_mem_unlinked hT
  have hbn := ne_nil hT
  rw [plug_right] at hu hout
  rw [← hnil] at hbn
  obtain ⟨hs, hnode, hpn, hsrest⟩ := swapEntries_holds (s := .right) hu hbn hout
  have hkey : (T.node b.addr).key = b.key ∧ (T.node b.addr).value = b.value := by
    rw [holds_node hT]
    exact ⟨rfl, rfl⟩
  rw [hkeep, hkey.1, hkey.2] at hs
  rw [hkeep] at hnode
  have hn₂ : T₂.nil = T.nil := hnil
  refine ⟨?_, fun h => ?_, ?_, hnode, rest_trans hrest hsrest⟩
  · rw [plug_right]
    exact hs
  · rw [hn₂, ← hnil, hpn, hnil, hpar h]
    exact (top_change_item ctx' b.key b.value).symm
  · rw [plug_right]
    have haddr := addrs_plug (a := a) (b := ⟨a.addr, b.key, b.value⟩) ctx .right c c (plug ctx' v) l rfl
    exact haddr ▸ hout

theorem two_children (hT : Holds T (plug ctx (.node c l a r))) (hl : l ≠ .nil) (hr : r ≠ .nil) :
    ¬ (T.child a.addr .left = T.nil ∨ T.child a.addr .right = T.nil) := by
  have ha : Holds T (plug ctx (join .left c l a r)) := hT
  have hl' : Holds T (plug (⟨.left, c, a, r⟩ :: ctx) l) := hT
  have hr' : Holds T (plug (⟨.right, c, a, l⟩ :: ctx) r) := hT
  rw [near_eq ha, show T.child a.addr .right = _ from far_eq ha, ptr_eq_nil hl', ptr_eq_nil hr']
  exact not_or.mpr ⟨hl, hr⟩

/-- What `rbtree_delete` has before it when the successor is out of its place. -/
theorem swap_ready {ctx' : List (Frame Cell)} {d : Color} {b : Cell} {v : ColorTree Cell}
    (hT : Holds T (plug (ctx' ++ ⟨.right, c, a, l⟩ :: ctx) (join .left d .nil b v))) :
    let T₂ := swapEntries (unlink T b.addr).1 a.addr b.addr
    b.addr ≠ a.addr ∧ (unlink T b.addr).2 = ptr T₂.nil v ∧ T₂.color b.addr = byte d := by
  obtain ⟨-, -, -, hnode, hrest⟩ := unlink_swap hT
  have hnil : (swapEntries (unlink T b.addr).1 a.addr b.addr).nil = T.nil := by rw [hrest]
  refine ⟨?_, ?_, ?_⟩
  · have ha : Holds T (plug ctx (join .left c l a (plug ctx' (join .left d .nil b v)))) := by
      rw [plug_right] at hT
      exact hT
    exact addr_ne ha (Or.inr (Or.inl (mem_plug.mpr (Or.inl (mem_join.mpr (Or.inl rfl))))))
  · rw [hnil]
    exact (unlink_holds hT).2.1
  · rw [RbTree.color, hnode]
    exact color_eq hT

/-- A node with two children hands its entry to the successor's node, which is
taken out. -/
theorem delete_successor {ctx' : List (Frame Cell)} {d : Color} {b : Cell} {v : ColorTree Cell} (hl : l ≠ .nil)
    (hT : Valid T (plug ctx (.node c l a (plug ctx' (.node d .nil b v))))) (hbef : before ctx' = [])
    (hsucc : rbtreeSuccessor T a.addr = some b.addr) :
    ∃ T' t', rbtreeDelete T a.addr = some (T', b.addr) ∧ Valid T' t' ∧
      t'.toList.map entry =
        (before ctx ++ l.toList ++ (plug ctx' (.node d .nil b v)).toList ++ behind ctx).map entry ∧
      (T'.node b.addr).key = a.key ∧ (T'.node b.addr).value = a.value ∧
      T' = { T with root := T'.root, node := T'.node } := by
  obtain ⟨m, hm⟩ := hT.balanced
  have hF : Holds T (plug (ctx' ++ ⟨.right, c, a, l⟩ :: ctx) (join .left d .nil b v)) := by
    rw [plug_right]
    exact hT.holds
  rw [← plug_right] at hm
  obtain ⟨hs, hpar, hout, hnode, hrest⟩ := unlink_swap hF
  obtain ⟨hne, hx, hcol⟩ := swap_ready hF
  obtain ⟨T', t', hrun, hr, hb⟩ := rebalance hs hpar hcol (removed_of_balanced (s := .left) hm).change_item
  have hlist : t'.toList.map entry =
      (before ctx ++ l.toList ++ (plug ctx' (.node d .nil b v)).toList ++ behind ctx).map entry := by
    rw [hr.toList, plug_right, toList_plug]
    simp [toList_plug, ColorTree.toList, entry, hbef]
  have hkeep : T'.node b.addr = { T.node b.addr with key := a.key, value := a.value } := by
    rw [hr.frame _ hout, hnode]
  refine ⟨T', t', ?_, ⟨hr.holds, ?_, hb⟩, hlist, ?_, ?_, ?_⟩
  · obtain ⟨_, _, _, _, hr'⟩ := plug_join_eq_node ctx' .left d .nil b v
    have hright : plug ctx' (.node d .nil b v) ≠ .nil := by
      rw [show plug ctx' (.node d .nil b v) = _ from hr']
      intro h
      cases h
    rw [rbtreeDelete, if_neg (two_children hT.holds hl hright), hsucc]
    dsimp only
    rw [if_pos hne, hx]
    exact hrun
  · refine (ordered_congr (keys_of_entries hlist)).mpr (List.Pairwise.sublist ?_ hT.ordered)
    rw [toList_plug ctx, ColorTree.toList, ← List.append_assoc (before ctx)]
    exact ((List.sublist_cons_self a _).append_left _).append_right _
  · rw [hkeep]
  · rw [hkeep]
  · exact rest_trans hrest hr.rest

/-- `rbtree_delete` takes one entry out and leaves the others as they are; the
node it returns has the key and the value of the entry. -/
theorem rbtreeDelete_spec (hT : Valid T (plug ctx (.node c l a r))) :
    ∃ T' t' y, rbtreeDelete T a.addr = some (T', y) ∧ Valid T' t' ∧
      t'.toList.map entry = (before ctx ++ l.toList ++ r.toList ++ behind ctx).map entry ∧
      (T'.node y).key = a.key ∧ (T'.node y).value = a.value ∧
      T' = { T with root := T'.root, node := T'.node } := by
  have hnode := holds_node (show Holds T (plug ctx (join .left c l a r)) from hT.holds)
  by_cases hl : l = .nil
  · subst hl
    obtain ⟨T', t', hrun, hv, hlist, hkeep, hrest, -⟩ :=
      delete_here (show Valid T (plug ctx (join .left c .nil a r)) from hT)
    refine ⟨T', t', a.addr, hrun, hv, by rw [hlist]; simp [ColorTree.toList], ?_, ?_, hrest⟩
    · rw [hkeep, hnode]; rfl
    · rw [hkeep, hnode]; rfl
  · by_cases hr : r = .nil
    · subst hr
      obtain ⟨T', t', hrun, hv, hlist, hkeep, hrest, -⟩ :=
        delete_here (show Valid T (plug ctx (join .right c .nil a l)) from hT)
      refine ⟨T', t', a.addr, hrun, hv, by rw [hlist]; simp [ColorTree.toList], ?_, ?_, hrest⟩
      · rw [hkeep, hnode]; rfl
      · rw [hkeep, hnode]; rfl
    · obtain ⟨ctx', d, b, v, rfl, hbef, hsucc⟩ := rbtreeSuccessor_spec hT.holds hr
      obtain ⟨T', t', h⟩ := delete_successor hl hT hbef hsucc
      exact ⟨T', t', b.addr, h⟩

end GameAccelerator.RbUpdate
