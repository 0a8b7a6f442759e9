import GameAccelerator.RbFocus

namespace GameAccelerator.RbRotate

open CString Platform RedBlack RbEngine RbShape RbFocus

variable {T : RbTree} {s : Side} {x y u p : Addr}

/-- The rotation with the pointers it reads replaced by what they are. -/
theorem rotate_eq (hy : T.child x s.other = y) (hu : T.child y s = u) (hp : T.parent x = p)
    (hxy : x ≠ y) (hux : u ≠ x) (hpx : p ≠ x) (hpy : p ≠ y) (hup : u ≠ T.nil → u ≠ p) :
    rotate s T x =
      let T₁ := T.setChild x s.other u
      let T₂ := if u ≠ T.nil then T₁.setParent u x else T₁
      let T₃ := T₂.setParent y p
      let T₄ := if p = T.nil then { T₃ with root := y }
        else T₃.setChild p (if x = T.child p s then s else s.other) y
      (T₄.setChild y s x).setParent x y := by
  have hyx := hxy.symm
  have h1 : (T.setChild x s.other u).child y s = u := by
    simp [RbTree.setChild, RbTree.child, hyx, ← hu]
  have h2 : (if u ≠ T.nil then (T.setChild x s.other u).setParent u x
      else T.setChild x s.other u).parent x = p := by
    split <;> simp [RbTree.setChild, RbTree.setParent, RbTree.parent, hux.symm, ← hp]
  have h3 : ((if u ≠ T.nil then (T.setChild x s.other u).setParent u x
      else T.setChild x s.other u).setParent y p).parent x = p := by
    rw [← h2]
    simp [RbTree.setParent, RbTree.parent, hxy]
  have h4 : ((if u ≠ T.nil then (T.setChild x s.other u).setParent u x
      else T.setChild x s.other u).setParent y p).child p s = T.child p s := by
    split
    · rename_i hun
      simp [RbTree.setChild, RbTree.setParent, RbTree.child, hpx, hpy, (hup hun).symm]
    · simp [RbTree.setChild, RbTree.setParent, RbTree.child, hpx, hpy]
  have hnil : ((if u ≠ T.nil then (T.setChild x s.other u).setParent u x
      else T.setChild x s.other u).setParent y p).nil = T.nil := by
    split <;> rfl
  simp only [rotate, hy, hu, h1]
  have hn1 : (T.setChild x s.other u).nil = T.nil := rfl
  simp only [hn1, h2, h3, h4, hnil]
  by_cases hpn : p = T.nil
  · simp only [if_pos hpn]
  · by_cases hside : x = T.child p s
    · simp only [if_neg hpn, if_pos hside]
    · simp only [if_neg hpn, if_neg hside]

/-- The memory after a rotation: four nodes change at most. -/
theorem rotate_node (hy : T.child x s.other = y) (hu : T.child y s = u) (hp : T.parent x = p)
    (hxy : x ≠ y) (hux : u ≠ x) (huy : u ≠ y) (hpx : p ≠ x) (hpy : p ≠ y) (hup : u ≠ T.nil → u ≠ p)
    (q : Addr) :
    (rotate s T x).node q =
      if q = x then { (T.node x).setChild s.other u with parent := y }
      else if q = y then ({ T.node y with parent := p } : RbNode).setChild s x
      else if q = u ∧ u ≠ T.nil then { T.node u with parent := x }
      else if q = p ∧ p ≠ T.nil then (T.node p).setChild (if x = T.child p s then s else s.other) y
      else T.node q := by
  rw [rotate_eq hy hu hp hxy hux hpx hpy hup]
  have hyx := hxy.symm
  rcases eq_or_ne q x with rfl | hqx
  · split <;> split <;> simp [RbTree.setChild, RbTree.setParent, hxy, hux.symm, hpx.symm]
  rcases eq_or_ne q y with rfl | hqy
  · split <;> split <;> simp [RbTree.setChild, RbTree.setParent, hyx, huy.symm, hpy.symm]
  by_cases hun : u = T.nil
  · by_cases hpn : p = T.nil
    · simp [RbTree.setChild, RbTree.setParent, hun, hpn, hqx, hqy]
    · simp [RbTree.setChild, RbTree.setParent, hun, hpn, hqx, hqy, hpx, hpy]
  · have hpu := (hup hun).symm
    by_cases hpn : p = T.nil
    · simp [RbTree.setChild, RbTree.setParent, hun, hpn, hqx, hqy, hux]
    · rcases eq_or_ne q u with rfl | hqu
      · simp [RbTree.setChild, RbTree.setParent, hun, hpn, hqx, hqy, hup hun]
      · simp [RbTree.setChild, RbTree.setParent, hun, hpn, hqx, hqy, hqu, hpx, hpy, hpu]

theorem rotate_rest (s : Side) (T : RbTree) (x : Addr) :
    rotate s T x = { T with root := (rotate s T x).root, node := (rotate s T x).node } := by
  dsimp only [rotate]
  split_ifs <;> rfl

theorem rotate_root (hy : T.child x s.other = y) (hu : T.child y s = u) (hp : T.parent x = p)
    (hxy : x ≠ y) (hux : u ≠ x) (hpx : p ≠ x) (hpy : p ≠ y) (hup : u ≠ T.nil → u ≠ p) :
    (rotate s T x).root = if p = T.nil then y else T.root := by
  rw [rotate_eq hy hu hp hxy hux hpx hpy hup]
  split <;> split <;> rfl

/-- Two neighbouring nodes, the three trees below them and what is around them
have addresses of their own. -/
structure Apart (nil : Addr) (ctx : List (Frame Cell)) (t u v : ColorTree Cell) (a b : Cell) : Prop where
  pair : a.addr ≠ b.addr
  notNil : a.addr ≠ nil ∧ b.addr ≠ nil ∧ (∀ e ∈ u.toList, e.addr ≠ nil) ∧ ∀ e ∈ cells ctx, e.addr ≠ nil
  outer : ∀ q, q ∈ t.toList.map Cell.addr ∨ q ∈ v.toList.map Cell.addr →
    q ≠ a.addr ∧ q ≠ b.addr ∧ (∀ e ∈ u.toList, q ≠ e.addr) ∧ ∀ e ∈ cells ctx, q ≠ e.addr
  inner : ∀ e ∈ u.toList, e.addr ≠ a.addr ∧ e.addr ≠ b.addr ∧ ∀ f ∈ cells ctx, e.addr ≠ f.addr
  above : ∀ e ∈ cells ctx, e.addr ≠ a.addr ∧ e.addr ≠ b.addr
  nodup : (u.toList.map Cell.addr).Nodup

section Focus

variable {ctx : List (Frame Cell)} {c d : Color} {t u v : ColorTree Cell} {a b : Cell}

theorem perm_focus : (plug ctx (join s c t a (join s d u b v))).toList.Perm
    ((a :: (t.toList ++ b :: (u.toList ++ v.toList))) ++ cells ctx) := by
  have hjoin := (perm_join s c t a (join s d u b v)).trans (((perm_join s d u b v).append_left t.toList).cons a)
  exact (perm_plug _ _).trans (hjoin.append_right _)

theorem apart_of_holds (hT : Holds T (plug ctx (join s c t a (join s d u b v)))) : Apart T.nil ctx t u v a b := by
  have hnd := (perm_focus.map Cell.addr).nodup_iff.mp hT.nodup
  have hnil : ∀ e ∈ (a :: (t.toList ++ b :: (u.toList ++ v.toList))) ++ cells ctx, e.addr ≠ T.nil :=
    fun e he hn => hT.nilFresh (hn ▸ List.mem_map_of_mem (perm_focus.mem_iff.mpr he))
  simp only [List.map_append, List.map_cons, List.nodup_append, List.nodup_cons, List.cons_append,
    List.mem_append, List.mem_cons, List.mem_map] at hnd hnil
  constructor
  · grind
  · grind
  · grind
  · grind
  · grind
  · exact hnd.2.1.2.1.2.1

theorem rep_focus (hT : Holds T (plug ctx (join s c t a (join s d u b v)))) :
    RepCtx T.node T.nil ctx a.addr ∧
      T.node a.addr = mkNode s c a (ptr T.nil t) b.addr (top T.nil ctx) ∧ Rep T.node T.nil t a.addr ∧
      T.node b.addr = mkNode s d b (ptr T.nil u) (ptr T.nil v) a.addr ∧ Rep T.node T.nil u b.addr ∧
      Rep T.node T.nil v b.addr := by
  have h := hT.rep
  simpa only [rep_plug, rep_join, ptr_join] using h

/-- The memory and the root after a rotation at the focus. -/
theorem rotate_focus (hT : Holds T (plug ctx (join s c t a (join s d u b v)))) :
    (rotate s T a.addr).root = (if top T.nil ctx = T.nil then b.addr else T.root) ∧ ∀ q, (rotate s T a.addr).node q =
      if q = a.addr then mkNode s c a (ptr T.nil t) (ptr T.nil u) b.addr
      else if q = b.addr then mkNode s d b a.addr (ptr T.nil v) (top T.nil ctx)
      else if q = ptr T.nil u ∧ ptr T.nil u ≠ T.nil then { T.node (ptr T.nil u) with parent := a.addr }
      else if q = top T.nil ctx ∧ top T.nil ctx ≠ T.nil then
        (T.node (top T.nil ctx)).setChild (if a.addr = T.child (top T.nil ctx) s then s else s.other) b.addr
      else T.node q := by
  have hap := apart_of_holds hT
  obtain ⟨-, hx, -, hy, -, -⟩ := rep_focus hT
  have hyc : T.child a.addr s.other = b.addr := by simp [RbTree.child, hx]
  have huc : T.child b.addr s = ptr T.nil u := by simp [RbTree.child, hy]
  have hpp : T.parent a.addr = top T.nil ctx := by simp [RbTree.parent, hx]
  have hux : ptr T.nil u ≠ a.addr := fun h =>
    ne_ptr (fun e he => (hap.inner e he).1.symm) (h ▸ hap.notNil.1) h.symm
  have huy : ptr T.nil u ≠ b.addr := fun h =>
    ne_ptr (fun e he => (hap.inner e he).2.1.symm) (h ▸ hap.notNil.2.1) h.symm
  have hpx : top T.nil ctx ≠ a.addr := fun h =>
    ne_top (fun e he => (hap.above e he).1.symm) (h ▸ hap.notNil.1) h.symm
  have hpy : top T.nil ctx ≠ b.addr := fun h =>
    ne_top (fun e he => (hap.above e he).2.symm) (h ▸ hap.notNil.2.1) h.symm
  have hup : ptr T.nil u ≠ T.nil → ptr T.nil u ≠ top T.nil ctx := by
    intro hn h
    obtain ⟨e, he, hptr⟩ := (ptr_cases T.nil u).resolve_left hn
    exact ne_top (hap.inner e he).2.2 (h ▸ hn) (hptr.trans h)
  refine ⟨rotate_root hyc huc hpp hap.pair hux hpx hpy hup, fun q => ?_⟩
  rw [rotate_node hyc huc hpp hap.pair hux huy hpx hpy hup, hx, hy, mkNode_setChild_other, mkNode_setParent,
    mkNode_setParent, mkNode_setChild]

theorem rotate_frame (hT : Holds T (plug ctx (join s c t a (join s d u b v)))) {q : Addr} (ha : q ≠ a.addr)
    (hb : q ≠ b.addr) (hu : ptr T.nil u ≠ T.nil → q ≠ ptr T.nil u) (hc : top T.nil ctx ≠ T.nil → q ≠ top T.nil ctx) :
    (rotate s T a.addr).node q = T.node q := by
  rw [(rotate_focus hT).2, if_neg ha, if_neg hb, if_neg fun h => hu h.2 h.1, if_neg fun h => hc h.2 h.1]

theorem rotate_rep (hT : Holds T (plug ctx (join s c t a (join s d u b v)))) :
    Rep (rotate s T a.addr).node T.nil (join s d (join s c t a u) b v) (top T.nil ctx) := by
  have hap := apart_of_holds hT
  obtain ⟨-, -, ht, -, hu, hv⟩ := rep_focus hT
  have hnode := (rotate_focus hT).2
  have houter : ∀ q, q ∈ t.toList.map Cell.addr ∨ q ∈ v.toList.map Cell.addr →
      (rotate s T a.addr).node q = T.node q := fun q hq =>
    rotate_frame hT (hap.outer q hq).1 (hap.outer q hq).2.1 (ne_ptr (hap.outer q hq).2.2.1)
      (ne_top (hap.outer q hq).2.2.2)
  rw [rep_join, rep_join, ptr_join]
  refine ⟨?_, ⟨?_, ht.congr fun e he => houter _ (.inl (List.mem_map_of_mem he)), ?_⟩,
    hv.congr fun e he => houter _ (.inr (List.mem_map_of_mem he))⟩
  · rw [hnode, if_neg hap.pair.symm, if_pos rfl]
  · rw [hnode, if_pos rfl]
  · -- the middle tree changes its parent
    refine hu.reparent hap.nodup (fun hn => ?_) (fun e he hne => ?_) fun hn => ?_
    · obtain ⟨e, he, hptr⟩ := (ptr_cases T.nil u).resolve_left hn
      rw [hnode, if_neg (hptr ▸ (hap.inner e he).1), if_neg (hptr ▸ (hap.inner e he).2.1), if_pos ⟨rfl, hn⟩]
    · obtain ⟨ha, hb, hc⟩ := hap.inner e he
      exact rotate_frame hT ha hb (fun _ => hne) (ne_top hc)
    · obtain ⟨e, he, hnil⟩ := List.mem_map.mp hn
      exact hap.notNil.2.2.1 e he hnil

/-- What is above the focus gets a new child. -/
theorem rotate_top (hT : Holds T (plug ctx (join s c t a (join s d u b v)))) {f : Frame Cell} (hf : f ∈ ctx.head?) :
    (rotate s T a.addr).node f.item.addr = (T.node f.item.addr).setChild f.side b.addr := by
  obtain ⟨ctx, rfl⟩ := List.head?_eq_some_iff.mp hf
  have hap := apart_of_holds hT
  have hmem : f.item ∈ cells (f :: ctx) := List.mem_cons_self
  have hpu : ¬ (f.item.addr = ptr T.nil u ∧ ptr T.nil u ≠ T.nil) := fun h =>
    ne_ptr (fun e he => ((hap.inner e he).2.2 _ hmem).symm) h.2 h.1
  rw [(rotate_focus hT).2, if_neg (hap.above _ hmem).1, if_neg (hap.above _ hmem).2, if_neg hpu,
    if_pos ⟨rfl, hap.notNil.2.2.2 _ hmem⟩, top, side_of_frame s (rep_focus hT).1 (sibling_ne hT)]

theorem rotate_outside (hT : Holds T (plug ctx (join s c t a (join s d u b v)))) {q : Addr}
    (hq : q ∉ (plug ctx (join s c t a (join s d u b v))).toList.map Cell.addr) :
    (rotate s T a.addr).node q = T.node q := by
  have hne : ∀ e, e ∈ (a :: (t.toList ++ b :: (u.toList ++ v.toList))) ++ cells ctx → q ≠ e.addr := fun e he h =>
    hq (h ▸ List.mem_map_of_mem (perm_focus.mem_iff.mpr he))
  refine rotate_frame hT (hne a (by simp)) (hne b (by simp)) (ne_ptr fun e he => hne e ?_) (ne_top fun e he => hne e ?_)
  · simp [he]
  · simp [he]

/-- A rotation towards `s` at the top of the focus, anywhere in a tree. -/
theorem rotate_reshapes (hT : Holds T (plug ctx (join s c t a (join s d u b v)))) :
    Reshapes T (plug ctx (join s c t a (join s d u b v))) (rotate s T a.addr)
      (plug ctx (join s d (join s c t a u) b v)) := by
  have hap := apart_of_holds hT
  have hjoin : (join s d (join s c t a u) b v).toList = (join s c t a (join s d u b v)).toList :=
    (toList_rotate s _ _ _ _ t u v a b).symm
  have hmem : ∀ e ∈ (join s d (join s c t a u) b v).toList, e ∈ (plug ctx (join s c t a (join s d u b v))).toList :=
    fun e he => mem_plug.mpr (.inl (hjoin ▸ he))
  refine ⟨Holds.refill hT (rotate_rest ..) ?_ (rotate_rep hT) (fun f hf => ?_) (fun e he htop => ?_) ?_ ?_
    (fun e he => hT.below e (hmem e he)) fun e he h => hT.nilFresh (h ▸ List.mem_map_of_mem (hmem e he)),
    toList_plug_congr ctx hjoin, rotate_rest s T a.addr, fun q => rotate_outside hT⟩
  · rw [(rotate_focus hT).1, ptr_join]
  · rw [rotate_top hT hf, ptr_join]
  · exact rotate_frame hT (hap.above e he).1 (hap.above e he).2
      (ne_ptr fun f hf => ((hap.inner f hf).2.2 e he).symm) fun _ => htop
  · rw [RbTree.color, rotate_outside hT hT.nilFresh]
    exact hT.nilBlack
  · rw [hjoin]
    exact ((perm_plug _ _).map Cell.addr).nodup_iff.mp hT.nodup

end Focus

end GameAccelerator.RbRotate
