import GameAccelerator.RbShape

namespace GameAccelerator.RbFocus

open CString Platform RedBlack RbEngine RbShape

section Node

variable (n : RbNode) (s : Side) (p q : Addr)

@[simp] theorem color_setChild : (n.setChild s p).color = n.color := by cases s <;> rfl

@[simp] theorem parent_setChild : (n.setChild s p).parent = n.parent := by cases s <;> rfl

@[simp] theorem child_parent : ({ n with parent := p } : RbNode).child s = n.child s := by
  cases s <;> rfl

end Node

section MkNode

variable (s : Side) (c : Color) (a : Cell) (near far parent p : Addr)

@[simp] theorem mkNode_child : (mkNode s c a near far parent).child s = near := by cases s <;> rfl

@[simp] theorem mkNode_child_other : (mkNode s c a near far parent).child s.other = far := by
  cases s <;> rfl

@[simp] theorem mkNode_other_child : (mkNode s.other c a near far parent).child s = far := by
  cases s <;> rfl

@[simp] theorem mkNode_parent : (mkNode s c a near far parent).parent = parent := by cases s <;> rfl

@[simp] theorem mkNode_color : (mkNode s c a near far parent).color = byte c := by cases s <;> rfl

theorem mkNode_setChild : (mkNode s c a near far parent).setChild s p = mkNode s c a p far parent := by
  cases s <;> rfl

theorem mkNode_setChild_other :
    (mkNode s c a near far parent).setChild s.other p = mkNode s c a near p parent := by
  cases s <;> rfl

theorem mkNode_setParent :
    { mkNode s c a near far parent with parent := p } = mkNode s c a near far p := by
  cases s <;> rfl

theorem mkNode_setColor (d : Color) :
    { mkNode s c a near far parent with color := byte d } = mkNode s d a near far parent := by
  cases s <;> rfl

end MkNode

variable {T : RbTree} {s : Side} {x : Addr} {ctx : List (Frame Cell)} {c : Color} {t u : ColorTree Cell} {a : Cell}

@[simp] theorem modify_node (T : RbTree) (p : Addr) (f : RbNode → RbNode) (q : Addr) :
    (T.modify p f).node q = if q = p then f (T.node p) else T.node q := by
  simp [RbTree.modify, Function.update_apply]

@[simp] theorem modify_nil (T : RbTree) (p : Addr) (f : RbNode → RbNode) :
    (T.modify p f).nil = T.nil := rfl

@[simp] theorem modify_root (T : RbTree) (p : Addr) (f : RbNode → RbNode) :
    (T.modify p f).root = T.root := rfl

/-- The test by which the code finds the side that a node hangs on. -/
theorem side_of_frame (s : Side) {f : Frame Cell} (hc : RepCtx T.node T.nil (f :: ctx) x)
    (hx : ptr T.nil f.sibling ≠ x) : (if x = T.child f.item.addr s then s else s.other) = f.side := by
  have hf := hc.1
  by_cases hside : f.side = s
  · have hchild : T.child f.item.addr s = x := by rw [RbTree.child, hf, hside, mkNode_child]
    rw [if_pos hchild.symm, hside]
  · have hother : f.side = s.other := by
      cases h : f.side <;> cases s <;> simp_all [Side.other]
    have hchild : T.child f.item.addr s = ptr T.nil f.sibling := by
      rw [RbTree.child, hf, hother, mkNode_other_child]
    rw [hchild, if_neg hx.symm, hother]

theorem holds_node (hT : Holds T (plug ctx (join s c t a u))) :
    T.node a.addr = mkNode s c a (ptr T.nil t) (ptr T.nil u) (top T.nil ctx) :=
  ((rep_join _ _ _ _ _ _).mp ((rep_plug _ _).mp hT.rep).2).1

theorem color_eq (hT : Holds T (plug ctx (join s c t a u))) : T.color a.addr = byte c := by
  simp [RbTree.color, holds_node hT]

theorem parent_eq (hT : Holds T (plug ctx (join s c t a u))) : T.parent a.addr = top T.nil ctx := by
  simp [RbTree.parent, holds_node hT]

theorem near_eq (hT : Holds T (plug ctx (join s c t a u))) : T.child a.addr s = ptr T.nil t := by
  simp [RbTree.child, holds_node hT]

theorem far_eq (hT : Holds T (plug ctx (join s c t a u))) : T.child a.addr s.other = ptr T.nil u := by
  simp [RbTree.child, holds_node hT]

theorem color_ptr (hT : Holds T (plug ctx t)) : T.color (ptr T.nil t) = byte t.color := by
  cases t with
  | nil => exact hT.nilBlack
  | node c l a r => exact color_eq (s := .left) hT

theorem addr_ne (hT : Holds T (plug ctx (join s c t a u))) {e : Cell}
    (he : e ∈ t.toList ∨ e ∈ u.toList ∨ e ∈ cells ctx) : e.addr ≠ a.addr := by
  have hperm := ((perm_plug ctx (join s c t a u)).trans ((perm_join s c t a u).append_right _)).map Cell.addr
  have hn := hperm.nodup_iff.mp hT.nodup
  rw [List.cons_append, List.map_cons, List.nodup_cons] at hn
  exact fun h => hn.1 (List.mem_map.mpr ⟨e, by simpa [or_assoc] using he, h⟩)

theorem ne_nil (hT : Holds T (plug ctx (join s c t a u))) : a.addr ≠ T.nil := fun h =>
  hT.nilFresh (h ▸ List.mem_map_of_mem (mem_plug.mpr (Or.inl (mem_join.mpr (Or.inl rfl)))))

theorem ptr_ne (hT : Holds T (plug ctx (join s c t a u))) {v : ColorTree Cell}
    (hv : ∀ e ∈ v.toList, e ∈ t.toList ∨ e ∈ u.toList ∨ e ∈ cells ctx) : ptr T.nil v ≠ a.addr := by
  rcases ptr_cases T.nil v with h | ⟨e, he, h⟩
  · rw [h]
    exact (ne_nil hT).symm
  · rw [← h]
    exact addr_ne hT (hv e he)

theorem sibling_ne {f : Frame Cell} (hT : Holds T (plug (f :: ctx) (join s c t a u))) :
    ptr T.nil f.sibling ≠ a.addr :=
  ptr_ne hT fun e he => Or.inr (Or.inr (by simp [cells, he]))

theorem root_ne {f : Frame Cell} (hT : Holds T (plug (f :: ctx) t)) : ptr T.nil t ≠ T.root := by
  obtain ⟨e, he, h⟩ := ptr_plug_mem T.nil f ctx t
  rw [hT.root, ← h]
  cases t with
  | nil => exact fun h => hT.nilFresh (List.mem_map.mpr ⟨e, mem_plug.mpr (Or.inr he), h.symm⟩)
  | node c l a r =>
      have ha : Holds T (plug (f :: ctx) (join .left c l a r)) := hT
      exact (addr_ne ha (Or.inr (Or.inr he))).symm

theorem addrs_plug (ctx : List (Frame Cell)) (s : Side) (c d : Color) (t u : ColorTree Cell) {b : Cell}
    (hab : b.addr = a.addr) :
    (plug ctx (join s d t b u)).toList.map Cell.addr = (plug ctx (join s c t a u)).toList.map Cell.addr := by
  rw [toList_plug, toList_plug]
  cases s <;> simp [join, ColorTree.toList, hab]

theorem forall_addr {P : Addr → Prop} {t : ColorTree Cell} :
    (∀ e ∈ t.toList, P e.addr) ↔ ∀ q ∈ t.toList.map Cell.addr, P q := by
  simp

/-- Writing to one cell changes the tree at one place. -/
theorem modify_holds {d : Color} {b : Cell} {f : RbNode → RbNode} (hT : Holds T (plug ctx (join s c t a u)))
    (hab : b.addr = a.addr) (hf : ∀ l r p, f (mkNode s c a l r p) = mkNode s d b l r p) :
    Holds (T.modify a.addr f) (plug ctx (join s d t b u)) := by
  have hrep := hT.rep
  simp only [rep_plug, rep_join, ptr_join] at hrep
  obtain ⟨hc, hx, ht, hu⟩ := hrep
  have hkeep : ∀ q, q ≠ a.addr → (T.modify a.addr f).node q = T.node q := fun q hq => by
    rw [modify_node, if_neg hq]
  have haddr := addrs_plug ctx s c d t u hab
  refine ⟨?_, ?_, ?_, ?_, ?_, ?_, hT.nilBelow⟩
  · rw [modify_root, modify_nil, hT.root]
    cases ctx with
    | nil => simp [plug, hab]
    | cons g ctx => exact ptr_plug_cons _ _ _ _
  · rw [modify_nil, rep_plug, rep_join, ptr_join, hab]
    refine ⟨hc.congr fun e he => hkeep _ (addr_ne hT (by tauto)), ?_,
      ht.congr fun e he => hkeep _ (addr_ne hT (by tauto)), hu.congr fun e he => hkeep _ (addr_ne hT (by tauto))⟩
    rw [modify_node, if_pos rfl, hx, hf]
  · rw [haddr]; exact hT.nodup
  · rw [haddr]; exact hT.nilFresh
  · rw [modify_nil, RbTree.color, hkeep _ (ne_nil hT).symm]; exact hT.nilBlack
  · rw [forall_addr (P := (· < _)), haddr]
    exact forall_addr.mp hT.below

/-- Another subtree in the hole of a context: the innermost frame, or the root,
is made to point to it. -/
theorem Holds.refill {T' : RbTree} {v : ColorTree Cell} (hT : Holds T (plug ctx u))
    (hrest : T' = { T with root := T'.root, node := T'.node }) (hroot : T'.root = if top T.nil ctx = T.nil then ptr T.nil v else T.root)
    (hv : Rep T'.node T.nil v (top T.nil ctx))
    (htop : ∀ f ∈ ctx.head?, T'.node f.item.addr = (T.node f.item.addr).setChild f.side (ptr T.nil v))
    (hkeep : ∀ e ∈ cells ctx, e.addr ≠ top T.nil ctx → T'.node e.addr = T.node e.addr)
    (hblack : T'.color T.nil = BLACK) (hnodup : ((v.toList ++ cells ctx).map Cell.addr).Nodup)
    (hbelow : ∀ e ∈ v.toList, e.addr < T.next) (hfresh : ∀ e ∈ v.toList, e.addr ≠ T.nil) :
    Holds T' (plug ctx v) := by
  have hnil : T'.nil = T.nil := by rw [hrest]
  have hnext : T'.next = T.next := by rw [hrest]
  have hrep := (rep_plug _ _).mp hT.rep
  have hcells : ∀ e ∈ cells ctx, e.addr ≠ T.nil := fun e he h =>
    hT.nilFresh (List.mem_map.mpr ⟨e, mem_plug.mpr (Or.inr he), h⟩)
  have hctx : RepCtx T'.node T.nil ctx (ptr T.nil v) := by
    refine hrep.1.refill ?_ (fun f hf => ?_) hkeep
    · rw [List.map_append] at hnodup
      exact hnodup.of_append_right
    · obtain ⟨ctx', rfl⟩ := List.head?_eq_some_iff.mp hf
      rw [htop f hf, hrep.1.1, mkNode_setChild]
      rfl
  refine ⟨?_, ?_, ?_, ?_, ?_, ?_, ?_⟩
  · rw [hroot, hnil]
    cases ctx with
    | nil => simp [top, plug]
    | cons f ctx =>
        rw [top, if_neg (hcells _ (by simp [cells])), hT.root]
        exact ptr_plug_cons _ _ _ _
  · rw [hnil]
    exact (rep_plug _ _).mpr ⟨hctx, hv⟩
  · exact (((perm_plug ctx v).map _).nodup_iff).mpr hnodup
  · rw [hnil, List.mem_map]
    rintro ⟨e, he, h⟩
    rcases mem_plug.mp he with he | he
    · exact hfresh e he h
    · exact hcells e he h
  · rw [hnil]
    exact hblack
  · rw [hnext]
    intro e he
    rcases mem_plug.mp he with he | he
    · exact hbelow e he
    · exact hT.below e (mem_plug.mpr (Or.inr he))
  · rw [hnil, hnext]
    exact hT.nilBelow

theorem recolor {d : Color} (hT : Holds T (plug ctx (join s c t a u))) :
    Reshapes T (plug ctx (join s c t a u)) (T.setColor a.addr (byte d)) (plug ctx (join s d t a u)) := by
  refine ⟨modify_holds hT rfl fun l r p => mkNode_setColor s c a l r p d, ?_, rfl, fun q hq => ?_⟩
  · exact toList_plug_congr ctx (by cases s <;> rfl)
  · have hqa : q ≠ a.addr := fun h =>
      hq (h ▸ List.mem_map_of_mem (mem_plug.mpr (Or.inl (mem_join.mpr (Or.inl rfl)))))
    rw [RbTree.setColor, modify_node, if_neg hqa]

theorem setColor_self {p : Addr} {k : UInt8} (h : T.color p = k) : T.setColor p k = T := by
  subst h
  simp [RbTree.setColor, RbTree.modify, RbTree.color]

theorem recolor_root {l r : ColorTree Cell} {d : Color} (hT : Holds T (.node c l a r)) :
    Reshapes T (.node c l a r) (T.setColor T.root (byte d)) (.node d l a r) := by
  have h : Holds T (plug [] (join .left c l a r)) := hT
  rw [hT.root]
  exact recolor h

theorem recolor_near {r : Side} {d e : Color} {v w : ColorTree Cell} {b : Cell}
    (hT : Holds T (plug ctx (join s c (join r d v b w) a u))) :
    Reshapes T (plug ctx (join s c (join r d v b w) a u)) (T.setColor b.addr (byte e))
      (plug ctx (join s c (join r e v b w) a u)) :=
  recolor (show Holds T (plug (⟨s, c, a, u⟩ :: ctx) (join r d v b w)) from hT)

theorem recolor_far {r : Side} {d e : Color} {v w : ColorTree Cell} {b : Cell}
    (hT : Holds T (plug ctx (join s c t a (join r d v b w)))) :
    Reshapes T (plug ctx (join s c t a (join r d v b w))) (T.setColor b.addr (byte e))
      (plug ctx (join s c t a (join r e v b w))) := by
  rw [← plug_far] at hT
  have h := recolor (d := e) hT
  rwa [plug_far, plug_far] at h

end GameAccelerator.RbFocus
