import GameAccelerator.RbDescent

namespace GameAccelerator.RbLink

open CString Platform RedBlack RbEngine RbShape RbFocus RbDescent

variable {T : RbTree} {ctx : List (Frame Cell)} {x y z : Addr}

theorem attach_rest (T : RbTree) (z y : Addr) :
    attach T z y = { T with root := (attach T z y).root, node := (attach T z y).node } := by
  dsimp only [attach]
  split_ifs <;> rfl

theorem attach_root (T : RbTree) (z y : Addr) : (attach T z y).root = if y = T.nil then z else T.root := by
  dsimp only [attach]
  have h : (T.setParent z y).nil = T.nil := rfl
  rw [h]
  split_ifs <;> rfl

theorem attach_node (hzy : z ≠ y) (q : Addr) :
    (attach T z y).node q =
      if q = z then ⟨RED, T.nil, T.nil, y, (T.node z).key, (T.node z).value⟩
      else if q = y ∧ y ≠ T.nil then
        (T.node y).setChild (if strcmp (T.node z).key.text (T.node y).key.text < 0 then .left else .right) z
      else T.node q := by
  have hn : (T.setParent z y).nil = T.nil := rfl
  have hz : ((T.setParent z y).node z).key = (T.node z).key := by simp [RbTree.setParent]
  have hy : (T.setParent z y).node y = T.node y := by simp [RbTree.setParent, hzy.symm]
  dsimp only [attach]
  rw [hn, hz, hy]
  rcases eq_or_ne q z with rfl | hq
  · rw [if_pos rfl]
    split_ifs <;> simp [RbTree.setChild, RbTree.setColor, RbTree.setParent, RbNode.setChild, hzy]
  · by_cases hyn : y = T.nil
    · simp [RbTree.setChild, RbTree.setColor, RbTree.setParent, hq, hyn]
    · rw [if_neg hyn]
      rcases eq_or_ne q y with rfl | hqy
      · by_cases hlt : strcmp (T.node z).key.text (T.node q).key.text < 0 <;>
          simp [RbTree.setChild, RbTree.setColor, RbTree.setParent, hq, hyn, hlt]
      · by_cases hlt : strcmp (T.node z).key.text (T.node y).key.text < 0 <;>
          simp [RbTree.setChild, RbTree.setColor, RbTree.setParent, hq, hqy, hlt]

/-- A new node below nil is the root, and nothing is written to nil. -/
theorem attach_nil (hz : z ≠ T.nil) : (attach T z y).node T.nil = T.node T.nil := by
  dsimp only [attach]
  split_ifs with hy hlt
  · simp [RbTree.setChild, RbTree.setColor, RbTree.setParent, hz.symm]
  · have hyn : T.nil ≠ y := fun h => hy h.symm
    simp [RbTree.setChild, RbTree.setColor, RbTree.setParent, hz.symm, hyn]
  · have hyn : T.nil ≠ y := fun h => hy h.symm
    simp [RbTree.setChild, RbTree.setColor, RbTree.setParent, hz.symm, hyn]

theorem bounds_side {f : Frame Cell} {key : CStr} (hb : Bounds (f :: ctx) key) :
    (if strcmp key f.item.key.text < 0 then Side.left else Side.right) = f.side := by
  obtain ⟨s, c, a, u⟩ := f
  cases s with
  | left =>
      have h : key < a.key.text := hb.2 a (by simp [behind])
      exact if_pos (strcmp_neg.mpr h)
  | right =>
      have h : a.key.text < key := hb.1 a (by simp [before])
      exact if_neg fun hn => lt_asymm h (strcmp_neg.mp hn)

/-- A new node hung into the empty place for its key. -/
theorem attach_holds {a : Cell} (hT : Holds T (plug ctx .nil)) (hb : Bounds ctx a.key.text)
    (hz : (T.node a.addr).key = a.key) (hv : (T.node a.addr).value = a.value)
    (hfresh : a.addr ∉ (plug ctx .nil).toList.map Cell.addr) (hnil : a.addr ≠ T.nil) (hlt : a.addr < T.next) :
    Holds (attach T a.addr (top T.nil ctx)) (plug ctx (.node .red .nil a .nil)) := by
  have hne : ∀ e ∈ cells ctx, e.addr ≠ a.addr := fun e he h =>
    hfresh (h ▸ List.mem_map_of_mem (mem_plug.mpr (Or.inr he)))
  have hzy : a.addr ≠ top T.nil ctx := fun h => ne_top (fun e he => (hne e he).symm) (h ▸ hnil) h
  have hnode := attach_node (T := T) hzy
  refine Holds.refill hT (attach_rest ..) (attach_root ..) ⟨?_, trivial, trivial⟩ (fun f hf => ?_)
    (fun e he htop => ?_) ?_ ?_ ?_ ?_
  · rw [hnode, if_pos rfl, hz, hv]
    rfl
  · obtain ⟨ctx, rfl⟩ := List.head?_eq_some_iff.mp hf
    have hfn : f.item.addr ≠ T.nil := fun h =>
      hT.nilFresh (List.mem_map.mpr ⟨f.item, mem_plug.mpr (Or.inr (by simp [cells])), h⟩)
    have hkey : (T.node f.item.addr).key = f.item.key := by
      rw [((rep_plug _ _).mp hT.rep).1.1]
      cases f.side <;> rfl
    rw [hnode, if_neg (hne _ (by simp [cells])), top, if_pos ⟨rfl, hfn⟩, hz, hkey, bounds_side hb]
    rfl
  · rw [hnode, if_neg (hne e he), if_neg fun h => htop h.1]
  · rw [RbTree.color, hnode, if_neg hnil.symm, if_neg fun h => h.2 h.1.symm]
    exact hT.nilBlack
  · exact List.nodup_cons.mpr ⟨fun h => hfresh (((perm_plug ctx .nil).map _).mem_iff.mpr h),
      ((perm_plug ctx .nil).map _).nodup_iff.mp hT.nodup⟩
  · simpa [ColorTree.toList] using hlt
  · simpa [ColorTree.toList] using hnil

section Unlink

variable {s : Side} {c : Color} {u : ColorTree Cell} {a : Cell}

theorem unlink_rest (T : RbTree) (y : Addr) :
    (unlink T y).1 = { T with root := (unlink T y).1.root, node := (unlink T y).1.node } := by
  dsimp only [unlink]
  split_ifs <;> rfl

/-- Nil may get a parent, but its children are as they were. -/
theorem unlink_child_nil (T : RbTree) (y : Addr) (s : Side) : (unlink T y).1.child T.nil s = T.child T.nil s := by
  have hset : (T.setParent (onlyChild T y) (T.parent y)).child T.nil s = T.child T.nil s := by
    rw [RbTree.child, RbTree.setParent, modify_node]
    split_ifs with h
    · rw [h]
      cases s <;> rfl
    · rfl
  have hput : ∀ p d, T.nil ≠ p →
      ((T.setParent (onlyChild T y) (T.parent y)).setChild p d (onlyChild T y)).child T.nil s = T.child T.nil s := by
    intro p d hp
    rw [RbTree.child, RbTree.setChild, modify_node, if_neg hp]
    exact hset
  dsimp only [unlink]
  split_ifs with hp
  · exact hset
  · exact hput _ .left (Ne.symm hp)
  · exact hput _ .right (Ne.symm hp)

/-- `y` has no child on one side; the one on the other side takes its place. -/
theorem onlyChild_eq (hT : Holds T (plug ctx (join s c .nil a u))) : onlyChild T a.addr = ptr T.nil u := by
  have hnear := near_eq hT
  have hfar := far_eq hT
  rw [ptr_nil] at hnear
  cases s with
  | left =>
      rw [Side.other] at hfar
      by_cases h : ptr T.nil u = T.nil <;> simp [onlyChild, hnear, hfar, h]
  | right =>
      rw [Side.other] at hfar
      by_cases h : ptr T.nil u = T.nil <;> simp [onlyChild, hnear, hfar, h]

theorem unlink_eq (hxy : onlyChild T y ≠ y) :
    (unlink T y).1 =
      let T₁ := T.setParent (onlyChild T y) (T.parent y)
      if T.parent y = T.nil then { T₁ with root := onlyChild T y }
      else T₁.setChild (T.parent y) (if y = T.child (T.parent y) .left then .left else .right) (onlyChild T y) := by
  have hp : (T.setParent (onlyChild T y) (T.parent y)).parent y = T.parent y := by
    simp [RbTree.parent, RbTree.setParent, hxy.symm]
  have hc : ∀ q, (T.setParent (onlyChild T y) (T.parent y)).child q .left = T.child q .left := fun q => by
    rcases eq_or_ne q (onlyChild T y) with rfl | hq
    · simp [RbTree.child, RbTree.setParent]
    · simp [RbTree.child, RbTree.setParent, hq]
  have hn : (T.setParent (onlyChild T y) (T.parent y)).nil = T.nil := rfl
  dsimp only [unlink]
  rw [hp, hc, hn]
  split
  · rfl
  · split <;> rfl

theorem unlink_root (hxy : onlyChild T y ≠ y) :
    (unlink T y).1.root = if T.parent y = T.nil then onlyChild T y else T.root := by
  rw [unlink_eq hxy]
  dsimp only
  split <;> rfl

theorem unlink_node (hxy : onlyChild T y ≠ y) (hpx : T.parent y ≠ T.nil → T.parent y ≠ onlyChild T y) (q : Addr) :
    (unlink T y).1.node q =
      if q = onlyChild T y then { T.node q with parent := T.parent y }
      else if q = T.parent y ∧ T.parent y ≠ T.nil then
        (T.node q).setChild (if y = T.child (T.parent y) .left then .left else .right) (onlyChild T y)
      else T.node q := by
  rw [unlink_eq hxy]
  dsimp only
  by_cases hp : T.parent y = T.nil
  · rw [if_pos hp]
    rcases eq_or_ne q (onlyChild T y) with rfl | hq
    · simp [RbTree.setParent]
    · simp [RbTree.setParent, hq, hp]
  · rw [if_neg hp]
    rcases eq_or_ne q (onlyChild T y) with rfl | hq
    · simp [RbTree.setParent, RbTree.setChild, (hpx hp).symm]
    · rcases eq_or_ne q (T.parent y) with rfl | hqp
      · simp [RbTree.setParent, RbTree.setChild, hq, hp]
      · simp [RbTree.setParent, RbTree.setChild, hq, hqp]

/-- What is left when `y` is taken out; nil may have got a parent. -/
theorem unlink_holds (hT : Holds T (plug ctx (join s c .nil a u))) :
    Holds (unlink T a.addr).1 (plug ctx u) ∧ (unlink T a.addr).2 = ptr T.nil u ∧
      (u = .nil → (unlink T a.addr).1.parent T.nil = top T.nil ctx) ∧
      ∀ q, q ≠ T.nil → q ∉ (plug ctx u).toList.map Cell.addr → (unlink T a.addr).1.node q = T.node q := by
  have hx := onlyChild_eq hT
  have hp := parent_eq hT
  have hxy : onlyChild T a.addr ≠ a.addr := hx ▸ ptr_ne hT fun e he => Or.inr (Or.inl he)
  have hperm := (perm_plug ctx (join s c .nil a u)).trans ((perm_join s c .nil a u).append_right _)
  have hnd : ((u.toList ++ cells ctx).map Cell.addr).Nodup :=
    (List.nodup_cons.mp ((hperm.map Cell.addr).nodup_iff.mp hT.nodup)).2
  have hdisj : ∀ e ∈ u.toList, ∀ f ∈ cells ctx, f.addr ≠ e.addr := by
    rw [List.map_append, List.nodup_append] at hnd
    exact fun e he f hf h => hnd.2.2 _ (List.mem_map_of_mem he) _ (List.mem_map_of_mem hf) h.symm
  have hnil : ∀ e, e ∈ u.toList ∨ e ∈ cells ctx → e.addr ≠ T.nil := fun e he h =>
    hT.nilFresh (List.mem_map.mpr ⟨e, hperm.mem_iff.mpr (by simp [ColorTree.toList]; tauto), h⟩)
  have hux : ∀ e ∈ cells ctx, e.addr ≠ ptr T.nil u := fun e he h =>
    ne_ptr (fun f hf => hdisj f hf e he) (h ▸ hnil e (Or.inr he)) h
  have hpx : T.parent a.addr ≠ T.nil → T.parent a.addr ≠ onlyChild T a.addr := by
    rw [hp, hx]
    intro h
    obtain ⟨e, he, h⟩ := (top_cases T.nil ctx).resolve_left h
    exact h ▸ hux e he
  have hnode := unlink_node hxy hpx
  rw [hx, hp] at hnode
  refine ⟨Holds.refill hT (unlink_rest ..) ?_ ?_ (fun f hf => ?_) (fun e he hetop => ?_) ?_ hnd ?_ ?_, hx,
    fun hu => ?_, fun q hq hqm => ?_⟩
  · rw [unlink_root hxy, hx, hp]
  · have hu := ((rep_join _ _ _ _ _ _).mp ((rep_plug _ _).mp hT.rep).2).2.2
    rw [List.map_append] at hnd
    refine hu.reparent hnd.of_append_left (fun _ => ?_) (fun e he hne => ?_) ?_
    · rw [hnode, if_pos rfl]
    · rw [hnode, if_neg hne, if_neg fun h => ne_top (fun f hf => (hdisj e he f hf).symm) h.2 h.1]
    · rw [List.mem_map]
      rintro ⟨e, he, h⟩
      exact hnil e (Or.inl he) h
  · obtain ⟨ctx, rfl⟩ := List.head?_eq_some_iff.mp hf
    have hc := ((rep_plug _ _).mp hT.rep).1
    rw [ptr_join] at hc
    have hside := side_of_frame .left hc (sibling_ne hT)
    rw [hnode, if_neg (hux _ (by simp [cells])), top, if_pos ⟨rfl, hnil _ (Or.inr (by simp [cells]))⟩]
    exact congrArg₂ _ hside rfl
  · rw [hnode, if_neg (hux e he), if_neg fun h => hetop h.1]
  · rw [RbTree.color, hnode]
    split
    · exact hT.nilBlack
    · rw [if_neg fun h => h.2 h.1.symm]
      exact hT.nilBlack
  · exact fun e he => hT.below e (hperm.mem_iff.mpr (by simp [he]))
  · exact fun e he => hnil e (Or.inl he)
  · rw [RbTree.parent, hnode, if_pos (by rw [hu]; rfl)]
  · have hq' : ∀ e, e ∈ u.toList ∨ e ∈ cells ctx → e.addr ≠ q := fun e he h =>
      hqm (List.mem_map.mpr ⟨e, mem_plug.mpr he, h⟩)
    have hqu : q ≠ ptr T.nil u := fun h => ne_ptr (fun e he => (hq' e (Or.inl he)).symm) (h ▸ hq) h
    rw [hnode, if_neg hqu, if_neg fun h => ne_top (fun f hf => (hq' f (Or.inr hf)).symm) h.2 h.1]

end Unlink

end GameAccelerator.RbLink
