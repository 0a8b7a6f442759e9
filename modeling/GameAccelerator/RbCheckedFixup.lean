import GameAccelerator.RbChecked

namespace GameAccelerator.RbCheckedFixup

open CString Platform RedBlack WhileLoop CheckedLoop RbEngine RbShape RbFocus RbRotate RbDescent RbLink RbInsertFixup
  RbDeleteFixup RbUpdate RbContents
open RbChecked (Misuse readChild writeChild readParent writeParent paint)

variable {T T' : RbTree} {p q x y z : Addr} {s : Side} {given : Bool}

section Access

theorem readChild_ok (h : p ≠ T.nil) (s : Side) : readChild T p s = .ok (T.child p s) := if_neg h

theorem writeChild_ok (h : p ≠ T.nil) (s : Side) (q : Addr) : writeChild T p s q = .ok (T.setChild p s q) := if_neg h

theorem readParent_ok (h : p = T.nil → given = true) : readParent given T p = .ok (T.parent p) := by
  apply if_neg
  rintro ⟨hp, hg⟩
  rw [h hp] at hg
  cases hg

theorem readParent_node (h : p ≠ T.nil) : readParent given T p = .ok (T.parent p) :=
  readParent_ok fun hp => absurd hp h

theorem writeParent_ok (h : p ≠ T.nil) (q : Addr) : writeParent T p q = .ok (T.setParent p q) := if_neg h

theorem paint_node (h : p ≠ T.nil) (k : UInt8) : paint T p k = .ok (T.setColor p k) := if_neg fun hp => h hp.1

theorem paint_black (T : RbTree) (p : Addr) : paint T p BLACK = .ok (T.setColor p BLACK) :=
  if_neg fun hp => absurd hp.2 (by decide)

end Access

section Rotate

theorem pivot_ok (hx : x ≠ T.nil) (hy : T.child x s.other ≠ T.nil) : RbChecked.pivot s T x = .ok (T.child x s.other) := by
  rw [RbChecked.pivot, if_neg hx, readChild_ok hx, ok_bind, if_neg hy]

theorem adopt_ok (T : RbTree) (p x : Addr) :
    RbChecked.adopt T p x = .ok (if p ≠ T.nil then T.setParent p x else T) := by
  rw [RbChecked.adopt]
  split_ifs with h
  · rw [writeParent_ok h]
  · rfl

theorem replaceChild_ok (hx : x ≠ T.nil) (s : Side) (y : Addr) :
    RbChecked.replaceChild s T x y = .ok (if T.parent x = T.nil then { T with root := y }
      else if x = T.child (T.parent x) s then T.setChild (T.parent x) s y else T.setChild (T.parent x) s.other y) := by
  rw [RbChecked.replaceChild, readParent_node hx, ok_bind]
  split_ifs with hp hs
  · rfl
  · rw [readChild_ok hp, ok_bind, if_pos hs, writeChild_ok hp]
  · rw [readChild_ok hp, ok_bind, if_neg hs, writeChild_ok hp]

theorem hang_ok (hx : x ≠ T.nil) (hy : y ≠ T.nil) (s : Side) :
    (do writeParent (← writeChild T y s x) x y) = .ok ((T.setChild y s x).setParent x y) := by
  have hx' : x ≠ (T.setChild y s x).nil := hx
  rw [writeChild_ok hy, ok_bind, writeParent_ok hx']

/-- The end of a rotation, where `y` takes the place of `x`. -/
theorem rotate_end (hx : x ≠ T.nil) (hy : y ≠ T.nil) (s : Side) :
    (do
      let T ← writeParent T y (← readParent false T x)
      let T ← RbChecked.replaceChild s T x y
      writeParent (← writeChild T y s x) x y) =
    .ok (
      let T := T.setParent y (T.parent x)
      let T :=
        if T.parent x = T.nil then { T with root := y }
        else if x = T.child (T.parent x) s then T.setChild (T.parent x) s y
        else T.setChild (T.parent x) s.other y
      (T.setChild y s x).setParent x y) := by
  have hx' : x ≠ (T.setParent y (T.parent x)).nil := hx
  rw [readParent_node hx, ok_bind, writeParent_ok hy, ok_bind, replaceChild_ok hx', ok_bind]
  apply hang_ok
  · split_ifs <;> exact hx
  · split_ifs <;> exact hy

theorem rotate_ok (hx : x ≠ T.nil) (hy : T.child x s.other ≠ T.nil) :
    RbChecked.rotate s T x = .ok (rotate s T x) := by
  have hy' : T.child x s.other ≠ (T.setChild x s.other (T.child (T.child x s.other) s)).nil := hy
  rw [RbChecked.rotate, pivot_ok hx hy, ok_bind, readChild_ok hy, ok_bind, writeChild_ok hx, ok_bind, readChild_ok hy',
    ok_bind, adopt_ok, ok_bind]
  apply rotate_end
  · split_ifs <;> exact hx
  · split_ifs <;> exact hy

end Rotate

section Recolored

/-- `T'` is `T` but for the colours. -/
structure Recolored (T T' : RbTree) : Prop where
  nil : T'.nil = T.nil
  parent : T'.parent = T.parent
  child : T'.child = T.child

theorem Recolored.refl (T : RbTree) : Recolored T T := ⟨rfl, rfl, rfl⟩

theorem Recolored.setColor (h : Recolored T T') (p : Addr) (k : UInt8) : Recolored T (T'.setColor p k) := by
  refine ⟨h.nil, Eq.trans (funext fun q => ?_) h.parent, Eq.trans (funext₂ fun q s => ?_) h.child⟩
  · rw [RbTree.parent, RbTree.setColor, modify_node]
    split_ifs with hq
    · rw [hq]
      rfl
    · rfl
  · rw [RbTree.child, RbTree.setColor, modify_node]
    split_ifs with hq
    · rw [hq]
      cases s <;> rfl
    · rfl

variable (h : Recolored T T')

include h

theorem parent_of (hp : p = T.nil → given = true) : readParent given T' p = .ok (T'.parent p) :=
  readParent_ok (h.nil ▸ hp)

theorem child_of (hp : p ≠ T.nil) (s : Side) : readChild T' p s = .ok (T'.child p s) := readChild_ok (h.nil ▸ hp) s

theorem paint_of (hp : p ≠ T.nil) (k : UInt8) : paint T' p k = .ok (T'.setColor p k) := paint_node (h.nil ▸ hp) k

theorem rotate_of (hx : x ≠ T.nil) (hy : T.child x s.other ≠ T.nil) : RbChecked.rotate s T' x = .ok (rotate s T' x) := by
  rw [← h.nil] at hx hy
  rw [← h.child] at hy
  exact rotate_ok hx hy

end Recolored

section InsertFixup

theorem grandparent_of (h : Recolored T T') (hz : z ≠ T.nil) (hp : T.parent z ≠ T.nil)
    (hg : T.parent (T.parent z) ≠ T.nil) : RbChecked.grandparent T' z = .ok (T'.parent (T'.parent z)) := by
  rw [← h.nil] at hz hp hg
  rw [← h.parent] at hp hg
  rw [RbChecked.grandparent, readParent_node hz, ok_bind, readParent_node hp, ok_bind, if_neg hg]

variable (hz : z ≠ T.nil) (hp : T.parent z ≠ T.nil) (hg : T.parent (T.parent z) ≠ T.nil)

include hz hp hg

/-- The last round. -/
theorem outer_ok (hc : T.child (T.parent (T.parent z)) s ≠ T.nil) :
    (do
      let T ← paint T (← readParent false T z) BLACK
      let T ← paint T (← RbChecked.grandparent T z) RED
      return (← RbChecked.rotate s.other T (← RbChecked.grandparent T z), z)) =
    .ok (
      let T := T.setColor (T.parent z) BLACK
      let T := T.setColor (T.parent (T.parent z)) RED
      (rotate s.other T (T.parent (T.parent z)), z)) := by
  have h₁ := (Recolored.refl T).setColor (T.parent z) BLACK
  have hg₁ : (T.setColor (T.parent z) BLACK).parent ((T.setColor (T.parent z) BLACK).parent z) ≠ T.nil := by
    rw [h₁.parent]
    exact hg
  rw [readParent_node hz, ok_bind, paint_black, ok_bind, grandparent_of h₁ hz hp hg, ok_bind, paint_of h₁ hg₁, ok_bind]
  have h₂ := h₁.setColor ((T.setColor (T.parent z) BLACK).parent ((T.setColor (T.parent z) BLACK).parent z)) RED
  rw [grandparent_of h₂ hz hp hg, ok_bind, rotate_of h₂, ok_bind]
  · rfl
  · rw [h₂.parent]
    exact hg
  · rw [h₂.parent]
    cases s <;> exact hc

/-- A round with a red uncle `y`. -/
theorem uncle_ok (y : Addr) :
    (do
      let T ← paint T (← readParent false T z) BLACK
      let T ← paint T y BLACK
      let T ← paint T (← RbChecked.grandparent T z) RED
      return (T, ← RbChecked.grandparent T z)) =
    .ok (
      let T := T.setColor (T.parent z) BLACK
      let T := T.setColor y BLACK
      let T := T.setColor (T.parent (T.parent z)) RED
      (T, T.parent (T.parent z))) := by
  have h₂ := ((Recolored.refl T).setColor (T.parent z) BLACK).setColor y BLACK
  rw [readParent_node hz, ok_bind, paint_black, ok_bind, paint_black, ok_bind, grandparent_of h₂ hz hp hg, ok_bind,
    paint_of h₂, ok_bind, grandparent_of (h₂.setColor _ _) hz hp hg]
  · rfl
  · rw [h₂.parent]
    exact hg

end InsertFixup

section InsertLoop

variable {q r : Side} {c d e : Color} {ctx : List (Frame Cell)} {t u v w : ColorTree Cell} {a b g : Cell}

theorem insertFixupInner_ok (hz : z ≠ T.nil) (hp : T.parent z ≠ T.nil) (s : Side) :
    RbChecked.insertFixupInner s T z =
      .ok (if z = T.child (T.parent z) s.other then (rotate s T (T.parent z), T.parent z) else (T, z)) := by
  rw [RbChecked.insertFixupInner, readParent_node hz, ok_bind, readChild_ok hp, ok_bind]
  split_ifs with h
  · rw [ok_bind, rotate_ok hp (h ▸ hz)]
    rfl
  · rfl

/-- A node with its parent and its grandparent. -/
theorem line_ne (hT : Holds T (plug ctx (join s c (join r d (join q e t a u) b v) g w))) :
    a.addr ≠ T.nil ∧ T.parent a.addr ≠ T.nil ∧ T.parent (T.parent a.addr) ≠ T.nil ∧
      T.child (T.parent (T.parent a.addr)) s ≠ T.nil := by
  have hb : Holds T (plug (⟨s, c, g, w⟩ :: ctx) (join r d (join q e t a u) b v)) := hT
  have ha : Holds T (plug (⟨r, d, b, v⟩ :: ⟨s, c, g, w⟩ :: ctx) (join q e t a u)) := hT
  rw [grandparent_eq hT, (parents_eq hT).1, near_eq hT, ptr_join]
  exact ⟨ne_nil ha, ne_nil hb, ne_nil hT, ne_nil hb⟩

theorem insertFixupCase_ok (hT : Holds T (plug ctx (join s c (join r d (join s e t a u) b v) g w))) :
    RbChecked.insertFixupCase s T a.addr = .ok (insertFixupCase s T a.addr) := by
  obtain ⟨hz, hp, hg, hc⟩ := line_ne hT
  rw [RbChecked.insertFixupCase, grandparent_of (.refl T) hz hp hg, ok_bind, readChild_ok hg, ok_bind, insertFixupCase]
  dsimp only
  split_ifs with hred hinner
  · exact uncle_ok hz hp hg _
  · have hpa := (parents_eq hT).1
    rw [hpa] at hinner
    have hr : r = s.other := by
      by_contra hne
      obtain rfl : r = s := by cases r <;> cases s <;> simp_all [Side.other]
      have hb : Holds T (plug (⟨r, c, g, w⟩ :: ctx) (join r d (join r e t a u) b v)) := hT
      have ha : Holds T (plug (⟨r, d, b, v⟩ :: ⟨r, c, g, w⟩ :: ctx) (join r e t a u)) := hT
      exact sibling_ne ha ((far_eq hb).symm.trans hinner.symm)
    subst hr
    rw [join_other] at hT
    have hb : Holds T (plug (⟨s, c, g, w⟩ :: ctx) (join s d v b (join s e t a u))) := hT
    -- the rotation puts the parent below `z`
    obtain ⟨hz', hp', hg', hc'⟩ := line_ne (rotate_reshapes hb).holds
    rw [insertFixupInner_ok hz hp, ok_bind, hpa, if_pos hinner]
    exact outer_ok hz' hp' hg' hc'
  · rw [insertFixupInner_ok hz hp, ok_bind, if_neg hinner]
    exact outer_ok hz hp hg hc

theorem insertFixupBody_ok (hT : Holds T (plug ctx (join s c (join r d (join s e t a u) b v) g w))) :
    RbChecked.insertFixupBody (T, a.addr) = .ok (insertFixupBody (T, a.addr)) := by
  obtain ⟨hz, hp, hg, -⟩ := line_ne hT
  rw [insertFixupBody_eq hT, ← insertFixupCase_ok hT, RbChecked.insertFixupBody]
  dsimp only
  rw [readParent_node hz, ok_bind, grandparent_of (.refl T) hz hp hg, ok_bind, readChild_ok hg, ok_bind,
    grandparent_eq hT, (parents_eq hT).1]
  have hside := parent_side hT
  split_ifs at hside ⊢ <;> rw [← hside]

/-- The node at which the loop of `rbtree_insert_fixup` stands is none but a node. -/
theorem insertInv_ne {T₀ : RbTree} {t₀ : ColorTree Cell} {k : Nat} {st : RbTree × Addr} (h : InsertInv T₀ t₀ k st) :
    st.2 ≠ st.1.nil := by
  obtain ⟨ctx, t, n, hT, hz, ht, -⟩ := h
  obtain ⟨l, a, r, rfl, -, -⟩ := ht.red_cases .left
  rw [hz, ptr_join]
  exact ne_nil hT.holds

theorem rbtreeInsertFixup_ok {n : Nat} (hT : Holds T (plug ctx t)) (ht : Balanced t .red n) (hh : Hole ctx .black n) :
    RbChecked.rbtreeInsertFixup T (ptr T.nil t) = finish .endless (rbtreeInsertFixup T (ptr T.nil t)) := by
  have hinit : ∃ k, InsertInv T (plug ctx t) k (T, ptr T.nil t) := ⟨_, ctx, t, n, .refl hT, rfl, ht, hh, rfl⟩
  have hloop : checkedLoop Misuse.endless
      (fun st : RbTree × Addr => do return st.1.color (← readParent false st.1 st.2) == RED) RbChecked.insertFixupBody
      T.fuel (T, ptr T.nil t) = finish .endless (whileLoop (fun st : RbTree × Addr => st.1.color (st.1.parent st.2) == RED)
        insertFixupBody T.fuel (T, ptr T.nil t)) := by
    apply checkedLoop_eq (fun st => ∃ k, InsertInv T (plug ctx t) k st) _ _ _ hinit
    · rintro st ⟨k, hinv⟩
      rw [readParent_node (insertInv_ne hinv)]
      rfl
    · rintro st ⟨k, hinv⟩ hcond
      obtain ⟨m, -, hstep⟩ := insertFixup_step k st hinv hcond
      obtain ⟨T₁, z⟩ := st
      obtain ⟨ctx, s, r, t, a, u, b, v, g, w, c, n, hz, hr, -⟩ := insertInv_red hinv hcond
      dsimp only at hz hr
      subst hz
      exact ⟨insertFixupBody_ok hr.holds, m, hstep⟩
  rw [RbChecked.rbtreeInsertFixup, hloop]
  exact finish_bind (fun st => paint_black ..) _

end InsertLoop

section DeleteFixup

variable {c c₁ c₂ : Color} {ctx : List (Frame Cell)} {u v₁ v₂ w₁ w₂ : ColorTree Cell} {b w v : Cell} {n : Nat}

theorem sibling_of (h : Recolored T T') (hx : x = T.nil → given = true) (hp : T.parent x ≠ T.nil)
    (hw : T.child (T.parent x) s.other ≠ T.nil) :
    RbChecked.sibling given s T' x = .ok (T'.child (T'.parent x) s.other) := by
  rw [← h.nil] at hx hp hw
  rw [← h.parent] at hp hw
  rw [← h.child] at hw
  rw [RbChecked.sibling, readParent_ok hx, ok_bind, readChild_ok hp, ok_bind, if_neg hw]

theorem bothBlack_ok (hw : y ≠ T.nil) : RbChecked.bothBlack T y =
    .ok (decide (T.color (T.child y .left) = BLACK ∧ T.color (T.child y .right) = BLACK)) := by
  rw [RbChecked.bothBlack, readChild_ok hw, ok_bind]
  split_ifs with hl
  · rw [readChild_ok hw, ok_bind]
    simp [hl]
    rfl
  · simp [hl]
    rfl

/-- The last round, with the sibling `y` whose outer child is red. -/
theorem deleteEnd_ok (hx : x = T.nil → given = true) (hp : T.parent x ≠ T.nil) (hy : y ≠ T.nil)
    (hc : T.child (T.parent x) s.other ≠ T.nil) :
    (do
      let T ← paint T y (T.color (← readParent given T x))
      let T ← paint T (← readParent given T x) BLACK
      let T ← paint T (← readChild T y s.other) BLACK
      let T ← RbChecked.rotate s T (← readParent given T x)
      return (T, T.root)) =
    .ok (
      let T := T.setColor y (T.color (T.parent x))
      let T := T.setColor (T.parent x) BLACK
      let T := T.setColor (T.child y s.other) BLACK
      let T := rotate s T (T.parent x)
      (T, T.root)) := by
  have h₁ := (Recolored.refl T).setColor y (T.color (T.parent x))
  have h₂ := h₁.setColor ((T.setColor y (T.color (T.parent x))).parent x) BLACK
  rw [readParent_ok hx, ok_bind, paint_node hy, ok_bind, parent_of h₁ hx, ok_bind, paint_black, ok_bind, child_of h₂ hy,
    ok_bind, paint_black, ok_bind, parent_of (h₂.setColor _ _) hx, ok_bind, rotate_of (h₂.setColor _ _), ok_bind]
  · rfl
  · rw [(h₂.setColor _ _).parent]
    exact hp
  · rw [(h₂.setColor _ _).parent]
    exact hc

/-- The rotation at the sibling, whose inner child is red then. -/
theorem deleteInner_ok (hx : x = T.nil → given = true) (hy : y ≠ T.nil) (hinner : T.child y s ≠ T.nil)
    (hblack : T.color (T.child y s.other) = BLACK)
    (hp : let T₃ := rotate s.other ((T.setColor (T.child y s) BLACK).setColor y RED) y
      T₃.parent x ≠ T.nil ∧ T₃.child (T₃.parent x) s.other ≠ T.nil) :
    RbChecked.deleteFixupInner given s T x y = .ok (
      let T := T.setColor (T.child y s) BLACK
      let T := T.setColor y RED
      let T := rotate s.other T y
      (T, T.child (T.parent x) s.other)) := by
  have h₁ := (Recolored.refl T).setColor (T.child y s) BLACK
  have h₂ := h₁.setColor y RED
  have hn : (rotate s.other ((T.setColor (T.child y s) BLACK).setColor y RED) y).nil = T.nil := by
    rw [rotate_rest]
    rfl
  rw [RbChecked.deleteFixupInner, readChild_ok hy, ok_bind, if_pos hblack, readChild_ok hy, ok_bind, paint_black, ok_bind,
    paint_of h₁ hy, ok_bind, rotate_of h₂ hy (by cases s <;> exact hinner), ok_bind]
  rw [← hn] at hx hp
  rw [sibling_of (.refl _) hx hp.1 hp.2]
  rfl

/-- The parent of `x`, which may be nil, and the sibling of `x` are nodes. -/
theorem family_ne {T₀ : RbTree} {t₀ : ColorTree Cell} {d : Color} (hT : Holds T₀ t₀)
    (hx : u = .nil → T₀.parent T₀.nil = b.addr) (hr : Reshapes T₀ t₀ T (plug ctx (join s c u b (join s d w₁ w w₂)))) :
    T.parent (ptr T₀.nil u) ≠ T.nil ∧ T.child (T.parent (ptr T₀.nil u)) s.other = w.addr ∧ w.addr ≠ T.nil := by
  have hw := hr.holds
  rw [← plug_far] at hw
  rw [parent_after hT hx hr, far_eq hr.holds, ptr_join]
  exact ⟨ne_nil hr.holds, rfl, ne_nil hw⟩

/-- With one black child, the outer one, the sibling has a red child inside. -/
theorem inner_red (hT : Holds T (plug ctx (join s c u b (join s .black w₁ w w₂)))) (hw₁ : Balanced w₁ c₁ n)
    (hboth : ¬ (T.color (T.child w.addr .left) = BLACK ∧ T.color (T.child w.addr .right) = BLACK))
    (hblack : T.color (T.child w.addr s.other) = BLACK) : c₁ = .red := by
  rw [both_sides s (P := fun s => T.color (T.child w.addr s) = BLACK)] at hboth
  have hinner : T.color (T.child w.addr s) ≠ BLACK := fun h => hboth ⟨h, hblack⟩
  rw [(colors_eq hT).1, hw₁.color_eq] at hinner
  cases c₁ with
  | red => rfl
  | black => exact absurd rfl hinner

theorem deleteFixupBlack_ok (hT : Holds T (plug ctx (join s c u b (join s .black w₁ w w₂))))
    (hx : u = .nil → T.parent T.nil = b.addr) (hgiven : ptr T.nil u = T.nil → given = true)
    (hw₁ : Balanced w₁ c₁ n) :
    RbChecked.deleteFixupBlack given s T (ptr T.nil u) w.addr = .ok (deleteFixupBlack s T (ptr T.nil u) w.addr) := by
  obtain ⟨hp, hsib, hw⟩ := family_ne hT hx (.refl hT)
  rw [RbChecked.deleteFixupBlack, bothBlack_ok hw, ok_bind, deleteFixupBlack]
  by_cases hboth : T.color (T.child w.addr .left) = BLACK ∧ T.color (T.child w.addr .right) = BLACK
  · rw [if_pos (decide_eq_true hboth), if_pos hboth, paint_node hw, ok_bind, readParent_ok hgiven]
    rfl
  · rw [if_neg (Bool.eq_false_iff.mp (decide_eq_false hboth)), if_neg hboth]
    by_cases hblack : T.color (T.child w.addr s.other) = BLACK
    · have hred := inner_red hT hw₁ hboth hblack
      subst hred
      obtain ⟨v₁, v, v₂, rfl, -, -⟩ := hw₁.red_cases s
      obtain ⟨hr, -⟩ := case_three hT hx
      obtain ⟨hp₃, hsib₃, hv⟩ := family_ne hT hx hr
      have hw' := hT
      rw [← plug_far] at hw'
      have hchild : T.child w.addr s ≠ T.nil := by
        rw [near_eq hw', ptr_join]
        exact ne_nil (show Holds T (plug (⟨s, .black, w, w₂⟩ :: ⟨s.other, c, b, u⟩ :: ctx) (join s .red v₁ v v₂)) from hw')
      have hsib' := hsib₃.symm ▸ hv
      rw [deleteInner_ok hgiven hw hchild hblack
        ⟨fun h => hp₃ (h.trans hr.nil.symm), fun h => hsib' (h.trans hr.nil.symm)⟩, ok_bind, if_pos hblack]
      exact deleteEnd_ok (fun h => hgiven (h.trans hr.nil)) hp₃ hsib' hsib'
    · have hinner : RbChecked.deleteFixupInner given s T (ptr T.nil u) w.addr = .ok (T, w.addr) := by
        rw [RbChecked.deleteFixupInner, readChild_ok hw, ok_bind, if_neg hblack]
        rfl
      rw [hinner, ok_bind, if_neg hblack]
      exact deleteEnd_ok hgiven hp hw (hsib ▸ hw)

/-- After a round from `T` the next `x` is a node or the root. -/
def MovesOn (T : RbTree) (st : RbTree × Addr) : Prop := st.2 ≠ T.nil ∨ st.2 = st.1.root

theorem deleteFixupBlack_next (hp : T.parent x ≠ T.nil) (s : Side) (y : Addr) :
    MovesOn T (deleteFixupBlack s T x y) := by
  rw [deleteFixupBlack]
  split_ifs
  · exact .inl hp
  · exact .inr rfl
  · exact .inr rfl

theorem deleteFixupCase_ok_black (hT : Holds T (plug ctx (join s c u b (join s .black w₁ w w₂))))
    (hx : u = .nil → T.parent T.nil = b.addr) (hgiven : ptr T.nil u = T.nil → given = true)
    (hw₁ : Balanced w₁ c₁ n) :
    RbChecked.deleteFixupCase given s T (ptr T.nil u) = .ok (deleteFixupCase s T (ptr T.nil u)) ∧
      MovesOn T (deleteFixupCase s T (ptr T.nil u)) := by
  obtain ⟨hp, hsib, hw⟩ := family_ne hT hx (.refl hT)
  have hw' := hT
  rw [← plug_far] at hw'
  have hcolor : T.color w.addr ≠ RED := by
    rw [color_eq hw']
    decide
  rw [RbChecked.deleteFixupCase, sibling_of (.refl T) hgiven hp (hsib ▸ hw), ok_bind, deleteFixupCase, hsib,
    if_neg hcolor, if_neg hcolor]
  exact ⟨deleteFixupBlack_ok hT hx hgiven hw₁, deleteFixupBlack_next hp s w.addr⟩

theorem deleteFixupCase_ok_red (hT : Holds T (plug ctx (join s .black u b (join s .red w₁ w w₂))))
    (hx : u = .nil → T.parent T.nil = b.addr) (hgiven : ptr T.nil u = T.nil → given = true)
    (hw₁ : Balanced w₁ .black (n + 1)) :
    RbChecked.deleteFixupCase given s T (ptr T.nil u) = .ok (deleteFixupCase s T (ptr T.nil u)) ∧
      MovesOn T (deleteFixupCase s T (ptr T.nil u)) := by
  obtain ⟨hp, hsib, hw⟩ := family_ne hT hx (.refl hT)
  obtain ⟨v₁, v, v₂, c₁, c₂, rfl, hv₁, -⟩ := hw₁.black_cases s
  obtain ⟨hr, -⟩ := case_one hT hx
  have hw' := hT
  rw [← plug_far] at hw'
  have hcolor : T.color w.addr = RED := color_eq hw'
  have h₁ := (Recolored.refl T).setColor w.addr BLACK
  have hp₁ : (T.setColor w.addr BLACK).parent (ptr T.nil u) ≠ T.nil := by
    rw [h₁.parent]
    exact hp
  rw [RbChecked.deleteFixupCase, sibling_of (.refl T) hgiven hp (hsib ▸ hw), ok_bind, deleteFixupCase, hsib,
    if_pos hcolor, if_pos hcolor, paint_black, ok_bind, parent_of h₁ hgiven, ok_bind, paint_of h₁ hp₁, ok_bind,
    parent_of (h₁.setColor _ _) hgiven, ok_bind, rotate_of (h₁.setColor _ _), ok_bind]
  · change Reshapes T _ _ (plug (⟨s, .black, w, w₂⟩ :: ctx) (join s .red u b (join s .black v₁ v v₂))) at hr
    obtain ⟨hp₃, hsib₃, hv⟩ := family_ne hT hx hr
    have hgiven₃ : ptr _ u = _ → given = true := hr.nil.symm ▸ hgiven
    have hblack := deleteFixupBlack_ok hr.holds (fun h => (parent_nil hT hr).trans (hx h)) hgiven₃ hv₁
    have hnext := deleteFixupBlack_next hp₃ s v.addr
    rw [MovesOn, hr.nil] at hnext
    rw [hr.nil] at hblack
    rw [sibling_of (.refl _) (fun h => hgiven (h.trans hr.nil)) hp₃ (hsib₃.symm ▸ hv), ok_bind, hsib₃]
    dsimp only
    rw [hsib₃]
    exact ⟨hblack, hnext⟩
  · rw [(h₁.setColor _ _).parent]
    exact hp
  · rw [(h₁.setColor _ _).parent, hsib]
    exact hw

theorem deleteFixupCase_ok {v : ColorTree Cell} (hT : Holds T (plug (⟨s, c, b, v⟩ :: ctx) u))
    (hx : u = .nil → T.parent T.nil = b.addr) (hgiven : ptr T.nil u = T.nil → given = true)
    (hh : Hole (⟨s, c, b, v⟩ :: ctx) .black (n + 1)) :
    RbChecked.deleteFixupCase given s T (ptr T.nil u) = .ok (deleteFixupCase s T (ptr T.nil u)) ∧
      MovesOn T (deleteFixupCase s T (ptr T.nil u)) := by
  cases hh with
  | red _ _ hv hh =>
      obtain ⟨w₁, w, w₂, c₁, c₂, rfl, hw₁, -⟩ := hv.black_cases s
      exact deleteFixupCase_ok_black hT hx hgiven hw₁
  | @black _ _ _ cv _ _ _ hv hh =>
      cases cv with
      | black =>
          obtain ⟨w₁, w, w₂, c₁, c₂, rfl, hw₁, -⟩ := hv.black_cases s
          exact deleteFixupCase_ok_black hT hx hgiven hw₁
      | red =>
          obtain ⟨w₁, w, w₂, rfl, hw₁, -⟩ := hv.red_cases s
          exact deleteFixupCase_ok_red hT hx hgiven hw₁

theorem deleteFixupBody_ok {v : ColorTree Cell} (hT : Holds T (plug (⟨s, c, b, v⟩ :: ctx) u))
    (hx : u = .nil → T.parent T.nil = b.addr) (hgiven : ptr T.nil u = T.nil → given = true)
    (hh : Hole (⟨s, c, b, v⟩ :: ctx) .black (n + 1)) :
    RbChecked.deleteFixupBody given (T, ptr T.nil u) = .ok (deleteFixupBody (T, ptr T.nil u)) ∧
      MovesOn T (deleteFixupBody (T, ptr T.nil u)) := by
  obtain ⟨d, hv⟩ := hh.sibling
  have hp := parent_after hT hx (.refl hT)
  have hb : T.parent (ptr T.nil u) ≠ T.nil := hp ▸ ne_nil hT
  obtain ⟨hcase, hnext⟩ := deleteFixupCase_ok hT hx hgiven hh
  rw [deleteFixupBody_eq hT hx hv]
  refine ⟨?_, hnext⟩
  rw [← hcase, RbChecked.deleteFixupBody]
  dsimp only
  rw [readParent_ok hgiven, ok_bind, readChild_ok hb, ok_bind, hp]
  have hside := place_side hT hv
  split_ifs at hside ⊢ <;> rw [← hside]

theorem root_ne_nil {f : Frame Cell} {T₀ : RbTree} {t : ColorTree Cell} (hT : Reshapes T₀ t T (plug (f :: ctx) u))
    (hr : Reshapes T₀ t T' v₁) : T'.root ≠ T'.nil := by
  intro h
  have hempty : v₁ = .nil := (ptr_eq_nil (show Holds T' (plug [] v₁) from hr.holds)).mp (hr.holds.root.symm.trans h)
  have hlist : (plug (f :: ctx) u).toList = [] := by rw [hT.toList, ← hr.toList, hempty, ColorTree.toList]
  have hmem : f.item ∈ (plug (f :: ctx) u).toList := mem_plug.mpr (.inr List.mem_cons_self)
  rw [hlist] at hmem
  cases hmem

theorem rbtreeDeleteFixup_ok (hT : Holds T (plug ctx u)) (hx : u = .nil → T.parent T.nil = top T.nil ctx)
    (hu : Balanced u c n) (hh : Hole ctx .black (n + 1)) (hgiven : ptr T.nil u = T.nil → given = true) :
    RbChecked.rbtreeDeleteFixup given T (ptr T.nil u) = finish .endless (rbtreeDeleteFixup T (ptr T.nil u)) := by
  obtain ⟨k, -, hinit⟩ := deleteInv_init hT hx hu hh
  have hloop : checkedLoop Misuse.endless
      (fun st : RbTree × Addr => .ok (st.2 != st.1.root && st.1.color st.2 == BLACK)) (RbChecked.deleteFixupBody given)
      T.fuel (T, ptr T.nil u) = finish .endless (whileLoop
        (fun st : RbTree × Addr => st.2 != st.1.root && st.1.color st.2 == BLACK) deleteFixupBody
        T.fuel (T, ptr T.nil u)) := by
    apply checkedLoop_eq (fun st => (∃ k, DeleteInv T (plug ctx u) k st) ∧ (st.2 = st.1.nil → given = true))
      (fun _ _ => rfl) _ _ ⟨⟨k, hinit⟩, hgiven⟩
    rintro st ⟨⟨k, hinv⟩, hst⟩ hcond
    obtain ⟨m, -, hstep⟩ := deleteFixup_step k st hinv hcond
    obtain ⟨T₁, x₁⟩ := st
    obtain ⟨s, c, b, v, ctx₁, u₁, n₁, hz, hr, hx₁, hh₁, hu₁, -⟩ := deleteInv_below hinv hcond
    dsimp only at hz hr hx₁ hst
    subst hz
    obtain ⟨hbody, hnext⟩ := deleteFixupBody_ok hr.holds hx₁ hst hh₁
    refine ⟨hbody, ⟨m, hstep⟩, fun hnil => ?_⟩
    -- after a round `x` is the parent of `x` or the root, and there is a root
    obtain ⟨ctx₂, u₂, n₂, hr₂, -⟩ := hstep
    rcases hnext with hnext | hnext
    · exact absurd (hnil.trans (hr₂.nil.trans hr.nil.symm)) hnext
    · exact absurd (hnext.symm.trans hnil) (root_ne_nil hr hr₂)
  rw [RbChecked.rbtreeDeleteFixup, hloop]
  exact finish_bind (fun st => paint_black ..) _

end DeleteFixup

end GameAccelerator.RbCheckedFixup
