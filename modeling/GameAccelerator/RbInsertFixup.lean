import GameAccelerator.RbRotate

namespace GameAccelerator.RbInsertFixup

open CString Platform RedBlack WhileLoop RbEngine RbShape RbFocus RbRotate

variable {T : RbTree} {q r s : Side} {c d e : Color} {ctx : List (Frame Cell)} {t u v w : ColorTree Cell} {a b g : Cell}
  {n : Nat}

theorem parents_eq (hT : Holds T (plug ctx (join s c (join r d (join q e t a u) b v) g w))) :
    T.parent a.addr = b.addr ∧ T.parent b.addr = g.addr := by
  have hb : Holds T (plug (⟨s, c, g, w⟩ :: ctx) (join r d (join q e t a u) b v)) := hT
  have ha : Holds T (plug (⟨r, d, b, v⟩ :: ⟨s, c, g, w⟩ :: ctx) (join q e t a u)) := hT
  exact ⟨parent_eq ha, parent_eq hb⟩

theorem grandparent_eq (hT : Holds T (plug ctx (join s c (join r d (join q e t a u) b v) g w))) :
    T.parent (T.parent a.addr) = g.addr := by
  rw [(parents_eq hT).1, (parents_eq hT).2]

/-- The last round: the parent `b` comes up black and the grandparent `g` goes
down red on the other side. -/
theorem outer_reshapes (hT : Holds T (plug ctx (join s .black (join s .red (join q e t a u) b v) g w))) :
    let T₁ := T.setColor (T.parent a.addr) BLACK
    let T₂ := T₁.setColor (T₁.parent (T₁.parent a.addr)) RED
    Reshapes T (plug ctx (join s .black (join s .red (join q e t a u) b v) g w))
      (rotate s.other T₂ (T₂.parent (T₂.parent a.addr)))
      (plug ctx (join s .black (join q e t a u) b (join s .red v g w))) := by
  intro T₁ T₂
  have h₁ := recolor_near (e := .black) hT
  rw [← (parents_eq hT).1] at h₁
  have h₂ := recolor (d := .red) h₁.holds
  rw [← grandparent_eq h₁.holds] at h₂
  have h₃ := h₂.holds
  rw [← join_other s _ _ g, ← join_other s _ _ b] at h₃
  have h₄ := rotate_reshapes h₃
  rw [join_other, join_other, join_other, join_other, ← grandparent_eq h₂.holds] at h₄
  exact (h₁.trans h₂).trans h₄

/-- With a red uncle `y` the redness moves up to the grandparent. -/
theorem uncle_reshapes {w₁ w₂ : ColorTree Cell} {y : Cell}
    (hT : Holds T (plug ctx (join s .black (join r .red (join q e t a u) b v) g (join s .red w₁ y w₂)))) :
    let T₂ := (T.setColor b.addr BLACK).setColor y.addr BLACK
    Reshapes T (plug ctx (join s .black (join r .red (join q e t a u) b v) g (join s .red w₁ y w₂)))
        (T₂.setColor (T₂.parent (T₂.parent a.addr)) RED)
        (plug ctx (join s .red (join r .black (join q e t a u) b v) g (join s .black w₁ y w₂))) ∧
      (T₂.setColor (T₂.parent (T₂.parent a.addr)) RED).parent
        ((T₂.setColor (T₂.parent (T₂.parent a.addr)) RED).parent a.addr) = g.addr := by
  intro T₂
  have h₁ := recolor_near (e := .black) hT
  have h₂ := recolor_far (e := .black) h₁.holds
  have hg : T₂.parent (T₂.parent a.addr) = g.addr := grandparent_eq h₂.holds
  have h₃ := recolor (d := .red) h₂.holds
  rw [hg]
  exact ⟨(h₁.trans h₂).trans h₃, grandparent_eq h₃.holds⟩

/-- The loop of `rbtree_insert_fixup`: `z` is red, and but for its red parent the
tree is balanced. -/
def InsertInv (T₀ : RbTree) (t₀ : ColorTree Cell) (k : Nat) (st : RbTree × Addr) : Prop :=
  ∃ ctx t n, Reshapes T₀ t₀ st.1 (plug ctx t) ∧ st.2 = ptr st.1.nil t ∧ Balanced t .red n ∧ Hole ctx .black n ∧
    ctx.length = k

theorem insertFixupCase_inv
    (hT : Holds T (plug ctx (join s .black (join r .red (join s .red t a u) b v) g w)))
    (ht : Balanced t .black n) (hu : Balanced u .black n) (hv : Balanced v .black n) (hw : Balanced w c n)
    (hh : Hole ctx .black (n + 1)) :
    ∃ k ≤ ctx.length + 1, InsertInv T (plug ctx (join s .black (join r .red (join s .red t a u) b v) g w)) k
      (insertFixupCase s T a.addr) := by
  obtain ⟨hpa, hpb⟩ := parents_eq hT
  have hy : T.child g.addr s.other = ptr T.nil w := far_eq hT
  have hcy : T.color (ptr T.nil w) = byte c := by
    have hw' := hT
    rw [← plug_far] at hw'
    rw [color_ptr hw', hw.color_eq]
  rw [insertFixupCase, hpa, hpb, hy, hcy]
  cases c with
  | red =>
      obtain ⟨w₁, y, w₂, rfl, hw₁, hw₂⟩ := hw.red_cases s
      obtain ⟨hr, hp⟩ := uncle_reshapes hT
      rw [if_pos (by rfl), ptr_join]
      refine ⟨ctx.length, by omega, ctx, _, n + 1, hr, ?_, ?_, hh, rfl⟩
      · rw [ptr_join]
        exact hp
      · exact ((ht.joinRed s a hu).joinBlack r b hv).joinRed s g (hw₁.joinBlack s y hw₂)
  | black =>
      rw [if_neg (by decide)]
      by_cases hrs : r = s
      · subst hrs
        have hb : Holds T (plug (⟨r, .black, g, w⟩ :: ctx) (join r .red (join r .red t a u) b v)) := hT
        have ha : Holds T (plug (⟨r, .red, b, v⟩ :: ⟨r, .black, g, w⟩ :: ctx) (join r .red t a u)) := hT
        rw [if_neg (by rw [far_eq hb]; exact (sibling_ne ha).symm)]
        exact ⟨_, le_rfl, ⟨r, .black, b, join r .red v g w⟩ :: ctx, _, n, outer_reshapes hT, (ptr_join ..).symm,
          ht.joinRed r a hu, .black r b _ (hv.joinRed r g hw) hh, rfl⟩
      · obtain rfl : r = s.other := by cases r <;> cases s <;> simp_all [Side.other]
        rw [join_other] at hT ⊢
        have hb : Holds T (plug (⟨s, .black, g, w⟩ :: ctx) (join s .red v b (join s .red t a u))) := hT
        rw [if_pos (by rw [far_eq hb, ptr_join])]
        have h₁ := rotate_reshapes hb
        exact ⟨_, le_rfl, ⟨s, .black, a, join s .red u g w⟩ :: ctx, _, n, h₁.trans (outer_reshapes h₁.holds),
          (ptr_join ..).symm, hv.joinRed s b ht, .black s a _ (hu.joinRed s g hw) hh, rfl⟩

/-- The side of the grandparent that the parent hangs on. -/
theorem parent_side (hT : Holds T (plug ctx (join s c (join r d (join q e t a u) b v) g w))) :
    (if b.addr = T.child g.addr .left then Side.left else Side.right) = s := by
  have hb : Holds T (plug (⟨s, c, g, w⟩ :: ctx) (join r d (join q e t a u) b v)) := hT
  have hctx := ((rep_plug _ _).mp hb.rep).1
  rw [ptr_join] at hctx
  exact side_of_frame .left hctx (sibling_ne hb)

theorem insertFixupBody_eq (hT : Holds T (plug ctx (join s c (join r d (join q e t a u) b v) g w))) :
    insertFixupBody (T, a.addr) = insertFixupCase s T a.addr := by
  rw [insertFixupBody, grandparent_eq hT, (parents_eq hT).1, ← parent_side hT]
  split <;> rfl

/-- A red parent is not the root, and its own parent is black. -/
theorem insertInv_red {T₀ : RbTree} {t₀ : ColorTree Cell} {k : Nat} {st : RbTree × Addr} (hinv : InsertInv T₀ t₀ k st)
    (hred : (st.1.color (st.1.parent st.2) == RED) = true) :
    ∃ ctx s r t a u b v g w c n, st.2 = a.addr ∧
      Reshapes T₀ t₀ st.1 (plug ctx (join s .black (join r .red (join s .red t a u) b v) g w)) ∧
      Balanced t .black n ∧ Balanced u .black n ∧ Balanced v .black n ∧ Balanced w c n ∧ Hole ctx .black (n + 1) ∧
      k = ctx.length + 2 := by
  obtain ⟨T, z⟩ := st
  obtain ⟨ctx, t, n, hT, hz, ht, hh, rfl⟩ := hinv
  dsimp only at hz
  subst hz
  have hp : T.parent (ptr T.nil t) = top T.nil ctx := by
    cases ht with
    | red a _ _ => exact parent_eq (s := .left) hT.holds
  dsimp only at hT hred ⊢
  rw [hp, beq_iff_eq] at hred
  cases hh with
  | top n =>
      rw [top, hT.holds.nilBlack] at hred
      exact absurd hred (by decide)
  | black r b c hv hh =>
      have hb : Holds T (plug _ (join r .black t b _)) := hT.holds
      rw [top, color_eq hb] at hred
      exact absurd hred (by decide)
  | @red _ v _ r b hv hh =>
      obtain ⟨s, g, w, c, ctx, rfl, hw, hh⟩ := hh.red_cases
      obtain ⟨t, a, u, rfl, ht, hu⟩ := ht.red_cases s
      exact ⟨ctx, s, r, t, a, u, b, v, g, w, c, n, ptr_join .., hT, ht, hu, hv, hw, hh, rfl⟩

theorem insertFixup_step {T₀ : RbTree} {t₀ : ColorTree Cell} (k : Nat) (st : RbTree × Addr)
    (hinv : InsertInv T₀ t₀ k st) (hred : (st.1.color (st.1.parent st.2) == RED) = true) :
    ∃ m, m < k ∧ InsertInv T₀ t₀ m (insertFixupBody st) := by
  obtain ⟨T, z⟩ := st
  obtain ⟨ctx, s, r, t, a, u, b, v, g, w, c, n, hz, hT, ht, hu, hv, hw, hh, rfl⟩ := insertInv_red hinv hred
  dsimp only at hz hT
  subst hz
  obtain ⟨k, hk, ctx', t', n', hr, hz, hb, hh', rfl⟩ := insertFixupCase_inv hT.holds ht hu hv hw hh
  rw [insertFixupBody_eq hT.holds]
  exact ⟨ctx'.length, Nat.lt_succ_of_le hk, ctx', t', n', hT.trans hr, hz, hb, hh', rfl⟩

/-- A black parent, or none, ends the loop with a tree that is balanced up to
the colour of its root. -/
theorem insertFixup_exit {T₀ : RbTree} {t₀ : ColorTree Cell} {k : Nat} {st : RbTree × Addr}
    (hinv : InsertInv T₀ t₀ k st) (hblack : (st.1.color (st.1.parent st.2) == RED) = false) :
    ∃ l a r c d m, Reshapes T₀ t₀ st.1 (.node c l a r) ∧ Balanced (.node c l a r) d m := by
  obtain ⟨T, z⟩ := st
  obtain ⟨ctx, t, n, hT, hz, ht, hh, rfl⟩ := hinv
  dsimp only at hz hT
  subst hz
  obtain ⟨l, a, r, rfl, hl, hr⟩ := ht.red_cases .left
  have hp : T.parent a.addr = top T.nil ctx := parent_eq hT.holds
  dsimp only at hblack
  rw [ptr_join, hp, beq_eq_false_iff_ne] at hblack
  cases hh with
  | top n => exact ⟨l, a, r, .red, .red, n, hT, .red a hl hr⟩
  | red s b hu hh =>
      have hb : Holds T (plug _ (join s .red (join .left .red l a r) b _)) := hT.holds
      rw [top, color_eq hb] at hblack
      exact absurd rfl hblack
  | @black ctx u n d s b c hu hh =>
      obtain ⟨m, hm⟩ := hh.plug (ht.joinBlack s b hu)
      obtain ⟨e, l', b', r', he⟩ := plug_join_eq_node ctx s .black (join .left .red l a r) b u
      exact ⟨l', b', r', e, .black, m, he ▸ hT, he ▸ hm⟩

theorem rbtreeInsertFixup_spec (hT : Holds T (plug ctx t)) (ht : Balanced t .red n) (hh : Hole ctx .black n) :
    ∃ T' t' m, rbtreeInsertFixup T (ptr T.nil t) = some T' ∧ Reshapes T (plug ctx t) T' t' ∧
      Balanced t' .black m := by
  have hinit : InsertInv T (plug ctx t) ctx.length (T, ptr T.nil t) :=
    ⟨ctx, t, n, .refl hT, rfl, ht, hh, rfl⟩
  have hfuel : ctx.length ≤ T.fuel := by
    have h₁ := length_lt_plug ctx t
    have h₂ := hT.length_lt
    unfold RbTree.fuel
    omega
  obtain ⟨k, st, hloop, hinv, hexit⟩ := whileLoop_spec (InsertInv T (plug ctx t)) insertFixup_step hinit hfuel
  obtain ⟨l, a, r, c, d, m, hr, hb⟩ := insertFixup_exit hinv hexit
  obtain ⟨m', hm'⟩ := hb.blacken
  refine ⟨_, _, m', ?_, hr.trans (recolor_root (d := .black) hr.holds), hm'⟩
  rw [rbtreeInsertFixup, hloop]
  rfl

end GameAccelerator.RbInsertFixup
