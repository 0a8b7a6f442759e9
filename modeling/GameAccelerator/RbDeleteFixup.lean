import GameAccelerator.RbRotate

namespace GameAccelerator.RbDeleteFixup

open CString Platform RedBlack WhileLoop RbEngine RbShape RbFocus RbRotate

variable {T : RbTree} {s : Side} {c d : Color} {ctx : List (Frame Cell)} {u w₁ w₂ v₁ v₂ : ColorTree Cell} {p w v : Cell}
  {n : Nat}

theorem parent_ptr (hT : Holds T (plug ctx u)) (hx : u = .nil → T.parent T.nil = top T.nil ctx) :
    T.parent (ptr T.nil u) = top T.nil ctx := by
  cases u with
  | nil => exact hx rfl
  | node c l a r => exact parent_eq (s := .left) hT

theorem parent_nil {T' : RbTree} {t t' : ColorTree Cell} (hT : Holds T t) (hr : Reshapes T t T' t') :
    T'.parent T'.nil = T.parent T.nil := by
  rw [hr.nil, RbTree.parent, hr.frame _ hT.nilFresh]
  rfl

/-- The parent of `x`, which may be nil with a parent set for this call, stays
`p` as long as `x` stays below `p`. -/
theorem parent_after {T' : RbTree} {t : ColorTree Cell} (hT : Holds T t) (hx : u = .nil → T.parent T.nil = p.addr)
    (hr : Reshapes T t T' (plug ctx (join s c u p w₁))) : T'.parent (ptr T.nil u) = p.addr := by
  have hu : Holds T' (plug (⟨s, c, p, w₁⟩ :: ctx) u) := hr.holds
  rw [← hr.nil]
  exact parent_ptr hu fun h => (parent_nil hT hr).trans (hx h)

theorem case_one (hT : Holds T (plug ctx (join s .black u p (join s .red w₁ w w₂))))
    (hx : u = .nil → T.parent T.nil = p.addr) :
    let T₁ := T.setColor w.addr BLACK
    let T₂ := T₁.setColor (T₁.parent (ptr T.nil u)) RED
    let T₃ := rotate s T₂ (T₂.parent (ptr T.nil u))
    Reshapes T (plug ctx (join s .black u p (join s .red w₁ w w₂))) T₃
        (plug ctx (join s .black (join s .red u p w₁) w w₂)) ∧
      T₃.child (T₃.parent (ptr T.nil u)) s.other = ptr T.nil w₁ := by
  intro T₁ T₂ T₃
  have h₁ := recolor_far (e := .black) hT
  have h₂ := h₁.trans (recolor (d := .red) h₁.holds)
  rw [← parent_after hT hx h₁] at h₂
  have h₃ := h₂.trans (rotate_reshapes h₂.holds)
  rw [← parent_after hT hx h₂] at h₃
  refine ⟨h₃, ?_⟩
  have hp : Reshapes T _ T₃ (plug (⟨s, .black, w, w₂⟩ :: ctx) (join s .red u p w₁)) := h₃
  rw [parent_after hT hx hp, far_eq hp.holds, hp.nil]

theorem case_three (hT : Holds T (plug ctx (join s c u p (join s .black (join s .red v₁ v v₂) w w₂))))
    (hx : u = .nil → T.parent T.nil = p.addr) :
    let T₁ := T.setColor (T.child w.addr s) BLACK
    let T₂ := T₁.setColor w.addr RED
    let T₃ := rotate s.other T₂ w.addr
    Reshapes T (plug ctx (join s c u p (join s .black (join s .red v₁ v v₂) w w₂))) T₃
        (plug ctx (join s c u p (join s .black v₁ v (join s .red v₂ w w₂)))) ∧
      T₃.child (T₃.parent (ptr T.nil u)) s.other = v.addr := by
  intro T₁ T₂ T₃
  have hw := hT
  rw [← plug_far] at hw
  have h₁ := recolor_near (e := .black) hw
  have hv : T.child w.addr s = v.addr := by rw [near_eq hw, ptr_join]
  rw [← hv] at h₁
  have h₂ := h₁.trans (recolor (d := .red) h₁.holds)
  have h₃ := h₂.holds
  rw [← join_other s _ _ w, ← join_other s _ _ v] at h₃
  have h₄ := rotate_reshapes h₃
  rw [join_other, join_other, join_other, join_other] at h₄
  have h₅ := h₂.trans h₄
  rw [plug_far, plug_far] at h₅
  change Reshapes T _ T₃ _ at h₅
  refine ⟨h₅, ?_⟩
  rw [parent_after hT hx h₅, far_eq h₅.holds, ptr_join]

theorem case_four (hT : Holds T (plug ctx (join s c u p (join s .black w₁ w (join s .red v₁ v v₂)))))
    (hx : u = .nil → T.parent T.nil = p.addr) :
    let T₁ := T.setColor w.addr (T.color (T.parent (ptr T.nil u)))
    let T₂ := T₁.setColor (T₁.parent (ptr T.nil u)) BLACK
    let T₃ := T₂.setColor (T₂.child w.addr s.other) BLACK
    Reshapes T (plug ctx (join s c u p (join s .black w₁ w (join s .red v₁ v v₂))))
      (rotate s T₃ (T₃.parent (ptr T.nil u)))
      (plug ctx (join s c (join s .black u p w₁) w (join s .black v₁ v v₂))) := by
  intro T₁ T₂ T₃
  have h₁ := recolor_far (e := c) hT
  rw [← color_eq hT, ← parent_after hT hx (.refl hT)] at h₁
  have h₂ := h₁.trans (recolor (d := .black) h₁.holds)
  rw [← parent_after hT hx h₁] at h₂
  have hw := h₂.holds
  rw [← plug_far] at hw
  have hv := far_eq hw
  rw [ptr_join] at hv
  have h₃ := recolor_far (e := .black) hw
  rw [plug_far, plug_far, ← hv] at h₃
  have h₄ := (h₂.trans h₃).trans (rotate_reshapes (h₂.trans h₃).holds)
  rw [← parent_after hT hx (h₂.trans h₃)] at h₄
  exact h₄

def RedTop (t : ColorTree Cell) (n : Nat) : Prop :=
  ∃ l a r cl cr, t = .node .red l a r ∧ Balanced l cl n ∧ Balanced r cr n

/-- The loop of `rbtree_delete_fixup`: the subtree at `x` lacks one black node,
which a red `x` can supply, even one with a red child. -/
def DeleteInv (T₀ : RbTree) (t₀ : ColorTree Cell) (k : Nat) (st : RbTree × Addr) : Prop :=
  ∃ ctx u n, Reshapes T₀ t₀ st.1 (plug ctx u) ∧ st.2 = ptr st.1.nil u ∧
    (u = .nil → st.1.parent st.1.nil = top st.1.nil ctx) ∧ Hole ctx .black (n + 1) ∧
    (Balanced u .black n ∧ k = ctx.length ∨ RedTop u n ∧ k = 0)

theorem colors_eq {r : Side} (hT : Holds T (plug ctx (join r d u p (join s c w₁ w w₂)))) :
    T.color (T.child w.addr s) = byte w₁.color ∧ T.color (T.child w.addr s.other) = byte w₂.color := by
  rw [← plug_far] at hT
  have h₁ : Holds T (plug (⟨s, c, w, w₂⟩ :: ⟨r.other, d, p, u⟩ :: ctx) w₁) := hT
  have h₂ := hT
  rw [← plug_far] at h₂
  rw [near_eq hT, far_eq hT]
  exact ⟨color_ptr h₁, color_ptr h₂⟩

/-- The hole that is left above the parent of `x`. -/
def Above (ctx : List (Frame Cell)) (c : Color) (n : Nat) : Prop :=
  c = .red ∧ Hole ctx .red (n + 1) ∨ c = .black ∧ Hole ctx .black (n + 2)

theorem Above.plug {t₁ t₂ : ColorTree Cell} (h : Above ctx c n) (h₁ : Balanced t₁ .black (n + 1))
    (h₂ : Balanced t₂ .black (n + 1)) : ∃ m, Balanced (plug ctx (join s c t₁ p t₂)) .black m := by
  rcases h with ⟨rfl, h⟩ | ⟨rfl, h⟩
  · exact h.plug (h₁.joinRed s p h₂)
  · exact h.plug (h₁.joinBlack s p h₂)

/-- A tree that is balanced as a whole stops the loop with `x` at the root. -/
theorem deleteInv_root {T' : RbTree} {t t' : ColorTree Cell} {m : Nat} (hr : Reshapes T t T' t')
    (hm : Balanced t' .black m) (hne : t' ≠ .nil) : DeleteInv T t 0 (T', T'.root) :=
  ⟨[], t', m, hr, hr.holds.root, fun h => absurd h hne, .top _, Or.inl ⟨hm, rfl⟩⟩

theorem case_two_inv (hT : Holds T (plug ctx (join s c u p (join s .black w₁ w w₂))))
    (hh : Above ctx c n) (hu : Balanced u .black n) (hw₁ : Balanced w₁ .black n) (hw₂ : Balanced w₂ .black n) :
    ∃ k, (k = 0 ∨ c = .black ∧ k = ctx.length) ∧
      DeleteInv T (plug ctx (join s c u p (join s .black w₁ w w₂))) k (T.setColor w.addr RED, p.addr) := by
  have hr := recolor_far (e := .red) hT
  have hw := hw₁.joinRed s w hw₂
  have hne : join s c u p (join s .red w₁ w w₂) ≠ .nil := by cases s <;> exact nofun
  rcases hh with ⟨rfl, hh⟩ | ⟨rfl, hh⟩
  · refine ⟨0, Or.inl rfl, ctx, _, n, hr, (ptr_join ..).symm, fun h => absurd h hne, hh.black_of_red,
      Or.inr ⟨?_, rfl⟩⟩
    cases s
    · exact ⟨_, _, _, _, _, rfl, hu, hw⟩
    · exact ⟨_, _, _, _, _, rfl, hw, hu⟩
  · exact ⟨ctx.length, Or.inr ⟨rfl, rfl⟩, ctx, _, n + 1, hr, (ptr_join ..).symm, fun h => absurd h hne, hh,
      Or.inl ⟨hu.joinBlack s p hw, rfl⟩⟩

theorem case_four_inv {c₁ : Color} (hT : Holds T (plug ctx (join s c u p (join s .black w₁ w (join s .red v₁ v v₂)))))
    (hx : u = .nil → T.parent T.nil = p.addr) (hh : Above ctx c n) (hu : Balanced u .black n)
    (hw₁ : Balanced w₁ c₁ n) (hv₁ : Balanced v₁ .black n) (hv₂ : Balanced v₂ .black n) :
    let T₁ := T.setColor w.addr (T.color (T.parent (ptr T.nil u)))
    let T₂ := T₁.setColor (T₁.parent (ptr T.nil u)) BLACK
    let T₃ := T₂.setColor (T₂.child w.addr s.other) BLACK
    DeleteInv T (plug ctx (join s c u p (join s .black w₁ w (join s .red v₁ v v₂)))) 0
      (rotate s T₃ (T₃.parent (ptr T.nil u)), (rotate s T₃ (T₃.parent (ptr T.nil u))).root) := by
  intro T₁ T₂ T₃
  obtain ⟨m, hm⟩ := hh.plug (s := s) (p := w) (hu.joinBlack s p hw₁) (hv₁.joinBlack s v hv₂)
  apply deleteInv_root (case_four hT hx) hm
  obtain ⟨_, _, _, _, he⟩ := plug_join_eq_node ctx s c (join s .black u p w₁) w (join s .black v₁ v v₂)
  rw [he]
  exact nofun

theorem DeleteInv.trans {T' : RbTree} {t t' : ColorTree Cell} {k : Nat} {st : RbTree × Addr} (hr : Reshapes T t T' t')
    (h : DeleteInv T' t' k st) : DeleteInv T t k st := by
  obtain ⟨ctx, u, n, hr', h⟩ := h
  exact ⟨ctx, u, n, hr.trans hr', h⟩

theorem byte_eq_black {c : Color} : byte c = BLACK ↔ c = .black := by
  cases c <;> decide

theorem both_sides {P : Side → Prop} (s : Side) : P .left ∧ P .right ↔ P s ∧ P s.other := by
  cases s
  · exact Iff.rfl
  · exact and_comm

theorem deleteFixupBlack_inv {c₁ c₂ : Color} (hT : Holds T (plug ctx (join s c u p (join s .black w₁ w w₂))))
    (hx : u = .nil → T.parent T.nil = p.addr) (hh : Above ctx c n) (hu : Balanced u .black n)
    (hw₁ : Balanced w₁ c₁ n) (hw₂ : Balanced w₂ c₂ n) :
    ∃ k, (k = 0 ∨ c = .black ∧ k = ctx.length) ∧
      DeleteInv T (plug ctx (join s c u p (join s .black w₁ w w₂))) k
        (deleteFixupBlack s T (ptr T.nil u) w.addr) := by
  obtain ⟨hc₁, hc₂⟩ := colors_eq hT
  rw [hw₁.color_eq] at hc₁
  rw [hw₂.color_eq] at hc₂
  have htest : (T.color (T.child w.addr .left) = BLACK ∧ T.color (T.child w.addr .right) = BLACK) ↔
      c₁ = .black ∧ c₂ = .black := by
    rw [both_sides s (P := fun s => T.color (T.child w.addr s) = BLACK), hc₁, hc₂, byte_eq_black, byte_eq_black]
  unfold deleteFixupBlack
  by_cases hboth : c₁ = .black ∧ c₂ = .black
  · rw [if_pos (htest.mpr hboth)]
    obtain ⟨rfl, rfl⟩ := hboth
    rw [parent_after hT hx (.refl hT)]
    exact case_two_inv hT hh hu hw₁ hw₂
  · rw [if_neg (htest.not.mpr hboth), hc₂]
    cases c₂ with
    | black =>
        have hred : c₁ = .red := by cases c₁ <;> simp_all
        subst hred
        obtain ⟨v₁, v, v₂, rfl, hv₁, hv₂⟩ := hw₁.red_cases s
        obtain ⟨hr, hw⟩ := case_three hT hx
        rw [if_pos (by rfl)]
        dsimp only
        rw [hw]
        have h := case_four_inv hr.holds (fun h => (parent_nil hT hr).trans (hx h)) hh hu hv₁ hv₂ hw₂
        rw [hr.nil] at h
        exact ⟨0, Or.inl rfl, .trans hr h⟩
    | red =>
        obtain ⟨v₁, v, v₂, rfl, hv₁, hv₂⟩ := hw₂.red_cases s
        rw [if_neg (by decide)]
        exact ⟨0, Or.inl rfl, case_four_inv hT hx hh hu hw₁ hv₁ hv₂⟩

theorem deleteFixupCase_black {c₁ c₂ : Color} (hT : Holds T (plug ctx (join s c u p (join s .black w₁ w w₂))))
    (hx : u = .nil → T.parent T.nil = p.addr) (hh : Above ctx c n) (hu : Balanced u .black n)
    (hw₁ : Balanced w₁ c₁ n) (hw₂ : Balanced w₂ c₂ n) :
    ∃ k < ctx.length + 1, DeleteInv T (plug ctx (join s c u p (join s .black w₁ w w₂))) k
      (deleteFixupCase s T (ptr T.nil u)) := by
  obtain ⟨k, hk, hinv⟩ := deleteFixupBlack_inv hT hx hh hu hw₁ hw₂
  refine ⟨k, by omega, ?_⟩
  have hw := hT
  rw [← plug_far] at hw
  rw [deleteFixupCase, parent_after hT hx (.refl hT), far_eq hT, ptr_join, color_eq hw, if_neg (by decide)]
  exact hinv

theorem deleteFixupCase_red (hT : Holds T (plug ctx (join s .black u p (join s .red w₁ w w₂))))
    (hx : u = .nil → T.parent T.nil = p.addr) (hh : Hole ctx .black (n + 2)) (hu : Balanced u .black n)
    (hw₁ : Balanced w₁ .black (n + 1)) (hw₂ : Balanced w₂ .black (n + 1)) :
    ∃ k < ctx.length + 1, DeleteInv T (plug ctx (join s .black u p (join s .red w₁ w w₂))) k
      (deleteFixupCase s T (ptr T.nil u)) := by
  obtain ⟨hr, hw'⟩ := case_one hT hx
  obtain ⟨v₁, v, v₂, c₁, c₂, rfl, hv₁, hv₂⟩ := hw₁.black_cases s
  have hab : Above (⟨s, .black, w, w₂⟩ :: ctx) .red n := Or.inl ⟨rfl, .black s w _ hw₂ hh⟩
  obtain ⟨k, hk, hinv⟩ := deleteFixupBlack_inv hr.holds (fun h => (parent_nil hT hr).trans (hx h)) hab hu hv₁ hv₂
  have hk0 : k = 0 := by simpa using hk
  refine ⟨k, by omega, .trans hr ?_⟩
  have hw := hT
  rw [← plug_far] at hw
  rw [deleteFixupCase, parent_after hT hx (.refl hT), far_eq hT, ptr_join, color_eq hw, if_pos (by rfl)]
  dsimp only
  rw [hr.nil] at hinv
  rw [ptr_join] at hw'
  rw [hw']
  exact hinv

theorem deleteFixupCase_inv {v : ColorTree Cell} (hT : Holds T (plug (⟨s, c, p, v⟩ :: ctx) u))
    (hx : u = .nil → T.parent T.nil = p.addr) (hh : Hole (⟨s, c, p, v⟩ :: ctx) .black (n + 1))
    (hu : Balanced u .black n) :
    ∃ k < ctx.length + 1, DeleteInv T (plug (⟨s, c, p, v⟩ :: ctx) u) k (deleteFixupCase s T (ptr T.nil u)) := by
  cases hh with
  | red _ _ hv hh =>
      obtain ⟨w₁, w, w₂, c₁, c₂, rfl, hw₁, hw₂⟩ := hv.black_cases s
      exact deleteFixupCase_black hT hx (Or.inl ⟨rfl, hh⟩) hu hw₁ hw₂
  | @black _ _ _ cv _ _ _ hv hh =>
      cases cv with
      | black =>
          obtain ⟨w₁, w, w₂, c₁, c₂, rfl, hw₁, hw₂⟩ := hv.black_cases s
          exact deleteFixupCase_black hT hx (Or.inr ⟨rfl, hh⟩) hu hw₁ hw₂
      | red =>
          obtain ⟨w₁, w, w₂, rfl, hw₁, hw₂⟩ := hv.red_cases s
          exact deleteFixupCase_red hT hx hh hu hw₁ hw₂

/-- The side of its parent that `x` hangs on. -/
theorem place_side {v : ColorTree Cell} {m : Nat} (hT : Holds T (plug (⟨s, c, p, v⟩ :: ctx) u))
    (hv : Balanced v d (m + 1)) : (if ptr T.nil u = T.child p.addr .left then Side.left else Side.right) = s := by
  have hne : ptr T.nil v ≠ ptr T.nil u := by
    cases u with
    | nil =>
        cases v with
        | nil => cases hv
        | node d l b r =>
            have hb : b ∈ cells (⟨s, c, p, .node d l b r⟩ :: ctx) := by simp [cells, ColorTree.toList]
            exact fun h => hT.nilFresh (List.mem_map.mpr ⟨b, mem_plug.mpr (Or.inr hb), h⟩)
    | node e l a r => exact sibling_ne (s := .left) hT
  exact side_of_frame .left ((rep_plug _ _).mp hT.rep).1 hne

theorem deleteFixupBody_eq {v : ColorTree Cell} {m : Nat} (hT : Holds T (plug (⟨s, c, p, v⟩ :: ctx) u))
    (hx : u = .nil → T.parent T.nil = p.addr) (hv : Balanced v d (m + 1)) :
    deleteFixupBody (T, ptr T.nil u) = deleteFixupCase s T (ptr T.nil u) := by
  rw [deleteFixupBody, parent_after hT hx (.refl hT), ← place_side hT hv]
  split <;> rfl

/-- As long as the loop goes on, `x` has a parent. -/
theorem deleteInv_below {T₀ : RbTree} {t₀ : ColorTree Cell} {k : Nat} {st : RbTree × Addr} (hinv : DeleteInv T₀ t₀ k st)
    (hcond : (st.2 != st.1.root && st.1.color st.2 == BLACK) = true) :
    ∃ s c p v ctx u n, st.2 = ptr st.1.nil u ∧ Reshapes T₀ t₀ st.1 (plug (⟨s, c, p, v⟩ :: ctx) u) ∧
      (u = .nil → st.1.parent st.1.nil = p.addr) ∧ Hole (⟨s, c, p, v⟩ :: ctx) .black (n + 1) ∧ Balanced u .black n ∧
      k = ctx.length + 1 := by
  obtain ⟨T, x⟩ := st
  obtain ⟨ctx, u, n, hT, hz, hx, hh, hu⟩ := hinv
  dsimp only at hz hT hx
  subst hz
  simp only [Bool.and_eq_true, bne_iff_ne, beq_iff_eq] at hcond
  rcases hu with ⟨hu, rfl⟩ | ⟨⟨l, a, r, cl, cr, rfl, hl, hr⟩, rfl⟩
  · cases ctx with
    | nil => exact absurd hT.holds.root.symm hcond.1
    | cons f ctx => exact ⟨f.side, f.color, f.item, f.sibling, ctx, u, n, rfl, hT, hx, hh, hu, rfl⟩
  · have ha : Holds T (plug ctx (join .left .red l a r)) := hT.holds
    exact absurd ((color_eq ha).symm.trans hcond.2) (by decide)

theorem deleteFixup_step {T₀ : RbTree} {t₀ : ColorTree Cell} (k : Nat) (st : RbTree × Addr)
    (hinv : DeleteInv T₀ t₀ k st) (hcond : (st.2 != st.1.root && st.1.color st.2 == BLACK) = true) :
    ∃ m, m < k ∧ DeleteInv T₀ t₀ m (deleteFixupBody st) := by
  obtain ⟨T, x⟩ := st
  obtain ⟨s, c, p, v, ctx, u, n, hz, hT, hx, hh, hu, rfl⟩ := deleteInv_below hinv hcond
  dsimp only at hz hT hx
  subst hz
  obtain ⟨d, hv⟩ := hh.sibling
  obtain ⟨k, hk, hinv⟩ := deleteFixupCase_inv hT.holds hx hh hu
  rw [deleteFixupBody_eq hT.holds hx hv]
  exact ⟨k, hk, .trans hT hinv⟩

theorem deleteFixup_exit {T₀ : RbTree} {t₀ : ColorTree Cell} {k : Nat} {st : RbTree × Addr}
    (hinv : DeleteInv T₀ t₀ k st) (hcond : (st.2 != st.1.root && st.1.color st.2 == BLACK) = false) :
    ∃ t m, Reshapes T₀ t₀ (st.1.setColor st.2 BLACK) t ∧ Balanced t .black m := by
  obtain ⟨T, x⟩ := st
  obtain ⟨ctx, u, n, hT, hz, hx, hh, hu⟩ := hinv
  dsimp only at hz hT hx
  subst hz
  rcases hu with ⟨hu, rfl⟩ | ⟨⟨l, a, r, cl, cr, rfl, hl, hr⟩, rfl⟩
  · have hcol : T.color (ptr T.nil u) = BLACK := by rw [color_ptr hT.holds, hu.color_eq]; rfl
    cases ctx with
    | nil =>
        dsimp only
        rw [setColor_self hcol]
        exact ⟨u, n, hT, hu⟩
    | cons f ctx => simp [root_ne hT.holds, hcol] at hcond
  · obtain ⟨m, hm⟩ := hh.plug (.black a hl hr)
    have ha : Holds T (plug ctx (join .left .red l a r)) := hT.holds
    exact ⟨_, m, hT.trans (recolor (d := .black) ha), hm⟩

theorem deleteInv_init (hT : Holds T (plug ctx u)) (hx : u = .nil → T.parent T.nil = top T.nil ctx)
    (hu : Balanced u c n) (hh : Hole ctx .black (n + 1)) :
    ∃ k ≤ ctx.length, DeleteInv T (plug ctx u) k (T, ptr T.nil u) := by
  cases c with
  | black => exact ⟨_, le_rfl, ctx, u, n, .refl hT, rfl, hx, hh, Or.inl ⟨hu, rfl⟩⟩
  | red =>
      obtain ⟨l, a, r, rfl, hl, hr⟩ := hu.red_cases .left
      exact ⟨0, Nat.zero_le _, ctx, _, n, .refl hT, rfl, hx, hh, Or.inr ⟨⟨l, a, r, _, _, rfl, hl, hr⟩, rfl⟩⟩

/-- `x` may be nil, with the place it stands at as its parent. -/
theorem rbtreeDeleteFixup_spec (hT : Holds T (plug ctx u)) (hx : u = .nil → T.parent T.nil = top T.nil ctx)
    (hu : Balanced u c n) (hh : Hole ctx .black (n + 1)) :
    ∃ T' t' m, rbtreeDeleteFixup T (ptr T.nil u) = some T' ∧ Reshapes T (plug ctx u) T' t' ∧
      Balanced t' .black m := by
  obtain ⟨k, hk, hinit⟩ := deleteInv_init hT hx hu hh
  have hfuel : k ≤ T.fuel := by
    have h₁ := length_lt_plug ctx u
    have h₂ := hT.length_lt
    unfold RbTree.fuel
    omega
  obtain ⟨k, st, hloop, hinv, hexit⟩ := whileLoop_spec (DeleteInv T (plug ctx u)) deleteFixup_step hinit hfuel
  obtain ⟨t, m, hr, hb⟩ := deleteFixup_exit hinv hexit
  exact ⟨_, t, m, by rw [rbtreeDeleteFixup, hloop]; rfl, hr, hb⟩

end GameAccelerator.RbDeleteFixup
