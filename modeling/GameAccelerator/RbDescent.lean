import GameAccelerator.RbFocus

namespace GameAccelerator.RbDescent

open CString Platform RedBlack WhileLoop RbEngine RbShape RbFocus

def Ordered (l : List Cell) : Prop := l.Pairwise fun a b => a.key.text < b.key.text

/-- The hole of the context is the place for `key`. -/
def Bounds (ctx : List (Frame Cell)) (key : CStr) : Prop :=
  (∀ a ∈ before ctx, a.key.text < key) ∧ ∀ a ∈ behind ctx, key < a.key.text

variable {T : RbTree} {t : ColorTree Cell} {key : CStr}

theorem turn_cases (T : RbTree) (key : CStr) (x : Addr) :
    (turn T key x = some .left ∧ key < (T.node x).key.text) ∨
      (turn T key x = some .right ∧ (T.node x).key.text < key) ∨
      (turn T key x = none ∧ (T.node x).key.text = key) := by
  rcases lt_trichotomy key (T.node x).key.text with h | h | h
  · exact Or.inl ⟨by rw [turn, if_pos (strcmp_neg.mpr h)], h⟩
  · refine Or.inr (Or.inr ⟨?_, h.symm⟩)
    have h0 : strcmp key (T.node x).key.text = 0 := strcmp_eq_zero.mpr h
    rw [turn, h0, if_neg (by decide), if_neg (by decide)]
  · have hpos := strcmp_pos.mpr h
    exact Or.inr (Or.inl ⟨by rw [turn, if_neg (by omega), if_pos hpos], h⟩)

def DescentInv (T : RbTree) (t : ColorTree Cell) (key : CStr) (k : Nat) (st : Addr × Addr) : Prop :=
  ∃ ctx u, t = plug ctx u ∧ st = (top T.nil ctx, ptr T.nil u) ∧ Bounds ctx key ∧ k = u.toList.length

theorem descent_step (hT : Holds T t) (ho : Ordered t.toList) (k : Nat) (st : Addr × Addr)
    (hinv : DescentInv T t key k st) (hcond : (st.2 != T.nil && (turn T key st.2).isSome) = true) :
    ∃ m, m < k ∧ DescentInv T t key m
      (st.2, match turn T key st.2 with | some d => T.child st.2 d | none => st.2) := by
  obtain ⟨ctx, u, rfl, rfl, hb, rfl⟩ := hinv
  simp only [Bool.and_eq_true, bne_iff_ne] at hcond
  cases u with
  | nil => exact absurd rfl hcond.1
  | node c l a r =>
      have ha : Holds T (plug ctx (join .left c l a r)) := hT
      have hkey : (T.node a.addr).key = a.key := by rw [holds_node ha]; rfl
      have hside := List.Pairwise.sublist (sublist_plug ctx (.node c l a r)) ho
      rw [ColorTree.toList, List.pairwise_append, List.pairwise_cons] at hside
      dsimp only [ptr] at hcond ⊢
      rcases turn_cases T key a.addr with ⟨ht, hlt⟩ | ⟨ht, hlt⟩ | ⟨ht, _⟩
      · rw [hkey] at hlt
        refine ⟨l.toList.length, by simp [ColorTree.toList], ⟨.left, c, a, r⟩ :: ctx, l, rfl, ?_, ⟨?_, ?_⟩, rfl⟩
        · rw [ht]
          exact congrArg _ (near_eq ha)
        · simpa [before] using hb.1
        · intro b hbm
          simp only [behind, List.cons_append, List.mem_cons, List.mem_append] at hbm
          rcases hbm with rfl | hbm | hbm
          · exact hlt
          · exact hlt.trans (hside.2.1.1 b hbm)
          · exact hb.2 b hbm
      · rw [hkey] at hlt
        refine ⟨r.toList.length, by simp [ColorTree.toList]; omega, ⟨.right, c, a, l⟩ :: ctx, r, rfl, ?_, ⟨?_, ?_⟩, rfl⟩
        · rw [ht]
          exact congrArg _ (far_eq ha)
        · intro b hbm
          simp only [before, List.mem_cons, List.mem_append, List.not_mem_nil, or_false] at hbm
          rcases hbm with hbm | hbm | rfl
          · exact hb.1 b hbm
          · exact (hside.2.2 b hbm a (by simp)).trans hlt
          · exact hlt
        · simpa [behind] using hb.2
      · simp [ht] at hcond

/-- The descent ends at the node with the key, or at nil in the place for it. -/
theorem insertDescent_spec (hT : Holds T t) (ho : Ordered t.toList) (key : CStr) :
    ∃ ctx u, t = plug ctx u ∧ insertDescent T key = some (top T.nil ctx, ptr T.nil u) ∧ Bounds ctx key ∧
      (u = .nil ∨ ∃ c l a r, u = .node c l a r ∧ a.key.text = key) := by
  have hinit : DescentInv T t key t.toList.length (T.nil, T.root) :=
    ⟨[], t, rfl, by rw [hT.root]; rfl, ⟨by simp [before], by simp [behind]⟩, rfl⟩
  obtain ⟨k, st, hloop, ⟨ctx, u, rfl, rfl, hb, -⟩, hexit⟩ :=
    whileLoop_spec (DescentInv T t key) (descent_step hT ho) hinit (Nat.le_of_lt hT.length_lt)
  refine ⟨ctx, u, rfl, hloop, hb, ?_⟩
  cases u with
  | nil => exact Or.inl rfl
  | node c l a r =>
      refine Or.inr ⟨c, l, a, r, rfl, ?_⟩
      have ha : Holds T (plug ctx (join .left c l a r)) := hT
      have hkey : (T.node a.addr).key = a.key := by rw [holds_node ha]; rfl
      rcases turn_cases T key a.addr with ⟨ht, _⟩ | ⟨ht, _⟩ | ⟨_, h⟩
      · simp [ptr, ht, ne_nil ha] at hexit
      · simp [ptr, ht, ne_nil ha] at hexit
      · rw [← hkey]
        exact h

theorem rbtreeSearch_eq (T : RbTree) (key : CStr) :
    rbtreeSearch T key = (insertDescent T key).map Prod.snd :=
  whileLoop_map Prod.snd (fun _ => rfl) (fun _ => rfl) T.fuel (T.nil, T.root)

theorem ptr_eq_nil {ctx : List (Frame Cell)} {u : ColorTree Cell} (hT : Holds T (plug ctx u)) :
    ptr T.nil u = T.nil ↔ u = .nil := by
  cases u with
  | nil => simp
  | node c l a r =>
      have ha : Holds T (plug ctx (join .left c l a r)) := hT
      simp [ptr, ne_nil ha]

def MiniInv (T : RbTree) (ctx : List (Frame Cell)) (t : ColorTree Cell) (k : Nat) (x : Addr) : Prop :=
  ∃ ctx' c l a r, t = plug ctx' (.node c l a r) ∧ before ctx' = [] ∧ x = a.addr ∧
    Holds T (plug (⟨.left, c, a, r⟩ :: (ctx' ++ ctx)) l) ∧ k = l.toList.length

theorem mini_step {ctx : List (Frame Cell)} (k : Nat) (x : Addr) (hinv : MiniInv T ctx t k x)
    (hcond : (T.child x .left != T.nil) = true) : ∃ m, m < k ∧ MiniInv T ctx t m (T.child x .left) := by
  obtain ⟨ctx', c, l, a, r, rfl, hbef, rfl, hT, rfl⟩ := hinv
  have ha : Holds T (plug (ctx' ++ ctx) (join .left c l a r)) := hT
  rw [near_eq ha, bne_iff_ne] at *
  cases l with
  | nil => exact absurd rfl hcond
  | node d l' b r' =>
      refine ⟨l'.toList.length, by simp [ColorTree.toList], ⟨.left, c, a, r⟩ :: ctx', d, l', b, r', rfl, ?_, rfl, hT, rfl⟩
      simp [before, hbef]

theorem rbtreeMini_spec {ctx : List (Frame Cell)} {c : Color} {l r : ColorTree Cell} {a : Cell}
    (hT : Holds T (plug ctx (.node c l a r))) :
    ∃ ctx' d b v, .node c l a r = plug ctx' (.node d .nil b v) ∧ before ctx' = [] ∧
      rbtreeMini T a.addr = some b.addr := by
  have hinit : MiniInv T ctx (.node c l a r) l.toList.length a.addr := ⟨[], c, l, a, r, rfl, rfl, rfl, hT, rfl⟩
  have hfuel : l.toList.length ≤ T.fuel := by
    have h₁ := (sublist_plug ctx (.node c l a r)).length_le
    have h₂ := hT.length_lt
    simp only [ColorTree.toList, List.length_append] at h₁
    unfold RbTree.fuel
    omega
  obtain ⟨k, x, hloop, ⟨ctx', d, u, b, v, he, hbef, rfl, hT', -⟩, hexit⟩ :=
    whileLoop_spec (MiniInv T ctx (.node c l a r)) mini_step hinit hfuel
  have hb : Holds T (plug (ctx' ++ ctx) (join .left d u b v)) := hT'
  rw [near_eq hb, bne_eq_false_iff_eq, ptr_eq_nil hT'] at hexit
  subst hexit
  exact ⟨ctx', d, b, v, he, hbef, hloop⟩

theorem rbtreeSuccessor_spec {ctx : List (Frame Cell)} {c : Color} {l r : ColorTree Cell} {a : Cell}
    (hT : Holds T (plug ctx (.node c l a r))) (hr : r ≠ .nil) :
    ∃ ctx' d b v, r = plug ctx' (.node d .nil b v) ∧ before ctx' = [] ∧
      rbtreeSuccessor T a.addr = some b.addr := by
  have ha : Holds T (plug ctx (join .left c l a r)) := hT
  have hright : T.child a.addr .right = ptr T.nil r := far_eq ha
  cases r with
  | nil => exact absurd rfl hr
  | node d l' b r' =>
      have hb : Holds T (plug (⟨.right, c, a, l⟩ :: ctx) (.node d l' b r')) := hT
      obtain ⟨ctx', e, m, v, he, hbef, hmin⟩ := rbtreeMini_spec hb
      refine ⟨ctx', e, m, v, he, hbef, ?_⟩
      have hne : ptr T.nil (.node d l' b r') ≠ T.nil := fun h => hr ((ptr_eq_nil hb).mp h)
      rw [rbtreeSuccessor, hright, if_pos hne]
      exact hmin

end GameAccelerator.RbDescent
