import GameAccelerator.RbContents

namespace GameAccelerator.RbInvariant

open CString Platform RedBlack RbEngine RbShape RbFocus RbDescent RbUpdate RbContents

/-- The nodes reachable from the root by child pointers. -/
inductive Reach (T : RbTree) : Addr → Prop
  | root : T.root ≠ T.nil → Reach T T.root
  | child {p : Addr} (s : Side) : Reach T p → T.child p s ≠ T.nil → Reach T (T.child p s)

/-- `l` is the in-order walk below `p`. -/
inductive InOrder (T : RbTree) : Addr → List Addr → Prop
  | nil : InOrder T T.nil []
  | node {p : Addr} {l r : List Addr} : p ≠ T.nil → InOrder T (T.child p .left) l → InOrder T (T.child p .right) r →
      InOrder T p (l ++ p :: r)

/-- Some way from `p` down to nil passes `n` black nodes. -/
inductive BlackPath (T : RbTree) : Addr → Nat → Prop
  | nil : BlackPath T T.nil 0
  | step {p : Addr} {n : Nat} (s : Side) : p ≠ T.nil → BlackPath T (T.child p s) n →
      BlackPath T p (if T.color p = BLACK then n + 1 else n)

structure Invariant (T : RbTree) : Prop where
  ordered : ∃ l, InOrder T T.root l ∧ l.Pairwise fun p q => strcmp (T.node p).key.text (T.node q).key.text < 0
  rootBlack : T.color T.root = BLACK
  nilBlack : T.color T.nil = BLACK
  coloured : ∀ p, Reach T p → T.color p = RED ∨ T.color p = BLACK
  noRedRed : ∀ p s, Reach T p → T.color p = RED → T.color (T.child p s) ≠ RED
  blackHeight : ∀ p m n, Reach T p → BlackPath T p m → BlackPath T p n → m = n
  parents : ∀ p s, Reach T p → T.child p s ≠ T.nil → T.parent (T.child p s) = p
  rootParent : T.root ≠ T.nil → T.parent T.root = T.nil

variable {T : RbTree} {t : ColorTree Cell} {p : Addr}

theorem child_focus {ctx : List (Frame Cell)} {c : Color} {l r : ColorTree Cell} {a : Cell}
    (hT : Holds T (plug ctx (.node c l a r))) (s : Side) :
    ∃ u v, ColorTree.node c l a r = join s c u a v ∧ T.child a.addr s = ptr T.nil u := by
  have ha : Holds T (plug ctx (join .left c l a r)) := hT
  cases s with
  | left => exact ⟨l, r, rfl, near_eq ha⟩
  | right => exact ⟨r, l, rfl, far_eq ha⟩

theorem reach_focus (hT : Holds T t) (hp : Reach T p) : ∃ ctx c l a r, t = plug ctx (.node c l a r) ∧ p = a.addr := by
  induction hp with
  | root hne =>
      rw [hT.root] at hne ⊢
      cases t with
      | nil => exact absurd rfl hne
      | node c l a r => exact ⟨[], c, l, a, r, rfl, rfl⟩
  | child s _ hne ih =>
      obtain ⟨ctx, c, l, a, r, rfl, rfl⟩ := ih
      obtain ⟨u, v, he, hu⟩ := child_focus hT s
      rw [hu] at hne ⊢
      cases u with
      | nil => exact absurd rfl hne
      | node d l' b r' => exact ⟨⟨s, c, a, v⟩ :: ctx, d, l', b, r', by rw [he]; rfl, rfl⟩

theorem inOrder_focus {ctx : List (Frame Cell)} (hT : Holds T (plug ctx t)) :
    InOrder T (ptr T.nil t) (t.toList.map Cell.addr) := by
  induction t generalizing ctx with
  | nil => exact .nil
  | node c l a r ihl ihr =>
      have ha : Holds T (plug ctx (join .left c l a r)) := hT
      rw [ColorTree.toList, List.map_append, List.map_cons, ptr]
      refine .node (ne_nil ha) ?_ ?_
      · rw [near_eq ha]
        exact ihl (show Holds T (plug (⟨.left, c, a, r⟩ :: ctx) l) from hT)
      · rw [show T.child a.addr .right = _ from far_eq ha]
        exact ihr (show Holds T (plug (⟨.right, c, a, l⟩ :: ctx) r) from hT)

theorem blackPath_node {ctx : List (Frame Cell)} {c : Color} {l r : ColorTree Cell} {a : Cell} {m : Nat}
    (hT : Holds T (plug ctx (.node c l a r))) (hp : BlackPath T a.addr m) :
    ∃ n, (BlackPath T (ptr T.nil l) n ∨ BlackPath T (ptr T.nil r) n) ∧ m = if c = .black then n + 1 else n := by
  have ha : Holds T (plug ctx (join .left c l a r)) := hT
  generalize hq : a.addr = q at hp
  cases hp with
  | nil => exact absurd hq (ne_nil ha)
  | @step _ n s _ hp =>
      subst hq
      refine ⟨n, ?_, ?_⟩
      · cases s with
        | left => exact Or.inl (near_eq ha ▸ hp)
        | right => exact Or.inr ((show T.child a.addr .right = _ from far_eq ha) ▸ hp)
      · rw [color_eq ha]
        cases c <;> rfl

theorem blackPath_focus {ctx : List (Frame Cell)} {c : Color} {m n : Nat} (hT : Holds T (plug ctx t))
    (ht : Balanced t c n) (hp : BlackPath T (ptr T.nil t) m) : m = n := by
  induction ht generalizing ctx m with
  | nil =>
      generalize hq : ptr T.nil .nil = q at hp
      cases hp with
      | nil => rfl
      | step _ hne _ => exact absurd hq.symm hne
  | @red l r n a _ _ ihl ihr =>
      obtain ⟨k, hk, rfl⟩ := blackPath_node hT hp
      rcases hk with hk | hk
      · exact ihl (show Holds T (plug (⟨.left, .red, a, r⟩ :: ctx) l) from hT) hk
      · exact ihr (show Holds T (plug (⟨.right, .red, a, l⟩ :: ctx) r) from hT) hk
  | @black l r n _ _ a _ _ ihl ihr =>
      obtain ⟨k, hk, rfl⟩ := blackPath_node hT hp
      rcases hk with hk | hk
      · exact congrArg (· + 1) (ihl (show Holds T (plug (⟨.left, .black, a, r⟩ :: ctx) l) from hT) hk)
      · exact congrArg (· + 1) (ihr (show Holds T (plug (⟨.right, .black, a, l⟩ :: ctx) r) from hT) hk)

theorem entry_of_mem {h : Addr → RbNode} {nil : Addr} (ht : Rep h nil t p) {a : Cell} (ha : a ∈ t.toList) :
    (h a.addr).key = a.key ∧ (h a.addr).value = a.value := by
  induction t generalizing p with
  | nil => exact absurd ha List.not_mem_nil
  | node c l b r ihl ihr =>
      rw [ColorTree.toList, List.mem_append, List.mem_cons] at ha
      rcases ha with ha | rfl | ha
      · exact ihl ht.2.1 ha
      · rw [ht.1]
        exact ⟨rfl, rfl⟩
      · exact ihr ht.2.2 ha

theorem invariant_of_valid (hT : Valid T t) : Invariant T where
  ordered := by
    refine ⟨t.toList.map Cell.addr, hT.holds.root ▸ inOrder_focus (show Holds T (plug [] t) from hT.holds), ?_⟩
    rw [List.pairwise_map]
    refine hT.ordered.imp_of_mem fun ha hb h => ?_
    rw [(entry_of_mem hT.holds.rep ha).1, (entry_of_mem hT.holds.rep hb).1]
    exact strcmp_neg.mpr h
  rootBlack := by
    obtain ⟨m, hm⟩ := hT.balanced
    rw [hT.holds.root, color_ptr (show Holds T (plug [] t) from hT.holds), hm.color_eq]
    rfl
  nilBlack := hT.holds.nilBlack
  coloured p hp := by
    obtain ⟨ctx, c, l, a, r, rfl, rfl⟩ := reach_focus hT.holds hp
    rw [color_eq (show Holds T (plug ctx (join .left c l a r)) from hT.holds)]
    cases c
    · exact Or.inl rfl
    · exact Or.inr rfl
  noRedRed p s hp hred := by
    obtain ⟨ctx, c, l, a, r, rfl, rfl⟩ := reach_focus hT.holds hp
    obtain ⟨k, hk⟩ := hT.balanced
    obtain ⟨u, v, he, hu⟩ := child_focus hT.holds s
    have hj : Holds T (plug ctx (join s c u a v)) := he ▸ hT.holds
    have hc : c = .red := by
      rw [color_eq hj] at hred
      cases c
      · rfl
      · exact absurd hred (by decide)
    subst hc
    obtain ⟨d, j, hb, -⟩ := hk.hole
    rw [he] at hb
    rw [hu, color_ptr (show Holds T (plug (⟨s, .red, a, v⟩ :: ctx) u) from hj), hb.of_joinRed.2.1.color_eq]
    decide
  blackHeight p m n hp hm hn := by
    obtain ⟨ctx, c, l, a, r, rfl, rfl⟩ := reach_focus hT.holds hp
    obtain ⟨k, hk⟩ := hT.balanced
    obtain ⟨d, j, hj, -⟩ := hk.hole
    exact (blackPath_focus hT.holds hj hm).trans (blackPath_focus hT.holds hj hn).symm
  parents p s hp hne := by
    obtain ⟨ctx, c, l, a, r, rfl, rfl⟩ := reach_focus hT.holds hp
    obtain ⟨u, v, he, hu⟩ := child_focus hT.holds s
    have hj : Holds T (plug (⟨s, c, a, v⟩ :: ctx) u) := (he ▸ hT.holds : Holds T (plug ctx (join s c u a v)))
    rw [hu] at hne ⊢
    cases u with
    | nil => exact absurd rfl hne
    | node d l' b r' => exact parent_eq (s := .left) hj
  rootParent hne := by
    rw [hT.holds.root] at hne ⊢
    cases t with
    | nil => exact absurd rfl hne
    | node c l a r => exact parent_eq (show Holds T (plug [] (join .left c l a r)) from hT.holds)

theorem rbtree_invariant_of_run (mem : Addr → RbNode) (ops : List RbOp) :
    ∃ rets T, run (kvstoreRbtreeCreate mem) ops = some (rets, T) ∧ Invariant T := by
  obtain ⟨T, hrun, t, hT, -⟩ := run_stores (create_stores mem) ops
  exact ⟨_, T, hrun, invariant_of_valid hT⟩

end GameAccelerator.RbInvariant
