import GameAccelerator.RbEngine
import Mathlib.Data.List.Perm.Subperm

namespace GameAccelerator.RbShape

open CString Platform RedBlack RbEngine

/-- A node of the abstract tree knows its address and its two pointers. -/
structure Cell where
  addr : Addr
  key : Str
  value : Option Str

def byte : Color → UInt8
  | .red => RED
  | .black => BLACK

def ptr (nil : Addr) : ColorTree Cell → Addr
  | .nil => nil
  | .node _ _ a _ => a.addr

def mkNode (s : Side) (c : Color) (a : Cell) (near far parent : Addr) : RbNode :=
  match s with
  | .left => ⟨byte c, far, near, parent, a.key, a.value⟩
  | .right => ⟨byte c, near, far, parent, a.key, a.value⟩

/-- The memory holds the tree, its root below the given parent. -/
def Rep (h : Addr → RbNode) (nil : Addr) : ColorTree Cell → Addr → Prop
  | .nil, _ => True
  | .node c l a r, p =>
      h a.addr = mkNode .left c a (ptr nil l) (ptr nil r) p ∧ Rep h nil l a.addr ∧ Rep h nil r a.addr

def top (nil : Addr) : List (Frame Cell) → Addr
  | [] => nil
  | f :: _ => f.item.addr

def RepCtx (h : Addr → RbNode) (nil : Addr) : List (Frame Cell) → Addr → Prop
  | [], _ => True
  | f :: ctx, p =>
      h f.item.addr = mkNode f.side f.color f.item p (ptr nil f.sibling) (top nil ctx) ∧
        Rep h nil f.sibling f.item.addr ∧ RepCtx h nil ctx f.item.addr

structure Holds (T : RbTree) (t : ColorTree Cell) : Prop where
  root : T.root = ptr T.nil t
  rep : Rep T.node T.nil t T.nil
  nodup : (t.toList.map Cell.addr).Nodup
  nilFresh : T.nil ∉ t.toList.map Cell.addr
  nilBlack : T.color T.nil = BLACK
  below : ∀ a ∈ t.toList, a.addr < T.next
  nilBelow : T.nil < T.next

/-- `T'` holds the same cells as `T` in the same order under another shape or
colouring, and nothing else has changed. -/
structure Reshapes (T : RbTree) (t : ColorTree Cell) (T' : RbTree) (t' : ColorTree Cell) : Prop where
  holds : Holds T' t'
  toList : t'.toList = t.toList
  rest : T' = { T with root := T'.root, node := T'.node }
  frame : ∀ q, q ∉ t.toList.map Cell.addr → T'.node q = T.node q

theorem rest_trans {T₁ T₂ T₃ : RbTree} (h₁ : T₂ = { T₁ with root := T₂.root, node := T₂.node })
    (h₂ : T₃ = { T₂ with root := T₃.root, node := T₃.node }) :
    T₃ = { T₁ with root := T₃.root, node := T₃.node } := by
  rw [h₂, h₁]

theorem Reshapes.refl {T : RbTree} {t : ColorTree Cell} (hT : Holds T t) : Reshapes T t T t :=
  ⟨hT, rfl, rfl, fun _ _ => rfl⟩

theorem Reshapes.trans {T₁ T₂ T₃ : RbTree} {t₁ t₂ t₃ : ColorTree Cell} (h₁ : Reshapes T₁ t₁ T₂ t₂)
    (h₂ : Reshapes T₂ t₂ T₃ t₃) : Reshapes T₁ t₁ T₃ t₃ := by
  refine ⟨h₂.holds, h₂.toList.trans h₁.toList, rest_trans h₁.rest h₂.rest, fun q hq => ?_⟩
  rw [h₂.frame q (by rwa [h₁.toList]), h₁.frame q hq]

theorem Reshapes.nil {T T' : RbTree} {t t' : ColorTree Cell} (h : Reshapes T t T' t') : T'.nil = T.nil := by
  rw [h.rest]

/-- The nodes of a tree have distinct addresses, and one more is taken by nil. -/
theorem Holds.length_lt {T : RbTree} {t : ColorTree Cell} (hT : Holds T t) : t.toList.length < T.next := by
  have hn : (T.nil :: t.toList.map Cell.addr).Nodup := List.nodup_cons.mpr ⟨hT.nilFresh, hT.nodup⟩
  have hsub : T.nil :: t.toList.map Cell.addr ⊆ List.range T.next := by
    intro q hq
    rw [List.mem_range]
    rcases List.mem_cons.mp hq with rfl | hq
    · exact hT.nilBelow
    · obtain ⟨a, ha, rfl⟩ := List.mem_map.mp hq
      exact hT.below a ha
  have hlen := (List.subperm_of_subset hn hsub).length_le
  rwa [List.length_cons, List.length_map, List.length_range] at hlen

variable {h h' : Addr → RbNode} {nil : Addr}

@[simp] theorem ptr_nil : ptr nil .nil = nil := rfl

@[simp] theorem ptr_join (s : Side) (c : Color) (t : ColorTree Cell) (a : Cell) (u : ColorTree Cell) :
    ptr nil (join s c t a u) = a.addr := by
  cases s <;> rfl

theorem mem_join {s : Side} {c : Color} {t u : ColorTree Cell} {a x : Cell} :
    x ∈ (join s c t a u).toList ↔ x = a ∨ x ∈ t.toList ∨ x ∈ u.toList := by
  cases s <;> simp [join, ColorTree.toList] <;> tauto

theorem rep_join (s : Side) (c : Color) (t : ColorTree Cell) (a : Cell) (u : ColorTree Cell) (p : Addr) :
    Rep h nil (join s c t a u) p ↔
      h a.addr = mkNode s c a (ptr nil t) (ptr nil u) p ∧ Rep h nil t a.addr ∧ Rep h nil u a.addr := by
  cases s
  · exact Iff.rfl
  · simp only [join, Rep, mkNode]
    tauto

theorem rep_plug (ctx : List (Frame Cell)) (t : ColorTree Cell) :
    Rep h nil (plug ctx t) nil ↔ RepCtx h nil ctx (ptr nil t) ∧ Rep h nil t (top nil ctx) := by
  induction ctx generalizing t with
  | nil => simp [plug, RepCtx, top]
  | cons f ctx ih =>
      rw [plug, ih, Frame.fill, rep_join, ptr_join]
      simp only [RepCtx, top]
      tauto

theorem ptr_plug_cons (f : Frame Cell) (ctx : List (Frame Cell)) (t u : ColorTree Cell) :
    ptr nil (plug (f :: ctx) t) = ptr nil (plug (f :: ctx) u) := by
  induction ctx generalizing f t u with
  | nil => simp [plug, Frame.fill]
  | cons g ctx ih => exact ih g _ _

theorem ptr_cases (nil : Addr) (t : ColorTree Cell) :
    ptr nil t = nil ∨ ∃ a ∈ t.toList, a.addr = ptr nil t := by
  cases t with
  | nil => exact Or.inl rfl
  | node c l a r => exact Or.inr ⟨a, by simp [ColorTree.toList], rfl⟩

theorem Rep.congr {t : ColorTree Cell} {p : Addr} (ht : Rep h nil t p)
    (hh : ∀ a ∈ t.toList, h' a.addr = h a.addr) : Rep h' nil t p := by
  induction t generalizing p with
  | nil => trivial
  | node c l a r ihl ihr =>
      obtain ⟨ha, hl, hr⟩ := ht
      refine ⟨?_, ihl hl fun b hb => hh b ?_, ihr hr fun b hb => hh b ?_⟩
      · rw [hh a (by simp [ColorTree.toList]), ha]
      · simp [ColorTree.toList, hb]
      · simp [ColorTree.toList, hb]

/-- The memory below a pointer tells the tree. -/
theorem Rep.unique {t u : ColorTree Cell} {p : Addr} (ht : Rep h nil t p) (hu : Rep h nil u p)
    (hnt : nil ∉ t.toList.map Cell.addr) (hnu : nil ∉ u.toList.map Cell.addr) (hptr : ptr nil t = ptr nil u) :
    t = u := by
  induction t generalizing u p with
  | nil =>
      cases u with
      | nil => rfl
      | node d l' b r' => exact absurd (List.mem_map.mpr ⟨b, by simp [ColorTree.toList], hptr.symm⟩) hnu
  | node c l a r ihl ihr =>
      cases u with
      | nil => exact absurd (List.mem_map.mpr ⟨a, by simp [ColorTree.toList], hptr⟩) hnt
      | node d l' b r' =>
          obtain ⟨ha, hl, hr⟩ := ht
          obtain ⟨hb, hl', hr'⟩ := hu
          have haddr : a.addr = b.addr := hptr
          rw [← haddr] at hb hl' hr'
          obtain ⟨hcolor, hright, hleft, -, hkey, hvalue⟩ := RbNode.mk.inj (ha.symm.trans hb)
          have hc : c = d := by
            cases c <;> cases d <;> first | rfl | exact absurd hcolor (by decide)
          have hab : a = b := by
            cases a
            cases b
            simp_all
          simp only [ColorTree.toList, List.map_append, List.map_cons, List.mem_append, List.mem_cons, not_or] at hnt hnu
          rw [hc, hab, ihl hl hl' hnt.1 hnu.1 hleft, ihr hr hr' hnt.2.2 hnu.2.2 hright]

theorem Holds.unique {T : RbTree} {t u : ColorTree Cell} (ht : Holds T t) (hu : Holds T u) : t = u :=
  ht.rep.unique hu.rep ht.nilFresh hu.nilFresh (ht.root.symm.trans hu.root)

/-- Only the root of a tree knows the parent. -/
theorem Rep.reparent {t : ColorTree Cell} {p q : Addr} (ht : Rep h nil t p)
    (hn : (t.toList.map Cell.addr).Nodup)
    (hroot : ptr nil t ≠ nil → h' (ptr nil t) = { h (ptr nil t) with parent := q })
    (hh : ∀ a ∈ t.toList, a.addr ≠ ptr nil t → h' a.addr = h a.addr)
    (hnil : nil ∉ t.toList.map Cell.addr) : Rep h' nil t q := by
  cases t with
  | nil => trivial
  | node c l a r =>
      obtain ⟨ha, hl, hr⟩ := ht
      simp only [ColorTree.toList, List.map_append, List.map_cons] at hn hnil
      have hne : a.addr ≠ nil := fun he => hnil (by simp [he])
      rw [List.nodup_append, List.nodup_cons] at hn
      refine ⟨?_, hl.congr fun b hb => hh b (by simp [ColorTree.toList, hb]) ?_,
        hr.congr fun b hb => hh b (by simp [ColorTree.toList, hb]) ?_⟩
      · have := hroot hne
        rw [ptr, ha] at this
        rw [this]
        rfl
      · exact fun he => hn.2.2 b.addr (List.mem_map_of_mem hb) a.addr (by simp) he
      · exact fun he => hn.2.1.1 (List.mem_map.mpr ⟨b, hb, he⟩)

def cells : List (Frame Cell) → List Cell
  | [] => []
  | f :: ctx => f.item :: (f.sibling.toList ++ cells ctx)

theorem top_cases (nil : Addr) (ctx : List (Frame Cell)) :
    top nil ctx = nil ∨ ∃ a ∈ cells ctx, a.addr = top nil ctx := by
  cases ctx with
  | nil => exact Or.inl rfl
  | cons f ctx => exact Or.inr ⟨f.item, by simp [cells], rfl⟩

theorem ne_ptr {nil q : Addr} {u : ColorTree Cell} (hq : ∀ e ∈ u.toList, q ≠ e.addr) (hn : ptr nil u ≠ nil) :
    q ≠ ptr nil u := by
  rcases ptr_cases nil u with h | ⟨e, he, h⟩
  · exact absurd h hn
  · rw [← h]
    exact hq e he

theorem ne_top {nil q : Addr} {ctx : List (Frame Cell)} (hq : ∀ e ∈ cells ctx, q ≠ e.addr) (hn : top nil ctx ≠ nil) :
    q ≠ top nil ctx := by
  rcases top_cases nil ctx with h | ⟨e, he, h⟩
  · exact absurd h hn
  · rw [← h]
    exact hq e he

theorem perm_join (s : Side) (c : Color) (t : ColorTree Cell) (a : Cell) (u : ColorTree Cell) :
    (join s c t a u).toList.Perm (a :: (t.toList ++ u.toList)) := by
  cases s
  · exact List.perm_middle
  · exact List.perm_middle.trans (List.perm_append_comm.cons a)

theorem perm_plug (ctx : List (Frame Cell)) (t : ColorTree Cell) :
    (plug ctx t).toList.Perm (t.toList ++ cells ctx) := by
  induction ctx generalizing t with
  | nil => simp [plug, cells]
  | cons f ctx ih =>
      refine (ih _).trans (((perm_join _ _ _ _ _).append_right _).trans ?_)
      rw [cells, List.cons_append, List.append_assoc]
      exact List.perm_middle.symm

theorem mem_plug {ctx : List (Frame Cell)} {t : ColorTree Cell} {a : Cell} :
    a ∈ (plug ctx t).toList ↔ a ∈ t.toList ∨ a ∈ cells ctx := by
  rw [(perm_plug ctx t).mem_iff, List.mem_append]

theorem ptr_plug_mem (nil : Addr) (f : Frame Cell) (ctx : List (Frame Cell)) (t : ColorTree Cell) :
    ∃ a ∈ cells (f :: ctx), a.addr = ptr nil (plug (f :: ctx) t) := by
  induction ctx generalizing f t with
  | nil => exact ⟨f.item, by simp [cells], (ptr_join ..).symm⟩
  | cons g ctx ih =>
      obtain ⟨a, ha, h⟩ := ih g (f.fill t)
      exact ⟨a, by simp_all [cells], h⟩

theorem RepCtx.congr {ctx : List (Frame Cell)} {p : Addr} (hc : RepCtx h nil ctx p)
    (hh : ∀ a ∈ cells ctx, h' a.addr = h a.addr) : RepCtx h' nil ctx p := by
  induction ctx generalizing p with
  | nil => trivial
  | cons f ctx ih =>
      obtain ⟨hf, hs, hc⟩ := hc
      refine ⟨?_, hs.congr fun a ha => hh a ?_, ih hc fun a ha => hh a ?_⟩
      · rw [hh f.item (by simp [cells]), hf]
      · simp [cells, ha]
      · simp [cells, ha]

/-- Only the innermost frame knows what stands in the hole. -/
theorem RepCtx.refill {ctx : List (Frame Cell)} {p q : Addr} (hc : RepCtx h nil ctx p)
    (hn : ((cells ctx).map Cell.addr).Nodup)
    (htop : ∀ f ∈ ctx.head?, h' f.item.addr = mkNode f.side f.color f.item q (ptr nil f.sibling) (top nil ctx.tail))
    (hh : ∀ a ∈ cells ctx, a.addr ≠ top nil ctx → h' a.addr = h a.addr) : RepCtx h' nil ctx q := by
  cases ctx with
  | nil => trivial
  | cons f ctx =>
      obtain ⟨hf, hs, hc⟩ := hc
      simp only [cells, List.map_cons, List.nodup_cons] at hn
      have hne : ∀ a ∈ f.sibling.toList ++ cells ctx, a.addr ≠ f.item.addr := fun a ha he =>
        hn.1 (List.mem_map.mpr ⟨a, ha, he⟩)
      refine ⟨htop f rfl, hs.congr fun a ha => hh a (by simp [cells, ha]) (hne a (by simp [ha])),
        hc.congr fun a ha => hh a (by simp [cells, ha]) (hne a (by simp [ha]))⟩

end GameAccelerator.RbShape
