import Mathlib.Data.List.Basic
import Mathlib.Data.List.Nodup

namespace GameAccelerator.RedBlack

variable {α β : Type}

inductive Color
  | red
  | black
  deriving DecidableEq

inductive Side
  | left
  | right
  deriving DecidableEq

def Side.other : Side → Side
  | .left => .right
  | .right => .left

inductive ColorTree (α : Type)
  | nil
  | node (color : Color) (left : ColorTree α) (item : α) (right : ColorTree α)

/-- A node written from the point of view of one side: `near` is the subtree on
side `s`. A fact about `join` serves both mirror images. -/
def join (s : Side) (c : Color) (near : ColorTree α) (a : α) (far : ColorTree α) : ColorTree α :=
  match s with
  | .left => .node c near a far
  | .right => .node c far a near

def ColorTree.toList : ColorTree α → List α
  | .nil => []
  | .node _ l a r => l.toList ++ a :: r.toList

def ColorTree.color : ColorTree α → Color
  | .nil => .black
  | .node c _ _ _ => c

/-- Equal numbers of black nodes on all ways down and no red node with a red
child; the indices are the colour of the root and the black height. -/
inductive Balanced : ColorTree α → Color → Nat → Prop
  | nil : Balanced .nil .black 0
  | red {l r : ColorTree α} {n : Nat} (a : α) (hl : Balanced l .black n) (hr : Balanced r .black n) :
      Balanced (.node .red l a r) .red n
  | black {l r : ColorTree α} {n : Nat} {cl cr : Color} (a : α) (hl : Balanced l cl n) (hr : Balanced r cr n) :
      Balanced (.node .black l a r) .black (n + 1)

structure Frame (α : Type) where
  side : Side
  color : Color
  item : α
  sibling : ColorTree α

def Frame.fill (f : Frame α) (t : ColorTree α) : ColorTree α := join f.side f.color t f.item f.sibling

/-- Put a tree into a context, innermost frame first. -/
def plug : List (Frame α) → ColorTree α → ColorTree α
  | [], t => t
  | f :: ctx, t => plug ctx (f.fill t)

/-- The contexts that a tree of the given root colour and black height
completes to a balanced tree with a black root. -/
inductive Hole : List (Frame α) → Color → Nat → Prop
  | top (n : Nat) : Hole [] .black n
  | red {ctx : List (Frame α)} {t : ColorTree α} {n : Nat} (s : Side) (a : α) (ht : Balanced t .black n)
      (h : Hole ctx .red n) : Hole (⟨s, .red, a, t⟩ :: ctx) .black n
  | black {ctx : List (Frame α)} {t : ColorTree α} {n : Nat} {ct : Color} (s : Side) (a : α) (c : Color)
      (ht : Balanced t ct n) (h : Hole ctx .black (n + 1)) : Hole (⟨s, .black, a, t⟩ :: ctx) c n

theorem join_other (s : Side) (c : Color) (t : ColorTree α) (a : α) (u : ColorTree α) :
    join s.other c t a u = join s c u a t := by
  cases s <;> rfl

theorem Balanced.color_eq {t : ColorTree α} {c : Color} {n : Nat} (h : Balanced t c n) : t.color = c := by
  cases h <;> rfl

theorem Balanced.joinRed (s : Side) {t u : ColorTree α} {n : Nat} (a : α) (ht : Balanced t .black n)
    (hu : Balanced u .black n) : Balanced (join s .red t a u) .red n := by
  cases s
  · exact .red a ht hu
  · exact .red a hu ht

theorem Balanced.joinBlack (s : Side) {t u : ColorTree α} {n : Nat} {ct cu : Color} (a : α)
    (ht : Balanced t ct n) (hu : Balanced u cu n) : Balanced (join s .black t a u) .black (n + 1) := by
  cases s
  · exact .black a ht hu
  · exact .black a hu ht

theorem Balanced.red_cases (s : Side) {t : ColorTree α} {n : Nat} (h : Balanced t .red n) :
    ∃ u a v, t = join s .red u a v ∧ Balanced u .black n ∧ Balanced v .black n := by
  cases h with
  | red a hl hr =>
      cases s
      · exact ⟨_, a, _, rfl, hl, hr⟩
      · exact ⟨_, a, _, rfl, hr, hl⟩

theorem Balanced.black_cases (s : Side) {t : ColorTree α} {n : Nat} (h : Balanced t .black (n + 1)) :
    ∃ u a v cu cv, t = join s .black u a v ∧ Balanced u cu n ∧ Balanced v cv n := by
  cases h with
  | black a hl hr =>
      cases s
      · exact ⟨_, a, _, _, _, rfl, hl, hr⟩
      · exact ⟨_, a, _, _, _, rfl, hr, hl⟩

theorem Balanced.of_joinRed {s : Side} {t u : ColorTree α} {a : α} {c : Color} {n : Nat}
    (h : Balanced (join s .red t a u) c n) : c = .red ∧ Balanced t .black n ∧ Balanced u .black n := by
  cases s
  · cases h with
    | red _ hl hr => exact ⟨rfl, hl, hr⟩
  · cases h with
    | red _ hl hr => exact ⟨rfl, hr, hl⟩

theorem Balanced.of_joinBlack {s : Side} {t u : ColorTree α} {a : α} {c : Color} {n : Nat}
    (h : Balanced (join s .black t a u) c n) :
    c = .black ∧ ∃ m ct cu, n = m + 1 ∧ Balanced t ct m ∧ Balanced u cu m := by
  cases s
  · cases h with
    | black _ hl hr => exact ⟨rfl, _, _, _, rfl, hl, hr⟩
  · cases h with
    | black _ hl hr => exact ⟨rfl, _, _, _, rfl, hr, hl⟩

theorem Hole.red_cases {ctx : List (Frame α)} {n : Nat} (h : Hole ctx .red n) :
    ∃ s a t c ctx', ctx = ⟨s, .black, a, t⟩ :: ctx' ∧ Balanced t c n ∧ Hole ctx' .black (n + 1) := by
  cases h with
  | black s a c ht h => exact ⟨s, a, _, _, _, rfl, ht, h⟩

/-- The sibling of a place has the black height of the place. -/
theorem Hole.sibling {f : Frame α} {ctx : List (Frame α)} {c : Color} {n : Nat} (h : Hole (f :: ctx) c n) :
    ∃ d, Balanced f.sibling d n := by
  cases h with
  | red _ _ ht _ => exact ⟨_, ht⟩
  | black _ _ _ ht _ => exact ⟨_, ht⟩

theorem Hole.plug {ctx : List (Frame α)} {c : Color} {n : Nat} (h : Hole ctx c n) {t : ColorTree α}
    (ht : Balanced t c n) : ∃ m, Balanced (plug ctx t) .black m := by
  induction h generalizing t with
  | top n => exact ⟨n, ht⟩
  | red s a hs _ ih => exact ih (ht.joinRed s a hs)
  | black s a c hs _ ih => exact ih (ht.joinBlack s a hs)

theorem Balanced.blacken {l r : ColorTree α} {a : α} {c d : Color} {n : Nat} (h : Balanced (.node c l a r) d n) :
    ∃ m, Balanced (.node .black l a r) .black m := by
  cases h with
  | red _ hl hr => exact ⟨_, .black a hl hr⟩
  | black _ hl hr => exact ⟨_, .black a hl hr⟩

theorem Hole.black_of_red {ctx : List (Frame α)} {n : Nat} (h : Hole ctx .red n) : Hole ctx .black n := by
  cases h with
  | black s a c ht h => exact .black s a _ ht h

/-- A balanced tree taken apart at any place. -/
theorem Balanced.hole {ctx : List (Frame α)} {t : ColorTree α} {m : Nat} (h : Balanced (RedBlack.plug ctx t) .black m) :
    ∃ c n, Balanced t c n ∧ Hole ctx c n := by
  induction ctx generalizing t with
  | nil => exact ⟨.black, m, h, .top m⟩
  | cons f ctx ih =>
      obtain ⟨s, c, a, u⟩ := f
      obtain ⟨d, n, hf, hh⟩ := ih h
      cases c with
      | red =>
          obtain ⟨rfl, ht, hu⟩ := hf.of_joinRed
          exact ⟨.black, n, ht, .red s a hu hh⟩
      | black =>
          obtain ⟨rfl, m, ct, cu, rfl, ht, hu⟩ := hf.of_joinBlack
          exact ⟨ct, m, ht, .black s a ct hu hh⟩

theorem Hole.change_item {ctx ctx' : List (Frame α)} {s : Side} {c d : Color} {a b : α} {t : ColorTree α} {n : Nat}
    (h : Hole (ctx' ++ ⟨s, c, a, t⟩ :: ctx) d n) : Hole (ctx' ++ ⟨s, c, b, t⟩ :: ctx) d n := by
  induction ctx' generalizing d n with
  | nil =>
      cases h with
      | red _ _ ht h => exact .red s b ht h
      | black _ _ _ ht h => exact .black s b _ ht h
  | cons f ctx' ih =>
      cases h with
      | red s a ht h => exact .red s a ht (ih h)
      | black s a _ ht h => exact .black s a _ ht (ih h)

/-- What stands before and behind the hole of a context in list order. -/
def before : List (Frame α) → List α
  | [] => []
  | f :: ctx => before ctx ++ match f.side with
    | .left => []
    | .right => f.sibling.toList ++ [f.item]

def behind : List (Frame α) → List α
  | [] => []
  | f :: ctx => (match f.side with
    | .left => f.item :: f.sibling.toList
    | .right => []) ++ behind ctx

theorem toList_plug (ctx : List (Frame α)) (t : ColorTree α) :
    (plug ctx t).toList = before ctx ++ t.toList ++ behind ctx := by
  induction ctx generalizing t with
  | nil => simp [plug, before, behind]
  | cons f ctx ih =>
      rw [plug, ih]
      rcases f with ⟨s, c, a, u⟩
      cases s <;> simp [Frame.fill, join, ColorTree.toList, before, behind]

theorem sublist_plug (ctx : List (Frame α)) (t : ColorTree α) : t.toList.Sublist (plug ctx t).toList := by
  rw [toList_plug]
  exact (List.sublist_append_right _ _).trans (List.sublist_append_left _ _)

theorem plug_far (s : Side) (c : Color) (t : ColorTree α) (a : α) (u : ColorTree α) (ctx : List (Frame α)) :
    plug (⟨s.other, c, a, t⟩ :: ctx) u = plug ctx (join s c t a u) := by
  rw [plug, Frame.fill, join_other]

theorem plug_join_eq_node (ctx : List (Frame α)) (s : Side) (c : Color) (t : ColorTree α) (a : α) (u : ColorTree α) :
    ∃ d l b r, plug ctx (join s c t a u) = .node d l b r := by
  induction ctx generalizing s c t a u with
  | nil =>
      cases s
      · exact ⟨c, t, a, u, rfl⟩
      · exact ⟨c, u, a, t, rfl⟩
  | cons f ctx ih => exact ih ..

theorem toList_plug_congr (ctx : List (Frame α)) {t u : ColorTree α} (h : t.toList = u.toList) :
    (plug ctx t).toList = (plug ctx u).toList := by
  rw [toList_plug, toList_plug, h]

theorem plug_append (ctx ctx' : List (Frame α)) (t : ColorTree α) :
    plug (ctx ++ ctx') t = plug ctx' (plug ctx t) := by
  induction ctx generalizing t with
  | nil => rfl
  | cons f ctx ih => exact ih _

/-- The rotation towards `s` keeps the order of the items. -/
theorem toList_rotate (s : Side) (c d c' d' : Color) (t u v : ColorTree α) (a b : α) :
    (join s c t a (join s d u b v)).toList = (join s c' (join s d' t a u) b v).toList := by
  cases s <;> simp [join, ColorTree.toList]

theorem length_lt_plug (ctx : List (Frame α)) (t : ColorTree α) :
    ctx.length + t.toList.length ≤ (plug ctx t).toList.length := by
  induction ctx generalizing t with
  | nil => simp [plug]
  | cons f ctx ih =>
      refine Nat.le_trans ?_ (ih (f.fill t))
      rcases f with ⟨s, c, a, u⟩
      cases s <;> simp only [Frame.fill, join, ColorTree.toList, List.length_append, List.length_cons] <;> omega

end GameAccelerator.RedBlack
