import GameAccelerator.RbUpdate

namespace GameAccelerator.RbContents

open CString Platform RedBlack RbEngine RbShape RbFocus RbDescent RbLink RbUpdate

inductive RbOp
  | set (key value : CStr)
  | get (key : CStr)
  | delete (key : CStr)
  | modify (key value : CStr)

def exec (al : Alloc) (T : RbTree) : RbOp → Option (Ret × RbTree)
  | .set key value => (kvsRbtreeSet al T key value).map fun r => (.code r.1, r.2)
  | .get key => (kvsRbtreeGet T key).map fun s => (.string s, T)
  | .delete key => (kvsRbtreeDelete T key).map fun r => (.code r.1, r.2)
  | .modify key value => (kvsRbtreeModify al T key value).map fun r => (.code r.1, r.2)

/-- A sequence of calls in which every allocation succeeds. -/
def run (T : RbTree) : List RbOp → Option (List Ret × RbTree)
  | [] => some ([], T)
  | op :: ops =>
      match exec .succeeds T op with
      | none => none
      | some (ret, T) => (run T ops).map fun r => (ret :: r.1, r.2)

/-- The same calls on a finite map; `set` leaves an existing binding alone. -/
def mapStep (m : CStr → Option CStr) : RbOp → Ret × (CStr → Option CStr)
  | .set key value => (.code 0, if (m key).isSome then m else Function.update m key (some value))
  | .get key => (.string (m key), m)
  | .delete key => if (m key).isSome then (.code 0, Function.update m key none) else (.code (-1), m)
  | .modify key value =>
      if (m key).isSome then (.code 0, Function.update m key (some value)) else (.code (-1), m)

def mapRun (m : CStr → Option CStr) : List RbOp → List Ret × (CStr → Option CStr)
  | [] => ([], m)
  | op :: ops => ((mapStep m op).1 :: (mapRun (mapStep m op).2 ops).1, (mapRun (mapStep m op).2 ops).2)

def texts (a : Cell) : CStr × Option CStr := (a.key.text, a.value.map Str.text)

/-- One cell with a value for every bound key and no other. -/
def Lists (l : List Cell) (m : CStr → Option CStr) : Prop :=
  ∀ k v, (k, v) ∈ l.map texts ↔ v.isSome ∧ m k = v

def Stores (T : RbTree) (m : CStr → Option CStr) : Prop :=
  ∃ t, Valid T t ∧ Lists t.toList m

/-- One cell for every bound key and no other; its value may be NULL. -/
def Bindings (l : List Cell) (b : CStr → Option (Option CStr)) : Prop :=
  ∀ k v, (k, v) ∈ l.map texts ↔ b k = some v

def Binds (T : RbTree) (b : CStr → Option (Option CStr)) : Prop :=
  ∃ t, Valid T t ∧ Bindings t.toList b

variable {T : RbTree} {ctx : List (Frame Cell)} {t l r : ColorTree Cell} {a : Cell} {c : Color} {m : CStr → Option CStr}
  {b : CStr → Option (Option CStr)} {al : Alloc} {key value : CStr}

theorem stores_iff : Stores T m ↔ Binds T fun k => (m k).map some := by
  apply exists_congr
  intro t
  apply and_congr_right
  intro _
  apply forall₂_congr
  intro k v
  have hbound : v.isSome ∧ m k = v ↔ (m k).map some = some v := by
    cases m k <;> cases v <;> simp [eq_comm]
  rw [hbound]

/-- The three blocks of a new node with its strings. -/
def newNode (T : RbTree) (key value : CStr) : RbTree :=
  let T₃ : RbTree := { T with next := T.next + 3, live := (T.next + 2) :: (T.next + 1) :: T.next :: T.live }
  T₃.modify T.next fun n => { n with key := ⟨T.next + 1, key⟩, value := some ⟨T.next + 2, value⟩ }

theorem newNode_eq (T : RbTree) (key value : CStr) :
    (((malloc ((malloc (malloc T).2).2.modify T.next fun n => { n with key := ⟨T.next + 1, key⟩ })).2).modify
      T.next fun n => { n with value := some ⟨T.next + 2, value⟩ }) = newNode T key value := by
  simp [malloc, newNode, RbTree.modify]

theorem kvsRbtreeSet_eq (T : RbTree) (key value : CStr) :
    kvsRbtreeSet .succeeds T key value =
      (rbtreeInsert (newNode T key value) T.next).map fun T => (0, { T with count := T.count + 1 }) := by
  rw [← newNode_eq]
  rfl

theorem Holds.heap {n : Addr} {k : Int32} {live : List Addr} (hT : Holds T t) (hn : T.next ≤ n) :
    Holds { T with next := n, live := live, count := k } t :=
  ⟨hT.root, hT.rep, hT.nodup, hT.nilFresh, hT.nilBlack, fun e he => Nat.lt_of_lt_of_le (hT.below e he) hn,
    Nat.lt_of_lt_of_le hT.nilBelow hn⟩

/-- Nothing in the tree is at an address that has not been handed out. -/
theorem fresh_addr (hT : Holds T t) {p : Addr} (hp : T.next ≤ p) : p ∉ t.toList.map Cell.addr := by
  rw [List.mem_map]
  rintro ⟨e, he, rfl⟩
  exact absurd (hT.below e he) (Nat.not_lt.mpr hp)

theorem valid_heap {n : Addr} {k : Int32} {live : List Addr} (hT : Valid T t) (hn : T.next ≤ n) :
    Valid { T with next := n, live := live, count := k } t :=
  ⟨Holds.heap hT.holds hn, hT.ordered, hT.balanced⟩

theorem valid_modify_fresh {p : Addr} (hT : Valid T t) (f : RbNode → RbNode) (hp : p ∉ t.toList.map Cell.addr)
    (hnil : p ≠ T.nil) : Valid (T.modify p f) t :=
  ⟨modify_outside hT.holds f hnil hp, hT.ordered, hT.balanced⟩

theorem malloc_valid (hT : Valid T t) : Valid (malloc T).2 t := valid_heap hT (Nat.le_succ _)

theorem free_valid (hT : Valid T t) (p : Addr) : Valid (kvstoreFree T p) t := valid_heap hT le_rfl

theorem newNode_valid (hT : Valid T t) (key value : CStr) : Valid (newNode T key value) t := by
  have hheap : Valid { T with next := T.next + 3, live := (T.next + 2) :: (T.next + 1) :: T.next :: T.live } t :=
    valid_heap hT (Nat.le_add_right _ 3)
  exact valid_modify_fresh hheap (fun n => { n with key := ⟨T.next + 1, key⟩, value := some ⟨T.next + 2, value⟩ })
    (fresh_addr hT.holds le_rfl) hT.holds.nilBelow.ne'

/-- Where the descent for a key ends. -/
theorem locate (hT : Valid T t) (key : CStr) :
    (∃ ctx, t = plug ctx .nil ∧ insertDescent T key = some (top T.nil ctx, T.nil) ∧ Bounds ctx key) ∨
      ∃ ctx c l a r, t = plug ctx (.node c l a r) ∧ insertDescent T key = some (top T.nil ctx, a.addr) ∧
        a.addr ≠ T.nil ∧ a.key.text = key := by
  obtain ⟨ctx, u, rfl, hd, hb, rfl | ⟨c, l, a, r, rfl, hk⟩⟩ := insertDescent_spec hT.holds hT.ordered key
  · exact .inl ⟨ctx, rfl, hd, hb⟩
  · have ha : Holds T (plug ctx (join .left c l a r)) := hT.holds
    exact .inr ⟨ctx, c, l, a, r, rfl, hd, ne_nil ha, hk⟩

theorem mem_texts {l : List Cell} {k : CStr} {v : Option CStr} :
    (k, v) ∈ l.map texts ↔ ∃ a ∈ l, a.key.text = k ∧ a.value.map Str.text = v := by
  simp [texts, List.mem_map, Prod.ext_iff]

theorem toList_focus (ctx : List (Frame Cell)) (c : Color) (l r : ColorTree Cell) (a : Cell) :
    (plug ctx (.node c l a r)).toList = (before ctx ++ l.toList) ++ a :: (r.toList ++ behind ctx) := by
  simp [toList_plug, ColorTree.toList]

theorem focus_perm (ctx : List (Frame Cell)) (c : Color) (l r : ColorTree Cell) (a : Cell) :
    (plug ctx (.node c l a r)).toList.Perm (a :: (before ctx ++ l.toList ++ r.toList ++ behind ctx)) := by
  rw [toList_focus, List.append_assoc _ r.toList]
  exact List.perm_middle

theorem others_ne (ho : Ordered (plug ctx (.node c l a r)).toList) {e : Cell}
    (he : e ∈ before ctx ++ l.toList ++ r.toList ++ behind ctx) : e.key.text ≠ a.key.text := by
  rw [toList_focus, Ordered, List.pairwise_append, List.pairwise_cons] at ho
  rw [List.append_assoc (before ctx ++ l.toList), List.mem_append] at he
  rcases he with he | he
  · exact (ho.2.2 e he a (by simp)).ne
  · exact (ho.2.1.1 e he).ne'

/-- The cell of the node that a SET makes. -/
def newCell (T : RbTree) (key value : CStr) : Cell := ⟨T.next, ⟨T.next + 1, key⟩, some ⟨T.next + 2, value⟩⟩

/-- With memory for all three blocks, the new cell is put in its place, or there
is one with the key and the new node is left alone. -/
theorem set_spec (hT : Valid T t) (key value : CStr) :
    (∃ ctx T' t', t = plug ctx .nil ∧ Bounds ctx key ∧ kvsRbtreeSet .succeeds T key value = some (0, T') ∧
      Valid T' t' ∧ t'.toList = before ctx ++ newCell T key value :: behind ctx ∧
      T' = { newNode T key value with root := T'.root, node := T'.node, count := T.count + 1 } ∧
      T'.node T.nil = T.node T.nil) ∨
    ∃ ctx c l a r, t = plug ctx (.node c l a r) ∧ a.key.text = key ∧
      kvsRbtreeSet .succeeds T key value = some (0, { newNode T key value with count := T.count + 1 }) ∧
      Valid { newNode T key value with count := T.count + 1 } t := by
  have hN := newNode_valid hT key value
  have hnode : (newNode T key value).node T.next =
      { T.node T.next with key := ⟨T.next + 1, key⟩, value := some ⟨T.next + 2, value⟩ } := by
    simp [newNode]
  rw [kvsRbtreeSet_eq]
  rcases locate hN key with ⟨ctx, rfl, hd, hb⟩ | ⟨ctx, c, l, a, r, rfl, hd, hne, hk⟩
  · obtain ⟨T', t', hrun, hv, hlist, hrest, hnil⟩ := rbtreeInsert_new (a := newCell T key value) hN hb hd (by rw [newCell, hnode])
      (by rw [newCell, hnode]) (fresh_addr hT.holds le_rfl) hT.holds.nilBelow.ne' (Nat.lt_add_of_pos_right (by decide : 0 < 3))
    refine .inl ⟨ctx, { T' with count := T'.count + 1 }, t', rfl, hb, ?_, valid_heap hv le_rfl, hlist, ?_,
      hnil.trans ?_⟩
    · change (rbtreeInsert (newNode T key value) (newCell T key value).addr).map _ = _
      rw [hrun]
      rfl
    · rw [hrest]
      rfl
    · simp [newNode, hT.holds.nilBelow.ne]
  · refine .inr ⟨ctx, c, l, a, r, rfl, hk, ?_, valid_heap hN le_rfl⟩
    rw [rbtreeInsert, hnode, hd]
    dsimp only
    rw [if_pos hne]
    rfl

theorem set_of_memory (hal : al.node ∧ al.key ∧ al.value) (T : RbTree) (key value : CStr) :
    kvsRbtreeSet al T key value = kvsRbtreeSet .succeeds T key value := by
  simp only [kvsRbtreeSet, hal.1, hal.2.1, hal.2.2, Alloc.succeeds, if_true]

/-- Without memory for one of the blocks the tree is as it was. -/
theorem set_refused (hT : Valid T t) (hal : ¬ (al.node ∧ al.key ∧ al.value)) (key value : CStr) :
    ∃ T', kvsRbtreeSet al T key value = some (-1, T') ∧ Valid T' t := by
  have hfresh := fresh_addr hT.holds le_rfl
  have hnil := hT.holds.nilBelow.ne'
  rw [kvsRbtreeSet]
  split_ifs with hn hk hv
  · exact absurd ⟨hn, hk, hv⟩ hal
  · have hkey := valid_modify_fresh (malloc_valid (malloc_valid hT)) (fun n => { n with key := ⟨T.next + 1, key⟩ })
      hfresh hnil
    have hvalue := valid_modify_fresh hkey (fun n => { n with value := none }) hfresh hnil
    exact ⟨_, rfl, free_valid (free_valid hvalue _) _⟩
  · exact ⟨_, rfl, free_valid (malloc_valid hT) _⟩
  · exact ⟨T, rfl, hT⟩

theorem Balanced.change_item {b : Cell} {n : Nat} (h : Balanced (plug ctx (.node c l a r)) .black n) :
    ∃ m, Balanced (plug ctx (.node c l b r)) .black m := by
  obtain ⟨d, k, ha, hh⟩ := h.hole
  cases ha with
  | red _ hl hr => exact hh.plug (.red b hl hr)
  | black _ hl hr => exact hh.plug (.black b hl hr)

theorem modify_value (hT : Valid T (plug ctx (.node c l a r))) (v : Option Str) :
    Valid (T.modify a.addr fun n => { n with value := v }) (plug ctx (.node c l { a with value := v } r)) := by
  have ha : Holds T (plug ctx (join .left c l a r)) := hT.holds
  refine ⟨modify_holds (d := c) (b := { a with value := v }) ha rfl fun _ _ _ => rfl, ?_, ?_⟩
  · refine (ordered_congr ?_).mpr hT.ordered
    simp [toList_plug, ColorTree.toList]
  · exact hT.balanced.elim fun _ h => Balanced.change_item h

/-- The blocks that are live once the value of a cell has been given back. -/
def withoutValue (live : List Addr) (a : Cell) : List Addr :=
  match a.value with
  | some s => live.erase s.block
  | none => live

/-- What the memory is after a MOD of the key of `a`. -/
def changed (al : Alloc) (T : RbTree) (a : Cell) (value : CStr) : RbTree :=
  ({ T with
    next := if al.value then T.next + 1 else T.next
    live := if al.value then T.next :: withoutValue T.live a else withoutValue T.live a } : RbTree).modify a.addr
      fun n => { n with value := if al.value then some ⟨T.next, value⟩ else none }

/-- A MOD of a key that is there releases the value and puts the new one in its
place, or NULL where there is no memory. -/
theorem modify_spec (hT : Valid T t) (al : Alloc) (key value : CStr) :
    (∃ ctx, t = plug ctx .nil ∧ Bounds ctx key ∧ kvsRbtreeModify al T key value = some (-1, T)) ∨
    ∃ ctx c l a r, t = plug ctx (.node c l a r) ∧ a.key.text = key ∧
      kvsRbtreeModify al T key value = some (if al.value then 0 else -1, changed al T a value) ∧
      Valid (changed al T a value)
        (plug ctx (.node c l { a with value := if al.value then some ⟨T.next, value⟩ else none } r)) := by
  rw [kvsRbtreeModify, rbtreeSearch_eq]
  rcases locate hT key with ⟨ctx, rfl, hd, hb⟩ | ⟨ctx, c, l, a, r, rfl, hd, hne, hk⟩
  · refine .inl ⟨ctx, rfl, hb, ?_⟩
    rw [hd]
    exact if_pos rfl
  · have hold : (T.node a.addr).value = a.value := by
      rw [holds_node (show Holds T (plug ctx (join .left c l a r)) from hT.holds)]
      rfl
    have hle : T.next ≤ if al.value then T.next + 1 else T.next := by
      split_ifs
      · exact Nat.le_succ _
      · exact le_rfl
    refine .inr ⟨ctx, c, l, a, r, rfl, hk, ?_, modify_value (valid_heap hT hle) _⟩
    rw [hd, changed, withoutValue]
    simp only [Option.map_some, hne, if_false, hold]
    cases a.value <;> cases al.value <;> rfl

theorem delete_spec (hT : Valid T t) (key : CStr) :
    (∃ ctx, t = plug ctx .nil ∧ Bounds ctx key ∧ kvsRbtreeDelete T key = some (-1, T)) ∨
    ∃ ctx c l a r T' t', t = plug ctx (.node c l a r) ∧ a.key.text = key ∧ kvsRbtreeDelete T key = some (0, T') ∧
      Valid T' t' ∧ t'.toList.map entry = (before ctx ++ l.toList ++ r.toList ++ behind ctx).map entry ∧
      T' = { T with root := T'.root, node := T'.node, count := T.count - 1 } := by
  rw [kvsRbtreeDelete, rbtreeSearch_eq]
  rcases locate hT key with ⟨ctx, rfl, hd, hb⟩ | ⟨ctx, c, l, a, r, rfl, hd, hne, hk⟩
  · refine .inl ⟨ctx, rfl, hb, ?_⟩
    rw [hd]
    exact if_pos rfl
  · obtain ⟨T', t', y, hrun, hv, hlist, -, -, hrest⟩ := rbtreeDelete_spec hT
    refine .inr ⟨ctx, c, l, a, r, { T' with count := T'.count - 1 }, t', rfl, hk, ?_, valid_heap hv le_rfl, hlist, ?_⟩
    · rw [hd]
      simp only [Option.map_some, hne, if_false, hrun]
    · rw [hrest]

theorem unbound (hb : Bounds ctx key) (hm : Bindings (plug ctx .nil).toList b) : b key = none := by
  apply Option.eq_none_iff_forall_ne_some.mpr
  intro v hv
  obtain ⟨e, he, hek, -⟩ := mem_texts.mp ((hm key v).mpr hv)
  rw [toList_plug, ColorTree.toList, List.append_nil, List.mem_append] at he
  rcases he with he | he
  · exact (hb.1 e he).ne hek
  · exact (hb.2 e he).ne' hek

theorem bound (hm : Bindings (plug ctx (.node c l a r)).toList b) : b a.key.text = some (a.value.map Str.text) := by
  apply (hm _ _).mp
  exact mem_texts.mpr ⟨a, mem_plug.mpr (.inl (by simp [ColorTree.toList])), rfl, rfl⟩

theorem Bindings.congr {l l' : List Cell} (hm : Bindings l b) (hp : (l'.map texts).Perm (l.map texts)) :
    Bindings l' b :=
  fun k v => hp.mem_iff.trans (hm k v)

theorem Bindings.insert {l : List Cell} {v : Option CStr} (hm : Bindings l b) (hnone : b key = none)
    (ha : texts a = (key, v)) : Bindings (a :: l) (Function.update b key (some v)) := by
  intro k w
  rw [List.map_cons, ha, List.mem_cons, hm k w]
  by_cases hk : k = key
  · subst hk
    simp [hnone, eq_comm]
  · simp [hk]

theorem Bindings.erase {l : List Cell} (hm : Bindings (a :: l) b) (hne : ∀ e ∈ l, e.key.text ≠ a.key.text) :
    Bindings l (Function.update b a.key.text none) := by
  intro k v
  by_cases hk : k = a.key.text
  · subst hk
    rw [Function.update_self]
    refine iff_of_false (fun h => ?_) (Option.some_ne_none v).symm
    obtain ⟨e, he, h, -⟩ := mem_texts.mp h
    exact hne e he h
  · rw [Function.update_of_ne hk, ← hm k v]
    simp [texts, hk]

/-- What the cells apart from that of `a` bind. -/
theorem bindings_without (ho : Ordered (plug ctx (.node c l a r)).toList)
    (hm : Bindings (plug ctx (.node c l a r)).toList b) :
    Bindings (before ctx ++ l.toList ++ r.toList ++ behind ctx) (Function.update b a.key.text none) :=
  (hm.congr ((focus_perm ..).map texts).symm).erase fun _ he => others_ne ho he

theorem set_binds (h : Binds T b) (key value : CStr) :
    ∃ T', kvsRbtreeSet .succeeds T key value = some (0, T') ∧
      Binds T' (if (b key).isSome then b else Function.update b key (some (some value))) := by
  obtain ⟨t, hT, hm⟩ := h
  rcases set_spec hT key value with ⟨ctx, T', t', rfl, hb, hrun, hv, hlist, -⟩ | ⟨ctx, c, l, a, r, rfl, rfl, hrun, hv⟩
  · have hnone := unbound hb hm
    refine ⟨T', hrun, t', hv, ?_⟩
    rw [toList_plug, ColorTree.toList, List.append_nil] at hm
    rw [hnone, hlist]
    exact (hm.insert hnone rfl).congr (List.perm_middle.map texts)
  · refine ⟨_, hrun, _, hv, ?_⟩
    rw [bound hm]
    exact hm

theorem set_refused_binds (h : Binds T b) (hal : ¬ (al.node ∧ al.key ∧ al.value)) (key value : CStr) :
    ∃ T', kvsRbtreeSet al T key value = some (-1, T') ∧ Binds T' b := by
  obtain ⟨t, hT, hm⟩ := h
  obtain ⟨T', hrun, hv⟩ := set_refused hT hal key value
  exact ⟨T', hrun, t, hv, hm⟩

theorem get_binds (h : Binds T b) (key : CStr) : kvsRbtreeGet T key = some (b key).join := by
  obtain ⟨t, hT, hm⟩ := h
  rw [kvsRbtreeGet, rbtreeSearch_eq]
  rcases locate hT key with ⟨ctx, rfl, hd, hb⟩ | ⟨ctx, c, l, a, r, rfl, hd, hne, rfl⟩
  · rw [hd, unbound hb hm]
    simp
  · have hnode := holds_node (show Holds T (plug ctx (join .left c l a r)) from hT.holds)
    rw [hd, bound hm]
    simp [hne, hnode, mkNode]

theorem texts_of_entry {l l' : List Cell} (h : l.map entry = l'.map entry) : l.map texts = l'.map texts := by
  have hentries : ∀ l : List Cell, l.map texts = (l.map entry).map fun p => (p.1.text, p.2.map Str.text) := fun l => by
    rw [List.map_map]
    rfl
  rw [hentries, hentries, h]

theorem delete_binds (h : Binds T b) (key : CStr) :
    ∃ T', kvsRbtreeDelete T key = some (if (b key).isSome then 0 else -1, T') ∧ Binds T' (Function.update b key none) := by
  obtain ⟨t, hT, hm⟩ := h
  rcases delete_spec hT key with ⟨ctx, rfl, hb, hrun⟩ | ⟨ctx, c, l, a, r, T', t', rfl, rfl, hrun, hv, hlist, -⟩
  · have hnone := unbound hb hm
    refine ⟨T, ?_, _, hT, ?_⟩
    · rw [hrun, hnone]
      rfl
    · rw [← hnone, Function.update_eq_self]
      exact hm
  · refine ⟨T', ?_, t', hv, ?_⟩
    · rw [hrun, bound hm]
      rfl
    · exact (bindings_without hT.ordered hm).congr (.of_eq (texts_of_entry hlist))

theorem modify_binds (h : Binds T b) (al : Alloc) (key value : CStr) :
    ∃ T', kvsRbtreeModify al T key value = some (if (b key).isSome ∧ al.value then 0 else -1, T') ∧
      Binds T' (if (b key).isSome then Function.update b key (some (if al.value then some value else none)) else b) := by
  obtain ⟨t, hT, hm⟩ := h
  rcases modify_spec hT al key value with ⟨ctx, rfl, hb, hrun⟩ | ⟨ctx, c, l, a, r, rfl, rfl, hrun, hv⟩
  · have hnone := unbound hb hm
    refine ⟨T, ?_, _, hT, ?_⟩
    · rw [hrun, hnone]
      rfl
    · rw [hnone]
      exact hm
  · refine ⟨_, hrun.trans ?_, _, hv, ?_⟩
    · rw [bound hm]
      simp
    · have hcell : texts { a with value := if al.value then some ⟨T.next, value⟩ else none } =
          (a.key.text, if al.value then some value else none) := by
        cases al.value <;> rfl
      have hput := (bindings_without hT.ordered hm).insert (Function.update_self ..) hcell
      rw [Function.update_idem] at hput
      rw [bound hm]
      exact hput.congr ((focus_perm ..).map texts)

theorem map_update (m : CStr → Option CStr) (key : CStr) (v : Option CStr) :
    (fun k => (Function.update m key v k).map some) = Function.update (fun k => (m k).map some) key (v.map some) := by
  funext k
  by_cases hk : k = key
  · subst hk
    simp
  · simp [hk]

theorem set_stores (h : Stores T m) (key value : CStr) :
    ∃ T', kvsRbtreeSet .succeeds T key value = some (0, T') ∧
      Stores T' (if (m key).isSome then m else Function.update m key (some value)) := by
  obtain ⟨T', hrun, hb⟩ := set_binds (stores_iff.mp h) key value
  refine ⟨T', hrun, stores_iff.mpr ?_⟩
  rw [Option.isSome_map] at hb
  split_ifs at hb ⊢
  · exact hb
  · rw [map_update]
    exact hb

theorem get_stores (h : Stores T m) (key : CStr) : kvsRbtreeGet T key = some (m key) := by
  rw [get_binds (stores_iff.mp h)]
  cases m key <;> rfl

theorem delete_stores (h : Stores T m) (key : CStr) :
    ∃ T', kvsRbtreeDelete T key = some (if (m key).isSome then 0 else -1, T') ∧
      Stores T' (if (m key).isSome then Function.update m key none else m) := by
  obtain ⟨T', hrun, hb⟩ := delete_binds (stores_iff.mp h) key
  rw [Option.isSome_map] at hrun
  refine ⟨T', hrun, stores_iff.mpr ?_⟩
  split_ifs with hm
  · rw [map_update]
    exact hb
  · rw [Option.not_isSome_iff_eq_none] at hm
    have hself : Function.update (fun k => (m k).map some) key none = fun k => (m k).map some := by
      rw [Function.update_eq_self_iff, hm]
      rfl
    exact hself ▸ hb

theorem modify_stores (h : Stores T m) (key value : CStr) :
    ∃ T', kvsRbtreeModify .succeeds T key value = some (if (m key).isSome then 0 else -1, T') ∧
      Stores T' (if (m key).isSome then Function.update m key (some value) else m) := by
  obtain ⟨T', hrun, hb⟩ := modify_binds (stores_iff.mp h) .succeeds key value
  simp only [Option.isSome_map, Alloc.succeeds, and_true, if_true] at hrun hb
  refine ⟨T', hrun, stores_iff.mpr ?_⟩
  split_ifs at hb ⊢
  · rw [map_update]
    exact hb
  · exact hb

theorem create_valid (mem : Addr → RbNode) : Valid (kvstoreRbtreeCreate mem) .nil := by
  refine ⟨⟨rfl, trivial, List.nodup_nil, List.not_mem_nil, ?_, List.forall_mem_nil _, Nat.zero_lt_two⟩,
    List.Pairwise.nil, 0, .nil⟩
  simp [kvstoreRbtreeCreate, malloc, RbTree.color]

theorem create_stores (mem : Addr → RbNode) : Stores (kvstoreRbtreeCreate mem) fun _ => none := by
  refine ⟨.nil, create_valid mem, fun k v => ?_⟩
  cases v <;> simp [ColorTree.toList]

theorem exec_stores (h : Stores T m) (op : RbOp) :
    ∃ T', exec .succeeds T op = some ((mapStep m op).1, T') ∧ Stores T' (mapStep m op).2 := by
  cases op with
  | set key value =>
      obtain ⟨T', hr, hs⟩ := set_stores h key value
      exact ⟨T', by rw [exec, hr]; rfl, hs⟩
  | get key => exact ⟨T, by rw [exec, get_stores h key]; rfl, h⟩
  | delete key =>
      obtain ⟨T', hr, hs⟩ := delete_stores h key
      refine ⟨T', ?_, ?_⟩
      · rw [exec, hr, mapStep]
        split <;> rfl
      · rw [mapStep]
        split <;> simp_all
  | modify key value =>
      obtain ⟨T', hr, hs⟩ := modify_stores h key value
      refine ⟨T', ?_, ?_⟩
      · rw [exec, hr, mapStep]
        split <;> rfl
      · rw [mapStep]
        split <;> simp_all

theorem run_stores (h : Stores T m) (ops : List RbOp) :
    ∃ T', run T ops = some ((mapRun m ops).1, T') ∧ Stores T' (mapRun m ops).2 := by
  induction ops generalizing T m with
  | nil => exact ⟨T, rfl, h⟩
  | cons op ops ih =>
      obtain ⟨T₁, he, hs⟩ := exec_stores h op
      obtain ⟨T₂, hr, hs₂⟩ := ih hs
      exact ⟨T₂, by rw [run, he]; simp [hr, mapRun], hs₂⟩

/-- Every sequence of calls on a new tree answers as the map does, and the
node that `rbtree_delete` hands back for a bound key has this key and its value. -/
theorem rbtree_agrees_with_map (mem : Addr → RbNode) (ops : List RbOp) :
    ∃ T, run (kvstoreRbtreeCreate mem) ops = some ((mapRun (fun _ => none) ops).1, T) ∧
      ∀ k v, (mapRun (fun _ => none) ops).2 k = some v →
        ∃ z T' y, rbtreeSearch T k = some z ∧ z ≠ T.nil ∧ rbtreeDelete T z = some (T', y) ∧
          (T'.node y).key.text = k ∧ (T'.node y).value.map Str.text = some v := by
  obtain ⟨T, hrun, hs⟩ := run_stores (create_stores mem) ops
  obtain ⟨t, hT, hm⟩ := stores_iff.mp hs
  refine ⟨T, hrun, fun k v hv => ?_⟩
  rcases locate hT k with ⟨ctx, rfl, hd, hb⟩ | ⟨ctx, c, l, a, r, rfl, hd, hne, rfl⟩
  · have hnone := unbound hb hm
    rw [hv] at hnone
    cases hnone
  · obtain ⟨T', t', y, hdel, -, -, hyk, hyv, -⟩ := rbtreeDelete_spec hT
    have hval := bound hm
    rw [hv, Option.map_some, Option.some_inj] at hval
    refine ⟨a.addr, T', y, by rw [rbtreeSearch_eq, hd]; rfl, hne, hdel, by rw [hyk], ?_⟩
    rw [hyv, hval]

end GameAccelerator.RbContents
