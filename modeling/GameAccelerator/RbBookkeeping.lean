import GameAccelerator.RbInvariant
import Mathlib.Data.List.Perm.Basic

namespace GameAccelerator.RbBookkeeping

open CString Platform RedBlack RbEngine RbShape RbFocus RbUpdate RbContents RbInvariant

/-- The block of a node and those of its two strings; NULL is `none`. -/
def blocks (T : RbTree) (p : Addr) : List (Option Addr) :=
  [some p, some (T.node p).key.block, (T.node p).value.map Str.block]

/-- The counter tells the number of the nodes, and nothing is live but nil with
its key and the blocks of the nodes. -/
def Accounted (T : RbTree) : Prop :=
  ∃ nodes : List Addr, nodes.Nodup ∧ (∀ p, p ∈ nodes ↔ Reach T p) ∧ T.count.toInt = nodes.length ∧
    (T.live.map some).Perm (some T.nil :: some (T.node T.nil).key.block :: nodes.flatMap (blocks T))

/-- A SET or a DEL of a key that is bound. -/
def Wastes (m : CStr → Option CStr) : RbOp → Prop
  | .set key _ => (m key).isSome
  | .delete key => (m key).isSome
  | .get _ => False
  | .modify _ _ => False

instance (m : CStr → Option CStr) : (op : RbOp) → Decidable (Wastes m op)
  | .set key _ => inferInstanceAs (Decidable ((m key).isSome = true))
  | .delete key => inferInstanceAs (Decidable ((m key).isSome = true))
  | .get _ => inferInstanceAs (Decidable False)
  | .modify _ _ => inferInstanceAs (Decidable False)

def Frugal (m : CStr → Option CStr) : List RbOp → Prop
  | [] => True
  | op :: ops => ¬ Wastes m op ∧ Frugal (mapStep m op).2 ops

/-- How many calls of a sequence leave three blocks behind. -/
def losses (m : CStr → Option CStr) : List RbOp → Nat
  | [] => 0
  | op :: ops => (if Wastes m op then 1 else 0) + losses (mapStep m op).2 ops

/-- Whether a call can make the tree grow. -/
def isSet : RbOp → Bool
  | .set _ _ => true
  | _ => false

theorem losses_eq_zero (m : CStr → Option CStr) (ops : List RbOp) : losses m ops = 0 ↔ Frugal m ops := by
  induction ops generalizing m with
  | nil => exact iff_of_true rfl trivial
  | cons op ops ih =>
      rw [losses, Nat.add_eq_zero_iff, ih, Frugal]
      by_cases h : Wastes m op <;> simp [h]

def strings (a : Cell) : List (Option Addr) := [some a.key.block, a.value.map Str.block]

/-- The live blocks are the strings in the tree and the `rest`: nil with its
key, the nodes, and three blocks for each of the `lost` calls. There are no more
nodes than there have been `sets`. -/
structure Books (T : RbTree) (t : ColorTree Cell) (rest : List (Option Addr)) (lost sets : Nat) : Prop where
  valid : Valid T t
  live : (T.live.map some).Perm (t.toList.flatMap strings ++ rest)
  length : rest.length = 2 + t.toList.length + 3 * lost
  clean : lost = 0 → T.count = .ofNat t.toList.length ∧
    rest.Perm (some T.nil :: some (T.node T.nil).key.block :: t.toList.map fun a => some a.addr)
  few : t.toList.length ≤ sets

variable {T : RbTree} {ctx : List (Frame Cell)} {t l r : ColorTree Cell} {a : Cell} {c : Color}
  {rest : List (Option Addr)} {lost sets : Nat} {m : CStr → Option CStr} {key value : CStr}

theorem reach_of_inOrder {p : Addr} {l : List Addr} (h : InOrder T p l) (hp : p ≠ T.nil → Reach T p) :
    ∀ q ∈ l, Reach T q := by
  induction h with
  | nil =>
      intro q hq
      cases hq
  | @node p l r hne _ _ ihl ihr =>
      have hreach := hp hne
      intro q hq
      rcases List.mem_append.mp hq with hq | hq
      · exact ihl (.child .left hreach) q hq
      · rcases List.mem_cons.mp hq with rfl | hq
        · exact hreach
        · exact ihr (.child .right hreach) q hq

theorem reach_iff (hT : Holds T t) (p : Addr) : p ∈ t.toList.map Cell.addr ↔ Reach T p := by
  constructor
  · intro hp
    have hwalk := inOrder_focus (show Holds T (plug [] t) from hT)
    rw [← hT.root] at hwalk
    exact reach_of_inOrder hwalk .root p hp
  · intro hp
    obtain ⟨ctx, c, l, a, r, rfl, rfl⟩ := reach_focus hT hp
    exact List.mem_map_of_mem (mem_plug.mpr (.inl (by simp [ColorTree.toList])))

theorem blocks_of_cell (hT : Holds T t) (ha : a ∈ t.toList) : blocks T a.addr = some a.addr :: strings a := by
  obtain ⟨hkey, hvalue⟩ := entry_of_mem hT.rep ha
  rw [blocks, hkey, hvalue, strings]

theorem perm_blocks (l : List Cell) :
    (l.flatMap strings ++ l.map fun a => some a.addr).Perm (l.flatMap fun a => some a.addr :: strings a) := by
  apply List.perm_append_comm.trans
  exact List.map_append_flatMap_perm l (fun a => some a.addr) strings

/-- The nodes of a tree are those of its cells. -/
theorem accounted_iff (hT : Holds T t) : Accounted T ↔ T.count.toInt = t.toList.length ∧
    (T.live.map some).Perm (some T.nil :: some (T.node T.nil).key.block ::
      t.toList.flatMap fun a => some a.addr :: strings a) := by
  have hblocks : (t.toList.map Cell.addr).flatMap (blocks T) = t.toList.flatMap fun a => some a.addr :: strings a := by
    rw [List.flatMap_map]
    exact List.flatMap_congr fun a ha => blocks_of_cell hT ha
  constructor
  · rintro ⟨nodes, hnodup, hreach, hcount, hlive⟩
    have hperm : nodes.Perm (t.toList.map Cell.addr) :=
      (List.perm_ext_iff_of_nodup hnodup hT.nodup).mpr fun p => (hreach p).trans (reach_iff hT p).symm
    refine ⟨?_, ?_⟩
    · rw [hcount, hperm.length_eq, List.length_map]
    · rw [← hblocks]
      exact hlive.trans (((hperm.flatMap_right _).cons _).cons _)
  · rintro ⟨hcount, hlive⟩
    refine ⟨t.toList.map Cell.addr, hT.nodup, reach_iff hT, ?_, ?_⟩
    · rw [hcount, List.length_map]
    · rw [hblocks]
      exact hlive

theorem accounted_iff_of_books (h : Books T t rest lost sets) (hsets : sets < 2147483648) : Accounted T ↔ lost = 0 := by
  rw [accounted_iff h.valid.holds]
  constructor
  · rintro ⟨-, hlive⟩
    have hlen := hlive.length_eq.symm.trans h.live.length_eq
    rw [← (perm_blocks t.toList |>.cons _ |>.cons _).length_eq] at hlen
    simp only [List.length_cons, List.length_append, List.length_map, h.length] at hlen
    omega
  · intro hlost
    obtain ⟨hcount, hrest⟩ := h.clean hlost
    refine ⟨hcount ▸ Int32.toInt_ofNat_of_lt (h.few.trans_lt hsets), (h.live.trans (hrest.append_left _)).trans ?_⟩
    exact (List.perm_middle.trans (List.perm_middle.cons _)).trans (((perm_blocks t.toList).cons _).cons _)

theorem create_books (mem : Addr → RbNode) : Books (kvstoreRbtreeCreate mem) .nil [some 1, some 0] 0 0 := by
  refine ⟨create_valid mem, .refl _, rfl, fun _ => ⟨rfl, ?_⟩, le_rfl⟩
  have hkey : ((kvstoreRbtreeCreate mem).node 0).key.block = 1 := by simp [kvstoreRbtreeCreate, malloc]
  exact hkey ▸ List.Perm.swap (some 0) (some 1) []

/-- The strings of one cell apart from those of the others. -/
theorem perm_strings (ctx : List (Frame Cell)) (c : Color) (l r : ColorTree Cell) (a : Cell) :
    ((plug ctx (.node c l a r)).toList.flatMap strings).Perm
      (strings a ++ (before ctx ++ l.toList ++ r.toList ++ behind ctx).flatMap strings) :=
  (focus_perm ctx c l r a).flatMap_right strings

/-- The node of a new key comes into the tree. -/
theorem set_new_books {T' : RbTree} {t' : ColorTree Cell} (h : Books T t rest lost sets) (hv : Valid T' t')
    (hperm : t'.toList.Perm (newCell T key value :: t.toList)) (hn : T'.nil = T.nil)
    (hlive : T'.live = (T.next + 2) :: (T.next + 1) :: T.next :: T.live) (hcount : T'.count = T.count + 1)
    (hnil : T'.node T.nil = T.node T.nil) : Books T' t' (some T.next :: rest) lost (sets + 1) := by
  refine ⟨hv, ?_, ?_, fun hlost => ?_, ?_⟩
  · rw [hlive]
    calc
      _ = some (T.next + 2) :: some (T.next + 1) :: some T.next :: T.live.map some := rfl
      List.Perm _ (some (T.next + 2) :: some (T.next + 1) :: some T.next :: (t.toList.flatMap strings ++ rest)) :=
        ((h.live.cons _).cons _).cons _
      List.Perm _ (some (T.next + 1) :: some (T.next + 2) :: some T.next :: (t.toList.flatMap strings ++ rest)) :=
        .swap ..
      List.Perm _ (strings (newCell T key value) ++ (t.toList.flatMap strings ++ some T.next :: rest)) :=
        (List.perm_middle.symm.cons _).cons _
      List.Perm _ (t'.toList.flatMap strings ++ some T.next :: rest) := by
        rw [← List.append_assoc]
        exact (hperm.flatMap_right strings).symm.append_right _
  · rw [hperm.length_eq, List.length_cons, List.length_cons, h.length]
    omega
  · obtain ⟨hc, hrest⟩ := h.clean hlost
    rw [hn, hnil, hcount, hc, hperm.length_eq]
    refine ⟨(Int32.ofNat_add t.toList.length 1).symm, (hrest.cons _).trans ?_⟩
    have hmove : ([some T.nil, some (T.node T.nil).key.block] ++ some T.next :: t.toList.map fun a => some a.addr).Perm _ :=
      List.perm_middle
    have haddrs := (hperm.map fun a : Cell => some a.addr).symm
    exact hmove.symm.trans ((haddrs.cons _).cons _)
  · rw [hperm.length_eq]
    exact Nat.succ_le_succ h.few

/-- The node that finds its key bound is lost with its strings. -/
theorem set_bound_books (h : Books T t rest lost sets) (hv : Valid { newNode T key value with count := T.count + 1 } t) :
    Books { newNode T key value with count := T.count + 1 } t
      (some (T.next + 2) :: some (T.next + 1) :: some T.next :: rest) (lost + 1) (sets + 1) := by
  refine ⟨hv, ?_, ?_, fun hlost => absurd hlost (Nat.succ_ne_zero _), h.few.trans (Nat.le_succ _)⟩
  · have hmove : ([some (T.next + 2), some (T.next + 1), some T.next] ++ (t.toList.flatMap strings ++ rest)).Perm _ :=
      List.perm_append_comm_assoc ..
    exact (((h.live.cons _).cons _).cons _).trans hmove
  · rw [List.length_cons, List.length_cons, List.length_cons, h.length]
    omega

theorem set_books (h : Books T t rest lost sets) (hs : Stores T m) (key value : CStr) :
    ∃ T' t' rest', kvsRbtreeSet .succeeds T key value = some (0, T') ∧
      Books T' t' rest' (lost + if (m key).isSome then 1 else 0) (sets + 1) := by
  obtain ⟨t₁, hT, hm⟩ := stores_iff.mp hs
  cases hT.holds.unique h.valid.holds
  rcases set_spec hT key value with ⟨ctx, T', t', rfl, hb, hrun, hv, hlist, hrest, hnil⟩ |
    ⟨ctx, c, l, a, r, rfl, rfl, hrun, hv⟩
  · have hnone : m key = none := Option.map_eq_none_iff.mp (unbound hb hm)
    have hperm : t'.toList.Perm (newCell T key value :: (plug ctx .nil).toList) := by
      rw [hlist, toList_plug, ColorTree.toList, List.append_nil]
      exact List.perm_middle
    rw [hnone]
    refine ⟨T', t', _, hrun, set_new_books h hv hperm ?_ ?_ ?_ hnil⟩
    · rw [hrest]
      rfl
    · rw [hrest]
      rfl
    · rw [hrest]
  · obtain ⟨v, hv', -⟩ := Option.map_eq_some_iff.mp (bound hm)
    rw [hv', Option.isSome_some, if_pos rfl]
    exact ⟨_, _, _, hrun, set_bound_books h hv⟩

theorem flatMap_strings_of_entry {l l' : List Cell} (h : l.map entry = l'.map entry) :
    l.flatMap strings = l'.flatMap strings := by
  have hentries : ∀ l : List Cell,
      l.flatMap strings = (l.map entry).flatMap fun p => [some p.1.block, p.2.map Str.block] := by
    intro l
    rw [List.flatMap_map]
    rfl
  rw [hentries, hentries, h]

theorem delete_books (h : Books T t rest lost sets) (hs : Stores T m) (key : CStr) :
    ∃ code T' t' rest', kvsRbtreeDelete T key = some (code, T') ∧
      Books T' t' rest' (lost + if (m key).isSome then 1 else 0) sets := by
  obtain ⟨t₁, hT, hm⟩ := stores_iff.mp hs
  cases hT.holds.unique h.valid.holds
  rcases delete_spec hT key with ⟨ctx, rfl, hb, hrun⟩ | ⟨ctx, c, l, a, r, T', t', rfl, rfl, hrun, hv, hlist, hrest⟩
  · have hnone : m key = none := Option.map_eq_none_iff.mp (unbound hb hm)
    rw [hnone]
    exact ⟨-1, T, _, rest, hrun, h⟩
  · obtain ⟨v, hv', -⟩ := Option.map_eq_some_iff.mp (bound hm)
    have hlive : T'.live = T.live := by rw [hrest]
    rw [hv', Option.isSome_some, if_pos rfl]
    have hlen : t'.toList.length + 1 = (plug ctx (.node c l a r)).toList.length := by
      rw [(focus_perm ctx c l r a).length_eq, List.length_cons, ← List.length_map (f := entry), hlist, List.length_map]
    -- The node has been unlinked and its strings stay behind with it.
    refine ⟨0, T', t', strings a ++ rest, hrun, hv, ?_, ?_, fun hlost => absurd hlost (Nat.succ_ne_zero _), ?_⟩
    · rw [hlive, flatMap_strings_of_entry hlist]
      apply (h.live.trans ((perm_strings ctx c l r a).append_right rest)).trans
      rw [List.append_assoc]
      exact List.perm_append_comm_assoc ..
    · rw [List.length_append, h.length, ← hlen, strings, List.length_cons, List.length_singleton]
      omega
    · exact (Nat.le_succ _).trans (hlen.trans_le h.few)

/-- The block of the old value gives way to that of the new one. -/
theorem replace_value {live : List Addr} {others : List (Option Addr)} (p : Addr) (value : CStr)
    (h : (live.map some).Perm (strings a ++ others)) :
    ((p :: withoutValue live a).map some).Perm (strings { a with value := some ⟨p, value⟩ } ++ others) := by
  rw [strings] at h
  cases hv : a.value with
  | none =>
      rw [hv] at h
      have hnull : none ∈ live.map some := h.mem_iff.mpr (by simp)
      obtain ⟨q, -, hq⟩ := List.mem_map.mp hnull
      cases hq
  | some s =>
      rw [hv] at h
      have hfirst : (live.map some).Perm (some s.block :: some a.key.block :: others) := h.trans (.swap ..)
      have herase := hfirst.erase (some s.block)
      rw [List.erase_cons_head, ← List.map_erase fun _ _ he => Option.some.inj he] at herase
      rw [withoutValue, hv]
      exact (herase.cons _).trans (.swap ..)

theorem modify_books (h : Books T t rest lost sets) (key value : CStr) :
    ∃ code T' t' rest', kvsRbtreeModify .succeeds T key value = some (code, T') ∧ Books T' t' rest' lost sets := by
  rcases modify_spec h.valid .succeeds key value with ⟨ctx, rfl, hb, hrun⟩ | ⟨ctx, c, l, a, r, rfl, rfl, hrun, hv⟩
  · exact ⟨-1, T, _, rest, hrun, h⟩
  · have ha : Holds T (plug ctx (join .left c l a r)) := h.valid.holds
    have haddrs : (plug ctx (.node c l { a with value := some ⟨T.next, value⟩ } r)).toList.map Cell.addr =
        (plug ctx (.node c l a r)).toList.map Cell.addr := addrs_plug ctx .left c c l r rfl
    have hlen := congrArg List.length haddrs
    rw [List.length_map, List.length_map] at hlen
    refine ⟨0, _, _, rest, hrun, hv, ?_, ?_, fun hlost => ?_, hlen.trans_le h.few⟩
    · have hlive := h.live.trans ((perm_strings ctx c l r a).append_right rest)
      rw [List.append_assoc] at hlive
      apply (replace_value T.next value hlive).trans
      rw [← List.append_assoc]
      exact (perm_strings ..).symm.append_right rest
    · exact h.length.trans (by rw [← hlen]; rfl)
    · obtain ⟨hc, hrest⟩ := h.clean hlost
      have hnil : (changed .succeeds T a value).node T.nil = T.node T.nil := by
        rw [changed, modify_node, if_neg (ne_nil ha).symm]
      have hsome := congrArg (List.map some) haddrs
      rw [List.map_map, List.map_map] at hsome
      refine ⟨hc.trans (congrArg _ hlen.symm), hrest.trans (.of_eq ?_)⟩
      exact congrArg₂ _ rfl (congrArg₂ _ (by rw [show (changed .succeeds T a value).nil = T.nil from rfl, hnil]) hsome.symm)

theorem exec_books (h : Books T t rest lost sets) (hs : Stores T m) (op : RbOp) :
    ∃ T' t' rest', exec .succeeds T op = some ((mapStep m op).1, T') ∧ Stores T' (mapStep m op).2 ∧
      Books T' t' rest' (lost + if Wastes m op then 1 else 0) (sets + if isSet op then 1 else 0) := by
  obtain ⟨T', hexec, hs'⟩ := exec_stores hs op
  suffices hb : ∃ ret T'' t' rest', exec .succeeds T op = some (ret, T'') ∧
      Books T'' t' rest' (lost + if Wastes m op then 1 else 0) (sets + if isSet op then 1 else 0) by
    obtain ⟨ret, T'', t', rest', hexec', hb⟩ := hb
    cases hexec.symm.trans hexec'
    exact ⟨T', t', rest', hexec, hs', hb⟩
  cases op with
  | set key value =>
      obtain ⟨T', t', rest', hrun, hb⟩ := set_books h hs key value
      exact ⟨_, T', t', rest', by rw [exec, hrun]; rfl, hb⟩
  | get key => exact ⟨_, T, t, rest, by rw [exec, get_stores hs key]; rfl, h⟩
  | delete key =>
      obtain ⟨code, T', t', rest', hrun, hb⟩ := delete_books h hs key
      exact ⟨_, T', t', rest', by rw [exec, hrun]; rfl, hb⟩
  | modify key value =>
      obtain ⟨code, T', t', rest', hrun, hb⟩ := modify_books h key value
      exact ⟨_, T', t', rest', by rw [exec, hrun]; rfl, hb⟩

theorem run_books (h : Books T t rest lost sets) (hs : Stores T m) (ops : List RbOp) :
    ∃ T' t' rest', run T ops = some ((mapRun m ops).1, T') ∧ Books T' t' rest' (lost + losses m ops) (sets + ops.countP isSet) := by
  induction ops generalizing T t rest lost sets m with
  | nil => exact ⟨T, t, rest, rfl, h⟩
  | cons op ops ih =>
      obtain ⟨T₁, t₁, rest₁, hexec, hs₁, hb₁⟩ := exec_books h hs op
      obtain ⟨T₂, t₂, rest₂, hrun, hb₂⟩ := ih hb₁ hs₁
      refine ⟨T₂, t₂, rest₂, ?_, ?_⟩
      · rw [run, hexec]
        simp only [hrun, Option.map_some, mapRun]
      · rw [losses, ← Nat.add_assoc, List.countP_cons, Nat.add_comm (ops.countP isSet), ← Nat.add_assoc]
        exact hb₂

/-- The books are in order after those sequences of calls that set no key twice
and delete none that is bound, as long as the counter does not overflow. -/
theorem accounted_iff_frugal (mem : Addr → RbNode) (ops : List RbOp) (hsets : ops.countP isSet < 2147483648) :
    ∃ T, run (kvstoreRbtreeCreate mem) ops = some ((mapRun (fun _ => none) ops).1, T) ∧
      (Accounted T ↔ Frugal (fun _ => none) ops) := by
  obtain ⟨T, t, rest, hrun, hb⟩ := run_books (create_books mem) (create_stores mem) ops
  refine ⟨T, hrun, ?_⟩
  rw [accounted_iff_of_books hb (by rwa [Nat.zero_add]), Nat.zero_add, losses_eq_zero]

def route : CStr := ⟨ascii "route", by decide⟩

def lobby : CStr := ⟨ascii "lobby", by decide⟩

def garbage : Addr → RbNode := fun _ => ⟨RED, 9, 9, 9, ⟨9, route⟩, none⟩

/-- A key is set and modified, another one is set and looked up. -/
theorem accounted_iff_frugal_of_two_keys :
    ∃ T, run (kvstoreRbtreeCreate garbage) [.set route route, .modify route lobby, .set lobby route, .get route] =
      some ([.code 0, .code 0, .code 0, .string (some lobby)], T) ∧ Accounted T := by
  obtain ⟨T, hrun, hiff⟩ := accounted_iff_frugal garbage
    [.set route route, .modify route lobby, .set lobby route, .get route] (by decide)
  have hfrugal : Frugal (fun _ => none) [.set route route, .modify route lobby, .set lobby route, .get route] := by
    rw [← losses_eq_zero]
    decide
  exact ⟨T, hrun, hiff.mpr hfrugal⟩

/-- A key is set and deleted: no node is left, but its three blocks are. -/
theorem set_delete_leaks :
    ∃ T, run (kvstoreRbtreeCreate garbage) [.set route route, .delete route] = some ([.code 0, .code 0], T) ∧
      T.root = T.nil ∧ T.live = [4, 3, 2, 1, 0] ∧ ¬ Accounted T := by
  obtain ⟨T, t, rest, hT, hb⟩ := run_books (create_books garbage) (create_stores garbage)
    [.set route route, .delete route]
  have hend : (run (kvstoreRbtreeCreate garbage) [.set route route, .delete route]).map
      (fun r => (r.2.root, r.2.nil, r.2.live)) = some (0, 0, [4, 3, 2, 1, 0]) := by decide +kernel
  rw [hT, Option.map_some, Option.some_inj, Prod.mk.injEq, Prod.mk.injEq] at hend
  obtain ⟨hroot, hnil, hlive⟩ := hend
  refine ⟨T, hT, hroot.trans hnil.symm, hlive, fun h => ?_⟩
  have hlost := (accounted_iff_of_books hb (by decide)).mp h
  exact absurd hlost (by decide)

end GameAccelerator.RbBookkeeping
