import GameAccelerator.ArrayEngine
import GameAccelerator.RbContents
import GameAccelerator.Writes
import Mathlib.Logic.Relation

namespace GameAccelerator.StoreAtomicity

open CString Platform Writes ArrayEngine RbEngine RbContents

section Array

variable {arr arr' : ArrayTable}

def ArrayCall (arr arr' : ArrayTable) : Prop := ∃ al op r, ArrayEngine.exec al arr op = .ok (r, arr')

theorem array_reached (h : Relation.ReflTransGen ArrayCall kvstoreArrayCreate arr) : Compact arr := by
  induction h with
  | refl => exact create_holds.compact
  | tail _ hc ih =>
      obtain ⟨al, op, r, he⟩ := hc
      exact exec_compact ih he

theorem array_set_atomic (h : Compact arr) (al : Alloc) (key value : CStr) :
    AllOrNothing kvstoreArrayGet (kvstoreArrayGet arr key = .ok none) key (.ok (some value)) arr
      (kvstoreArraySet al arr key value) := by
  rcases set_split h al key value with ⟨hfail, -⟩ | ⟨pre, post, arr', hdone, -⟩
  · rw [hfail]
    exact .of_same (fun _ => rfl) fun hc => absurd hc (by decide)
  · obtain ⟨-, hother, hown⟩ := get_set h hdone
    rw [hdone]
    exact ⟨fun _ hnone => ⟨hown hnone, hother⟩, fun hc => absurd rfl hc⟩

theorem array_modify_atomic_iff (h : Compact arr) (al : Alloc) (key value : CStr) :
    (∃ r, kvstoreArrayModify al arr key value = .ok r ∧
      AllOrNothing kvstoreArrayGet True key (.ok (some value)) arr r) ↔
    kvstoreArrayGet arr key = .ok none ∨ (∃ v, kvstoreArrayGet arr key = .ok (some v)) ∧ al.value := by
  rcases modify_cases h al key value with ⟨hget, hmod⟩ | ⟨hget, hmod⟩ | ⟨v, arr', hget, hmod, -, hnew⟩
  · apply iff_of_true _ (.inl hget)
    exact ⟨_, hmod, .of_same (fun _ => rfl) fun hc => absurd hc (by decide)⟩
  · rw [hmod, hget]
    apply iff_of_false
    · rintro ⟨r, hr, -⟩
      cases hr
    · rintro (hn | ⟨⟨v, hv⟩, -⟩)
      · cases hn
      · cases hv
  · cases hal : al.value with
    | true =>
        simp only [hal, if_true] at hmod hnew
        exact iff_of_true ⟨_, hmod, .of_update hnew⟩ (.inr ⟨⟨v, hget⟩, rfl⟩)
    | false =>
        simp only [hal, Bool.false_eq_true, if_false] at hmod hnew
        rw [hmod, hget]
        apply iff_of_false
        · rintro ⟨r, hr, ha⟩
          cases hr
          rw [AllOrNothing.failed_iff (by decide) hnew, hget] at ha
          cases ha
        · rintro (hn | ⟨-, hv⟩)
          · cases hn
          · cases hv

end Array

section Tree

variable {T T' : RbTree} {b : CStr → Option (Option CStr)}

def TreeCall (T T' : RbTree) : Prop := ∃ al op r, RbContents.exec al T op = some (r, T')

theorem exec_binds (h : Binds T b) (al : Alloc) (op : RbOp) :
    ∃ r T' b', RbContents.exec al T op = some (r, T') ∧ Binds T' b' := by
  cases op with
  | set key value =>
      by_cases hal : al.node ∧ al.key ∧ al.value
      · obtain ⟨T', hset, hb⟩ := set_binds h key value
        rw [RbContents.exec, set_of_memory hal, hset]
        exact ⟨_, T', _, rfl, hb⟩
      · obtain ⟨T', hset, hb⟩ := set_refused_binds h hal key value
        rw [RbContents.exec, hset]
        exact ⟨_, T', _, rfl, hb⟩
  | get key =>
      rw [RbContents.exec, get_binds h]
      exact ⟨_, T, _, rfl, h⟩
  | delete key =>
      obtain ⟨T', hdel, hb⟩ := delete_binds h key
      rw [RbContents.exec, hdel]
      exact ⟨_, T', _, rfl, hb⟩
  | modify key value =>
      obtain ⟨T', hmod, hb⟩ := modify_binds h al key value
      rw [RbContents.exec, hmod]
      exact ⟨_, T', _, rfl, hb⟩

theorem tree_reached {mem : Addr → RbNode} (h : Relation.ReflTransGen TreeCall (kvstoreRbtreeCreate mem) T) :
    ∃ b, Binds T b := by
  induction h with
  | refl => exact ⟨_, stores_iff.mp (create_stores mem)⟩
  | tail _ hc ih =>
      obtain ⟨al, op, r, he⟩ := hc
      obtain ⟨b, hb⟩ := ih
      obtain ⟨r', T', b', hrun, hb'⟩ := exec_binds hb al op
      cases he.symm.trans hrun
      exact ⟨b', hb'⟩

/-- The key has a node, and the node has lost its value. -/
def Emptied (T : RbTree) (key : CStr) : Prop :=
  ∃ p, rbtreeSearch T key = some p ∧ p ≠ T.nil ∧ (T.node p).value = none

theorem emptied_iff (h : Binds T b) (key : CStr) : Emptied T key ↔ b key = some none := by
  obtain ⟨t, hT, hm⟩ := h
  rw [Emptied, RbDescent.rbtreeSearch_eq]
  rcases locate hT key with ⟨ctx, rfl, hd, hb⟩ | ⟨ctx, c, l, a, r, rfl, hd, hne, rfl⟩
  · rw [hd, unbound hb hm]
    simp
  · have hnode := RbFocus.holds_node (show RbShape.Holds T (RedBlack.plug ctx (RedBlack.join .left c l a r)) from hT.holds)
    rw [hd, bound hm]
    simp [hne, hnode, RbShape.mkNode]

theorem get_update {v : Option CStr} {key : CStr} (h : Binds T b) (h' : Binds T' (Function.update b key (some v)))
    (k : CStr) : kvsRbtreeGet T' k = if key = k then some v else kvsRbtreeGet T k := by
  rw [get_binds h', get_binds h]
  split_ifs with hk
  · rw [hk, Function.update_self]
    rfl
  · rw [Function.update_of_ne (Ne.symm hk)]

theorem get_same (h : Binds T b) (h' : Binds T' b) (k : CStr) : kvsRbtreeGet T' k = kvsRbtreeGet T k := by
  rw [get_binds h', get_binds h]

theorem tree_set_atomic_iff (h : Binds T b) (al : Alloc) (key value : CStr) :
    (∃ r, kvsRbtreeSet al T key value = some r ∧
      AllOrNothing kvsRbtreeGet (kvsRbtreeGet T key = some none) key (some (some value)) T r) ↔
    ¬ (Emptied T key ∧ al.node ∧ al.key ∧ al.value) := by
  rw [emptied_iff h]
  by_cases hal : al.node ∧ al.key ∧ al.value
  · obtain ⟨T', hset, hb⟩ := set_binds h key value
    have hget := get_binds h key
    rw [set_of_memory hal, hset]
    rcases hkey : b key with _ | _ | v
    · rw [hkey] at hb
      refine iff_of_true ⟨_, rfl, .of_update (get_update h hb)⟩ ?_
      rintro ⟨he, -⟩
      cases he
    · -- the node is found and left as it is
      rw [hkey] at hb hget
      apply iff_of_false
      · rintro ⟨r, hr, ha⟩
        cases hr
        have hnew := (ha.done rfl hget).1
        rw [get_same h hb, hget] at hnew
        cases hnew
      · exact fun hn => hn ⟨rfl, hal⟩
    · rw [hkey] at hb hget
      refine iff_of_true ⟨_, rfl, .of_same (get_same h hb) fun _ hnone => ?_⟩ ?_
      · cases hget.symm.trans hnone
      · rintro ⟨he, -⟩
        cases he
  · obtain ⟨T', hset, hb⟩ := set_refused_binds h hal key value
    exact iff_of_true ⟨_, hset, .of_same (get_same h hb) fun hc => absurd hc (by decide)⟩ fun he => hal he.2

theorem tree_modify_atomic_iff (h : Binds T b) (al : Alloc) (key value : CStr) :
    (∃ r, kvsRbtreeModify al T key value = some r ∧ AllOrNothing kvsRbtreeGet True key (some (some value)) T r) ↔
      ((∃ v, kvsRbtreeGet T key = some (some v)) → al.value) := by
  obtain ⟨T', hmod, hb⟩ := modify_binds h al key value
  have hget := get_binds h key
  rw [hmod]
  rcases hkey : b key with _ | old
  · rw [hkey] at hb hget
    refine iff_of_true ⟨_, rfl, .of_same (get_same h hb) fun hc => by simp at hc⟩ ?_
    rintro ⟨v, hv⟩
    cases hget.symm.trans hv
  · rw [hkey] at hb hget
    have hnew := get_update h hb
    cases hal : al.value with
    | true =>
        simp only [hal, if_true] at hnew
        exact iff_of_true ⟨_, rfl, .of_update hnew⟩ fun _ => rfl
    | false =>
        simp only [hal, Bool.false_eq_true, if_false] at hnew
        simp only [Bool.false_eq_true, and_false, if_false, Option.some.injEq, exists_eq_left']
        rw [AllOrNothing.failed_iff (by decide) hnew, hget]
        cases old <;> simp

end Tree

/-- The array loses nothing in a SET and the value in a MOD without memory; the
tree loses the value in a MOD without memory, and a SET does not bring back a
value that was lost so. -/
theorem store_writes_atomic_iff (al : Alloc) (key value : CStr) :
    (∀ arr, Relation.ReflTransGen ArrayCall kvstoreArrayCreate arr →
      AllOrNothing kvstoreArrayGet (kvstoreArrayGet arr key = .ok none) key (.ok (some value)) arr
        (kvstoreArraySet al arr key value) ∧
      ((∃ r, kvstoreArrayModify al arr key value = .ok r ∧
        AllOrNothing kvstoreArrayGet True key (.ok (some value)) arr r) ↔
        kvstoreArrayGet arr key = .ok none ∨ (∃ v, kvstoreArrayGet arr key = .ok (some v)) ∧ al.value)) ∧
    ∀ mem T, Relation.ReflTransGen TreeCall (kvstoreRbtreeCreate mem) T →
      ((∃ r, kvsRbtreeSet al T key value = some r ∧
        AllOrNothing kvsRbtreeGet (kvsRbtreeGet T key = some none) key (some (some value)) T r) ↔
        ¬ (Emptied T key ∧ al.node ∧ al.key ∧ al.value)) ∧
      ((∃ r, kvsRbtreeModify al T key value = some r ∧
        AllOrNothing kvsRbtreeGet True key (some (some value)) T r) ↔
        ((∃ v, kvsRbtreeGet T key = some (some v)) → al.value)) := by
  constructor
  · intro arr h
    have hc := array_reached h
    exact ⟨array_set_atomic hc al key value, array_modify_atomic_iff hc al key value⟩
  · intro mem T h
    obtain ⟨b, hb⟩ := tree_reached h
    exact ⟨tree_set_atomic_iff hb al key value, tree_modify_atomic_iff hb al key value⟩

theorem lobby_noNul : (0 : UInt8) ∉ ascii "lobby" := by decide

def lobby : CStr := ⟨ascii "lobby", lobby_noNul⟩

def node : CStr := ⟨ascii "10.0.0.1:9000", by decide⟩

/-- No memory for a value. -/
def noValue : Alloc := { Alloc.succeeds with value := false }

theorem exists_array : ∃ arr m, Relation.ReflTransGen ArrayCall kvstoreArrayCreate arr ∧ Holds arr m ∧
    kvstoreArrayGet arr lobby = .ok (some node) := by
  have hroom : (items kvstoreArrayCreate.arrayTable).length < kvsArraySize := by
    rw [create_items]
    decide
  obtain ⟨arr, hset, hh⟩ := @set_holds _ _ create_holds lobby node rfl hroom
  have hcall : ArrayCall kvstoreArrayCreate arr := ⟨.succeeds, .set lobby node, 0, congrArg Except.ok hset⟩
  have hget := get_holds hh lobby
  rw [Function.update_self] at hget
  exact ⟨arr, _, .single hcall, hh, hget⟩

theorem exists_tree (mem : Addr → RbNode) : ∃ T b, Relation.ReflTransGen TreeCall (kvstoreRbtreeCreate mem) T ∧ Binds T b ∧
    b lobby = some (some node) := by
  obtain ⟨T, hset, hb⟩ := set_binds (stores_iff.mp (create_stores mem)) lobby node
  rw [if_neg (by decide)] at hb
  have hcall : TreeCall (kvstoreRbtreeCreate mem) T :=
    ⟨.succeeds, .set lobby node, .code 0, by rw [RbContents.exec, hset]; rfl⟩
  exact ⟨T, _, .single hcall, hb, Function.update_self ..⟩

/-- In a store with a binding, a SET of another key without memory for the value
changes nothing. -/
theorem set_without_memory_keeps :
    (∃ arr, kvstoreArrayGet arr lobby = .ok (some node) ∧
      AllOrNothing kvstoreArrayGet (kvstoreArrayGet arr node = .ok none) node (.ok (some lobby)) arr
        (kvstoreArraySet noValue arr node lobby)) ∧
    ∀ mem, ∃ T r, Relation.ReflTransGen TreeCall (kvstoreRbtreeCreate mem) T ∧ kvsRbtreeGet T lobby = some (some node) ∧
      kvsRbtreeSet noValue T node lobby = some r ∧
      AllOrNothing kvsRbtreeGet (kvsRbtreeGet T node = some none) node (some (some lobby)) T r := by
  obtain ⟨harray, htree⟩ := store_writes_atomic_iff noValue node lobby
  constructor
  · obtain ⟨arr, m, hcalls, -, hget⟩ := exists_array
    exact ⟨arr, hget, (harray arr hcalls).1⟩
  · intro mem
    obtain ⟨T, b, hcalls, hb, hlobby⟩ := exists_tree mem
    obtain ⟨r, hset, hkeeps⟩ := (htree mem T hcalls).1.mpr fun hmemory => Bool.false_ne_true hmemory.2.2.2
    refine ⟨T, r, hcalls, ?_, hset, hkeeps⟩
    rw [get_binds hb, hlobby]
    rfl

/-- A MOD reports that it has failed; the value of the key is released memory in
the array and gone from the tree. -/
theorem failed_modify_loses_value :
    (∃ arr arr', Relation.ReflTransGen ArrayCall kvstoreArrayCreate arr ∧
      kvstoreArrayModify noValue arr lobby lobby = .ok (-1, arr') ∧
      kvstoreArrayGet arr lobby = .ok (some node) ∧ kvstoreArrayGet arr' lobby = .error .useAfterFree) ∧
    ∀ mem, ∃ T T', Relation.ReflTransGen TreeCall (kvstoreRbtreeCreate mem) T ∧
      kvsRbtreeModify noValue T lobby lobby = some (-1, T') ∧
      kvsRbtreeGet T lobby = some (some node) ∧ kvsRbtreeGet T' lobby = some none := by
  constructor
  · obtain ⟨arr, m, hcalls, hh, hget⟩ := exists_array
    rcases modify_cases hh.compact noValue lobby lobby with ⟨hn, -⟩ | ⟨he, -⟩ | ⟨v, arr', -, hmod, -, hnew⟩
    · cases hget.symm.trans hn
    · cases hget.symm.trans he
    · exact ⟨arr, arr', hcalls, hmod, hget, hnew lobby⟩
  · intro mem
    obtain ⟨T, b, hcalls, hb, hlobby⟩ := exists_tree mem
    have hget := get_binds hb lobby
    obtain ⟨T', hmod, hb'⟩ := modify_binds hb noValue lobby lobby
    have hlost := get_binds hb' lobby
    simp only [hlobby, Option.isSome_some, if_true] at hget hlost hmod
    exact ⟨T, T', hcalls, hmod, hget, hlost⟩

end GameAccelerator.StoreAtomicity
