import GameAccelerator.Buckets
import GameAccelerator.Platform

namespace GameAccelerator.ArrayEngine

open CString Platform Buckets

def kvsArraySize : Nat := 1024

structure Item where
  key : CStr
  -- released and not replaced by a MOD whose allocation failed
  value : Option CStr
  deriving DecidableEq

/-- A slot whose key is NULL is `none`. -/
structure ArrayTable where
  arrayTable : List (Option Item)
  size : arrayTable.length = kvsArraySize
  arrayIdx : Nat

def kvstoreArrayCreate : ArrayTable := ⟨List.replicate kvsArraySize none, List.length_replicate, 0⟩

def ArrayTable.put (arr : ArrayTable) (idx : Nat) (slot : Option Item) : ArrayTable :=
  { arr with
    arrayTable := arr.arrayTable.set idx slot
    size := (List.length_set ..).trans arr.size }

/-- A key is put into the first free slot, whether or not it is in the table. -/
def kvstoreArraySet (al : Alloc) (arr : ArrayTable) (key value : CStr) : Int × ArrayTable :=
  let idx := arr.arrayTable.findIdx Option.isNone
  if idx = kvsArraySize then (-1, arr)
  else if al.key ∧ al.value then
    let arr := arr.put idx (some ⟨key, some value⟩)
    (0, if idx = arr.arrayIdx then { arr with arrayIdx := arr.arrayIdx + 1 } else arr)
  else (-1, arr)

/-- The loop over the slots, from the first one on. -/
def scan (key : CStr) : List (Option Item) → Option (Nat × Item)
  | [] => none
  | none :: slots => (scan key slots).map fun r => (r.1 + 1, r.2)
  | some item :: slots =>
      if strcmp item.key key = 0 then some (0, item) else (scan key slots).map fun r => (r.1 + 1, r.2)

def ArrayTable.scan (arr : ArrayTable) (key : CStr) : Option (Nat × Item) :=
  ArrayEngine.scan key (arr.arrayTable.take arr.arrayIdx)

def kvstoreArrayGet (arr : ArrayTable) (key : CStr) : Except Fault (Option CStr) :=
  match arr.scan key with
  | some (_, ⟨_, some value⟩) => .ok (some value)
  | some (_, ⟨_, none⟩) => .error .useAfterFree
  | none => .ok none

def kvstoreArrayDelete (arr : ArrayTable) (key : CStr) : Except Fault (Int × ArrayTable) :=
  match arr.scan key with
  | some (idx, ⟨_, some _⟩) => .ok (0, arr.put idx none)
  | some (_, ⟨_, none⟩) => .error .useAfterFree
  | none => .ok (1, arr)

def kvstoreArrayModify (al : Alloc) (arr : ArrayTable) (key value : CStr) : Except Fault (Int × ArrayTable) :=
  match arr.scan key with
  | some (idx, ⟨k, some _⟩) =>
      if al.value then .ok (0, arr.put idx (some ⟨k, some value⟩)) else .ok (-1, arr.put idx (some ⟨k, none⟩))
  | some (_, ⟨_, none⟩) => .error .useAfterFree
  | none => .ok (1, arr)

/-- The occupied slots, in their order. -/
def items (slots : List (Option Item)) : List Item := slots.filterMap id

@[simp] theorem items_none (slots : List (Option Item)) : items (none :: slots) = items slots := rfl

@[simp] theorem items_some (item : Item) (slots : List (Option Item)) :
    items (some item :: slots) = item :: items slots := rfl

@[simp] theorem items_append (l l' : List (Option Item)) : items (l ++ l') = items l ++ items l' :=
  List.filterMap_append

theorem items_drop {slots : List (Option Item)} (h : items slots = []) (n : Nat) : items (slots.drop n) = [] := by
  have happ := items_append (slots.take n) (slots.drop n)
  rw [List.take_append_drop, h] at happ
  exact (List.append_eq_nil_iff.mp happ.symm).2

/-- No slot from `array_idx` on is occupied. -/
def Compact (arr : ArrayTable) : Prop := items (arr.arrayTable.drop arr.arrayIdx) = []

theorem scan_spec (key : CStr) (slots : List (Option Item)) :
    (scan key slots = none ∧ find Item.key key (items slots) = none) ∨
      ∃ pre item post, slots = pre ++ some item :: post ∧ find Item.key key (items pre) = none ∧ item.key = key ∧
        scan key slots = some (pre.length, item) := by
  induction slots with
  | nil => exact .inl ⟨rfl, rfl⟩
  | cons slot slots ih =>
      cases slot with
      | none =>
          rcases ih with ⟨hs, hf⟩ | ⟨pre, item, post, rfl, hf, hk, hs⟩
          · exact .inl ⟨by rw [scan, hs]; rfl, by rw [items_none, hf]⟩
          · exact .inr ⟨none :: pre, item, post, rfl, hf, hk, by rw [scan, hs]; rfl⟩
      | some item =>
          by_cases hk : item.key = key
          · exact .inr ⟨[], item, slots, rfl, rfl, hk, by simp [scan, strcmp_eq_zero.mpr hk]⟩
          · have hs' : strcmp item.key key ≠ 0 := fun h => hk (strcmp_eq_zero.mp h)
            rcases ih with ⟨hs, hf⟩ | ⟨pre, c, post, rfl, hf, hc, hs⟩
            · exact .inl ⟨by simp [scan, hs', hs], by rw [items_some, find_cons, if_neg hk, hf]⟩
            · refine .inr ⟨some item :: pre, c, post, rfl, ?_, hc, by simp [scan, hs', hs]⟩
              rw [items_some, find_cons, if_neg hk, hf]

variable {arr : ArrayTable}

theorem items_take (h : Compact arr) : items (arr.arrayTable.take arr.arrayIdx) = items arr.arrayTable := by
  have happ := items_append (arr.arrayTable.take arr.arrayIdx) (arr.arrayTable.drop arr.arrayIdx)
  rw [List.take_append_drop, h, List.append_nil] at happ
  exact happ.symm

theorem find_first {pre post : List (Option Item)} {item : Item} (hf : find Item.key item.key (items pre) = none)
    (k : CStr) : find Item.key k (items (pre ++ some item :: post)) =
      if item.key = k then some item else find Item.key k (items (pre ++ post)) := by
  rw [items_append, items_some, find_inserted hf, items_append]

/-- The loop below `array_idx` sees the whole table, and stops at the first item
with the key. -/
theorem scan_cases (h : Compact arr) (key : CStr) :
    (arr.scan key = none ∧ find Item.key key (items arr.arrayTable) = none) ∨
      ∃ pre item post, arr.arrayTable = pre ++ some item :: post ∧ pre.length < arr.arrayIdx ∧
        find Item.key key (items pre) = none ∧ item.key = key ∧
        find Item.key key (items arr.arrayTable) = some item ∧ arr.scan key = some (pre.length, item) := by
  rw [← items_take h, ArrayTable.scan]
  rcases scan_spec key (arr.arrayTable.take arr.arrayIdx) with hnone | ⟨pre, item, post, hsplit, hf, hk, hs⟩
  · exact .inl hnone
  · refine .inr ⟨pre, item, post ++ arr.arrayTable.drop arr.arrayIdx, ?_, ?_, hf, hk, ?_, hs⟩
    · rw [← List.cons_append, ← List.append_assoc, ← hsplit, List.take_append_drop]
    · have hlen := congrArg List.length hsplit
      rw [List.length_take, List.length_append, List.length_cons] at hlen
      omega
    · rw [hsplit, find_first (hk ▸ hf), if_pos hk]

theorem put_split {pre post : List (Option Item)} {slot : Option Item} (h : arr.arrayTable = pre ++ slot :: post)
    (slot' : Option Item) : (arr.put pre.length slot').arrayTable = pre ++ slot' :: post := by
  change arr.arrayTable.set pre.length slot' = pre ++ slot' :: post
  rw [h, List.set_append_right _ _ (le_refl _), Nat.sub_self, List.set_cons_zero]

theorem put_compact (h : Compact arr) {idx : Nat} (hlt : idx < arr.arrayIdx) (slot : Option Item) :
    Compact (arr.put idx slot) := by
  change items ((arr.arrayTable.set idx slot).drop arr.arrayIdx) = []
  rw [List.drop_set, if_pos hlt]
  exact h

theorem items_put {pre post : List (Option Item)} {slot : Option Item} (h : arr.arrayTable = pre ++ slot :: post)
    (slot' : Option Item) :
    (items (arr.put pre.length slot').arrayTable).Perm (items [slot'] ++ items (pre ++ post)) := by
  rw [put_split h, List.append_cons, items_append, items_append, items_append, ← List.append_assoc]
  exact List.perm_append_comm.append_right _

theorem occupied_eq_nil {slots : List (Option Item)} (h : ∀ slot ∈ slots, slot.isSome) (he : items slots = []) :
    slots = [] := by
  cases slots with
  | nil => rfl
  | cons slot slots =>
      obtain ⟨item, rfl⟩ := Option.isSome_iff_exists.mp (h slot List.mem_cons_self)
      cases he

theorem occupied_length {slots : List (Option Item)} (h : ∀ slot ∈ slots, slot.isSome) :
    (items slots).length = slots.length := by
  induction slots with
  | nil => rfl
  | cons slot slots ih =>
      obtain ⟨item, rfl⟩ := Option.isSome_iff_exists.mp (h slot List.mem_cons_self)
      rw [items_some, List.length_cons, List.length_cons, ih fun s hs => h s (List.mem_cons_of_mem _ hs)]

/-- The search of the SET: every slot is occupied, or the first free one has
occupied slots in front of it. -/
theorem findIdx_cases (slots : List (Option Item)) :
    (slots.findIdx Option.isNone = slots.length ∧ ∀ slot ∈ slots, slot.isSome) ∨
      ∃ pre post, slots = pre ++ none :: post ∧ (∀ slot ∈ pre, slot.isSome) ∧
        slots.findIdx Option.isNone = pre.length := by
  induction slots with
  | nil => exact .inl ⟨rfl, by simp⟩
  | cons slot slots ih =>
      cases slot with
      | none => exact .inr ⟨[], slots, rfl, by simp, by simp [List.findIdx_cons]⟩
      | some item =>
          rcases ih with ⟨hi, hall⟩ | ⟨pre, post, rfl, hall, hi⟩
          · exact .inl ⟨by simp [List.findIdx_cons, hi], by simpa using hall⟩
          · exact .inr ⟨some item :: pre, post, rfl, by simpa using hall, by simp [List.findIdx_cons, hi]⟩

/-- The first free slot is below `array_idx` or right there. -/
theorem free_le (h : Compact arr) {pre post : List (Option Item)} (hsplit : arr.arrayTable = pre ++ none :: post)
    (hall : ∀ slot ∈ pre, slot.isSome) : pre.length ≤ arr.arrayIdx := by
  rw [Compact, hsplit, List.drop_append, items_append] at h
  have hnil := occupied_eq_nil (fun s hs => hall s (List.mem_of_mem_drop hs)) (List.append_eq_nil_iff.mp h).1
  exact List.drop_eq_nil_iff.mp hnil

/-- A SET fills the first free slot or leaves the table as it is. -/
theorem set_split (h : Compact arr) (al : Alloc) (key value : CStr) :
    (kvstoreArraySet al arr key value = (-1, arr) ∧
      (al.key ∧ al.value → (items arr.arrayTable).length = kvsArraySize)) ∨
    ∃ pre post arr', kvstoreArraySet al arr key value = (0, arr') ∧ Compact arr' ∧
      arr.arrayTable = pre ++ none :: post ∧ arr'.arrayTable = pre ++ some ⟨key, some value⟩ :: post := by
  unfold kvstoreArraySet
  rcases findIdx_cases arr.arrayTable with ⟨hi, hall⟩ | ⟨pre, post, hsplit, hall, hi⟩
  · refine .inl ⟨?_, fun _ => (occupied_length hall).trans arr.size⟩
    rw [hi, arr.size]
    rfl
  · have hlt : pre.length ≠ kvsArraySize := by
      rw [← arr.size, hsplit, List.length_append, List.length_cons]
      omega
    rw [hi]
    simp only [hlt, if_false]
    by_cases hal : al.key ∧ al.value
    · rw [if_pos hal]
      refine .inr ⟨pre, post, _, rfl, ?_, hsplit, ?_⟩
      · have hle := free_le h hsplit hall
        split_ifs with heq
        · change items ((arr.arrayTable.set pre.length _).drop (arr.arrayIdx + 1)) = []
          have heq' : pre.length = arr.arrayIdx := heq
          rw [List.drop_set, if_pos (by omega), ← List.drop_drop]
          exact items_drop h 1
        · exact put_compact h (Nat.lt_of_le_of_ne hle heq) _
      · split_ifs <;> exact put_split hsplit _
    · rw [if_neg hal]
      exact .inl ⟨rfl, fun h => absurd h hal⟩

theorem set_cases (h : Compact arr) (key value : CStr) :
    (kvstoreArraySet .succeeds arr key value = (-1, arr) ∧ (items arr.arrayTable).length = kvsArraySize) ∨
      ∃ arr', kvstoreArraySet .succeeds arr key value = (0, arr') ∧ Compact arr' ∧
        (items arr'.arrayTable).Perm (⟨key, some value⟩ :: items arr.arrayTable) := by
  rcases set_split h .succeeds key value with ⟨hset, hfull⟩ | ⟨pre, post, arr', hset, hc, hsplit, hsplit'⟩
  · exact .inl ⟨hset, hfull ⟨rfl, rfl⟩⟩
  · refine .inr ⟨arr', hset, hc, ?_⟩
    rw [hsplit, hsplit', items_append, items_append, items_none, items_some]
    exact List.perm_middle

/-- What a look at an item gives. -/
def read : Option Item → Except Fault (Option CStr)
  | some ⟨_, some value⟩ => .ok (some value)
  | some ⟨_, none⟩ => .error .useAfterFree
  | none => .ok none

theorem get_eq (h : Compact arr) (key : CStr) :
    kvstoreArrayGet arr key = read (find Item.key key (items arr.arrayTable)) := by
  rw [kvstoreArrayGet]
  rcases scan_cases h key with ⟨hs, hf⟩ | ⟨pre, item, post, -, -, -, -, hf, hs⟩
  · rw [hs, hf]
    rfl
  · rw [hs, hf]
    obtain ⟨k, value⟩ := item
    cases value <;> rfl

/-- The first item of a key: what a DEL and a MOD make of the table. -/
theorem found_cases (h : Compact arr) (key : CStr) :
    (arr.scan key = none ∧ find Item.key key (items arr.arrayTable) = none) ∨
      ∃ idx item rest, arr.scan key = some (idx, item) ∧ item.key = key ∧
        find Item.key key (items arr.arrayTable) = some item ∧ (items arr.arrayTable).Perm (item :: rest) ∧
        ∀ slot, Compact (arr.put idx slot) ∧ (items (arr.put idx slot).arrayTable).Perm (items [slot] ++ rest) := by
  rcases scan_cases h key with hnone | ⟨pre, item, post, hsplit, hlt, -, hk, hf, hs⟩
  · exact .inl hnone
  · refine .inr ⟨pre.length, item, items (pre ++ post), hs, hk, hf, ?_,
      fun slot => ⟨put_compact h hlt slot, items_put hsplit slot⟩⟩
    rw [hsplit, items_append, items_some, items_append]
    exact List.perm_middle

/-- The table has one item with a value for every bound key and no other. -/
structure Holds (arr : ArrayTable) (m : CStr → Option CStr) : Prop where
  compact : Compact arr
  nodup : ((items arr.arrayTable).map Item.key).Nodup
  bound : ∀ k, find Item.key k (items arr.arrayTable) = (m k).map fun v => ⟨k, some v⟩

variable {m : CStr → Option CStr}

theorem items_replicate (n : Nat) : items (List.replicate n none) = [] := by
  induction n with
  | zero => rfl
  | succ n ih => exact ih

theorem create_items : items kvstoreArrayCreate.arrayTable = [] := items_replicate kvsArraySize

theorem create_holds : Holds kvstoreArrayCreate fun _ => none := by
  refine ⟨create_items, ?_, fun k => ?_⟩
  · rw [create_items]
    exact List.nodup_nil
  · rw [create_items]
    rfl

theorem Holds.items_length (h : Holds arr m) {ks : List CStr} (hlive : Live ks m) :
    (items arr.arrayTable).length = ks.length := by
  have hperm : ((items arr.arrayTable).map Item.key).Perm ks := by
    apply (List.perm_ext_iff_of_nodup h.nodup hlive.nodup).mpr
    intro k
    rw [hlive.bound, ← Option.isSome_map, ← h.bound k, find, List.find?_isSome]
    simp
  rw [← hperm.length_eq, List.length_map]

theorem Holds.update (h : Holds arr m) {arr' : ArrayTable} {key : CStr} {v : Option CStr} (hc : Compact arr')
    (hn : ((items arr'.arrayTable).map Item.key).Nodup)
    (hfind : ∀ k, find Item.key k (items arr'.arrayTable) =
      if key = k then v.map fun v => ⟨key, some v⟩ else find Item.key k (items arr.arrayTable)) :
    Holds arr' (Function.update m key v) := by
  refine ⟨hc, hn, fun k => ?_⟩
  rw [hfind k]
  by_cases hk : key = k
  · subst hk
    rw [if_pos rfl, Function.update_self]
  · rw [if_neg hk, Function.update_of_ne (Ne.symm hk), h.bound]

theorem set_done_holds (h : Holds arr m) {key value : CStr} (hkey : m key = none) {arr' : ArrayTable}
    (hset : kvstoreArraySet .succeeds arr key value = (0, arr')) : Holds arr' (Function.update m key (some value)) := by
  rcases set_cases h.compact key value with ⟨hfull, -⟩ | ⟨arr₁, hdone, hc, hperm⟩
  · cases hfull.symm.trans hset
  · cases hdone.symm.trans hset
    have hnone : find Item.key key (items arr.arrayTable) = none := by rw [h.bound, hkey]; rfl
    obtain ⟨hn, hfind⟩ := find_added (a := ⟨key, some value⟩) h.nodup hperm hnone
    exact h.update hc hn hfind

theorem set_holds (h : Holds arr m) {key : CStr} (value : CStr) (hkey : m key = none)
    (hroom : (items arr.arrayTable).length < kvsArraySize) :
    ∃ arr', kvstoreArraySet .succeeds arr key value = (0, arr') ∧ Holds arr' (Function.update m key (some value)) := by
  rcases set_cases h.compact key value with ⟨-, hfull⟩ | ⟨arr', hset, -⟩
  · omega
  · exact ⟨arr', hset, set_done_holds h hkey hset⟩

theorem get_holds (h : Holds arr m) (key : CStr) : kvstoreArrayGet arr key = .ok (m key) := by
  rw [get_eq h.compact, h.bound]
  cases m key <;> rfl

theorem delete_holds (h : Holds arr m) (key : CStr) :
    ∃ arr', kvstoreArrayDelete arr key = .ok (if (m key).isSome then 0 else 1, arr') ∧
      Holds arr' (if (m key).isSome then Function.update m key none else m) := by
  rw [kvstoreArrayDelete]
  rcases found_cases h.compact key with ⟨hs, hf⟩ | ⟨idx, item, rest, hs, hk, hf, hold, hput⟩
  · rw [h.bound, Option.map_eq_none_iff] at hf
    rw [hs, hf]
    exact ⟨arr, rfl, h⟩
  · rw [h.bound, Option.map_eq_some_iff] at hf
    obtain ⟨v, hv, rfl⟩ := hf
    obtain ⟨hc, hnew⟩ := hput none
    obtain ⟨hn, hfind⟩ := find_removed h.nodup hold hnew
    rw [hs, hv]
    exact ⟨_, rfl, h.update hc hn hfind⟩

theorem get_of_item (h : Compact arr) {key : CStr} (hall : ∀ x ∈ items arr.arrayTable, x.value.isSome)
    (hpos : 0 < (items arr.arrayTable).countP (·.key = key)) :
    ∃ v, ⟨key, some v⟩ ∈ items arr.arrayTable ∧ kvstoreArrayGet arr key = .ok (some v) := by
  obtain ⟨y, hy, hyk⟩ := List.countP_pos_iff.mp hpos
  rw [get_eq h]
  cases hf : find Item.key key (items arr.arrayTable) with
  | none => exact absurd hyk (List.find?_eq_none.mp hf y hy)
  | some x =>
      have hx := List.mem_of_find?_eq_some hf
      have hk : x.key = key := by simpa using List.find?_some hf
      obtain ⟨k, value⟩ := x
      obtain ⟨v, rfl⟩ := Option.isSome_iff_exists.mp (hall _ hx)
      cases hk
      exact ⟨v, hx, rfl⟩

/-- A DEL takes one item of the key away, and no more. -/
theorem delete_of_item (h : Compact arr) {key : CStr} (hall : ∀ x ∈ items arr.arrayTable, x.value.isSome)
    (hpos : 0 < (items arr.arrayTable).countP (·.key = key)) :
    ∃ arr', kvstoreArrayDelete arr key = .ok (0, arr') ∧ Compact arr' ∧
      (∀ x ∈ items arr'.arrayTable, x ∈ items arr.arrayTable) ∧
      (items arr.arrayTable).countP (·.key = key) = (items arr'.arrayTable).countP (·.key = key) + 1 := by
  obtain ⟨y, hy, hyk⟩ := List.countP_pos_iff.mp hpos
  rw [kvstoreArrayDelete]
  rcases found_cases h key with ⟨-, hf⟩ | ⟨idx, item, rest, hs, hk, hf, hitems, hput⟩
  · exact absurd hyk (List.find?_eq_none.mp hf y hy)
  · obtain ⟨hc, hnew⟩ := hput none
    have hv := hall item (List.mem_of_find?_eq_some hf)
    obtain ⟨k, value⟩ := item
    obtain ⟨v, rfl⟩ := Option.isSome_iff_exists.mp hv
    rw [hs]
    refine ⟨arr.put idx none, rfl, hc, fun x hx => ?_, ?_⟩
    · exact hitems.mem_iff.mpr (List.mem_cons_of_mem _ (hnew.mem_iff.mp hx))
    · rw [hitems.countP_eq, List.countP_cons_of_pos (by simpa using hk), hnew.countP_eq]
      rfl

/-- A SET of a bound key adds a second item, and one of the two outlives a DEL. -/
theorem duplicate_survives (h : Holds arr m) {key value : CStr} (hsome : (m key).isSome) {arr' : ArrayTable}
    (hset : kvstoreArraySet .succeeds arr key value = (0, arr')) :
    ∃ arr'' v, kvstoreArrayDelete arr' key = .ok (0, arr'') ∧ kvstoreArrayGet arr'' key = .ok (some v) ∧
      (v = value ∨ m key = some v) := by
  have hbound : ∀ x ∈ items arr.arrayTable, ∃ v, x.value = some v ∧ m x.key = some v := by
    intro x hx
    have hf := (find_eq_some h.nodup).mpr ⟨hx, rfl⟩
    rw [h.bound, Option.map_eq_some_iff] at hf
    obtain ⟨v, hv, hxv⟩ := hf
    exact ⟨v, (congrArg Item.value hxv).symm, hv⟩
  rcases set_cases h.compact key value with ⟨hfull, -⟩ | ⟨arr₁, hset', hc, hperm⟩
  · rw [hfull] at hset
    cases hset
  rw [hset'] at hset
  cases hset
  have hvalue : ∀ x ∈ items arr'.arrayTable, ∃ v, x.value = some v ∧ (v = value ∨ m x.key = some v) := by
    intro x hx
    rcases List.mem_cons.mp (hperm.mem_iff.mp hx) with rfl | hx
    · exact ⟨value, rfl, .inl rfl⟩
    · obtain ⟨v, hxv, hv⟩ := hbound x hx
      exact ⟨v, hxv, .inr hv⟩
  have hall : ∀ x ∈ items arr'.arrayTable, x.value.isSome := fun x hx => by
    obtain ⟨v, hxv, -⟩ := hvalue x hx
    rw [hxv]
    rfl
  have htwo : 2 ≤ (items arr'.arrayTable).countP (·.key = key) := by
    have hone : 0 < (items arr.arrayTable).countP (·.key = key) := by
      rw [← Option.isSome_map, ← h.bound key, find, List.find?_isSome] at hsome
      exact List.countP_pos_iff.mpr hsome
    rw [hperm.countP_eq, List.countP_cons_of_pos (by simp)]
    omega
  obtain ⟨arr'', hdel, hc', hsub, hcount⟩ := delete_of_item hc hall (Nat.zero_lt_of_lt htwo)
  have hleft : 0 < (items arr''.arrayTable).countP (·.key = key) := by omega
  obtain ⟨v, hv, hget⟩ := get_of_item hc' (fun x hx => hall x (hsub x hx)) hleft
  obtain ⟨w, hw, hor⟩ := hvalue _ (hsub _ hv)
  cases hw
  exact ⟨arr'', v, hdel, hget, hor⟩

theorem modify_holds (h : Holds arr m) (key value : CStr) :
    ∃ arr', kvstoreArrayModify .succeeds arr key value = .ok (if (m key).isSome then 0 else 1, arr') ∧
      Holds arr' (if (m key).isSome then Function.update m key (some value) else m) := by
  rw [kvstoreArrayModify]
  rcases found_cases h.compact key with ⟨hs, hf⟩ | ⟨idx, item, rest, hs, hk, hf, hold, hput⟩
  · rw [h.bound, Option.map_eq_none_iff] at hf
    rw [hs, hf]
    exact ⟨arr, rfl, h⟩
  · rw [h.bound, Option.map_eq_some_iff] at hf
    obtain ⟨v, hv, rfl⟩ := hf
    obtain ⟨hc, hnew⟩ := hput (some ⟨key, some value⟩)
    obtain ⟨hn, hfind⟩ := find_exchanged h.nodup hold hnew rfl
    rw [hs, hv]
    exact ⟨_, rfl, h.update hc hn hfind⟩

inductive ArrayOp
  | set (key value : CStr)
  | delete (key : CStr)
  | modify (key value : CStr)

def ArrayOp.key : ArrayOp → CStr
  | .set key _ | .delete key | .modify key _ => key

/-- What the key is bound to by a call that reports success. -/
def ArrayOp.leaves : ArrayOp → Option CStr
  | .set _ value | .modify _ value => some value
  | .delete _ => none

def exec (al : Alloc) (arr : ArrayTable) : ArrayOp → Except Fault (Int × ArrayTable)
  | .set key value => .ok (kvstoreArraySet al arr key value)
  | .delete key => kvstoreArrayDelete arr key
  | .modify key value => kvstoreArrayModify al arr key value

theorem read_eq_none {found : Option Item} (h : read found = .ok none) : found = none := by
  obtain _ | ⟨k, _ | v⟩ := found
  · rfl
  · cases h
  · cases h

/-- A SET that is done hides no other key, and its own only behind an older
item. -/
theorem get_set (h : Compact arr) {al : Alloc} {key value : CStr} {arr' : ArrayTable}
    (hset : kvstoreArraySet al arr key value = (0, arr')) :
    Compact arr' ∧ (∀ k, k ≠ key → kvstoreArrayGet arr' k = kvstoreArrayGet arr k) ∧
      (kvstoreArrayGet arr key = .ok none → kvstoreArrayGet arr' key = .ok (some value)) := by
  rcases set_split h al key value with ⟨hfail, -⟩ | ⟨pre, post, arr₁, hdone, hc, hsplit, hsplit'⟩
  · cases hfail.symm.trans hset
  · cases hdone.symm.trans hset
    have hold : items arr.arrayTable = items pre ++ items post := by rw [hsplit, items_append, items_none]
    have hnew : items arr'.arrayTable = items pre ++ ⟨key, some value⟩ :: items post := by
      rw [hsplit', items_append, items_some]
    refine ⟨hc, ?_, ?_⟩
    · intro k hk
      rw [get_eq hc, get_eq h, hnew, hold, find_insert_ne (a := (⟨key, some value⟩ : Item)) (Ne.symm hk)]
    · intro hnone
      rw [get_eq h, hold] at hnone
      have hpre : find Item.key key (items pre) = none := by
        have happ := read_eq_none hnone
        rw [find, List.find?_append, Option.or_eq_none_iff] at happ
        exact happ.1
      rw [get_eq hc, hnew, find_inserted (a := (⟨key, some value⟩ : Item)) hpre, if_pos rfl]
      rfl

/-- A MOD of a key that is there: the value is released and replaced, or it is
gone and the item still points to it. -/
theorem modify_cases (h : Compact arr) (al : Alloc) (key value : CStr) :
    (kvstoreArrayGet arr key = .ok none ∧ kvstoreArrayModify al arr key value = .ok (1, arr)) ∨
    (kvstoreArrayGet arr key = .error .useAfterFree ∧ kvstoreArrayModify al arr key value = .error .useAfterFree) ∨
    ∃ v arr', kvstoreArrayGet arr key = .ok (some v) ∧
      kvstoreArrayModify al arr key value = .ok (if al.value then 0 else -1, arr') ∧ Compact arr' ∧
      ∀ k, kvstoreArrayGet arr' k =
        if key = k then (if al.value then .ok (some value) else .error .useAfterFree) else kvstoreArrayGet arr k := by
  rw [kvstoreArrayGet, kvstoreArrayModify]
  rcases scan_cases h key with ⟨hs, -⟩ | ⟨pre, ⟨_, _ | v⟩, post, hsplit, hlt, hpre, rfl, hf, hs⟩
  · exact .inl ⟨by rw [hs], by rw [hs]⟩
  · exact .inr (.inl ⟨by rw [hs], by rw [hs]⟩)
  · rename_i key
    have hfirst : ∀ v k, find Item.key k (items (pre ++ some ⟨key, v⟩ :: post)) =
        if key = k then some ⟨key, v⟩ else find Item.key k (items (pre ++ post)) :=
      fun v => @find_first pre post ⟨key, v⟩ hpre
    refine .inr (.inr ⟨v, arr.put pre.length (some ⟨key, if al.value then some value else none⟩), by rw [hs], ?_,
      put_compact h hlt _, ?_⟩)
    · rw [hs]
      cases al.value <;> rfl
    · intro k
      rw [get_eq (put_compact h hlt _), get_eq h, put_split hsplit, hsplit, hfirst, hfirst]
      split_ifs <;> rfl

theorem delete_compact (h : Compact arr) {key : CStr} {r : Int} {arr' : ArrayTable}
    (hdel : kvstoreArrayDelete arr key = .ok (r, arr')) : Compact arr' := by
  rw [kvstoreArrayDelete] at hdel
  rcases scan_cases h key with ⟨hs, -⟩ | ⟨pre, ⟨k₀, _ | v⟩, post, hsplit, hlt, hpre, hk₀, hf, hs⟩
  · rw [hs] at hdel
    cases hdel
    exact h
  · rw [hs] at hdel
    cases hdel
  · rw [hs] at hdel
    cases hdel
    exact put_compact h hlt none

theorem exec_compact (h : Compact arr) {al : Alloc} {op : ArrayOp} {r : Int} {arr' : ArrayTable}
    (he : exec al arr op = .ok (r, arr')) : Compact arr' := by
  cases op with
  | set key value =>
      have hset := Except.ok.inj he
      rcases set_split h al key value with ⟨hfail, -⟩ | ⟨pre, post, arr₁, hdone, hc, -⟩
      · cases hfail.symm.trans hset
        exact h
      · cases hdone.symm.trans hset
        exact hc
  | delete key => exact delete_compact h he
  | modify key value =>
      rcases modify_cases h al key value with ⟨-, hm⟩ | ⟨-, hm⟩ | ⟨v, arr₁, -, hm, hc, -⟩
      · cases hm.symm.trans he
        exact h
      · cases hm.symm.trans he
      · cases hm.symm.trans he
        exact hc

end GameAccelerator.ArrayEngine
