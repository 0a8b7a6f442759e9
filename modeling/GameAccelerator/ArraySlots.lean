import GameAccelerator.ArrayEngine
import GameAccelerator.CheckedLoop

namespace GameAccelerator.ArraySlots

open CString Platform Buckets CheckedLoop
open ArrayEngine (kvsArraySize Item ArrayTable Compact items)

/-- A `char *` in a slot. -/
inductive Ptr
  | null
  | str (s : CStr)
  -- to a block that has been released
  | freed
  deriving DecidableEq

inductive Misuse
  | outOfBounds (idx : Nat)
  | fault (f : Fault)

structure KvsArrayItem where
  key : Ptr
  value : Ptr
  deriving DecidableEq

/-- The table as the engine has it: two pointers in a slot and an `int` for the
mark. -/
structure ArrayT where
  arrayTable : List KvsArrayItem
  arrayIdx : Int

def kvstoreArrayCreate : ArrayT := ⟨List.replicate kvsArraySize ⟨.null, .null⟩, 0⟩

def ArrayT.load (arr : ArrayT) (idx : Nat) : Except Misuse KvsArrayItem :=
  match arr.arrayTable[idx]? with
  | some item => .ok item
  | none => .error (.outOfBounds idx)

def ArrayT.put (arr : ArrayT) (idx : Nat) (item : KvsArrayItem) : ArrayT :=
  { arr with arrayTable := arr.arrayTable.set idx item }

def kvstoreFree : Ptr → Except Misuse Unit
  | .null | .str _ => .ok ()
  | .freed => .error (.fault .useAfterFree)

/-- The loop from slot 0 on, up to `bound` or the slot where the test holds. -/
def firstSlot (arr : ArrayT) (bound : Int) (here : KvsArrayItem → Except Misuse Bool) : Except Misuse Nat :=
  checkedLoop (.fault .diverges)
    (fun idx => if (idx : Int) < bound then do return !(← here (← arr.load idx)) else .ok false)
    (fun idx => .ok (idx + 1)) arr.arrayTable.length 0

def isFree (item : KvsArrayItem) : Except Misuse Bool := .ok (item.key = .null)

/-- A hole is passed over. The `key` of a GET is not checked for NULL. -/
def holdsKey (key : Option CStr) (item : KvsArrayItem) : Except Misuse Bool :=
  match item.key, key with
  | .null, _ => .ok false
  | .str k, some key => .ok (strcmp k key = 0)
  | .str _, none => .error (.fault .nullDeref)
  | .freed, _ => .error (.fault .useAfterFree)

def kvstoreArraySet (al : Alloc) (arr : ArrayT) (key value : Option CStr) : Except Misuse (Int × ArrayT) :=
  match key, value with
  | some key, some value => do
      let idx ← firstSlot arr kvsArraySize isFree
      if idx = kvsArraySize then .ok (-1, arr)
      else if al.key ∧ al.value then
        let arr := arr.put idx ⟨.str key, .str value⟩
        .ok (0, if (idx : Int) = arr.arrayIdx then { arr with arrayIdx := arr.arrayIdx + 1 } else arr)
      else .ok (-1, arr)
  | _, _ => .ok (-1, arr)

def kvstoreArrayGet (arr : ArrayT) (key : Option CStr) : Except Misuse Ptr := do
  let idx ← firstSlot arr arr.arrayIdx (holdsKey key)
  if (idx : Int) < arr.arrayIdx then return (← arr.load idx).value else return .null

def kvstoreArrayDelete (arr : ArrayT) (key : Option CStr) : Except Misuse (Int × ArrayT) :=
  match key with
  | none => .ok (-1, arr)
  | some key => do
      let idx ← firstSlot arr arr.arrayIdx (holdsKey (some key))
      if (idx : Int) < arr.arrayIdx then
        let item ← arr.load idx
        kvstoreFree item.value
        kvstoreFree item.key
        return (0, arr.put idx ⟨.null, .null⟩)
      else return (1, arr)

def kvstoreArrayModify (al : Alloc) (arr : ArrayT) (key value : Option CStr) : Except Misuse (Int × ArrayT) :=
  match key, value with
  | some key, some value => do
      let idx ← firstSlot arr arr.arrayIdx (holdsKey (some key))
      if (idx : Int) < arr.arrayIdx then
        let item ← arr.load idx
        kvstoreFree item.value
        if al.value then return (0, arr.put idx { item with value := .str value })
        else return (-1, arr.put idx { item with value := .freed })
      else return (1, arr)
  | _, _ => .ok (-1, arr)

section Loop

variable {arr : ArrayT}

theorem load_eq {idx : Nat} {item : KvsArrayItem} (h : arr.arrayTable[idx]? = some item) : arr.load idx = .ok item := by
  rw [ArrayT.load, h]

/-- Where the test is defined on every slot below the bound, the loop finds the
first slot that passes. -/
theorem firstSlot_eq {n : Nat} {here : KvsArrayItem → Except Misuse Bool} {p : KvsArrayItem → Bool}
    (hn : n ≤ arr.arrayTable.length) (hp : ∀ item ∈ arr.arrayTable, here item = .ok (p item)) :
    firstSlot arr n here = .ok ((arr.arrayTable.take n).findIdx p) := by
  have hlen : (arr.arrayTable.take n).length = n := by
    rw [List.length_take, Nat.min_eq_left hn]
  have hle : (arr.arrayTable.take n).findIdx p ≤ n := by
    have h := @List.findIdx_le_length _ p (arr.arrayTable.take n)
    rwa [hlen] at h
  have htest : ∀ j (h : j < n), here (arr.arrayTable[j]) = .ok (p ((arr.arrayTable.take n)[j])) ∧
      arr.load j = .ok arr.arrayTable[j] := by
    intro j hj
    rw [List.getElem_take]
    exact ⟨hp _ (List.getElem_mem _), load_eq (List.getElem?_eq_getElem _)⟩
  refine checkedLoop_first id (k := (arr.arrayTable.take n).findIdx p) (fun j hj => ⟨?_, rfl⟩) ?_ (hle.trans hn)
  · have hjn : j < n := hj.trans_le hle
    obtain ⟨ht, hl⟩ := htest j hjn
    rw [id, if_pos (Int.ofNat_lt.mpr hjn), hl, ok_bind, ht, ok_bind, List.not_of_lt_findIdx hj]
    rfl
  · rcases hle.lt_or_eq with hlt | heq
    · obtain ⟨ht, hl⟩ := htest _ hlt
      rw [id, if_pos (Int.ofNat_lt.mpr hlt), hl, ok_bind, ht, ok_bind,
        @List.findIdx_getElem _ p (arr.arrayTable.take n) (hlt.trans_eq hlen.symm)]
      rfl
    · rw [id, heq, if_neg (Int.lt_irrefl _)]

end Loop

def ofSlot : Option Item → KvsArrayItem
  | none => ⟨.null, .null⟩
  | some ⟨key, some value⟩ => ⟨.str key, .str value⟩
  | some ⟨key, none⟩ => ⟨.str key, .freed⟩

def ofTable (arr : ArrayTable) : ArrayT := ⟨arr.arrayTable.map ofSlot, arr.arrayIdx⟩

/-- What a call on the slots does, read off the call on the table. -/
def ofCall : Except Fault (Int × ArrayTable) → Except Misuse (Int × ArrayT)
  | .ok (code, arr) => .ok (code, ofTable arr)
  | .error e => .error (.fault e)

section Simulation

variable {arr : ArrayTable}

@[simp] theorem ofSlot_key (slot : Option Item) : (ofSlot slot).key = (slot.elim .null fun item => .str item.key) := by
  obtain _ | ⟨key, _ | value⟩ := slot <;> rfl

theorem length_ofTable : (ofTable arr).arrayTable.length = kvsArraySize := (List.length_map _).trans arr.size

theorem ofTable_put (idx : Nat) (slot : Option Item) : (ofTable arr).put idx (ofSlot slot) = ofTable (arr.put idx slot) := by
  rw [ArrayT.put, ofTable, ofTable, ArrayTable.put]
  congr 1
  exact List.map_set.symm

theorem ofTable_mark {idx : Nat} : (idx : Int) = (ofTable arr).arrayIdx ↔ idx = arr.arrayIdx := Int.ofNat_inj

theorem ofCall_put (code : Int) (idx : Nat) (slot : Option Item) :
    ofCall (.ok (code, arr.put idx slot)) = .ok (code, (ofTable arr).put idx (ofSlot slot)) := by
  rw [ofTable_put]
  rfl

/-- Does the slot hold the key? -/
def hasKey (key : CStr) (item : KvsArrayItem) : Bool := item.key = .str key

theorem holdsKey_ofSlot (key : CStr) (slot : Option Item) :
    holdsKey (some key) (ofSlot slot) = .ok (hasKey key (ofSlot slot)) := by
  cases slot with
  | none => rfl
  | some item => obtain ⟨k, _ | value⟩ := item <;> simp [holdsKey, hasKey, ofSlot, strcmp_eq_zero]

theorem firstSlot_free : firstSlot (ofTable arr) kvsArraySize isFree = .ok (arr.arrayTable.findIdx Option.isNone) := by
  refine (firstSlot_eq length_ofTable.ge fun _ _ => rfl).trans ?_
  rw [List.take_of_length_le length_ofTable.le, ofTable, List.findIdx_map]
  congr 2
  funext slot
  cases slot <;> simp

theorem firstSlot_key (hidx : arr.arrayIdx ≤ kvsArraySize) (key : CStr) :
    firstSlot (ofTable arr) (ofTable arr).arrayIdx (holdsKey (some key)) =
      .ok ((arr.arrayTable.take arr.arrayIdx).findIdx fun slot => slot.elim false (·.key = key)) := by
  have htest : ∀ item ∈ (ofTable arr).arrayTable, holdsKey (some key) item = .ok (hasKey key item) := by
    intro item hitem
    obtain ⟨slot, _, rfl⟩ := List.mem_map.mp hitem
    exact holdsKey_ofSlot key slot
  refine (firstSlot_eq (hidx.trans length_ofTable.ge) htest).trans ?_
  rw [ofTable, ← List.map_take, List.findIdx_map]
  congr 2
  funext slot
  cases slot <;> simp [hasKey]

theorem absent_of_find {key : CStr} {slots : List (Option Item)} (h : find Item.key key (items slots) = none) :
    ∀ slot ∈ slots, slot.elim false (fun item => decide (item.key = key)) = false := by
  intro slot hslot
  cases slot with
  | none => rfl
  | some item =>
      have hitem : item ∈ items slots := List.mem_filterMap.mpr ⟨some item, hslot, rfl⟩
      simpa using List.find?_eq_none.mp h item hitem

/-- The loop stops where the one over the table stops, or at the mark. -/
theorem firstSlot_cases (hidx : arr.arrayIdx ≤ kvsArraySize) (key : CStr) :
    (∃ idx : Nat, arr.scan key = none ∧ ¬ (idx : Int) < (ofTable arr).arrayIdx ∧
        firstSlot (ofTable arr) (ofTable arr).arrayIdx (holdsKey (some key)) = .ok idx) ∨
      ∃ (idx : Nat) (item : Item), arr.scan key = some (idx, item) ∧ (idx : Int) < (ofTable arr).arrayIdx ∧
        (ofTable arr).load idx = .ok (ofSlot (some item)) ∧
        firstSlot (ofTable arr) (ofTable arr).arrayIdx (holdsKey (some key)) = .ok idx := by
  have hlen : (arr.arrayTable.take arr.arrayIdx).length = arr.arrayIdx := by
    rw [List.length_take, arr.size, Nat.min_eq_left hidx]
  rw [firstSlot_key hidx, ArrayTable.scan]
  rcases ArrayEngine.scan_spec key (arr.arrayTable.take arr.arrayIdx) with
    ⟨hs, hf⟩ | ⟨pre, item, post, hsplit, hf, rfl, hs⟩
  · refine .inl ⟨arr.arrayIdx, hs, Int.lt_irrefl _, ?_⟩
    rw [List.findIdx_eq_length.mpr (absent_of_find hf), hlen]
  · have hlt : pre.length < arr.arrayIdx := by
      rw [← hlen, hsplit, List.length_append, List.length_cons]
      omega
    have hget : arr.arrayTable[pre.length]? = some (some item) := by
      rw [← List.getElem?_take_of_lt hlt, hsplit, List.getElem?_append_right (le_refl _), Nat.sub_self]
      rfl
    refine .inr ⟨pre.length, item, hs, Int.ofNat_lt.mpr hlt, load_eq ?_, ?_⟩
    · rw [ofTable, List.getElem?_map, hget]
      rfl
    · have hpre : pre.findIdx (fun slot => slot.elim false fun x => decide (x.key = item.key)) = pre.length :=
        List.findIdx_eq_length.mpr (absent_of_find hf)
      rw [hsplit, List.findIdx_append, hpre, if_neg (Nat.lt_irrefl _), List.findIdx_cons]
      simp

theorem set_ofTable (al : Alloc) (key value : CStr) :
    kvstoreArraySet al (ofTable arr) (some key) (some value) =
      ofCall (.ok (ArrayEngine.kvstoreArraySet al arr key value)) := by
  rw [kvstoreArraySet, firstSlot_free, ok_bind, ArrayEngine.kvstoreArraySet]
  have hput := @ofTable_put arr (arr.arrayTable.findIdx Option.isNone) (some ⟨key, some value⟩)
  generalize arr.arrayTable.findIdx Option.isNone = idx at hput
  change (ofTable arr).put idx ⟨.str key, .str value⟩ = _ at hput
  simp only [hput, ofTable_mark]
  by_cases hfull : idx = kvsArraySize
  · rw [if_pos hfull, if_pos hfull]
    rfl
  · rw [if_neg hfull, if_neg hfull]
    by_cases hal : al.key ∧ al.value
    · rw [if_pos hal, if_pos hal]
      split_ifs <;> rfl
    · rw [if_neg hal, if_neg hal]
      rfl

theorem get_ofTable (hidx : arr.arrayIdx ≤ kvsArraySize) (key : CStr) :
    kvstoreArrayGet (ofTable arr) (some key) =
      .ok ((arr.scan key).elim .null fun found => (ofSlot (some found.2)).value) := by
  rw [kvstoreArrayGet]
  rcases firstSlot_cases hidx key with ⟨idx, hs, hge, hfirst⟩ | ⟨idx, item, hs, hlt, hload, hfirst⟩
  · rw [hfirst, hs, ok_bind, if_neg hge]
    rfl
  · rw [hfirst, hs, ok_bind, if_pos hlt, hload]
    rfl

theorem delete_ofTable (hidx : arr.arrayIdx ≤ kvsArraySize) (key : CStr) :
    kvstoreArrayDelete (ofTable arr) (some key) = ofCall (ArrayEngine.kvstoreArrayDelete arr key) := by
  rw [kvstoreArrayDelete, ArrayEngine.kvstoreArrayDelete]
  rcases firstSlot_cases hidx key with ⟨idx, hs, hge, hfirst⟩ | ⟨idx, ⟨k, value⟩, hs, hlt, hload, hfirst⟩
  · rw [hfirst, hs, ok_bind, if_neg hge]
    rfl
  · rw [hfirst, hs, ok_bind, if_pos hlt, hload, ok_bind]
    cases value with
    | none => rfl
    | some value => exact (ofCall_put 0 idx none).symm

theorem modify_ofTable (hidx : arr.arrayIdx ≤ kvsArraySize) (al : Alloc) (key value : CStr) :
    kvstoreArrayModify al (ofTable arr) (some key) (some value) =
      ofCall (ArrayEngine.kvstoreArrayModify al arr key value) := by
  rw [kvstoreArrayModify, ArrayEngine.kvstoreArrayModify]
  rcases firstSlot_cases hidx key with ⟨idx, hs, hge, hfirst⟩ | ⟨idx, ⟨k, old⟩, hs, hlt, hload, hfirst⟩
  · rw [hfirst, hs, ok_bind, if_neg hge]
    rfl
  · rw [hfirst, hs, ok_bind, if_pos hlt, hload, ok_bind]
    cases old with
    | none => rfl
    | some old =>
        cases al.value with
        | true => exact (ofCall_put 0 idx (some ⟨k, some value⟩)).symm
        | false => exact (ofCall_put (-1) idx (some ⟨k, none⟩)).symm

end Simulation

inductive ArrayCall
  | set (key value : Option CStr)
  | modify (key value : Option CStr)
  | delete (key : Option CStr)

def exec (al : Alloc) (arr : ArrayT) : ArrayCall → Except Misuse (Int × ArrayT)
  | .set key value => kvstoreArraySet al arr key value
  | .modify key value => kvstoreArrayModify al arr key value
  | .delete key => kvstoreArrayDelete arr key

/-- The calls one after the other, while every allocation succeeds. -/
def run (arr : ArrayT) : List ArrayCall → Except Misuse ArrayT
  | [] => .ok arr
  | call :: calls => do
      let r ← exec .succeeds arr call
      run r.2 calls

/-- No slot beyond the mark is in use, and every key has a value. -/
structure Whole (arr : ArrayTable) : Prop where
  compact : Compact arr
  mark : arr.arrayIdx ≤ kvsArraySize
  values : ∀ item ∈ items arr.arrayTable, item.value.isSome

section Run

variable {arr : ArrayTable}

theorem create_whole : Whole ArrayEngine.kvstoreArrayCreate := by
  refine ⟨ArrayEngine.create_items, Nat.zero_le _, fun item hitem => ?_⟩
  rw [ArrayEngine.create_items] at hitem
  cases hitem

theorem set_mark (h : arr.arrayIdx ≤ kvsArraySize) (al : Alloc) (key value : CStr) :
    (ArrayEngine.kvstoreArraySet al arr key value).2.arrayIdx ≤ kvsArraySize := by
  simp only [ArrayEngine.kvstoreArraySet]
  split_ifs with hfull hal hmark
  · exact h
  · change arr.arrayIdx + 1 ≤ kvsArraySize
    have hmark' : _ = arr.arrayIdx := hmark
    omega
  · exact h
  · exact h

theorem set_code (key value : CStr) :
    (ArrayEngine.kvstoreArraySet .succeeds arr key value).1 = -1 ↔ ∀ slot ∈ arr.arrayTable, slot.isSome := by
  have hfull : arr.arrayTable.findIdx Option.isNone = kvsArraySize ↔ ∀ slot ∈ arr.arrayTable, slot.isSome := by
    rw [← arr.size, List.findIdx_eq_length]
    simp
  rw [← hfull, ArrayEngine.kvstoreArraySet]
  by_cases hidx : arr.arrayTable.findIdx Option.isNone = kvsArraySize
  · exact iff_of_true (by rw [if_pos hidx]) hidx
  · refine iff_of_false ?_ hidx
    rw [if_neg hidx, if_pos ⟨rfl, rfl⟩]
    exact Int.noConfusion

theorem set_whole (h : Whole arr) (key value : CStr) :
    ∃ code arr', kvstoreArraySet .succeeds (ofTable arr) (some key) (some value) = .ok (code, ofTable arr') ∧
      Whole arr' ∧ (code = -1 ↔ ∀ slot ∈ arr.arrayTable, slot.isSome) := by
  have hmark := set_mark h.mark .succeeds key value
  have hcode := @set_code arr key value
  rw [set_ofTable]
  rcases ArrayEngine.set_cases h.compact key value with ⟨hset, -⟩ | ⟨arr', hset, hc, hperm⟩
  · rw [hset] at hcode ⊢
    exact ⟨-1, arr, rfl, h, hcode⟩
  · rw [hset] at hmark hcode ⊢
    refine ⟨0, arr', rfl, ⟨hc, hmark, fun item hitem => ?_⟩, hcode⟩
    rcases List.mem_cons.mp (hperm.mem_iff.mp hitem) with rfl | hold
    · rfl
    · exact h.values item hold

/-- What the loop of a GET, a DEL or a MOD finds below the mark. -/
theorem found_whole (h : Whole arr) (key : CStr) :
    arr.scan key = none ∨ ∃ idx k v, arr.scan key = some (idx, ⟨k, some v⟩) ∧
      ∀ slot, (∀ item, slot = some item → item.value.isSome) → Whole (arr.put idx slot) := by
  rcases ArrayEngine.found_cases h.compact key with ⟨hs, -⟩ | ⟨idx, item, rest, hs, -, hf, hold, hput⟩
  · exact .inl hs
  · have hv := h.values item (List.mem_of_find?_eq_some hf)
    obtain ⟨k, value⟩ := item
    obtain ⟨v, rfl⟩ := Option.isSome_iff_exists.mp hv
    refine .inr ⟨idx, k, v, hs, fun slot hslot => ?_⟩
    obtain ⟨hc, hnew⟩ := hput slot
    refine ⟨hc, h.mark, fun x hx => ?_⟩
    rcases List.mem_append.mp (hnew.mem_iff.mp hx) with hx | hx
    · exact hslot x (by simpa [items, eq_comm] using hx)
    · exact h.values x (hold.mem_iff.mpr (List.mem_cons_of_mem _ hx))

theorem scan_iff (h : Compact arr) (key : CStr) :
    arr.scan key ≠ none ↔ ∃ item ∈ (ofTable arr).arrayTable, item.key = .str key := by
  rcases ArrayEngine.scan_cases h key with ⟨hs, hf⟩ | ⟨pre, item, post, hsplit, -, -, hk, -, hs⟩
  · refine iff_of_false (not_not.mpr hs) ?_
    rintro ⟨item, hitem, hk⟩
    obtain ⟨slot, hslot, rfl⟩ := List.mem_map.mp hitem
    have habsent := absent_of_find hf slot hslot
    cases slot with
    | none => cases hk
    | some item =>
        rw [ofSlot_key] at hk
        exact of_decide_eq_false habsent (Ptr.str.inj hk)
  · refine iff_of_true (by rw [hs]; exact Option.some_ne_none _) ⟨ofSlot (some item), ?_, ?_⟩
    · exact List.mem_map_of_mem (hsplit ▸ List.mem_append_right _ List.mem_cons_self)
    · rw [ofSlot_key, ← hk]
      rfl

theorem get_whole (h : Whole arr) (key : CStr) :
    ∃ p, kvstoreArrayGet (ofTable arr) (some key) = .ok p ∧ (p ≠ .null ↔ arr.scan key ≠ none) := by
  rw [get_ofTable h.mark]
  rcases found_whole h key with hs | ⟨idx, k, v, hs, -⟩
  · rw [hs]
    exact ⟨_, rfl, Iff.rfl.trans (by simp)⟩
  · rw [hs]
    exact ⟨_, rfl, iff_of_true (by simp [ofSlot]) (by simp)⟩

theorem delete_whole (h : Whole arr) (key : CStr) :
    ∃ code arr', kvstoreArrayDelete (ofTable arr) (some key) = .ok (code, ofTable arr') ∧
      Whole arr' ∧ (code = 0 ↔ arr.scan key ≠ none) := by
  rw [delete_ofTable h.mark, ArrayEngine.kvstoreArrayDelete]
  rcases found_whole h key with hs | ⟨idx, k, v, hs, hput⟩
  · rw [hs]
    exact ⟨1, arr, rfl, h, iff_of_false (by decide) (by simp)⟩
  · rw [hs]
    exact ⟨0, arr.put idx none, rfl, hput none (by simp), iff_of_true rfl (by simp)⟩

theorem modify_whole (h : Whole arr) (key value : CStr) :
    ∃ code arr', kvstoreArrayModify .succeeds (ofTable arr) (some key) (some value) = .ok (code, ofTable arr') ∧
      Whole arr' ∧ (code = 0 ↔ arr.scan key ≠ none) := by
  rw [modify_ofTable h.mark, ArrayEngine.kvstoreArrayModify]
  rcases found_whole h key with hs | ⟨idx, k, v, hs, hput⟩
  · rw [hs]
    exact ⟨1, arr, rfl, h, iff_of_false (by decide) (by simp)⟩
  · rw [hs]
    exact ⟨0, arr.put idx (some ⟨k, some value⟩), rfl, hput _ (by simp), iff_of_true rfl (by simp)⟩

theorem exec_whole (h : Whole arr) (call : ArrayCall) :
    ∃ code arr', exec .succeeds (ofTable arr) call = .ok (code, ofTable arr') ∧ Whole arr' := by
  have hrefused : ∃ code arr', (.ok (-1, ofTable arr) : Except Misuse (Int × ArrayT)) = .ok (code, ofTable arr') ∧
      Whole arr' := ⟨-1, arr, rfl, h⟩
  cases call with
  | set key value =>
      obtain _ | key := key
      · exact hrefused
      obtain _ | value := value
      · exact hrefused
      obtain ⟨code, arr', he, h', -⟩ := set_whole h key value
      exact ⟨code, arr', he, h'⟩
  | modify key value =>
      obtain _ | key := key
      · exact hrefused
      obtain _ | value := value
      · exact hrefused
      obtain ⟨code, arr', he, h', -⟩ := modify_whole h key value
      exact ⟨code, arr', he, h'⟩
  | delete key =>
      obtain _ | key := key
      · exact hrefused
      obtain ⟨code, arr', he, h', -⟩ := delete_whole h key
      exact ⟨code, arr', he, h'⟩

theorem run_whole (h : Whole arr) (calls : List ArrayCall) :
    ∃ arr', run (ofTable arr) calls = .ok (ofTable arr') ∧ Whole arr' := by
  induction calls generalizing arr with
  | nil => exact ⟨arr, rfl, h⟩
  | cons call calls ih =>
      obtain ⟨code, arr₁, he, h₁⟩ := exec_whole h call
      obtain ⟨arr', hr, h'⟩ := ih h₁
      refine ⟨arr', ?_, h'⟩
      rw [run, he]
      exact hr

/-- A slot is in use or both its pointers are NULL. -/
theorem slot_cases (h : Whole arr) {idx : Nat} {item : KvsArrayItem} (hitem : (ofTable arr).arrayTable[idx]? = some item) :
    item = ⟨.null, .null⟩ ∨ idx < arr.arrayIdx ∧ ∃ key value, item = ⟨.str key, .str value⟩ := by
  rw [ofTable, List.getElem?_map] at hitem
  obtain ⟨slot, hslot, rfl⟩ := Option.map_eq_some_iff.mp hitem
  cases slot with
  | none => exact .inl rfl
  | some x =>
      have hv := h.values x (List.mem_filterMap.mpr ⟨some x, List.mem_of_getElem? hslot, rfl⟩)
      obtain ⟨key, value⟩ := x
      obtain ⟨v, rfl⟩ := Option.isSome_iff_exists.mp hv
      refine .inr ⟨?_, key, v, rfl⟩
      by_contra hge
      have hdrop : (arr.arrayTable.drop arr.arrayIdx)[idx - arr.arrayIdx]? = some (some ⟨key, some v⟩) := by
        rw [List.getElem?_drop, Nat.add_sub_cancel' (Nat.le_of_not_lt hge), hslot]
      have hmem : (⟨key, some v⟩ : Item) ∈ items (arr.arrayTable.drop arr.arrayIdx) :=
        List.mem_filterMap.mpr ⟨_, List.mem_of_getElem? hdrop, rfl⟩
      rw [h.compact] at hmem
      cases hmem

theorem occupied_iff : (∀ slot ∈ arr.arrayTable, slot.isSome) ↔ ∀ item ∈ (ofTable arr).arrayTable, item.key ≠ .null := by
  rw [ofTable, List.forall_mem_map]
  apply forall₂_congr
  intro slot _
  cases slot <;> simp

theorem ofTable_create : ofTable ArrayEngine.kvstoreArrayCreate = kvstoreArrayCreate := by
  rw [ofTable, ArrayEngine.kvstoreArrayCreate, List.map_replicate]
  rfl

end Run

/-- What the mark says of the slots. -/
structure Marked (arr : ArrayT) : Prop where
  size : arr.arrayTable.length = kvsArraySize
  range : 0 ≤ arr.arrayIdx ∧ arr.arrayIdx ≤ kvsArraySize
  beyond : ∀ (idx : Nat) item, arr.arrayTable[idx]? = some item → arr.arrayIdx ≤ idx → item = ⟨.null, .null⟩
  below : ∀ (idx : Nat) item, arr.arrayTable[idx]? = some item → (idx : Int) < arr.arrayIdx →
    (item.key = .null ↔ item.value = .null)

theorem whole_marked {arr : ArrayTable} (h : Whole arr) : Marked (ofTable arr) := by
  refine ⟨length_ofTable, ⟨Int.natCast_nonneg _, Int.ofNat_le.mpr h.mark⟩, fun idx item hitem hge => ?_,
    fun idx item hitem _ => ?_⟩
  · rcases slot_cases h hitem with hnull | ⟨hlt, -⟩
    · exact hnull
    · exact absurd (Int.ofNat_le.mp hge) (Nat.not_le.mpr hlt)
  · rcases slot_cases h hitem with rfl | ⟨-, key, value, rfl⟩
    · exact Iff.rfl
    · exact iff_of_false Ptr.noConfusion Ptr.noConfusion

/-- The loops below the mark miss no key, and a SET is refused only by a table
without a free slot. -/
theorem high_water_mark (calls : List ArrayCall) :
    ∃ arr, run kvstoreArrayCreate calls = .ok arr ∧ Marked arr ∧
      (∀ key : CStr,
        (∃ p, kvstoreArrayGet arr (some key) = .ok p ∧
          (p ≠ .null ↔ ∃ item ∈ arr.arrayTable, item.key = .str key)) ∧
        (∃ r, kvstoreArrayDelete arr (some key) = .ok r ∧ (r.1 = 0 ↔ ∃ item ∈ arr.arrayTable, item.key = .str key)) ∧
        ∀ value : CStr,
          (∃ r, kvstoreArrayModify .succeeds arr (some key) (some value) = .ok r ∧
            (r.1 = 0 ↔ ∃ item ∈ arr.arrayTable, item.key = .str key)) ∧
          ∃ r, kvstoreArraySet .succeeds arr (some key) (some value) = .ok r ∧
            (r.1 = -1 ↔ ∀ item ∈ arr.arrayTable, item.key ≠ .null)) := by
  obtain ⟨arr, hrun, h⟩ := run_whole create_whole calls
  rw [ofTable_create] at hrun
  refine ⟨ofTable arr, hrun, whole_marked h, fun key => ⟨?_, ?_, fun value => ⟨?_, ?_⟩⟩⟩
  · obtain ⟨p, hget, hp⟩ := get_whole h key
    exact ⟨p, hget, hp.trans (scan_iff h.compact key)⟩
  · obtain ⟨code, arr', hdel, -, hcode⟩ := delete_whole h key
    exact ⟨_, hdel, hcode.trans (scan_iff h.compact key)⟩
  · obtain ⟨code, arr', hmod, -, hcode⟩ := modify_whole h key value
    exact ⟨_, hmod, hcode.trans (scan_iff h.compact key)⟩
  · obtain ⟨code, arr', hset, -, hcode⟩ := set_whole h key value
    exact ⟨_, hset, hcode.trans occupied_iff⟩

end GameAccelerator.ArraySlots
