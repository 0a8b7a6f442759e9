import GameAccelerator.HashEngine

namespace GameAccelerator.HashContents

open CString Platform Buckets HashEngine

variable {μ : Type} {mark : μ}

def WellPlaced (t : HashTable) : Prop := Indexed HashNode.key (index t) t.nodes

/-- The node of a key, sought in all buckets. -/
def nodeOf (t : HashTable) (k : CStr) : Option HashNode := find HashNode.key k (elems t.nodes)

theorem findNode_eq (key : CStr) (chain : List (HashNode μ)) :
    findNode key chain = find HashNode.key key chain := by
  simp [findNode, find, strcmp_eq_zero]

theorem nodeOf_bucket {t : HashTable} (hw : WellPlaced t) (key : CStr) :
    find HashNode.key key (t.nodes (index t key)) = nodeOf t key :=
  Indexed.find_bucket hw key

theorem overwrite_spec (key : CStr) (value : Option CStr) (chain : List (HashNode μ)) :
    (find HashNode.key key chain = none ∧ overwrite key value chain = none) ∨
      ∃ pre n post, chain = pre ++ [n] ++ post ∧ n.key = key ∧ find HashNode.key key chain = some n ∧
        overwrite key value chain = some (pre ++ [{ n with value := value }] ++ post) := by
  induction chain with
  | nil => exact Or.inl ⟨rfl, rfl⟩
  | cons n ns ih =>
      rw [find_cons]
      by_cases hk : n.key = key
      · refine Or.inr ⟨[], n, ns, rfl, hk, by simp [hk], ?_⟩
        simp [overwrite, strcmp_eq_zero.mpr hk]
      · have hs : strcmp n.key key ≠ 0 := fun h => hk (strcmp_eq_zero.mp h)
        rcases ih with ⟨hf, ho⟩ | ⟨pre, c, post, rfl, hc, hf, ho⟩
        · exact Or.inl ⟨by simp [hk, hf], by simp [overwrite, hs, ho]⟩
        · exact Or.inr ⟨n :: pre, c, post, rfl, hc, by simp only [hk, if_false, hf],
            by simp only [overwrite, hs, if_false, ho, Option.map_some]; rfl⟩

theorem unlinkNext_spec (key : CStr) (chain : List (HashNode μ)) :
    (find HashNode.key key chain = none ∧ unlinkNext key chain = none) ∨
      ∃ pre n post, chain = pre ++ [n] ++ post ∧ n.key = key ∧ find HashNode.key key chain = some n ∧
        unlinkNext key chain = some (pre ++ post) := by
  induction chain with
  | nil => exact Or.inl ⟨rfl, rfl⟩
  | cons n ns ih =>
      rw [find_cons]
      by_cases hk : n.key = key
      · refine Or.inr ⟨[], n, ns, rfl, hk, by simp [hk], ?_⟩
        simp [unlinkNext, strcmp_eq_zero.mpr hk]
      · have hs : strcmp n.key key ≠ 0 := fun h => hk (strcmp_eq_zero.mp h)
        rcases ih with ⟨hf, ho⟩ | ⟨pre, c, post, rfl, hc, hf, ho⟩
        · exact Or.inl ⟨by simp [hk, hf], by simp [unlinkNext, hs, ho]⟩
        · exact Or.inr ⟨n :: pre, c, post, rfl, hc, by simp only [hk, if_false, hf],
            by simp only [unlinkNext, hs, if_false, ho, Option.map_some]; rfl⟩

theorem doubled_pos (t : HashTable μ) : 0 < t.maxSlots * 2 := Nat.mul_pos t.pos Nat.zero_lt_two

/-- The table after its nodes have been relinked into an array of twice the
size. -/
def doubled (t : HashTable μ) : HashTable μ :=
  { t with
    maxSlots := t.maxSlots * 2
    pos := doubled_pos t
    nodes := (elems t.nodes).foldl (push HashNode.key (hash (t.maxSlots * 2) (doubled_pos t))) (fun _ => []) }

/-- A doubling takes place, or a refused allocation leaves the table as it
was. -/
theorem resize_eq (al : Alloc) (t : HashTable μ) :
    resizeHashtable al t = if al.slots ∧ t.maxSlots * 2 < 2147483648 then (0, doubled t) else (-1, t) := by
  unfold resizeHashtable doubled
  simp only [elems, List.foldl_flatMap]

theorem doubled_perm (t : HashTable μ) : (elems (doubled t).nodes).Perm (elems t.nodes) := by
  have hperm := elems_foldl_push HashNode.key (index (doubled t)) (elems t.nodes) (fun _ => [])
  rwa [elems_empty, List.append_nil] at hperm

theorem doubled_spec {t : HashTable} (hw : WellPlaced t) :
    WellPlaced (doubled t) ∧ ∀ k, nodeOf (doubled t) k = nodeOf t k :=
  ⟨Indexed.rehash hw _, Indexed.find_rehash hw _⟩

/-- Relinking every chain keeps each node reachable under its key. -/
theorem resize_spec (al : Alloc) {t : HashTable} (hw : WellPlaced t) :
    WellPlaced (resizeHashtable al t).2 ∧ ∀ k, nodeOf (resizeHashtable al t).2 k = nodeOf t k := by
  rw [resize_eq]
  split_ifs
  · exact doubled_spec hw
  · exact ⟨hw, fun k => rfl⟩

theorem locked_wellPlaced {t : HashTable} (hw : WellPlaced t) :
    WellPlaced { t with lock := true } := hw

/-- The table on which the insertion works: locked and, when loaded, doubled. -/
def prepared (al : Alloc) (t : HashTable μ) : HashTable μ :=
  if overloaded { t with lock := true } then (resizeHashtable al { t with lock := true }).2
  else { t with lock := true }

theorem prepared_perm (al : Alloc) (t : HashTable μ) : (elems (prepared al t).nodes).Perm (elems t.nodes) := by
  rw [prepared, resize_eq]
  by_cases hload : overloaded { t with lock := true }
  · by_cases hroom : al.slots ∧ t.maxSlots * 2 < 2147483648
    · rw [if_pos hload, if_pos hroom]
      exact doubled_perm _
    · rw [if_pos hload, if_neg hroom]
  · rw [if_neg hload]

theorem prepared_spec (al : Alloc) {t : HashTable} (hw : WellPlaced t) :
    WellPlaced (prepared al t) ∧ ∀ k, nodeOf (prepared al t) k = nodeOf t k := by
  unfold prepared
  split
  · exact resize_spec al (locked_wellPlaced hw)
  · exact ⟨hw, fun k => rfl⟩

/-- The end of a SET, in a table that has been made large enough. -/
def putPrepared (mark : μ) (al : Alloc) (t : HashTable μ) (key value : CStr) : Except Fault (Int × HashTable μ) :=
  match overwrite key (if al.value then some value else none) (t.nodes (index t key)) with
  | some chain => .ok (if al.value then 0 else -1, pthreadMutexUnlock (setBucket t (index t key) chain))
  | none =>
      match createNode mark al key value with
      | none => .error .nullDeref
      | some n => .ok (0, pthreadMutexUnlock
          { setBucket t (index t key) (n :: t.nodes (index t key)) with count := t.count + 1 })

theorem lock_ok {m : Mutex} {t t' : HashTable μ} (h : pthreadMutexLock m t = .ok t') : t' = { t with lock := true } := by
  unfold pthreadMutexLock at h
  split at h
  next => cases h
  next => exact (Except.ok.inj h).symm

theorem put_eq {m : Mutex} {al : Alloc} {t : HashTable μ} {key value : CStr} :
    putKvHashtable mark m al t (some key) (some value) =
      (pthreadMutexLock m t).bind fun _ => putPrepared mark al (prepared al t) key value := by
  simp only [putKvHashtable, bind, Except.bind]
  cases hl : pthreadMutexLock m t with
  | error e => simp only
  | ok t₁ =>
      cases lock_ok hl
      dsimp only
      rw [← prepared]
      unfold putPrepared
      cases overwrite key (if al.value then some value else none) ((prepared al t).nodes (index (prepared al t) key)) with
      | some chain => rfl
      | none => cases createNode mark al key value <;> rfl

theorem get_cases {m : Mutex} {t t' : HashTable μ} {key v : Option CStr} (h : getKvHashtable m t key = .ok (v, t')) :
    ∃ lock, t' = { t with lock := lock } := by
  cases key with
  | none => cases h; exact ⟨_, rfl⟩
  | some k =>
      simp only [getKvHashtable, bind, Except.bind] at h
      split at h
      next => cases h
      next t₁ hlock =>
        cases lock_ok hlock
        cases h
        exact ⟨false, rfl⟩

/-- A SET with a NULL argument changes nothing. -/
theorem put_null {m : Mutex} {al : Alloc} {t t' : HashTable μ} {key value : Option CStr} {r : Int}
    (h : putKvHashtable mark m al t key value = .ok (r, t')) : t' = t ∨ ∃ k v, key = some k ∧ value = some v := by
  cases key with
  | none => cases h; exact .inl rfl
  | some k =>
      cases value with
      | none => cases h; exact .inl rfl
      | some v => exact .inr ⟨k, v, rfl, rfl⟩

theorem modify_null {al : Alloc} {t t' : HashTable μ} {key value : Option CStr} {r : Int}
    (h : kvsHashModify al t key value = .ok (r, t')) : t' = t ∨ ∃ k v, key = some k ∧ value = some v := by
  cases key with
  | none => cases h; exact .inl rfl
  | some k =>
      cases value with
      | none => cases h; exact .inl rfl
      | some v => exact .inr ⟨k, v, rfl, rfl⟩

theorem delete_null {m : Mutex} {t t' : HashTable μ} {key : Option CStr} {r : Int}
    (h : deleteKvHashtable m t key = .ok (r, t')) : t' = t ∨ ∃ k, key = some k := by
  cases key with
  | none => cases h; exact .inl rfl
  | some k => exact .inr ⟨k, rfl⟩

/-- What a SET that returns has done: it has changed the value of a node, or put
a new one in front of the chain. -/
theorem put_cases {m : Mutex} {al : Alloc} {t t' : HashTable μ} {key value : CStr} {r : Int}
    (h : putKvHashtable mark m al t (some key) (some value) = .ok (r, t')) :
    (∃ pre n post v, (prepared al t).nodes (index (prepared al t) key) = pre ++ [n] ++ post ∧ n.key = key ∧
      t' = pthreadMutexUnlock
        (setBucket (prepared al t) (index (prepared al t) key) (pre ++ [{ n with value := v }] ++ post))) ∨
    (find HashNode.key key ((prepared al t).nodes (index (prepared al t) key)) = none ∧
      ∃ v, t' = pthreadMutexUnlock
        { setBucket (prepared al t) (index (prepared al t) key)
            (⟨key, v, mark⟩ :: (prepared al t).nodes (index (prepared al t) key)) with
          count := (prepared al t).count + 1 }) := by
  rw [put_eq] at h
  cases hl : pthreadMutexLock m t with
  | error e =>
      rw [hl] at h
      cases h
  | ok t₁ =>
      rw [hl, Except.bind, putPrepared] at h
      rcases overwrite_spec key (if al.value then some value else none)
        ((prepared al t).nodes (index (prepared al t) key)) with ⟨hf, ho⟩ | ⟨pre, n, post, hc, hk, hf, ho⟩
      · rw [ho, createNode] at h
        dsimp only at h
        split_ifs at h
        cases h
        exact .inr ⟨hf, _, rfl⟩
      · rw [ho] at h
        cases h
        exact .inl ⟨pre, n, post, _, hc, hk, rfl⟩

theorem delete_eq {m : Mutex} {t : HashTable μ} (hm : pthreadMutexLock m t = .ok { t with lock := true })
    (key : CStr) : ∃ lock, deleteKvHashtable m t (some key) =
      match unlinkNext key (t.nodes (index t key)) with
      | none => .ok (-1, { t with lock := lock })
      | some chain => .ok (0, { setBucket t (index t key) chain with count := t.count - 1, lock := false }) := by
  have hidx : index { t with lock := true } key = index t key := rfl
  simp only [deleteKvHashtable, hm, bind, Except.bind, hidx]
  cases hc : t.nodes (index t key) with
  | nil => exact ⟨true, rfl⟩
  | cons head rest =>
      refine ⟨false, ?_⟩
      by_cases hs : strcmp head.key key = 0
      · simp only [hs, unlinkNext, if_true]
        rfl
      · simp only [hs, unlinkNext, if_false]
        cases unlinkNext key rest <;> rfl

theorem delete_cases {m : Mutex} {t t' : HashTable μ} {key : CStr} {r : Int}
    (h : deleteKvHashtable m t (some key) = .ok (r, t')) :
    (∃ lock, t' = { t with lock := lock }) ∨
    ∃ pre n post, t.nodes (index t key) = pre ++ [n] ++ post ∧ n.key = key ∧
      t' = { setBucket t (index t key) (pre ++ post) with count := t.count - 1, lock := false } := by
  have hm : pthreadMutexLock m t = .ok { t with lock := true } := by
    rw [deleteKvHashtable] at h
    cases hl : pthreadMutexLock m t with
    | error e =>
        rw [hl] at h
        cases h
    | ok t₁ => rw [lock_ok hl]
  obtain ⟨lock, hd⟩ := delete_eq hm key
  rw [hd] at h
  rcases unlinkNext_spec key (t.nodes (index t key)) with ⟨_, ho⟩ | ⟨pre, n, post, hc, hk, _, ho⟩
  · rw [ho] at h
    cases h
    exact .inl ⟨lock, rfl⟩
  · rw [ho] at h
    cases h
    exact .inr ⟨pre, n, post, hc, hk, rfl⟩

theorem modify_cases {al : Alloc} {t t' : HashTable μ} {key value : CStr} {r : Int}
    (h : kvsHashModify al t (some key) (some value) = .ok (r, t')) :
    t' = t ∨ ∃ pre n post v, t.nodes (index t key) = pre ++ [n] ++ post ∧ n.key = key ∧
      t' = setBucket t (index t key) (pre ++ [{ n with value := v }] ++ post) := by
  rw [kvsHashModify] at h
  rcases overwrite_spec key (some value) (t.nodes (index t key)) with ⟨_, ho⟩ | ⟨pre, n, post, hc, hk, _, ho⟩
  · rw [ho] at h
    cases h
    exact .inl rfl
  · rw [ho] at h
    dsimp only at h
    split_ifs at h
    cases h
    exact .inr ⟨pre, n, post, _, hc, hk, rfl⟩

theorem put_spec {m : Mutex} (al : Alloc) {t : HashTable}
    (hm : pthreadMutexLock m t = .ok { t with lock := true })
    (hal : al.node = true ∧ al.key = true ∧ al.value = true) (hw : WellPlaced t) (key value : CStr) :
    ∃ t', putKvHashtable () m al t (some key) (some value) = .ok (0, t') ∧ WellPlaced t' ∧
      ∀ k, nodeOf t' k = if key = k then some ⟨key, some value, ()⟩ else nodeOf t k := by
  obtain ⟨hp, hn⟩ := prepared_spec al hw
  rw [put_eq, hm, Except.bind, putPrepared, createNode, if_pos hal.2.2, if_pos hal.2.2, if_pos hal]
  rcases overwrite_spec key (some value) ((prepared al t).nodes (index (prepared al t) key)) with
    ⟨hf, ho⟩ | ⟨pre, n, post, hc, hk, hf, ho⟩
  · rw [ho]
    have hnone : nodeOf (prepared al t) key = none := by rw [← nodeOf_bucket hp, hf]
    obtain ⟨hi, hfind⟩ := Indexed.push (a := ⟨key, some value, ()⟩) hp hnone
    refine ⟨_, rfl, hi, fun k => ?_⟩
    rw [← hn k]
    exact hfind k
  · rw [ho]
    obtain ⟨hi, hfind⟩ := Indexed.replace hp { n with value := some value } hc rfl
    refine ⟨_, rfl, hi, fun k => ?_⟩
    rw [← hn k]
    apply (hfind k).trans
    rw [hk]
    rfl

theorem get_spec {m : Mutex} {t : HashTable} (hm : pthreadMutexLock m t = .ok { t with lock := true })
    (hw : WellPlaced t) (key : CStr) :
    getKvHashtable m t (some key) =
      .ok ((nodeOf t key).bind HashNode.value, { t with lock := false }) := by
  simp only [getKvHashtable, hm, bind, Except.bind, findNode_eq]
  rw [nodeOf_bucket (locked_wellPlaced hw)]
  rfl

theorem delete_spec {m : Mutex} {t : HashTable} (hm : pthreadMutexLock m t = .ok { t with lock := true })
    (hw : WellPlaced t) (key : CStr) :
    ∃ t', deleteKvHashtable m t (some key) = .ok (if (nodeOf t key).isSome then 0 else -1, t') ∧
      WellPlaced t' ∧ ∀ k, nodeOf t' k = if key = k then none else nodeOf t k := by
  obtain ⟨lock, hd⟩ := delete_eq hm key
  rw [hd, ← nodeOf_bucket hw]
  rcases unlinkNext_spec key (t.nodes (index t key)) with ⟨hf, ho⟩ | ⟨pre, n, post, hc, hk, hf, ho⟩
  · rw [ho, hf]
    refine ⟨_, rfl, hw, fun k => ?_⟩
    split
    · rename_i he
      subst he
      rw [← hf, nodeOf_bucket hw]
      rfl
    · rfl
  · rw [ho, hf]
    obtain ⟨hi, hfind⟩ := Indexed.remove hw hc
    rw [hk] at hfind
    exact ⟨_, rfl, hi, hfind⟩

theorem modify_spec (al : Alloc) (hal : al.value = true) {t : HashTable} (hw : WellPlaced t)
    (key value : CStr) :
    ∃ t', kvsHashModify al t (some key) (some value) = .ok (if (nodeOf t key).isSome then 0 else -1, t') ∧
      WellPlaced t' ∧
      ∀ k, nodeOf t' k = if key = k ∧ (nodeOf t key).isSome then some ⟨key, some value, ()⟩ else nodeOf t k := by
  unfold kvsHashModify
  rcases overwrite_spec key (some value) (t.nodes (index t key)) with ⟨hf, ho⟩ | ⟨pre, n, post, hc, hk, hf, ho⟩
  · rw [nodeOf_bucket hw] at hf
    simp only [ho, hf]
    exact ⟨t, rfl, hw, fun k => by simp⟩
  · rw [nodeOf_bucket hw] at hf
    simp only [ho, hf, hal, if_true]
    obtain ⟨hi, hfind⟩ := Indexed.replace hw { n with value := some value } hc rfl
    refine ⟨_, rfl, hi, fun k => (hfind k).trans ?_⟩
    rw [hk]
    simp [nodeOf]

end GameAccelerator.HashContents
