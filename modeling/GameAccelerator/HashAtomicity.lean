import GameAccelerator.RequestSafety
import GameAccelerator.Writes

namespace GameAccelerator.HashAtomicity

open CString Platform Buckets HashEngine HashContents HashInvariant HashLock Writes RequestSafety

variable {al : Alloc} {t t' : HashTable} {key value : CStr}

/-- What `kvs_hash_get` gives. -/
def lookup (t : HashTable) (k : CStr) : Except Fault (Option CStr) :=
  (kvsHashGet .available t (some k)).map Prod.fst

/-- A call does not crash, and if it comes back all of the write has been done
or none of it. -/
def Atomic (t : HashTable) (key value : CStr) : Except Fault (Int × HashTable) → Prop
  | .error f => f ≠ .assertFailed ∧ f ≠ .nullDeref
  | .ok r => AllOrNothing lookup True key (.ok (some value)) t r ∧ (r.1 ≠ 0 → r.2.count = t.count)

theorem lookup_eq (h : WellPlaced t) (k : CStr) : lookup t k = .ok ((nodeOf t k).bind HashNode.value) := by
  rw [lookup, kvsHashGet, get_spec rfl h]
  rfl

theorem lookup_update {v : Option CStr} (hw : WellPlaced t) (hw' : WellPlaced t')
    (h : ∀ k, nodeOf t' k = if key = k then some ⟨key, v, ()⟩ else nodeOf t k) (k : CStr) :
    lookup t' k = if key = k then .ok v else lookup t k := by
  rw [lookup_eq hw', lookup_eq hw, h]
  split_ifs <;> rfl

/-- A SET of a stored key: the node gets the new value, or NULL if there is no
memory for it. -/
theorem put_stored (hl : t.lock = false) (hw : WellPlaced t) (hs : (nodeOf t key).isSome) (value : CStr) :
    ∃ t', putKvHashtable () .exclusive al t (some key) (some value) = .ok (if al.value then 0 else -1, t') ∧
      WellPlaced t' ∧ t'.count = t.count ∧
      ∀ k, nodeOf t' k = if key = k then some ⟨key, if al.value then some value else none, ()⟩ else nodeOf t k := by
  obtain ⟨hp, hn⟩ := prepared_spec al hw
  rw [put_eq, lock_free hl, Except.bind, putPrepared]
  rcases overwrite_spec key (if al.value then some value else none)
    ((prepared al t).nodes (index (prepared al t) key)) with ⟨hf, ho⟩ | ⟨pre, n, post, hc, hk, hf, ho⟩
  · rw [nodeOf_bucket hp, hn] at hf
    rw [hf] at hs
    cases hs
  · rw [ho]
    obtain ⟨hi, hfind⟩ := Indexed.replace hp { n with value := if al.value then some value else none } hc rfl
    refine ⟨_, rfl, hi, prepared_count al t, ?_⟩
    intro k
    rw [← hn k]
    apply (hfind k).trans
    rw [hk]
    rfl

/-- A SET of a new key that gets no node runs on with the NULL. -/
theorem put_no_node (hl : t.lock = false) (hw : WellPlaced t) (hs : nodeOf t key = none)
    (hal : ¬ (al.node ∧ al.key ∧ al.value)) (value : CStr) :
    putKvHashtable () .exclusive al t (some key) (some value) = .error .nullDeref := by
  obtain ⟨hp, hn⟩ := prepared_spec al hw
  rw [put_eq, lock_free hl, Except.bind, putPrepared]
  rcases overwrite_spec key (if al.value then some value else none)
    ((prepared al t).nodes (index (prepared al t) key)) with ⟨hf, ho⟩ | ⟨pre, n, post, hc, hk, hf, ho⟩
  · rw [ho, createNode, if_neg hal]
  · rw [nodeOf_bucket hp, hn, hs] at hf
    cases hf

theorem modify_missing (hw : WellPlaced t) (hs : nodeOf t key = none) (al : Alloc) (value : CStr) :
    kvsHashModify al t (some key) (some value) = .ok (-1, t) := by
  rw [kvsHashModify]
  rcases overwrite_spec key (some value) (t.nodes (index t key)) with ⟨hf, ho⟩ | ⟨pre, n, post, hc, hk, hf, ho⟩
  · rw [ho]
  · rw [nodeOf_bucket hw, hs] at hf
    cases hf

theorem modify_no_memory (hw : WellPlaced t) (hs : (nodeOf t key).isSome) (hal : al.value = false) (value : CStr) :
    kvsHashModify al t (some key) (some value) = .error .assertFailed := by
  rw [kvsHashModify]
  rcases overwrite_spec key (some value) (t.nodes (index t key)) with ⟨hf, ho⟩ | ⟨pre, n, post, hc, hk, hf, ho⟩
  · rw [nodeOf_bucket hw] at hf
    rw [hf] at hs
    cases hs
  · rw [ho]
    exact if_neg (by simp [hal])

/-- What a SET needs: memory for the node, its key and its value if the key is
new, and memory for the value if there is one to lose. -/
def SetServed (al : Alloc) (t : HashTable) (key : CStr) : Prop :=
  match nodeOf t key with
  | none => al.node ∧ al.key ∧ al.value
  | some n => n.value.isSome → al.value

theorem set_atomic_iff (h : Sound t) (hl : t.lock = false) (al : Alloc) (key value : CStr) :
    Atomic t key value (kvsHashSet .exclusive al t (some key) (some value)) ↔ SetServed al t key := by
  have hw := h.placed
  rw [SetServed, kvsHashSet]
  cases hs : nodeOf t key with
  | none =>
      by_cases hal : al.node ∧ al.key ∧ al.value
      · obtain ⟨t', hput, hw', hn⟩ := put_spec al (lock_free hl) hal hw key value
        rw [hput]
        exact iff_of_true ⟨.of_update (lookup_update hw hw' hn), fun hc => absurd rfl hc⟩ hal
      · rw [put_no_node hl hw hs hal]
        exact iff_of_false (fun ha => ha.2 rfl) hal
  | some n =>
      have hstored : (nodeOf t key).isSome := Option.isSome_of_eq_some hs
      obtain ⟨t', hput, hw', hcount, hn⟩ := put_stored hl hw hstored value
      have hnew := lookup_update hw hw' hn
      have hold : lookup t key = .ok n.value := by
        rw [lookup_eq hw, hs]
        rfl
      rw [hput]
      cases hal : al.value with
      | true =>
          simp only [hal, if_true] at hnew
          exact iff_of_true ⟨.of_update hnew, fun hc => absurd rfl hc⟩ fun _ => rfl
      | false =>
          -- the old value has been given back by now
          simp only [hal, Bool.false_eq_true, if_false] at hnew ⊢
          rw [Atomic, AllOrNothing.failed_iff (by decide) hnew, hold, and_iff_left fun _ => hcount]
          cases n.value <;> simp

theorem modify_atomic_iff (h : Sound t) (al : Alloc) (key value : CStr) :
    Atomic t key value (kvsHashModify al t (some key) (some value)) ↔ ((nodeOf t key).isSome → al.value) := by
  have hw := h.placed
  cases hs : nodeOf t key with
  | none =>
      rw [modify_missing hw hs]
      refine iff_of_true ⟨.of_same (fun _ => rfl) fun hc => absurd hc (by decide), fun _ => rfl⟩ ?_
      exact fun hn => absurd hn Bool.false_ne_true
  | some n =>
      have hstored : (nodeOf t key).isSome := Option.isSome_of_eq_some hs
      cases hal : al.value with
      | false =>
          rw [modify_no_memory hw hstored hal]
          exact iff_of_false (fun ha => ha.1 rfl) fun hv => absurd (hv rfl) Bool.false_ne_true
      | true =>
          obtain ⟨t', hmod, hw', hn⟩ := modify_spec al hal hw key value
          simp only [hstored, and_true, if_true] at hmod hn
          rw [hmod]
          exact iff_of_true ⟨.of_update (lookup_update hw hw' hn), fun hc => absurd rfl hc⟩ fun _ => rfl

/-- A call that waits for a mutex left held does nothing else. -/
theorem writes_atomic_iff (h : Relation.ReflTransGen Call (kvstoreHashCreate fun _ => []) t) (al : Alloc)
    (key value : CStr) :
    (Atomic t key value (kvsHashSet .exclusive al t (some key) (some value)) ↔ t.lock = true ∨ SetServed al t key) ∧
      (Atomic t key value (kvsHashModify al t (some key) (some value)) ↔ ((nodeOf t key).isSome → al.value)) := by
  have hsound := calls_sound h
  refine ⟨?_, modify_atomic_iff hsound al key value⟩
  cases hl : t.lock with
  | false =>
      rw [set_atomic_iff hsound hl]
      exact (or_iff_right Bool.false_ne_true).symm
  | true =>
      have hblocked : kvsHashSet .exclusive al t (some key) (some value) = .error .blocked := by
        rw [kvsHashSet, putKvHashtable, lock_held hl]
        rfl
      rw [hblocked]
      refine iff_of_true ⟨?_, ?_⟩ (.inl rfl)
      · intro h
        cases h
      · intro h
        cases h

theorem nodeOf_fresh (k : CStr) : nodeOf (kvstoreHashCreate fun _ => []) k = none :=
  HashServer.represents_empty.2 k

/-- There is no memory for a larger array of buckets. -/
def noSlots : Alloc := { Alloc.succeeds with slots := false }

theorem prepared_noSlots (t : HashTable) : prepared noSlots t = { t with lock := true } := by
  rw [prepared_eq, if_neg]
  rintro ⟨hover, hserved⟩
  rw [refused, hover, resize_eq] at hserved
  cases hserved

theorem letters_noNul (n : Nat) : (0 : UInt8) ∉ List.replicate n 97 := by
  intro h
  cases (List.mem_replicate.mp h).2

def letters (n : Nat) : CStr := ⟨List.replicate n 97, letters_noNul n⟩

theorem letters_inj {m n : Nat} (h : letters m = letters n) : m = n := by
  have hlen := congrArg (fun s : CStr => s.bytes.length) h
  simpa [letters] using hlen

/-- However many keys there are, the array stays as it is. -/
theorem exists_crowded (n : Nat) : ∃ t, Relation.ReflTransGen Call (kvstoreHashCreate fun _ => []) t ∧ t.lock = false ∧
    t.maxSlots = 1024 ∧ t.count = n ∧
    ∀ k, nodeOf t (letters k) = if k < n then some ⟨letters k, some nameValue, ()⟩ else none := by
  induction n with
  | zero => exact ⟨_, .refl, rfl, rfl, rfl, fun k => nodeOf_fresh (letters k)⟩
  | succ n ih =>
      obtain ⟨t, hcalls, hl, hslots, hcount, hnodes⟩ := ih
      have hw := (calls_sound hcalls).placed
      obtain ⟨t', hput, -, hn⟩ := put_spec noSlots (lock_free hl) ⟨rfl, rfl, rfl⟩ hw (letters n) nameValue
      have hcall : Call t t' :=
        ⟨noSlots, .set (some (letters n)) (some nameValue), .code 0, by rw [exec, kvsHashSet, hput]; rfl⟩
      have hgrown : t'.maxSlots = 1024 ∧ t'.count = n + 1 := by
        rcases put_cases hput with ⟨pre, old, post, v, hchain, hk, -⟩ | ⟨-, v, rfl⟩
        · have hnew : find HashNode.key (letters n) (t.nodes (index t (letters n))) = none := by
            rw [nodeOf_bucket hw, hnodes, if_neg (Nat.lt_irrefl n)]
          rw [prepared_noSlots] at hchain
          have hmem : old ∈ t.nodes (index t (letters n)) := hchain.symm ▸ by simp
          exact absurd hk (by simpa using List.find?_eq_none.mp hnew old hmem)
        · rw [prepared_noSlots]
          exact ⟨hslots, congrArg (· + 1) hcount⟩
      refine ⟨t', hcalls.tail hcall, put_lock hl hput, hgrown.1, hgrown.2, fun k => ?_⟩
      rw [hn, hnodes]
      by_cases hk : n = k
      · subst hk
        rw [if_pos rfl, if_pos (Nat.lt_succ_self n)]
      · rw [if_neg fun heq => hk (letters_inj heq)]
        exact if_congr (by omega) rfl rfl

/-- The table is overloaded and cannot grow, but the value is replaced. -/
theorem overwrite_without_slots_atomic :
    ∃ t, Relation.ReflTransGen Call (kvstoreHashCreate fun _ => []) t ∧ overloaded t = true ∧
      lookup t (letters 5) = .ok (some nameValue) ∧
      Atomic t (letters 5) name (kvsHashSet .exclusive noSlots t (some (letters 5)) (some name)) := by
  obtain ⟨t, hcalls, -, hslots, hcount, hnodes⟩ := exists_crowded 717
  have hnode : nodeOf t (letters 5) = some ⟨letters 5, some nameValue, ()⟩ := hnodes 5
  refine ⟨t, hcalls, ?_, ?_, (writes_atomic_iff hcalls noSlots (letters 5) name).1.mpr (.inr ?_)⟩
  · rw [overloaded, hslots, hcount]
    rfl
  · rw [lookup_eq (calls_sound hcalls).placed, hnode]
    rfl
  · rw [SetServed, hnode]
    exact fun _ => rfl

/-- The only block of memory that the call does not get is the one for the
value. -/
def noValue : Alloc := { Alloc.succeeds with value := false }

/-- An overwrite reports its failure but the old value is gone, a modification
runs into the assertion, and an insertion into the NULL it was given. -/
theorem failed_writes_not_atomic :
    ∃ t t', Relation.ReflTransGen Call (kvstoreHashCreate fun _ => []) t ∧
      kvsHashSet .exclusive noValue t (some name) (some name) = .ok (-1, t') ∧
      lookup t name = .ok (some nameValue) ∧ lookup t' name = .ok none ∧
      kvsHashModify noValue t (some name) (some name) = .error .assertFailed ∧
      kvsHashSet .exclusive noValue t (some nameValue) (some name) = .error .nullDeref := by
  have hw₀ : WellPlaced (kvstoreHashCreate fun _ => []) := empty_sound.placed
  obtain ⟨t, hset, hw, hn⟩ := put_spec .succeeds (lock_free rfl) ⟨rfl, rfl, rfl⟩ hw₀ name nameValue
  have hcall : Call (kvstoreHashCreate fun _ => []) t :=
    ⟨.succeeds, .set (some name) (some nameValue), .code 0, by rw [exec, kvsHashSet, hset]; rfl⟩
  have hl : t.lock = false := put_lock rfl hset
  have hname : nodeOf t name = some ⟨name, some nameValue, ()⟩ := (hn name).trans (if_pos rfl)
  have hother : nodeOf t nameValue = none := (hn nameValue).trans ((if_neg (by decide)).trans (nodeOf_fresh nameValue))
  have hstored := Option.isSome_of_eq_some hname
  obtain ⟨t', hput, hw', -, hn'⟩ := @put_stored noValue t name hl hw hstored name
  refine ⟨t, t', .single hcall, hput, ?_, ?_, modify_no_memory hw hstored rfl name, ?_⟩
  · rw [lookup_eq hw, hname]
    rfl
  · rw [lookup_eq hw', hn', if_pos rfl]
    rfl
  · exact put_no_node hl hw hother (fun hal => Bool.false_ne_true hal.2.2) name

end GameAccelerator.HashAtomicity
