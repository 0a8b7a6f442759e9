import GameAccelerator.HashEngine
import Mathlib.Logic.Relation

namespace GameAccelerator.HashLock

open CString Platform HashEngine

/-- A call of the engine's interface; a `none` argument is a NULL pointer. -/
inductive HashOp
  | set (key value : Option CStr)
  | get (key : Option CStr)
  | delete (key : Option CStr)
  | modify (key value : Option CStr)

def exec (m : Mutex) (al : Alloc) (t : HashTable) : HashOp → Except Fault (Ret × HashTable)
  | .set key value => (kvsHashSet m al t key value).map fun r => (.code r.1, r.2)
  | .get key => (kvsHashGet m t key).map fun r => (.string r.1, r.2)
  | .delete key => (kvsHashDelete m t key).map fun r => (.code r.1, r.2)
  | .modify key value => (kvsHashModify al t key value).map fun r => (.code r.1, r.2)

def DeletesFromEmptyBucket (t : HashTable) : HashOp → Prop
  | .delete (some key) => t.nodes (index t key) = []
  | _ => False

theorem lock_free {t : HashTable} (h : t.lock = false) :
    pthreadMutexLock .exclusive t = .ok { t with lock := true } := by
  simp [pthreadMutexLock, h]

theorem lock_held {t : HashTable} (h : t.lock = true) : pthreadMutexLock .exclusive t = .error .blocked := by
  simp [pthreadMutexLock, h]

theorem modify_lock {al : Alloc} {t t' : HashTable} {key value : Option CStr} {r : Int}
    (h : kvsHashModify al t key value = .ok (r, t')) : t'.lock = t.lock := by
  unfold kvsHashModify at h
  split at h
  · split at h
    · split at h
      · cases h; rfl
      · cases h
    · cases h; rfl
  · cases h; rfl

theorem put_lock {al : Alloc} {t t' : HashTable} (hl : t.lock = false) {key value : Option CStr}
    {r : Int} (h : putKvHashtable () .exclusive al t key value = .ok (r, t')) : t'.lock = false := by
  unfold putKvHashtable at h
  split at h
  · simp only [lock_free hl, bind, Except.bind] at h
    split at h
    · cases h; rfl
    · split at h
      · cases h
      · cases h; rfl
  · cases h; exact hl

theorem get_lock {t t' : HashTable} (hl : t.lock = false) {key s : Option CStr}
    (h : getKvHashtable .exclusive t key = .ok (s, t')) : t'.lock = false := by
  unfold getKvHashtable at h
  split at h
  · simp only [lock_free hl, bind, Except.bind] at h
    cases h; rfl
  · cases h; exact hl

theorem delete_lock {t t' : HashTable} (hl : t.lock = false) {key : Option CStr} {r : Int}
    (h : deleteKvHashtable .exclusive t key = .ok (r, t')) :
    t'.lock = false ↔ ¬ DeletesFromEmptyBucket t (.delete key) := by
  unfold deleteKvHashtable at h
  split at h
  · rename_i key
    simp only [lock_free hl, bind, Except.bind] at h
    change _ ↔ ¬ t.nodes (index t key) = []
    split at h
    · rename_i he
      have hempty : t.nodes (index t key) = [] := he
      cases h
      simp [hempty]
    · rename_i head rest he
      have hcons : t.nodes (index t key) = head :: rest := he
      rw [hcons]
      have hfree : t'.lock = false := by
        split at h
        · cases h; rfl
        · split at h
          · cases h; rfl
          · cases h; rfl
      simp [hfree]
  · cases h
    simp [hl, DeletesFromEmptyBucket]

theorem put_not_blocked {al : Alloc} {t : HashTable} (hl : t.lock = false)
    (key value : Option CStr) : putKvHashtable () .exclusive al t key value ≠ .error .blocked := by
  intro h
  unfold putKvHashtable at h
  split at h
  · simp only [lock_free hl, bind, Except.bind] at h
    split at h
    · cases h
    · split at h <;> cases h
  · cases h

theorem get_not_blocked {t : HashTable} (hl : t.lock = false) (key : Option CStr) :
    getKvHashtable .exclusive t key ≠ .error .blocked := by
  intro h
  unfold getKvHashtable at h
  split at h
  · simp [lock_free hl, bind, Except.bind] at h
  · cases h

theorem delete_not_blocked {t : HashTable} (hl : t.lock = false) (key : Option CStr) :
    deleteKvHashtable .exclusive t key ≠ .error .blocked := by
  intro h
  unfold deleteKvHashtable at h
  split at h
  · simp only [lock_free hl, bind, Except.bind] at h
    split at h
    · cases h
    · split at h
      · cases h
      · split at h <;> cases h
  · cases h

theorem modify_not_blocked {al : Alloc} (t : HashTable) (key value : Option CStr) :
    kvsHashModify al t key value ≠ .error .blocked := by
  intro h
  unfold kvsHashModify at h
  split at h
  · split at h
    · split at h <;> cases h
    · cases h
  · cases h

/-- A call whose result is only renamed returned with the same table. -/
theorem map_result {α β ε τ : Type} {x : Except ε (α × τ)} {f : α × τ → β × τ} {b : β} {t : τ}
    (h : x.map f = .ok (b, t)) (hf : ∀ o, (f o).2 = o.2) : ∃ a, x = .ok (a, t) := by
  cases x with
  | error e => cases h
  | ok o =>
      have ho : f o = (b, t) := by simpa [Except.map] using h
      have ht : o.2 = t := (hf o).symm.trans (congrArg Prod.snd ho)
      exact ⟨o.1, ht ▸ rfl⟩

theorem map_error {α β ε : Type} {x : Except ε α} {f : α → β} {e : ε} (h : x.map f = .error e) :
    x = .error e := by
  cases x with
  | error e' => simpa [Except.map] using h
  | ok a => cases h

theorem exec_not_blocked {al : Alloc} {t : HashTable} (hl : t.lock = false) (op : HashOp) :
    exec .exclusive al t op ≠ .error .blocked := by
  intro h
  cases op with
  | set key value => exact put_not_blocked hl key value (map_error h)
  | get key => exact get_not_blocked hl key (map_error h)
  | delete key => exact delete_not_blocked hl key (map_error h)
  | modify key value => exact modify_not_blocked t key value (map_error h)

/-- A call that finds the mutex free returns with it free, but for one
return path of the deletion. -/
theorem exec_lock {al : Alloc} {t t' : HashTable} (hl : t.lock = false) {op : HashOp} {r : Ret}
    (h : exec .exclusive al t op = .ok (r, t')) :
    t'.lock = false ↔ ¬ DeletesFromEmptyBucket t op := by
  cases op with
  | set key value =>
      obtain ⟨c, hu⟩ := map_result h fun _ => rfl
      simpa [DeletesFromEmptyBucket] using put_lock hl hu
  | get key =>
      obtain ⟨c, hu⟩ := map_result h fun _ => rfl
      simpa [DeletesFromEmptyBucket] using get_lock hl hu
  | delete key =>
      obtain ⟨c, hu⟩ := map_result h fun _ => rfl
      exact delete_lock hl hu
  | modify key value =>
      obtain ⟨c, hu⟩ := map_result h fun _ => rfl
      simpa [DeletesFromEmptyBucket, hl] using modify_lock hu

def Call (t t' : HashTable) : Prop := ∃ al op r, exec .exclusive al t op = .ok (r, t')

def GuardedCall (t t' : HashTable) : Prop :=
  ∃ al op r, ¬ DeletesFromEmptyBucket t op ∧ exec .exclusive al t op = .ok (r, t')

theorem lock_free_of_guarded {buckets : Fin maxTableSize → List HashNode} {t : HashTable}
    (h : Relation.ReflTransGen GuardedCall (kvstoreHashCreate buckets) t) : t.lock = false := by
  induction h with
  | refl => rfl
  | tail _ hc ih =>
      obtain ⟨al, op, r, hne, he⟩ := hc
      exact (exec_lock ih he).mpr hne

/-- As long as no deletion has met an empty bucket, every call finds the mutex
free; the next call does not block and returns with the mutex free exactly if
it is no such deletion either. -/
theorem guarded_run_lock_free {buckets : Fin maxTableSize → List HashNode} {t : HashTable}
    (h : Relation.ReflTransGen GuardedCall (kvstoreHashCreate buckets) t) :
    t.lock = false ∧ ∀ al op, exec .exclusive al t op ≠ .error .blocked ∧
      ∀ r t', exec .exclusive al t op = .ok (r, t') →
        (t'.lock = false ↔ ¬ DeletesFromEmptyBucket t op) := by
  have hl := lock_free_of_guarded h
  exact ⟨hl, fun al op => ⟨exec_not_blocked hl op, fun r t' he => exec_lock hl he⟩⟩

def name : CStr := ⟨ascii "Name", by decide⟩

def nameValue : CStr := ⟨ascii "SUYANG", by decide⟩

theorem set_then_delete_lock_free :
    ∃ t t', Relation.ReflTransGen GuardedCall (kvstoreHashCreate fun _ => []) t ∧
      exec .exclusive .succeeds t (.delete (some name)) = .ok (.code 0, t') ∧ t'.lock = false := by
  have hset : GuardedCall (kvstoreHashCreate fun _ => []) _ :=
    ⟨.succeeds, .set (some name) (some nameValue), .code 0, id, rfl⟩
  have hrun := Relation.ReflTransGen.single hset
  refine ⟨_, _, hrun, rfl, ?_⟩
  exact (((guarded_run_lock_free hrun).2 .succeeds (.delete (some name))).2 _ _ rfl).mpr
    (List.cons_ne_nil _ _)

/-- Deleting from a fresh engine leaves the mutex held, and the next lookup of
any key waits for ever. -/
theorem delete_on_fresh_blocks :
    ∃ t, Relation.ReflTransGen Call (kvstoreHashCreate fun _ => []) t ∧ t.lock = true ∧
      exec .exclusive .succeeds t (.get (some name)) = .error .blocked :=
  ⟨_, .single ⟨.succeeds, .delete (some name), .code (-1), rfl⟩, rfl, rfl⟩

end GameAccelerator.HashLock
