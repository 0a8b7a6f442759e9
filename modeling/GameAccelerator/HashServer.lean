import GameAccelerator.HashContents
import GameAccelerator.HashLock
import GameAccelerator.ReferenceMap

namespace GameAccelerator.HashServer

open CString Platform Buckets HashEngine HashContents HashLock KvStore Requests ReferenceMap

/-- The table holds one node with a value for every bound key and no other. -/
def Represents (t : HashTable) (m : KvMap) : Prop :=
  WellPlaced t ∧ ∀ k, nodeOf t k = (m k).map fun v => ⟨k, some v, ()⟩

theorem lock_available (t : HashTable) : pthreadMutexLock .available t = .ok { t with lock := true } := rfl

theorem represents_empty : Represents (kvstoreHashCreate fun _ => []) (fun _ => none) := by
  have he : elems (kvstoreHashCreate fun _ => []).nodes = [] := elems_empty
  refine ⟨⟨by simp [kvstoreHashCreate, initHashtable], by simp [he]⟩, fun k => ?_⟩
  rw [nodeOf, he]
  rfl

theorem nodeOf_isSome {t : HashTable} {m : KvMap} (h : Represents t m) (k : CStr) :
    (nodeOf t k).isSome = (m k).isSome := by
  rw [h.2 k, Option.isSome_map]

/-- Once the mutex is obtained, the calls do what the map does. -/
theorem hash_implementsAt {mu : Mutex} {t : HashTable} {m : KvMap}
    (hlock : pthreadMutexLock mu t = .ok { t with lock := true }) (h : Represents t m) :
    ImplementsAt (hashEngine mu .succeeds) Represents t m where
  set k v := by
    obtain ⟨t', he, hw, hn⟩ := put_spec .succeeds hlock ⟨rfl, rfl, rfl⟩ h.1 k v
    refine ⟨t', he, hw, fun k' => ?_⟩
    rw [hn k']
    by_cases hk : k = k'
    · subst hk; simp
    · rw [if_neg hk, Function.update_of_ne (Ne.symm hk), h.2 k']
  get k := by
    refine ⟨{ t with lock := false }, (get_spec hlock h.1 k).trans ?_, ⟨h.1, h.2⟩⟩
    rw [h.2 k]
    cases m k <;> rfl
  delete k := by
    obtain ⟨t', he, hw, hn⟩ := delete_spec hlock h.1 k
    rw [nodeOf_isSome h] at he
    refine ⟨t', he, hw, fun k' => ?_⟩
    rw [hn k', h.2 k']
    by_cases hk : k = k'
    · subst hk
      cases hm : m k <;> simp [hm]
    · rw [if_neg hk]
      split
      · rw [Function.update_of_ne (Ne.symm hk)]
      · rfl
  modify k v := by
    obtain ⟨t', he, hw, hn⟩ := modify_spec .succeeds rfl h.1 k v
    rw [nodeOf_isSome h] at he
    refine ⟨t', he, hw, fun k' => ?_⟩
    rw [hn k', h.2 k', nodeOf_isSome h]
    by_cases hk : k = k'
    · subst hk
      cases hm : m k <;> simp [hm]
    · simp only [hk, false_and, if_false]
      split
      · rw [Function.update_of_ne (Ne.symm hk)]
      · rfl

theorem hash_implements : Implements (hashEngine .available .succeeds) Represents where
  set h := (hash_implementsAt (lock_available _) h).set
  get h := (hash_implementsAt (lock_available _) h).get
  delete h := (hash_implementsAt (lock_available _) h).delete
  modify h := (hash_implementsAt (lock_available _) h).modify

/-- The call that a request makes. -/
def opOf : Request → HashOp
  | .set key value => .set (some key) (some value)
  | .get key => .get (some key)
  | .del key => .delete (some key)
  | .mod key value => .modify (some key) (some value)

/-- A request that found the mutex free leaves it held exactly if it deletes
from an empty bucket. -/
theorem execute_lock {al : Alloc} {t t' : HashTable} (hl : t.lock = false) {r : Request} {reply : Bytes}
    (h : execute (hashEngine .exclusive al) t r = .ok (reply, t')) :
    t'.lock = false ↔ ¬ DeletesFromEmptyBucket t (opOf r) := by
  have hexec : ∃ ret, exec .exclusive al t (opOf r) = .ok (ret, t') := by
    cases r with
    | set key value =>
        obtain ⟨c, hu⟩ := map_result h fun _ => rfl
        exact ⟨.code c, congrArg (Except.map _) hu⟩
    | get key =>
        obtain ⟨c, hu⟩ := map_result h fun _ => rfl
        exact ⟨.string c, congrArg (Except.map _) hu⟩
    | del key =>
        obtain ⟨c, hu⟩ := map_result h fun _ => rfl
        exact ⟨.code c, congrArg (Except.map _) hu⟩
    | mod key value =>
        obtain ⟨c, hu⟩ := map_result h fun _ => rfl
        exact ⟨.code c, congrArg (Except.map _) hu⟩
  obtain ⟨ret, hexec⟩ := hexec
  exact exec_lock hl hexec

/-- With the mutex held, a request waits for it or is a MOD, which does not
take it. -/
theorem execute_held (al : Alloc) {t : HashTable} (hl : t.lock = true) (r : Request) :
    execute (hashEngine .exclusive al) t r = .error .blocked ∨
      ∃ key value, r = .mod key value ∧
        ∀ reply t', execute (hashEngine .exclusive al) t r = .ok (reply, t') → t'.lock = true := by
  have hlock := lock_held hl
  cases r with
  | set key value =>
      have hput : putKvHashtable () .exclusive al t (some key) (some value) = .error .blocked := by
        simp [putKvHashtable, hlock, bind, Except.bind]
      exact .inl (congrArg (Except.map _) hput)
  | get key =>
      have hget : getKvHashtable .exclusive t (some key) = .error .blocked := by
        simp [getKvHashtable, hlock, bind, Except.bind]
      exact .inl (congrArg (Except.map _) hget)
  | del key =>
      have hdel : deleteKvHashtable .exclusive t (some key) = .error .blocked := by
        simp [deleteKvHashtable, hlock, bind, Except.bind]
      exact .inl (congrArg (Except.map _) hdel)
  | mod key value =>
      refine .inr ⟨key, value, rfl, fun reply t' h => ?_⟩
      obtain ⟨c, hu⟩ := map_result h fun _ => rfl
      have hmod : kvsHashModify al t (some key) (some value) = .ok (c, t') := hu
      exact (modify_lock hmod).trans hl

def testScript : List Bytes :=
  [ascii "SET Name SUYANG", ascii "GET Name", ascii "MOD Name FISH", ascii "GET Name", ascii "DEL Name",
    ascii "GET Name"]

/-- From empty buckets on, whatever the order of the requests, the collisions
and the doublings, the server answers as the map. -/
theorem hash_server_refines_map (segs : List Bytes) (hsegs : ∀ seg ∈ segs, WellFormed seg) :
    ∃ reqs t, segs.mapM decode = some reqs ∧
      serve (hashEngine .available .succeeds) (kvstoreHashCreate fun _ => []) segs =
        .ok (referenceReplies (fun _ => none) reqs, t) :=
  serve_spec hash_implements segs hsegs represents_empty (fun k v h => by cases h)

theorem test_script_answers :
    (∀ seg ∈ testScript, WellFormed seg) ∧
      ∃ t, serve (hashEngine .available .succeeds) (kvstoreHashCreate fun _ => []) testScript =
        .ok ([ascii "SUCCESS", ascii "SUYANG", ascii "SUCCESS", ascii "FISH", ascii "SUCCESS",
          ascii "NO EXIST"], t) := by
  have hw : ∀ seg ∈ testScript, WellFormed seg := by decide
  obtain ⟨reqs, t, hreqs, hs⟩ := hash_server_refines_map testScript hw
  cases (Option.some.inj hreqs : _ = reqs)
  exact ⟨hw, t, hs⟩

end GameAccelerator.HashServer
