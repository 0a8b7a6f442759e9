import GameAccelerator.HashContents
import GameAccelerator.HashLock

namespace GameAccelerator.HashProvenance

open CString Platform Buckets HashEngine HashContents HashLock

section Marks

variable {μ ν : Type} {m : Mutex} {al : Alloc}

def remark (f : μ → ν) (n : HashNode μ) : HashNode ν := ⟨n.key, n.value, f n.mark⟩

/-- The table with other marks on its nodes. -/
def remarkAll (f : μ → ν) (t : HashTable μ) : HashTable ν :=
  ⟨t.maxSlots, t.pos, fun i => (t.nodes i).map (remark f), t.count, t.lock⟩

theorem bucket_remark (f : μ → ν) (t : HashTable μ) (i : Fin t.maxSlots) (chain : List (HashNode μ)) (count : Int)
    (lock : Bool) : remarkAll f { setBucket t i chain with count := count, lock := lock } =
      { setBucket (remarkAll f t) i (chain.map (remark f)) with count := count, lock := lock } :=
  congrArg (fun nodes => (⟨t.maxSlots, t.pos, nodes, count, lock⟩ : HashTable ν))
    (Function.comp_update (List.map (remark f)) t.nodes i chain)

theorem lock_remark (f : μ → ν) (t : HashTable μ) :
    pthreadMutexLock m (remarkAll f t) = (pthreadMutexLock m t).map (remarkAll f) := by
  obtain ⟨maxSlots, pos, nodes, count, lock⟩ := t
  cases m <;> cases lock <;> rfl

theorem doubled_remark (f : μ → ν) (t : HashTable μ) : remarkAll f (doubled t) = doubled (remarkAll f t) := by
  have hnodes := @map_foldl_push _ _ _ _ HashNode.key HashNode.key (remark f) (fun _ => rfl)
    (hash (t.maxSlots * 2) (doubled_pos t)) (elems t.nodes) (fun _ => [])
  have helems : (elems t.nodes).map (remark f) = elems (remarkAll f t).nodes := List.map_flatMap ..
  rw [helems] at hnodes
  exact congrArg (fun nodes => (⟨t.maxSlots * 2, doubled_pos t, nodes, t.count, t.lock⟩ : HashTable ν)) hnodes

theorem resize_remark (f : μ → ν) (t : HashTable μ) :
    (resizeHashtable al (remarkAll f t)).2 = remarkAll f (resizeHashtable al t).2 := by
  rw [resize_eq, resize_eq]
  change (if al.slots ∧ t.maxSlots * 2 < 2147483648 then _ else _ : Int × HashTable ν).2 = _
  split_ifs
  · exact (doubled_remark f t).symm
  · rfl

theorem prepared_remark (f : μ → ν) (t : HashTable μ) : prepared al (remarkAll f t) = remarkAll f (prepared al t) := by
  rw [prepared, prepared]
  change (if overloaded { t with lock := true } then _ else _ : HashTable ν) = _
  split_ifs
  · exact resize_remark f { t with lock := true }
  · rfl

theorem overwrite_remark (f : μ → ν) (key : CStr) (value : Option CStr) (chain : List (HashNode μ)) :
    overwrite key value (chain.map (remark f)) = (overwrite key value chain).map (List.map (remark f)) := by
  induction chain with
  | nil => rfl
  | cons n ns ih =>
      rw [List.map_cons, overwrite, overwrite, ih]
      change (if strcmp n.key key = 0 then _ else _ : Option (List (HashNode ν))) = _
      split_ifs
      · rfl
      · simp [Option.map_map, Function.comp_def]

theorem unlinkNext_remark (f : μ → ν) (key : CStr) (chain : List (HashNode μ)) :
    unlinkNext key (chain.map (remark f)) = (unlinkNext key chain).map (List.map (remark f)) := by
  induction chain with
  | nil => rfl
  | cons n ns ih =>
      rw [List.map_cons, unlinkNext, unlinkNext, ih]
      change (if strcmp n.key key = 0 then _ else _ : Option (List (HashNode ν))) = _
      split_ifs
      · rfl
      · simp [Option.map_map, Function.comp_def]

theorem createNode_remark (f : μ → ν) (mark : μ) (key value : CStr) :
    createNode (f mark) al key value = (createNode mark al key value).map (remark f) := by
  rw [createNode, createNode]
  split_ifs <;> rfl

theorem putPrepared_remark (f : μ → ν) (mark : μ) (t : HashTable μ) (key value : CStr) :
    putPrepared (f mark) al (remarkAll f t) key value =
      (putPrepared mark al t key value).map fun r => (r.1, remarkAll f r.2) := by
  have ho := overwrite_remark f key (if al.value then some value else none) (t.nodes (index t key))
  change overwrite key _ ((remarkAll f t).nodes (index (remarkAll f t) key)) = _ at ho
  rw [putPrepared, putPrepared, ho, createNode_remark]
  cases overwrite key (if al.value then some value else none) (t.nodes (index t key)) with
  | some chain =>
      exact congrArg (fun t' => Except.ok (_, t')) (bucket_remark f t (index t key) chain t.count false).symm
  | none =>
      cases createNode mark al key value with
      | none => rfl
      | some n =>
          exact congrArg (fun t' => Except.ok (_, t'))
            (bucket_remark f t (index t key) (n :: t.nodes (index t key)) (t.count + 1) false).symm

theorem put_remark (f : μ → ν) (mark : μ) (t : HashTable μ) (key value : Option CStr) :
    putKvHashtable (f mark) m al (remarkAll f t) key value =
      (putKvHashtable mark m al t key value).map fun r => (r.1, remarkAll f r.2) := by
  obtain _ | key := key
  · rfl
  obtain _ | value := value
  · rfl
  rw [put_eq, put_eq, lock_remark, prepared_remark, putPrepared_remark]
  cases pthreadMutexLock m t <;> rfl

theorem findNode_remark (f : μ → ν) (key : CStr) (chain : List (HashNode μ)) :
    findNode key (chain.map (remark f)) = (findNode key chain).map (remark f) := List.find?_map ..

theorem get_remark (f : μ → ν) (t : HashTable μ) (key : Option CStr) :
    kvsHashGet m (remarkAll f t) key = (kvsHashGet m t key).map fun r => (r.1, remarkAll f r.2) := by
  obtain _ | key := key
  · rfl
  rw [kvsHashGet, kvsHashGet, getKvHashtable, getKvHashtable, lock_remark]
  cases hl : pthreadMutexLock m t with
  | error e => rfl
  | ok t₁ =>
      cases lock_ok hl
      change Except.ok ((findNode key ((t.nodes (index t key)).map (remark f))).bind HashNode.value, _) =
        Except.ok ((findNode key (t.nodes (index t key))).bind HashNode.value, _)
      rw [findNode_remark]
      cases findNode key (t.nodes (index t key)) <;> rfl

theorem delete_remark (f : μ → ν) (t : HashTable μ) (key : Option CStr) :
    kvsHashDelete m (remarkAll f t) key = (kvsHashDelete m t key).map fun r => (r.1, remarkAll f r.2) := by
  obtain _ | key := key
  · rfl
  rw [kvsHashDelete, kvsHashDelete, deleteKvHashtable, deleteKvHashtable, lock_remark]
  cases hl : pthreadMutexLock m t with
  | error e => rfl
  | ok t₁ =>
      cases lock_ok hl
      have hidx : index { t with lock := true } key = index t key := rfl
      have hchain : (remarkAll f { t with lock := true }).nodes (index (remarkAll f { t with lock := true }) key) =
          (t.nodes (index t key)).map (remark f) := rfl
      simp only [Except.map, bind, Except.bind, hchain, hidx]
      cases t.nodes (index t key) with
      | nil => rfl
      | cons head rest =>
          have hkey : (remark f head).key = head.key := rfl
          simp only [List.map_cons, hkey, unlinkNext_remark]
          split_ifs
          · exact congrArg (fun t' => Except.ok (_, t'))
              (bucket_remark f { t with lock := true } (index t key) rest (t.count - 1) false).symm
          · cases unlinkNext key rest with
            | none => rfl
            | some rest' =>
                exact congrArg (fun t' => Except.ok (_, t'))
                  (bucket_remark f { t with lock := true } (index t key) (head :: rest') (t.count - 1) false).symm

theorem modify_remark (f : μ → ν) (t : HashTable μ) (key value : Option CStr) :
    kvsHashModify al (remarkAll f t) key value = (kvsHashModify al t key value).map fun r => (r.1, remarkAll f r.2) := by
  obtain _ | key := key
  · rfl
  obtain _ | value := value
  · rfl
  have ho := overwrite_remark f key (some value) (t.nodes (index t key))
  change overwrite key _ ((remarkAll f t).nodes (index (remarkAll f t) key)) = _ at ho
  rw [kvsHashModify, kvsHashModify, ho]
  cases overwrite key (some value) (t.nodes (index t key)) with
  | none => rfl
  | some chain =>
      cases al.value with
      | true => exact congrArg (fun t' => Except.ok (_, t')) (bucket_remark f t (index t key) chain t.count t.lock).symm
      | false => rfl

end Marks

/-- The mark is the number of the call that has made the node. A node that was
found in the memory has none. -/
abbrev Traced := HashNode (Option Nat)

abbrev TracedTable := HashTable (Option Nat)

def plain : TracedTable → HashTable := remarkAll fun _ => ()

def exec (m : Mutex) (al : Alloc) (now : Nat) (t : TracedTable) : HashOp → Except Fault (Ret × TracedTable)
  | .set key value => (putKvHashtable (some now) m al t key value).map fun r => (.code r.1, r.2)
  | .get key => (kvsHashGet m t key).map fun r => (.string r.1, r.2)
  | .delete key => (kvsHashDelete m t key).map fun r => (.code r.1, r.2)
  | .modify key value => (kvsHashModify al t key value).map fun r => (.code r.1, r.2)

/-- The calls one after the other, the first of them with the number `now`. -/
def run (m : Mutex) : Nat → TracedTable → List (Alloc × HashOp) → Except Fault TracedTable
  | _, t, [] => .ok t
  | now, t, (al, op) :: calls => do
      let r ← exec m al now t op
      run m (now + 1) r.2 calls

/-- The same calls on the engine. -/
def engineRun (m : Mutex) : HashTable → List (Alloc × HashOp) → Except Fault HashTable
  | t, [] => .ok t
  | t, (al, op) :: calls => do
      let r ← HashLock.exec m al t op
      engineRun m r.2 calls

def kvstoreHashCreate (buckets : Fin maxTableSize → List HashNode) : TracedTable :=
  initHashtable fun i => (buckets i).map (remark fun _ => none)

section Plain

variable {m : Mutex} {al : Alloc}

theorem create_plain (buckets : Fin maxTableSize → List HashNode) :
    plain (kvstoreHashCreate buckets) = HashEngine.kvstoreHashCreate buckets := by
  have hnodes : (fun i => ((buckets i).map (remark fun _ => none)).map (remark fun _ : Option Nat => ())) = buckets := by
    funext i
    rw [List.map_map]
    exact List.map_id _
  exact congrArg initHashtable hnodes

theorem map_plain {α : Type} {x : Except Fault (α × HashTable)} {y : Except Fault (α × TracedTable)} (ret : α → Ret)
    (h : x = y.map fun r => (r.1, plain r.2)) :
    (x.map fun r => (ret r.1, r.2)) = (y.map fun r => (ret r.1, r.2)).map fun r => (r.1, plain r.2) := by
  subst h
  cases y <;> rfl

theorem exec_plain (now : Nat) (t : TracedTable) (op : HashOp) :
    HashLock.exec m al (plain t) op = (exec m al now t op).map fun r => (r.1, plain r.2) := by
  cases op with
  | set key value => exact map_plain .code (put_remark (fun _ => ()) (some now) t key value)
  | get key => exact map_plain .string (get_remark (fun _ => ()) t key)
  | delete key => exact map_plain .code (delete_remark (fun _ => ()) t key)
  | modify key value => exact map_plain .code (modify_remark (fun _ => ()) t key value)

/-- The marks change nothing: the run is the one of the engine. -/
theorem run_plain (now : Nat) (t : TracedTable) (calls : List (Alloc × HashOp)) :
    engineRun m (plain t) calls = (run m now t calls).map plain := by
  induction calls generalizing now t with
  | nil => rfl
  | cons call calls ih =>
      obtain ⟨al, op⟩ := call
      rw [run, engineRun, exec_plain now t op]
      cases exec m al now t op with
      | error e => rfl
      | ok r => exact ih (now + 1) r.2

end Plain

section Nodes

variable {m : Mutex} {al : Alloc} {now : Nat} {t t' : TracedTable} {n : Traced}

/-- The node is one of the table, whose value may have changed. -/
def Descends (t : TracedTable) (n : Traced) : Prop := ∃ n₀ ∈ elems t.nodes, n₀.mark = n.mark ∧ n₀.key = n.key

theorem descends_of_mem (h : n ∈ elems t.nodes) : Descends t n := ⟨n, h, rfl, rfl⟩

theorem descends_replaced {i : Fin t.maxSlots} {pre post : List Traced} {old : Traced} {v : Option CStr}
    (hi : t.nodes i = pre ++ [old] ++ post)
    (hn : n ∈ elems (setBucket t i (pre ++ [{ old with value := v }] ++ post)).nodes) : Descends t n := by
  obtain ⟨rest, hold, hnew⟩ := elems_exchange hi
  rcases List.mem_cons.mp ((hnew [{ old with value := v }]).mem_iff.mp hn) with rfl | hrest
  · exact ⟨old, hold.mem_iff.mpr List.mem_cons_self, rfl, rfl⟩
  · exact descends_of_mem (hold.mem_iff.mpr (List.mem_cons_of_mem _ hrest))

theorem put_nodes {key value : Option CStr} {r : Int} (h : putKvHashtable (some now) m al t key value = .ok (r, t'))
    (hn : n ∈ elems t'.nodes) : Descends t n ∨ n.mark = some now ∧ ∃ v, key = some n.key ∧ value = some v := by
  rcases put_null h with rfl | ⟨key, value, rfl, rfl⟩
  · exact .inl (descends_of_mem hn)
  rcases put_cases h with ⟨pre, old, post, v, hchain, -, rfl⟩ | ⟨-, v, rfl⟩
  · obtain ⟨n₀, hn₀, hsame⟩ := descends_replaced hchain hn
    exact .inl ⟨n₀, (prepared_perm al t).mem_iff.mp hn₀, hsame⟩
  · have hpush := elems_push HashNode.key (index (prepared al t)) (prepared al t).nodes ⟨key, v, some now⟩
    rcases List.mem_cons.mp (hpush.mem_iff.mp hn) with rfl | hold
    · exact .inr ⟨rfl, value, rfl, rfl⟩
    · exact .inl (descends_of_mem ((prepared_perm al t).mem_iff.mp hold))

theorem delete_nodes {key : Option CStr} {r : Int} (h : kvsHashDelete m t key = .ok (r, t'))
    (hn : n ∈ elems t'.nodes) : n ∈ elems t.nodes := by
  rcases delete_null h with rfl | ⟨key, rfl⟩
  · exact hn
  rcases delete_cases h with ⟨lock, rfl⟩ | ⟨pre, old, post, hchain, -, rfl⟩
  · exact hn
  · obtain ⟨rest, hold, hnew⟩ := elems_exchange hchain
    have hrest := hnew []
    rw [List.append_nil, List.nil_append] at hrest
    exact hold.mem_iff.mpr (List.mem_cons_of_mem _ (hrest.mem_iff.mp hn))

theorem modify_nodes {key value : Option CStr} {r : Int} (h : kvsHashModify al t key value = .ok (r, t'))
    (hn : n ∈ elems t'.nodes) : Descends t n := by
  rcases modify_null h with rfl | ⟨key, value, rfl, rfl⟩
  · exact descends_of_mem hn
  rcases modify_cases h with rfl | ⟨pre, old, post, v, hchain, -, rfl⟩
  · exact descends_of_mem hn
  · exact descends_replaced hchain hn

/-- Where the nodes of a table come from: from the table before, or from the
call itself. -/
theorem exec_nodes {op : HashOp} {r : Ret} (h : exec m al now t op = .ok (r, t')) (hn : n ∈ elems t'.nodes) :
    Descends t n ∨ n.mark = some now ∧ ∃ value, op = .set (some n.key) (some value) := by
  cases op with
  | set key value =>
      obtain ⟨c, hu⟩ := map_result h fun _ => rfl
      rcases put_nodes hu hn with hold | ⟨hmark, v, rfl, rfl⟩
      · exact .inl hold
      · exact .inr ⟨hmark, v, rfl⟩
  | get key =>
      obtain ⟨v, hu⟩ := map_result h fun _ => rfl
      obtain ⟨lock, rfl⟩ := get_cases hu
      exact .inl (descends_of_mem hn)
  | delete key =>
      obtain ⟨c, hu⟩ := map_result h fun _ => rfl
      exact .inl (descends_of_mem (delete_nodes hu hn))
  | modify key value =>
      obtain ⟨c, hu⟩ := map_result h fun _ => rfl
      exact .inl (modify_nodes hu hn)

/-- Every node has been made by a call among `calls`, which has set its key. -/
def Accounted (calls : List (Alloc × HashOp)) (t : TracedTable) : Prop :=
  ∀ n ∈ elems t.nodes, ∃ i al value, n.mark = some i ∧ calls[i]? = some (al, .set (some n.key) (some value))

theorem exec_accounted {calls : List (Alloc × HashOp)} (h : Accounted calls t) {op : HashOp} {r : Ret}
    (he : exec m al calls.length t op = .ok (r, t')) : Accounted (calls ++ [(al, op)]) t' := by
  intro n hn
  rcases exec_nodes he hn with ⟨n₀, hn₀, hmark, hkey⟩ | ⟨hmark, value, rfl⟩
  · obtain ⟨i, al₀, value, hi, hcall⟩ := h n₀ hn₀
    refine ⟨i, al₀, value, hmark.symm.trans hi, ?_⟩
    rw [List.getElem?_append_left (List.getElem?_eq_some_iff.mp hcall).1, hcall, hkey]
  · refine ⟨calls.length, al, value, hmark, ?_⟩
    rw [List.getElem?_append_right (le_refl _), Nat.sub_self]
    rfl

theorem run_accounted {before : List (Alloc × HashOp)} (h : Accounted before t) {calls : List (Alloc × HashOp)}
    (hr : run m before.length t calls = .ok t') : Accounted (before ++ calls) t' := by
  induction calls generalizing before t with
  | nil =>
      cases hr
      rwa [List.append_nil]
  | cons call calls ih =>
      obtain ⟨al, op⟩ := call
      rw [run] at hr
      cases he : exec m al before.length t op with
      | error e =>
          rw [he] at hr
          cases hr
      | ok r =>
          rw [he] at hr
          have hlen : before.length + 1 = (before ++ [(al, op)]).length := by
            rw [List.length_append, List.length_singleton]
          rw [List.append_cons]
          refine ih (exec_accounted h he) ?_
          rw [← hlen]
          exact hr

theorem create_accounted (buckets : Fin maxTableSize → List HashNode) :
    Accounted [] (kvstoreHashCreate buckets) ↔ ∀ i, buckets i = [] := by
  constructor
  · intro h i
    apply List.eq_nil_iff_forall_not_mem.mpr
    intro n hn
    have htraced : remark (fun _ => none) n ∈ elems (kvstoreHashCreate buckets).nodes :=
      mem_elems.mpr ⟨i, List.mem_map_of_mem hn⟩
    obtain ⟨_, _, _, hmark, _⟩ := h _ htraced
    cases hmark
  · intro h n hn
    obtain ⟨i, hi⟩ := mem_elems.mp hn
    change n ∈ (buckets i).map _ at hi
    rw [h i] at hi
    cases hi

/-- A key that no call has set is not found, once the mutex can be taken. -/
theorem get_unset {calls : List (Alloc × HashOp)} (h : Accounted calls t) {key : CStr}
    (hkey : ∀ al value, (al, HashOp.set (some key) (some value)) ∉ calls) (hm : m = .available ∨ t.lock = false) :
    ∃ t', kvsHashGet m (plain t) (some key) = .ok (none, t') := by
  have hl : pthreadMutexLock m (plain t) = .ok { plain t with lock := true } := by
    rcases hm with rfl | hfree
    · rfl
    · cases m with
      | available => rfl
      | exclusive => exact lock_free hfree
  have hnone : findNode key ((plain t).nodes (index (plain t) key)) = none := by
    apply List.find?_eq_none.mpr
    intro node hnode
    obtain ⟨n, hn, rfl⟩ := List.mem_map.mp hnode
    obtain ⟨i, al, value, -, hcall⟩ := h n (mem_elems.mpr ⟨_, hn⟩)
    have hne : n.key ≠ key := fun he => hkey al value (he ▸ List.mem_of_getElem? hcall)
    simpa [strcmp_eq_zero, remark] using hne
  refine ⟨{ plain t with lock := false }, ?_⟩
  rw [kvsHashGet, getKvHashtable, hl]
  change Except.ok ((findNode key ((plain t).nodes (index (plain t) key))).bind HashNode.value, _) = _
  rw [hnone]
  rfl

end Nodes

/-- The nodes in reach have been made by the calls, and a key that they do not
set is not there. -/
def Owned (calls : List (Alloc × HashOp)) (t : TracedTable) : Prop :=
  Accounted calls t ∧ ∀ key, (∀ al value, (al, HashOp.set (some key) (some value)) ∉ calls) →
    ∀ m, m = .available ∨ t.lock = false → ∃ t', kvsHashGet m (plain t) (some key) = .ok (none, t')

/-- The engine starts empty if the memory for its slots happens to be all NULL. -/
theorem fresh_engine_owns_its_nodes_iff (buckets : Fin maxTableSize → List HashNode) (m : Mutex)
    (calls : List (Alloc × HashOp)) :
    (∀ done t, run m 0 (kvstoreHashCreate buckets) (calls.take done) = .ok t → Owned (calls.take done) t) ↔
      ∀ i, buckets i = [] := by
  constructor
  · intro h
    exact (create_accounted buckets).mp (h 0 _ rfl).1
  · intro hempty done t hr
    have hacc : Accounted ([] ++ calls.take done) t := run_accounted ((create_accounted buckets).mpr hempty) hr
    exact ⟨hacc, fun key hkey m hm => get_unset hacc hkey hm⟩

/-- A chain of one node that was freed, in the slot of its key. -/
def leftover : Fin maxTableSize → List HashNode :=
  Function.update (fun _ => []) (index (HashEngine.kvstoreHashCreate fun _ => []) name) [⟨name, some nameValue, ()⟩]

theorem leftover_is_found :
    ¬ Owned [] (kvstoreHashCreate leftover) ∧
      ∃ t, kvsHashGet .exclusive (HashEngine.kvstoreHashCreate leftover) (some name) =
        .ok (some nameValue, t) := by
  refine ⟨fun h => ?_, _, rfl⟩
  have hempty := (create_accounted leftover).mp h.1 (index (HashEngine.kvstoreHashCreate fun _ => []) name)
  cases hempty

end GameAccelerator.HashProvenance
