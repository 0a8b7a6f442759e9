import GameAccelerator.ArrayEngine
import GameAccelerator.HashServer
import GameAccelerator.RbContents
import GameAccelerator.RequestText

namespace GameAccelerator.EngineChoice

open CString Platform Buckets HashEngine HashContents HashLock HashServer ArrayEngine KvStore Requests RequestText
  ReferenceMap

def arrayEngine (al : Alloc) : Engine ArrayTable where
  set arr key value := .ok (kvstoreArraySet al arr key value)
  get arr key := (kvstoreArrayGet arr key).map fun value => (value, arr)
  delete := kvstoreArrayDelete
  modify := kvstoreArrayModify al

def ended {α : Type} : Option α → Except Fault α
  | some a => .ok a
  | none => .error .diverges

def rbEngine (al : Alloc) : Engine RbEngine.RbTree where
  set T key value := ended (RbEngine.kvsRbtreeSet al T key value)
  get T key := ended ((RbEngine.kvsRbtreeGet T key).map fun value => (value, T))
  delete T key := ended (RbEngine.kvsRbtreeDelete T key)
  modify T key value := ended (RbEngine.kvsRbtreeModify al T key value)

/-- The live keys after a request. -/
def liveAfter (ks : List CStr) : Request → List CStr
  | .set key _ => ks.insert key
  | .del key => ks.erase key
  | .get _ | .mod _ _ => ks

def liveKeys (ks : List CStr) (reqs : List Request) : List CStr := reqs.foldl liveAfter ks

/-- Every request has the property with the keys that are live before it. -/
def Along (P : List CStr → Request → Prop) : List CStr → List Request → Prop
  | _, [] => True
  | ks, r :: rs => P ks r ∧ Along P (liveAfter ks r) rs

def Fits (ks : List CStr) (r : Request) : Prop := (liveAfter ks r).length ≤ 1024

/-- A SET brings a new key, a DEL and a MOD name a live one. -/
def Regular (ks : List CStr) : Request → Prop
  | .set key _ => key ∉ ks
  | .get _ => True
  | .del key | .mod key _ => key ∈ ks

instance (ks : List CStr) (r : Request) : Decidable (Fits ks r) :=
  inferInstanceAs (Decidable ((liveAfter ks r).length ≤ 1024))

instance Regular.decidable (ks : List CStr) : ∀ r, Decidable (Regular ks r)
  | .set key _ => inferInstanceAs (Decidable (key ∉ ks))
  | .get _ => .isTrue trivial
  | .del key | .mod key _ => inferInstanceAs (Decidable (key ∈ ks))

instance Along.decidable {P : List CStr → Request → Prop} [∀ ks r, Decidable (P ks r)] :
    ∀ ks rs, Decidable (Along P ks rs)
  | _, [] => .isTrue trivial
  | ks, r :: rs => @instDecidableAnd _ _ _ (Along.decidable (liveAfter ks r) rs)

theorem along_append {P : List CStr → Request → Prop} {ks : List CStr} {rs rs' : List Request} :
    Along P ks (rs ++ rs') ↔ Along P ks rs ∧ Along P (liveKeys ks rs) rs' := by
  induction rs generalizing ks with
  | nil => simp [Along, liveKeys]
  | cons r rs ih =>
      rw [List.cons_append, Along, Along, ih, and_assoc]
      rfl

variable {ks : List CStr} {m : KvMap} {r : Request}

theorem live_step (h : Live ks m) (r : Request) : Live (liveAfter ks r) (reference m r).2 := by
  cases r with
  | set key value => exact h.bind key value
  | get key => exact h
  | del key =>
      rw [liveAfter, reference]
      split_ifs with hs
      · exact h.erase key
      · exact h.erase_unbound hs
  | mod key value =>
      rw [liveAfter, reference]
      split_ifs with hs
      · exact h.rebind hs value
      · exact h

/-- What is known of the map that well-formed requests build. -/
structure Tidy (ks : List CStr) (m : KvMap) : Prop where
  live : Live ks m
  short : Short m
  token : ∀ k v, m k = some v → IsToken v

theorem tidy_empty : Tidy [] fun _ => none := ⟨live_nil, nofun, nofun⟩

theorem tidy_step (h : Tidy ks m) {seg : Bytes} (hw : WellFormed seg) (hr : decode seg = some r) :
    Tidy (liveAfter ks r) (reference m r).2 := by
  refine ⟨live_step h.live r, reference_short h.short (decode_shortValue hw hr), reference_values h.token ?_⟩
  have htok := tokens_of_decode hw.noNul hr
  cases r with
  | set key value | mod key value => exact htok.2
  | get key | del key => trivial

/-- The map after a list of requests. -/
def referenceMap (m : KvMap) (reqs : List Request) : KvMap := reqs.foldl (fun m r => (reference m r).2) m

variable {σ : Type} {E : Engine σ} {R : σ → KvMap → Prop} {st : σ}

/-- An engine that does what the map does as long as the requests are regular
and there is room for the keys. -/
structure Follows (E : Engine σ) (R : σ → KvMap → Prop) : Prop where
  set : ∀ {st m ks key}, R st m → Live ks m → m key = none → ks.length < 1024 → ∀ value,
    ∃ st', E.set st key value = .ok (0, st') ∧ R st' (Function.update m key (some value))
  get : ∀ {st m}, R st m → ∀ key, ∃ st', E.get st key = .ok (m key, st') ∧ R st' m
  delete : ∀ {st m key}, R st m → (m key).isSome →
    ∃ st', E.delete st key = .ok (0, st') ∧ R st' (Function.update m key none)
  modify : ∀ {st m key}, R st m → (m key).isSome → ∀ value,
    ∃ st', E.modify st key value = .ok (0, st') ∧ R st' (Function.update m key (some value))

theorem follows_step (hE : Follows E R) (hR : R st m) (hm : Tidy ks m) (hreg : Regular ks r) (hfits : Fits ks r) :
    ∃ st', execute E st r = .ok ((reference m r).1, st') ∧ R st' (reference m r).2 := by
  cases r with
  | set key value =>
      have hnew : key ∉ ks := hreg
      have hlen : (ks.insert key).length ≤ 1024 := hfits
      rw [List.length_insert_of_not_mem hnew] at hlen
      have hnone : m key = none := by
        rw [hm.live.bound] at hnew
        exact Option.not_isSome_iff_eq_none.mp hnew
      obtain ⟨st', he, hR'⟩ := hE.set hR hm.live hnone hlen value
      exact ⟨st', by simp [execute, he, Except.map, reference], hR'⟩
  | get key =>
      obtain ⟨st', he, hR'⟩ := hE.get hR key
      exact ⟨st', by simp [execute, he, Except.map, reference, take_getReply hm.short], hR'⟩
  | del key =>
      have hsome := (hm.live.bound key).mp hreg
      obtain ⟨st', he, hR'⟩ := hE.delete hR hsome
      exact ⟨st', by simp [execute, he, Except.map, reference, hsome, codeReply], by simpa [reference, hsome] using hR'⟩
  | mod key value =>
      have hsome := (hm.live.bound key).mp hreg
      obtain ⟨st', he, hR'⟩ := hE.modify hR hsome value
      exact ⟨st', by simp [execute, he, Except.map, reference, hsome, codeReply], by simpa [reference, hsome] using hR'⟩

theorem follows_run (hE : Follows E R) {segs : List Bytes} {reqs : List Request} (hsegs : ∀ seg ∈ segs, WellFormed seg)
    (hreqs : segs.mapM decode = some reqs) (hR : R st m) (hm : Tidy ks m) (hreg : Along Regular ks reqs)
    (hfits : Along Fits ks reqs) :
    ∃ st', serve E st segs = .ok (referenceReplies m reqs, st') ∧ R st' (referenceMap m reqs) ∧
      Tidy (liveKeys ks reqs) (referenceMap m reqs) := by
  induction segs generalizing reqs st m ks with
  | nil =>
      cases hreqs
      exact ⟨st, rfl, hR, hm⟩
  | cons seg segs ih =>
      obtain ⟨hw, hsegs⟩ := List.forall_mem_cons.mp hsegs
      obtain ⟨r, hr⟩ := decode_of_wellFormed hw
      obtain ⟨rs, hrs, rfl⟩ := decodeAll_cons hr hreqs
      obtain ⟨st₁, he, hR₁⟩ := follows_step hE hR hm hreg.1 hfits.1
      obtain ⟨st₂, hs, hR₂, hm₂⟩ := ih hsegs hrs hR₁ (tidy_step hm hw hr) hreg.2 hfits.2
      refine ⟨st₂, ?_, hR₂, hm₂⟩
      simp only [serve, serverReader_eq E hw hr, he, hs, bind, Except.bind, referenceReplies]

theorem array_follows : Follows (arrayEngine .succeeds) Holds where
  set {arr m ks key} h hlive hkey hroom value := by
    obtain ⟨arr', he, hh⟩ := set_holds h value hkey ((h.items_length hlive).trans_lt hroom)
    exact ⟨arr', congrArg Except.ok he, hh⟩
  get {arr m} h key := ⟨arr, by simp only [arrayEngine, get_holds h, Except.map], h⟩
  delete {arr m key} h hsome := by
    obtain ⟨arr', he, hh⟩ := delete_holds h key
    rw [if_pos hsome] at he hh
    exact ⟨arr', he, hh⟩
  modify {arr m key} h hsome value := by
    obtain ⟨arr', he, hh⟩ := modify_holds h key value
    rw [if_pos hsome] at he hh
    exact ⟨arr', he, hh⟩

theorem rb_follows : Follows (rbEngine .succeeds) RbContents.Stores where
  set {T m ks key} h hlive hkey hroom value := by
    obtain ⟨T', he, hh⟩ := RbContents.set_stores h key value
    rw [hkey] at hh
    exact ⟨T', congrArg ended he, hh⟩
  get {T m} h key := ⟨T, by simp only [rbEngine, RbContents.get_stores h key, Option.map_some, ended], h⟩
  delete {T m key} h hsome := by
    obtain ⟨T', he, hh⟩ := RbContents.delete_stores h key
    rw [if_pos hsome] at he hh
    exact ⟨T', congrArg ended he, hh⟩
  modify {T m key} h hsome value := by
    obtain ⟨T', he, hh⟩ := RbContents.modify_stores h key value
    rw [if_pos hsome] at he hh
    exact ⟨T', congrArg ended he, hh⟩

/-- The table with its mutex free. -/
def Unlocked (t : HashTable) (m : KvMap) : Prop := Represents t m ∧ t.lock = false

theorem bucket_ne_nil {t : HashTable} (h : Represents t m) {key : CStr} (hsome : (m key).isSome) :
    t.nodes (index t key) ≠ [] := by
  intro hnil
  have hnode := nodeOf_bucket h.1 key
  rw [hnil, h.2 key] at hnode
  rw [← Option.isSome_map, ← hnode] at hsome
  cases hsome

theorem hash_follows : Follows (hashEngine .exclusive .succeeds) Unlocked where
  set {t m ks key} h hlive hkey hroom value := by
    obtain ⟨t', he, hr⟩ := (hash_implementsAt (lock_free h.2) h.1).set key value
    have hput : putKvHashtable () .exclusive .succeeds t (some key) (some value) = .ok (0, t') := he
    exact ⟨t', he, hr, put_lock h.2 hput⟩
  get {t m} h key := by
    obtain ⟨t', he, hr⟩ := (hash_implementsAt (lock_free h.2) h.1).get key
    have hget : getKvHashtable .exclusive t (some key) = .ok (m key, t') := he
    exact ⟨t', he, hr, get_lock h.2 hget⟩
  delete {t m key} h hsome := by
    obtain ⟨t', he, hr⟩ := (hash_implementsAt (lock_free h.2) h.1).delete key
    rw [if_pos hsome] at he hr
    have hdel : deleteKvHashtable .exclusive t (some key) = .ok (0, t') := he
    exact ⟨t', he, hr, (delete_lock h.2 hdel).mpr (bucket_ne_nil h.1 hsome)⟩
  modify {t m key} h hsome value := by
    obtain ⟨t', he, hr⟩ := (hash_implementsAt (lock_free h.2) h.1).modify key value
    rw [if_pos hsome] at he hr
    have hmod : kvsHashModify .succeeds t (some key) (some value) = .ok (0, t') := he
    exact ⟨t', he, hr, (modify_lock hmod).trans h.2⟩

/-- One store in each of the three engines. -/
structure Stores where
  arr : ArrayTable
  tree : RbEngine.RbTree
  table : HashTable

def fresh (mem : RbEngine.Addr → RbEngine.RbNode) : Stores :=
  ⟨kvstoreArrayCreate, RbEngine.kvstoreRbtreeCreate mem, kvstoreHashCreate fun _ => []⟩

def replies (E : Engine σ) (st : σ) (segs : List Bytes) : Except Fault (List Bytes) := (serve E st segs).map Prod.fst

/-- The three engines write the same replies. -/
def Agree (s : Stores) (segs : List Bytes) : Prop :=
  replies (arrayEngine .succeeds) s.arr segs = replies (rbEngine .succeeds) s.tree segs ∧
    replies (rbEngine .succeeds) s.tree segs = replies (hashEngine .exclusive .succeeds) s.table segs

/-- The stores hold the same map. -/
structure Same (s : Stores) (m : KvMap) : Prop where
  arr : Holds s.arr m
  tree : RbContents.Stores s.tree m
  table : Unlocked s.table m

theorem fresh_same (mem : RbEngine.Addr → RbEngine.RbNode) : Same (fresh mem) fun _ => none :=
  ⟨create_holds, RbContents.create_stores mem, represents_empty, rfl⟩

theorem serve_append {rs : List Bytes} {st' : σ} {segs : List Bytes} (h : serve E st segs = .ok (rs, st'))
    (segs' : List Bytes) : serve E st (segs ++ segs') = (serve E st' segs').map fun o => (rs ++ o.1, o.2) := by
  induction segs generalizing st rs with
  | nil =>
      cases h
      rw [List.nil_append]
      cases serve E st' segs' <;> rfl
  | cons seg segs ih =>
      simp only [List.cons_append, serve, bind, Except.bind] at h ⊢
      cases hr : serverReader E st seg with
      | error e =>
          rw [hr] at h
          cases h
      | ok o =>
          rw [hr] at h
          dsimp only at h ⊢
          cases hs : serve E o.2 segs with
          | error e =>
              rw [hs] at h
              cases h
          | ok o₁ =>
              rw [hs] at h
              cases h
              rw [ih hs]
              cases serve E o₁.2 segs' <;> rfl

theorem replies_append {rs : List Bytes} {st' : σ} {segs : List Bytes} (h : serve E st segs = .ok (rs, st'))
    (segs' : List Bytes) : replies E st (segs ++ segs') = (replies E st' segs').map (rs ++ ·) := by
  rw [replies, serve_append h, replies]
  cases serve E st' segs' <;> rfl

theorem map_append_inj {rs : List Bytes} {x y : Except Fault (List Bytes)} :
    x.map (rs ++ ·) = y.map (rs ++ ·) ↔ x = y := by
  refine ⟨fun h => ?_, fun h => h ▸ rfl⟩
  rcases map_eq_map h with ⟨e, rfl, rfl⟩ | ⟨a, b, rfl, rfl, hab⟩
  · rfl
  · rw [List.append_cancel_left hab]

/-- A regular run leaves the stores with one map, and whether they agree on what
comes next is decided there. -/
theorem regular_run {s : Stores} {segs : List Bytes} {reqs : List Request} (hsegs : ∀ seg ∈ segs, WellFormed seg)
    (hreqs : segs.mapM decode = some reqs) (hs : Same s m) (hm : Tidy ks m) (hreg : Along Regular ks reqs)
    (hfits : Along Fits ks reqs) :
    ∃ s', Same s' (referenceMap m reqs) ∧ Tidy (liveKeys ks reqs) (referenceMap m reqs) ∧
      ∀ next, Agree s (segs ++ next) ↔ Agree s' next := by
  obtain ⟨arr, ha, hharr, hm'⟩ := follows_run array_follows hsegs hreqs hs.arr hm hreg hfits
  obtain ⟨tree, hb, hhtree, -⟩ := follows_run rb_follows hsegs hreqs hs.tree hm hreg hfits
  obtain ⟨table, hc, hhtable, -⟩ := follows_run hash_follows hsegs hreqs hs.table hm hreg hfits
  refine ⟨⟨arr, tree, table⟩, ⟨hharr, hhtree, hhtable⟩, hm', fun next => ?_⟩
  rw [Agree, Agree, replies_append ha, replies_append hb, replies_append hc, map_append_inj, map_append_inj]

theorem agree_nil (s : Stores) : Agree s [] := ⟨rfl, rfl⟩

theorem replies_cons {seg : Bytes} (hw : WellFormed seg) (hr : decode seg = some r) {reply : Bytes} {st' : σ}
    (h : execute E st r = .ok (reply, st')) (segs : List Bytes) :
    replies E st (seg :: segs) = (replies E st' segs).map (reply :: ·) := by
  rw [replies, serve, serverReader_eq E hw hr, h, replies]
  simp only [bind, Except.bind]
  cases serve E st' segs <;> rfl

theorem reply_inj {σ' : Type} {E' : Engine σ'} {st₁ : σ} {st' st₁' : σ'} {seg : Bytes} (hw : WellFormed seg)
    (hr : decode seg = some r) {reply reply' : Bytes} (h : execute E st r = .ok (reply, st₁))
    (h' : execute E' st' r = .ok (reply', st₁')) (he : replies E st [seg] = replies E' st' [seg]) : reply = reply' := by
  rw [replies_cons hw hr h, replies_cons hw hr h'] at he
  exact (List.cons.inj (Except.ok.inj he)).1

theorem replies_tail {σ' : Type} {E' : Engine σ'} {st₁ : σ} {st' st₁' : σ'} {seg : Bytes} {segs : List Bytes}
    (hw : WellFormed seg) (hr : decode seg = some r) {reply reply' : Bytes} (h : execute E st r = .ok (reply, st₁))
    (h' : execute E' st' r = .ok (reply', st₁')) (he : replies E st (seg :: segs) = replies E' st' (seg :: segs)) :
    replies E st₁ segs = replies E' st₁' segs := by
  rw [replies_cons hw hr h, replies_cons hw hr h'] at he
  rcases map_eq_map he with ⟨e, hx, hy⟩ | ⟨a, b, hx, hy, hab⟩
  · rw [hx, hy]
  · rw [hx, hy, (List.cons.inj hab).2]

/-- The array has a word of its own for a key that is not there. -/
theorem missing_differs {s : Stores} (hs : Same s m) {seg : Bytes} (hw : WellFormed seg) (hr : decode seg = some r)
    {key : CStr} (hnone : m key = none) (hkey : r = .del key ∨ ∃ value, r = .mod key value) : ¬ Agree s [seg] := by
  intro hagree
  rcases hkey with rfl | ⟨value, rfl⟩
  · obtain ⟨arr, harr, -⟩ := delete_holds hs.arr key
    obtain ⟨tree, htree, -⟩ := RbContents.delete_stores hs.tree key
    rw [hnone] at harr htree
    have ha : execute (arrayEngine .succeeds) s.arr (.del key) = .ok (ascii "DEL_FAILER", arr) := by
      simp [execute, arrayEngine, harr, Except.map, codeReply]
    have hb : execute (rbEngine .succeeds) s.tree (.del key) = .ok (ascii "ERROR", tree) := by
      simp [execute, rbEngine, htree, ended, Except.map, codeReply]
    exact absurd (reply_inj hw hr ha hb hagree.1) (by decide)
  · obtain ⟨arr, harr, -⟩ := modify_holds hs.arr key value
    obtain ⟨tree, htree, -⟩ := RbContents.modify_stores hs.tree key value
    rw [hnone] at harr htree
    have ha : execute (arrayEngine .succeeds) s.arr (.mod key value) = .ok (ascii "MOD_FAILER", arr) := by
      simp [execute, arrayEngine, harr, Except.map, codeReply]
    have hb : execute (rbEngine .succeeds) s.tree (.mod key value) = .ok (ascii "ERROR", tree) := by
      simp [execute, rbEngine, htree, ended, Except.map, codeReply]
    exact absurd (reply_inj hw hr ha hb hagree.1) (by decide)

theorem token_reply {v : CStr} (h : IsToken v) : (getReply (some v)).take (bufferLength - 1) ≠ ascii "NO EXIST" := by
  intro he
  have hmem : 32 ∈ (getReply (some v)).take (bufferLength - 1) := by
    rw [he]
    decide
  exact h.2 (List.mem_of_mem_take hmem)

/-- A second SET of a key shows after a DEL: the array still has the key. -/
theorem repeated_differs {s : Stores} (hs : Same s m) (hm : Tidy ks m) {key value : CStr} {seg : Bytes}
    (hw : WellFormed seg) (hr : decode seg = some (.set key value)) (hsome : (m key).isSome) :
    ∃ next, (∀ seg ∈ next, WellFormed seg) ∧ (next = [] ∨ next.mapM decode = some [.del key, .get key]) ∧
      ¬ Agree s (seg :: next) := by
  obtain ⟨tree, htree, hstores⟩ := RbContents.set_stores hs.tree key value
  rw [if_pos hsome] at hstores
  have hb : execute (rbEngine .succeeds) s.tree (.set key value) = .ok (ascii "SUCCESS", tree) := by
    simp [execute, rbEngine, htree, ended, Except.map]
  rcases set_cases hs.arr.compact key value with ⟨hfull, -⟩ | ⟨arr, hset, -, -⟩
  · have ha : execute (arrayEngine .succeeds) s.arr (.set key value) = .ok (ascii "FAILER", s.arr) := by
      simp [execute, arrayEngine, hfull, Except.map]
    exact ⟨[], by simp, .inl rfl, fun hagree => absurd (reply_inj hw hr ha hb hagree.1) (by decide)⟩
  · have ha : execute (arrayEngine .succeeds) s.arr (.set key value) = .ok (ascii "SUCCESS", arr) := by
      simp [execute, arrayEngine, hset, Except.map]
    obtain ⟨hkey, hvalue⟩ := tokens_of_decode hw.noNul hr
    obtain ⟨hwd, hwg⟩ := wellFormed_key hw hr
    have hdd : decode (spell (.del key)) = some (.del key) := decode_spell hkey
    have hdg : decode (spell (.get key)) = some (.get key) := decode_spell hkey
    refine ⟨[spell (.del key), spell (.get key)], by simp [hwd, hwg], .inr (by simp [hdd, hdg]), fun hagree => ?_⟩
    obtain ⟨arr', v, hdel, hget, hv⟩ := duplicate_survives hs.arr hsome hset
    obtain ⟨tree', htree', hstores'⟩ := RbContents.delete_stores hstores key
    rw [if_pos hsome] at htree' hstores'
    have hgone := RbContents.get_stores hstores' key
    rw [Function.update_self] at hgone
    have ha' : execute (arrayEngine .succeeds) arr (.del key) = .ok (ascii "SUCCESS", arr') := by
      simp [execute, arrayEngine, hdel, Except.map, codeReply]
    have hb' : execute (rbEngine .succeeds) tree (.del key) = .ok (ascii "SUCCESS", tree') := by
      simp [execute, rbEngine, htree', ended, Except.map, codeReply]
    have ha'' : execute (arrayEngine .succeeds) arr' (.get key) =
        .ok ((getReply (some v)).take (bufferLength - 1), arr') := by
      simp [execute, arrayEngine, hget, Except.map]
    have hb'' : execute (rbEngine .succeeds) tree' (.get key) = .ok (ascii "NO EXIST", tree') := by
      simp only [execute, rbEngine, hgone, Option.map_some, ended, Except.map]
      rfl
    have hlast := replies_tail hwd hdd ha' hb' (replies_tail hw hr ha hb hagree.1)
    have htoken : IsToken v := hv.elim (fun h => h ▸ hvalue) (hm.token key v)
    exact token_reply htoken (reply_inj hwg hdg ha'' hb'' hlast)

/-- The requests so far leave the stores interchangeable: whatever regular
requests come next, the engines write the same replies. -/
def Interchangeable (s : Stores) (segs : List Bytes) (ks : List CStr) : Prop :=
  ∀ next reqs, (∀ seg ∈ next, WellFormed seg) → next.mapM decode = some reqs → Along Fits ks reqs →
    Along Regular ks reqs → Agree s (segs ++ next)

/-- A request that is not regular separates the engines, at once or with the
next two requests. -/
theorem irregular_differs {s : Stores} (hs : Same s m) (hm : Tidy ks m) {seg : Bytes} (hw : WellFormed seg)
    (hr : decode seg = some r) (hfits : Fits ks r) (hreg : ¬ Regular ks r) :
    ¬ Interchangeable s [seg] (liveAfter ks r) := by
  intro hinter
  have hnow : Agree s [seg] := hinter [] [] (by simp) rfl trivial trivial
  cases r with
  | set key value =>
      have hlive : key ∈ ks := not_not.mp hreg
      have hafter : liveAfter ks (.set key value) = ks := List.insert_of_mem hlive
      rw [hafter] at hinter
      rw [Fits, hafter] at hfits
      obtain ⟨next, hnext, hreqs, hne⟩ := repeated_differs hs hm hw hr ((hm.live.bound key).mp hlive)
      rcases hreqs with rfl | hreqs
      · exact hne hnow
      · have herase : (ks.erase key).length ≤ 1024 := List.length_erase_le.trans hfits
        exact hne (hinter next _ hnext hreqs ⟨herase, herase, trivial⟩ ⟨hlive, trivial, trivial⟩)
  | get key => exact hreg trivial
  | del key =>
      have hnone : m key = none := Option.not_isSome_iff_eq_none.mp fun h => hreg ((hm.live.bound key).mpr h)
      exact missing_differs hs hw hr hnone (.inl rfl) hnow
  | mod key value =>
      have hnone : m key = none := Option.not_isSome_iff_eq_none.mp fun h => hreg ((hm.live.bound key).mpr h)
      exact missing_differs hs hw hr hnone (.inr ⟨value, rfl⟩) hnow

theorem decodeAll_append {segs segs' : List Bytes} {reqs reqs' : List Request} (h : segs.mapM decode = some reqs)
    (h' : segs'.mapM decode = some reqs') : (segs ++ segs').mapM decode = some (reqs ++ reqs') := by
  rw [List.mapM_append, h, h']
  rfl

theorem decodeAll_prefix {segs segs' : List Bytes} {reqs reqs' : List Request} (hp : segs <+: segs')
    (h : segs.mapM decode = some reqs) (h' : segs'.mapM decode = some reqs') : reqs <+: reqs' := by
  obtain ⟨post, rfl⟩ := hp
  rw [List.mapM_append, h] at h'
  cases hpost : post.mapM decode with
  | none =>
      rw [hpost] at h'
      cases h'
  | some rest =>
      rw [hpost] at h'
      cases h'
      exact ⟨rest, rfl⟩

/-- Every beginning of a run leaves the stores interchangeable exactly if all
its requests are regular. -/
theorem interchangeable_iff {s : Stores} (hs : Same s m) (hm : Tidy ks m) {segs : List Bytes} {reqs : List Request}
    (hsegs : ∀ seg ∈ segs, WellFormed seg) (hreqs : segs.mapM decode = some reqs) (hfits : Along Fits ks reqs) :
    (∀ pre preReqs, pre <+: segs → pre.mapM decode = some preReqs → Interchangeable s pre (liveKeys ks preReqs)) ↔
      Along Regular ks reqs := by
  constructor
  · -- the first request that is not regular shows in the prefix that ends with it
    intro h
    induction segs generalizing s m ks reqs with
    | nil =>
        cases hreqs
        trivial
    | cons seg segs ih =>
        obtain ⟨hw, hsegs⟩ := List.forall_mem_cons.mp hsegs
        obtain ⟨r, hr⟩ := decode_of_wellFormed hw
        obtain ⟨rs, hrs, rfl⟩ := decodeAll_cons hr hreqs
        have hone : [seg].mapM decode = some [r] := by simp [hr]
        have hreg : Regular ks r := by
          by_contra hreg
          exact irregular_differs hs hm hw hr hfits.1 hreg (h [seg] [r] ⟨segs, rfl⟩ hone)
        obtain ⟨s', hs', hm', hagree⟩ := regular_run (by simpa using hw) hone hs hm ⟨hreg, trivial⟩ ⟨hfits.1, trivial⟩
        refine ⟨hreg, ih hs' hm' hsegs hrs hfits.2 fun pre preReqs hpre hpreReqs next nextReqs hn hnr hnf hng => ?_⟩
        apply (hagree (pre ++ next)).mp
        exact h (seg :: pre) (r :: preReqs) (List.cons_prefix_cons.mpr ⟨rfl, hpre⟩) (decodeAll_append hone hpreReqs)
          next nextReqs hn hnr hnf hng
  · intro hreg pre preReqs hpre hpreReqs next nextReqs hn hnr hnf hng
    obtain ⟨post, rfl⟩ := decodeAll_prefix hpre hpreReqs hreqs
    have hall : ∀ seg ∈ pre ++ next, WellFormed seg := fun seg hseg =>
      (List.mem_append.mp hseg).elim (fun h => hsegs seg (hpre.subset h)) (hn seg)
    obtain ⟨s', -, -, hagree⟩ := regular_run hall (decodeAll_append hpreReqs hnr) hs hm
      (along_append.mpr ⟨(along_append.mp hreg).1, hng⟩) (along_append.mpr ⟨(along_append.mp hfits).1, hnf⟩)
    rw [← List.append_nil (pre ++ next)]
    exact (hagree []).mpr (agree_nil s')

/-- Started empty, the engines write the same replies to every run in which a SET
brings a new key and a DEL and a MOD name a live one; and only along such a run
they can stand in for each other. -/
theorem engines_interchangeable_iff (mem : RbEngine.Addr → RbEngine.RbNode) (segs : List Bytes) (reqs : List Request)
    (hsegs : ∀ seg ∈ segs, WellFormed seg) (hreqs : segs.mapM decode = some reqs) (hfits : Along Fits [] reqs) :
    (Along Regular [] reqs → Agree (fresh mem) segs) ∧
    ((∀ pre preReqs, pre <+: segs → pre.mapM decode = some preReqs →
      Interchangeable (fresh mem) pre (liveKeys [] preReqs)) ↔ Along Regular [] reqs) := by
  have hiff := interchangeable_iff (fresh_same mem) tidy_empty hsegs hreqs hfits
  refine ⟨fun hreg => ?_, hiff⟩
  -- the run itself, with nothing after it
  have hall := hiff.mpr hreg segs reqs (List.prefix_refl _) hreqs [] [] (by simp) rfl trivial trivial
  rwa [List.append_nil] at hall

/-- Memory full of zeros. -/
def zeros : RbEngine.Addr → RbEngine.RbNode := fun _ => ⟨0, 0, 0, 0, ⟨0, ⟨[], List.not_mem_nil⟩⟩, none⟩

def regularScript : List Bytes := [ascii "SET Name SUYANG", ascii "GET Name", ascii "MOD Name FISH", ascii "DEL Name"]

theorem regular_script_agrees : Agree (fresh zeros) regularScript :=
  (engines_interchangeable_iff zeros regularScript
    [.set HashLock.name HashLock.nameValue, .get HashLock.name, .mod HashLock.name ⟨ascii "FISH", by decide⟩, .del HashLock.name]
    (by decide) rfl (by decide)).1 (by decide)

/-- A key set twice is read back as the new value from the hash table and as the
old one from the others; a key that is not there is refused in three ways. -/
theorem repeated_and_missing_differ :
    replies (arrayEngine .succeeds) kvstoreArrayCreate [ascii "SET a 1", ascii "SET a 2", ascii "GET a"] =
        .ok [ascii "SUCCESS", ascii "SUCCESS", ascii "1"] ∧
      replies (rbEngine .succeeds) (RbEngine.kvstoreRbtreeCreate zeros) [ascii "SET a 1", ascii "SET a 2", ascii "GET a"] =
        .ok [ascii "SUCCESS", ascii "SUCCESS", ascii "1"] ∧
      replies (hashEngine .exclusive .succeeds) (kvstoreHashCreate fun _ => [])
          [ascii "SET a 1", ascii "SET a 2", ascii "GET a"] = .ok [ascii "SUCCESS", ascii "SUCCESS", ascii "2"] ∧
      replies (arrayEngine .succeeds) kvstoreArrayCreate [ascii "DEL a"] = .ok [ascii "DEL_FAILER"] ∧
      replies (rbEngine .succeeds) (RbEngine.kvstoreRbtreeCreate zeros) [ascii "DEL a"] = .ok [ascii "ERROR"] := by
  decide +kernel

end GameAccelerator.EngineChoice
