import GameAccelerator.Requests

namespace GameAccelerator.ReferenceMap

open CString Platform HashEngine Tokens KvStore Requests

/-- What the store is for: a partial map from keys to values. -/
abbrev KvMap := CStr → Option CStr

def reference (m : KvMap) : Request → Bytes × KvMap
  | .set key value => (ascii "SUCCESS", Function.update m key (some value))
  | .get key => (getReply (m key), m)
  | .del key => if (m key).isSome then (ascii "SUCCESS", Function.update m key none) else (ascii "ERROR", m)
  | .mod key value =>
      if (m key).isSome then (ascii "SUCCESS", Function.update m key (some value)) else (ascii "ERROR", m)

def referenceReplies : KvMap → List Request → List Bytes
  | _, [] => []
  | m, r :: rs => (reference m r).1 :: referenceReplies (reference m r).2 rs

variable {σ : Type}

/-- An engine whose calls simulate the map under the relation `R`. -/
structure Implements (E : Engine σ) (R : σ → KvMap → Prop) : Prop where
  set : ∀ {st m}, R st m → ∀ k v, ∃ st', E.set st k v = .ok (0, st') ∧ R st' (Function.update m k (some v))
  get : ∀ {st m}, R st m → ∀ k, ∃ st', E.get st k = .ok (m k, st') ∧ R st' m
  delete : ∀ {st m}, R st m → ∀ k, ∃ st', E.delete st k = .ok (if (m k).isSome then 0 else -1, st') ∧
    R st' (if (m k).isSome then Function.update m k none else m)
  modify : ∀ {st m}, R st m → ∀ k v, ∃ st', E.modify st k v = .ok (if (m k).isSome then 0 else -1, st') ∧
    R st' (if (m k).isSome then Function.update m k (some v) else m)

/-- The calls of an engine in one state simulate those of the map. -/
structure ImplementsAt (E : Engine σ) (R : σ → KvMap → Prop) (st : σ) (m : KvMap) : Prop where
  set : ∀ k v, ∃ st', E.set st k v = .ok (0, st') ∧ R st' (Function.update m k (some v))
  get : ∀ k, ∃ st', E.get st k = .ok (m k, st') ∧ R st' m
  delete : ∀ k, ∃ st', E.delete st k = .ok (if (m k).isSome then 0 else -1, st') ∧
    R st' (if (m k).isSome then Function.update m k none else m)
  modify : ∀ k v, ∃ st', E.modify st k v = .ok (if (m k).isSome then 0 else -1, st') ∧
    R st' (if (m k).isSome then Function.update m k (some v) else m)

theorem Implements.at {E : Engine σ} {R : σ → KvMap → Prop} (hE : Implements E R) {st : σ} {m : KvMap} (hR : R st m) :
    ImplementsAt E R st m :=
  ⟨hE.set hR, hE.get hR, hE.delete hR, hE.modify hR⟩

/-- Every stored value fits the reply buffer with its terminator. -/
def Short (m : KvMap) : Prop := ∀ k v, m k = some v → v.bytes.length ≤ bufferLength - 1

def ValueOf (P : CStr → Prop) : Request → Prop
  | .set _ v | .mod _ v => P v
  | _ => True

def ShortValue : Request → Prop := ValueOf fun v => v.bytes.length ≤ bufferLength - 1

/-- What holds of every value that is written holds of every value that is
stored. -/
theorem reference_values {P : CStr → Prop} {m : KvMap} (hm : ∀ k v, m k = some v → P v) {r : Request}
    (hr : ValueOf P r) : ∀ k v, (reference m r).2 k = some v → P v := by
  have hupdate : ∀ key (new : Option CStr), (∀ v, new = some v → P v) →
      ∀ k w, Function.update m key new k = some w → P w := by
    intro key new hnew k w h
    by_cases hk : k = key
    · subst hk
      rw [Function.update_self] at h
      exact hnew w h
    · rw [Function.update_of_ne hk] at h
      exact hm k w h
  cases r with
  | set key v => exact hupdate key (some v) fun w hw => Option.some.inj hw ▸ hr
  | get key => exact hm
  | del key =>
      simp only [reference]
      split
      · exact hupdate key none nofun
      · exact hm
  | mod key v =>
      simp only [reference]
      split
      · exact hupdate key (some v) fun w hw => Option.some.inj hw ▸ hr
      · exact hm

theorem reference_short {m : KvMap} (hm : Short m) {r : Request} (hr : ShortValue r) : Short (reference m r).2 :=
  reference_values hm hr

theorem take_getReply {m : KvMap} (hm : Short m) (k : CStr) :
    (getReply (m k)).take (bufferLength - 1) = getReply (m k) := by
  apply List.take_of_length_le
  cases h : m k with
  | none => decide
  | some v => exact hm k v h

theorem execute_spec {E : Engine σ} {R : σ → KvMap → Prop} {st : σ} {m : KvMap} (hE : ImplementsAt E R st m)
    (hm : Short m) (r : Request) :
    ∃ st', execute E st r = .ok ((reference m r).1, st') ∧ R st' (reference m r).2 := by
  cases r with
  | set k v =>
      obtain ⟨st', he, hR'⟩ := hE.set k v
      exact ⟨st', by simp [execute, he, Except.map, reference], hR'⟩
  | get k =>
      obtain ⟨st', he, hR'⟩ := hE.get k
      exact ⟨st', by simp [execute, he, Except.map, reference, take_getReply hm], hR'⟩
  | del k =>
      obtain ⟨st', he, hR'⟩ := hE.delete k
      refine ⟨st', ?_, ?_⟩ <;> simp only [execute, he, Except.map, reference] <;> split at hR' <;>
        simp_all [codeReply]
  | mod k v =>
      obtain ⟨st', he, hR'⟩ := hE.modify k v
      refine ⟨st', ?_, ?_⟩ <;> simp only [execute, he, Except.map, reference] <;> split at hR' <;>
        simp_all [codeReply]

theorem ofWords_shortValue {strs : List CStr} (hs : ∀ s ∈ strs, s.bytes.length ≤ bufferLength - 1)
    {r : Request} (hr : Request.ofWords strs = some r) : ShortValue r := by
  unfold Request.ofWords at hr
  split at hr
  · split at hr
    · cases hr
      exact hs _ (by simp)
    · cases hr
      exact hs _ (by simp)
    · cases hr; trivial
    · cases hr; trivial
    · cases hr
  · cases hr

theorem decode_shortValue {seg : Bytes} (h : WellFormed seg) {r : Request} (hr : decode seg = some r) :
    ShortValue r := by
  refine ofWords_shortValue (fun s hs => ?_) hr
  obtain ⟨w, hw, rfl⟩ := List.mem_map.mp hs
  have hsub := words_sublist hw
  rw [toCStr_bytes fun h0 => h.noNul (hsub.subset h0)]
  exact hsub.length_le.trans h.short

/-- An engine that simulates the map answers every run of well-formed segments
as the map does. -/
theorem serve_spec {E : Engine σ} {R : σ → KvMap → Prop} (hE : Implements E R) (segs : List Bytes)
    (hsegs : ∀ seg ∈ segs, WellFormed seg) {st : σ} {m : KvMap} (hR : R st m) (hm : Short m) :
    ∃ reqs st', segs.mapM decode = some reqs ∧ serve E st segs = .ok (referenceReplies m reqs, st') := by
  induction segs generalizing st m with
  | nil => exact ⟨[], st, rfl, rfl⟩
  | cons seg segs ih =>
      have hw := hsegs seg (by simp)
      obtain ⟨r, hr⟩ := decode_of_wellFormed hw
      obtain ⟨st', he, hR'⟩ := execute_spec (hE.at hR) hm r
      obtain ⟨reqs, st'', hreqs, hs⟩ := ih (fun s h => hsegs s (by simp [h])) hR'
        (reference_short hm (decode_shortValue hw hr))
      refine ⟨r :: reqs, st'', by simp [hr, hreqs], ?_⟩
      simp only [serve, serverReader_eq E hw hr, he, hs, bind, Except.bind, referenceReplies]

end GameAccelerator.ReferenceMap
