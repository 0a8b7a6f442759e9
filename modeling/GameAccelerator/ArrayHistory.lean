import GameAccelerator.ArrayEngine

namespace GameAccelerator.ArrayHistory

open CString Platform Buckets ArrayEngine

/-- What GET has to give for each key, where anything has been promised: a call
with the code zero promises what it leaves; another one ends the promise of a
value, and not that the key is gone. -/
abbrev Promises := CStr → Option (Option CStr)

def promise (p : Promises) (op : ArrayOp) (code : Int) : Promises :=
  Function.update p op.key
    (if code = 0 then some op.leaves else if p op.key = some none then some none else none)

/-- A sequence of calls in which every allocation succeeds, with the promises
that they make. -/
def run : ArrayTable × Promises → List ArrayOp → Except Fault (ArrayTable × Promises)
  | st, [] => .ok st
  | st, op :: ops =>
      match exec .succeeds st.1 op with
      | .error f => .error f
      | .ok r => run (r.2, promise st.2 op r.1) ops

def Kept (st : ArrayTable × Promises) (ops : List ArrayOp) : Prop :=
  ∃ arr p, run st ops = .ok (arr, p) ∧ ∀ k x, p k = some x → kvstoreArrayGet arr k = .ok x

/-- The keys of the items after a call: a SET brings one as long as there is
room, a DEL takes one away. -/
def liveAfter (ks : List CStr) : ArrayOp → List CStr
  | .set key _ => if ks.length < kvsArraySize then key :: ks else ks
  | .delete key => ks.erase key
  | .modify _ _ => ks

/-- A SET for which there is room brings a new key. -/
def Unbound (ks : List CStr) : ArrayOp → Prop
  | .set key _ => ks.length < kvsArraySize → key ∉ ks
  | _ => True

/-- All calls of a sequence do so, with these keys in the table before the
first. -/
def Fresh (ks : List CStr) : List ArrayOp → Prop
  | [] => True
  | op :: ops => Unbound ks op ∧ Fresh (liveAfter ks op) ops

variable {arr : ArrayTable} {m : CStr → Option CStr} {p : Promises} {ks : List CStr}

/-- The promises are those of a map. -/
def Agree (p : Promises) (m : CStr → Option CStr) : Prop := ∀ k x, p k = some x → m k = x

theorem promise_done (h : Agree p m) (op : ArrayOp) :
    Agree (promise p op 0) (Function.update m op.key op.leaves) := by
  intro k x hk
  rw [promise] at hk
  by_cases he : k = op.key
  · subst he
    rw [Function.update_self, if_pos rfl] at hk
    rw [Function.update_self]
    exact Option.some.inj hk
  · rw [Function.update_of_ne he] at hk ⊢
    exact h k x hk

theorem promise_refused (h : Agree p m) (op : ArrayOp) {code : Int} (hc : code ≠ 0) : Agree (promise p op code) m := by
  intro k x hk
  rw [promise] at hk
  by_cases he : k = op.key
  · subst he
    rw [Function.update_self, if_neg hc] at hk
    split_ifs at hk with hnone
    exact h _ x (hnone.trans hk)
  · rw [Function.update_of_ne he] at hk
    exact h k x hk

theorem kept_nil (h : Holds arr m) (hp : Agree p m) : Kept (arr, p) [] := by
  refine ⟨arr, p, rfl, ?_⟩
  intro k x hk
  rw [get_holds h, hp k x hk]

theorem kept_cons {op : ArrayOp} {r : Int × ArrayTable} (he : exec .succeeds arr op = .ok r) (ops : List ArrayOp) :
    Kept (arr, p) (op :: ops) ↔ Kept (r.2, promise p op r.1) ops := by
  rw [Kept, Kept, run, he]

/-- A call that adds no second item keeps the table, the keys and the promises
to a map. -/
theorem exec_holds (h : Holds arr m) (hl : Live ks m) (hp : Agree p m) {op : ArrayOp} (hu : Unbound ks op) :
    ∃ c arr' m', exec .succeeds arr op = .ok (c, arr') ∧ Holds arr' m' ∧ Live (liveAfter ks op) m' ∧
      Agree (promise p op c) m' := by
  have hlen := h.items_length hl
  cases op with
  | set key value =>
      rw [liveAfter]
      rcases set_cases h.compact key value with ⟨hset, hfull⟩ | ⟨arr', hset, hc, hperm⟩
      · rw [if_neg (by omega)]
        exact ⟨-1, arr, m, congrArg Except.ok hset, h, hl, promise_refused hp _ (by decide)⟩
      · have hroom : ks.length < kvsArraySize := by
          have hle := (List.length_filterMap_le id arr'.arrayTable).trans_eq arr'.size
          rw [← items, hperm.length_eq, List.length_cons] at hle
          omega
        have hnew := hu hroom
        have hnone : m key = none := Option.not_isSome_iff_eq_none.mp fun hk => hnew ((hl.bound key).mpr hk)
        rw [if_pos hroom, ← List.insert_of_not_mem hnew]
        exact ⟨0, arr', _, congrArg Except.ok hset, set_done_holds h hnone hset, hl.bind key value, promise_done hp _⟩
  | delete key =>
      obtain ⟨arr', hdel, hh⟩ := delete_holds h key
      refine ⟨_, arr', _, hdel, hh, ?_, ?_⟩
      · rw [liveAfter]
        split_ifs with hk
        · exact hl.erase key
        · exact hl.erase_unbound hk
      · split_ifs
        · exact promise_done hp (.delete key)
        · exact promise_refused hp _ (by decide)
  | modify key value =>
      obtain ⟨arr', hmod, hh⟩ := modify_holds h key value
      refine ⟨_, arr', _, hmod, hh, ?_, ?_⟩
      · rw [liveAfter]
        split_ifs with hk
        · exact hl.rebind hk value
        · exact hl
      · split_ifs
        · exact promise_done hp (.modify key value)
        · exact promise_refused hp _ (by decide)

/-- A second item of a key outlives the deletion of the first. -/
theorem bound_set_breaks (h : Holds arr m) (hl : Live ks m) {op : ArrayOp} (hu : ¬ Unbound ks op) :
    ¬ Kept (arr, p) [op, .delete op.key] := by
  cases op with
  | delete key => exact absurd trivial hu
  | modify key value => exact absurd trivial hu
  | set key value =>
      rw [Unbound, Classical.not_imp, not_not, hl.bound] at hu
      obtain ⟨hroom, hbound⟩ := hu
      rcases set_cases h.compact key value with ⟨-, hfull⟩ | ⟨arr', hset, -⟩
      · rw [h.items_length hl] at hfull
        omega
      · obtain ⟨arr'', v, hdel, hget, -⟩ := duplicate_survives h hbound hset
        have he : exec .succeeds arr (.set key value) = .ok (0, arr') := congrArg Except.ok hset
        have hd : exec .succeeds arr' (.delete key) = .ok (0, arr'') := hdel
        rw [ArrayOp.key, kept_cons he, kept_cons hd]
        rintro ⟨arr₁, p₁, hrun, hall⟩
        cases hrun
        have hgone := hall key none (by simp [promise, ArrayOp.key, ArrayOp.leaves])
        cases hget.symm.trans hgone

theorem kept_delete (h : Holds arr m) (hl : Live ks m) (hp : Agree p m) (key : CStr) : Kept (arr, p) [.delete key] := by
  obtain ⟨c, arr', m', he, hh, -, hp'⟩ := @exec_holds arr m p ks h hl hp (.delete key) trivial
  rw [kept_cons he]
  exact kept_nil hh hp'

theorem kept_iff_fresh (h : Holds arr m) (hl : Live ks m) (hp : Agree p m) (ops : List ArrayOp) :
    (∀ pre k, pre <+: ops → Kept (arr, p) pre ∧ Kept (arr, p) (pre ++ [.delete k])) ↔ Fresh ks ops := by
  induction ops generalizing arr m p ks with
  | nil =>
      apply iff_of_true _ trivial
      intro pre k hpre
      rw [List.prefix_nil.mp hpre]
      exact ⟨kept_nil h hp, kept_delete h hl hp k⟩
  | cons op ops ih =>
      rw [Fresh]
      by_cases hu : Unbound ks op
      · obtain ⟨c, arr', m', he, hh, hl', hp'⟩ := exec_holds h hl hp hu
        rw [and_iff_right hu, ← ih hh hl' hp']
        constructor
        · intro hall pre k hpre
          have hk := hall (op :: pre) k (List.cons_prefix_cons.mpr ⟨rfl, hpre⟩)
          rwa [List.cons_append, kept_cons he, kept_cons he] at hk
        · intro hall pre k hpre
          rcases List.prefix_cons_iff.mp hpre with rfl | ⟨pre', rfl, hpre'⟩
          · exact ⟨kept_nil h hp, kept_delete h hl hp k⟩
          · rw [List.cons_append, kept_cons he, kept_cons he]
            exact hall pre' k hpre'
      · apply iff_of_false
        · intro hall
          exact bound_set_breaks h hl hu (hall [op] op.key (List.cons_prefix_cons.mpr ⟨rfl, List.nil_prefix⟩)).2
        · exact fun hf => hu hf.1

/-- Nothing has been promised before the first call. -/
def start : ArrayTable × Promises := (kvstoreArrayCreate, fun _ => none)

/-- As long as no SET names a key that is in the table, and no longer, GET gives
what was promised, also after the deletion of any key. -/
theorem latest_binding_iff (ops : List ArrayOp) :
    (∀ pre k, pre <+: ops → Kept start pre ∧ Kept start (pre ++ [.delete k])) ↔ Fresh [] ops := by
  apply kept_iff_fresh create_holds live_nil
  intro k x h
  cases h

def route : CStr := ⟨ascii "route:eu", by decide⟩

def first : CStr := ⟨ascii "first", by decide⟩

def second : CStr := ⟨ascii "second", by decide⟩

/-- The second SET is done and GET still gives the first value; after the DEL
there is one left. -/
theorem second_set_hidden :
    (run start [.set route first, .set route second]).toOption.map
        (fun st => (st.2 route, (kvstoreArrayGet st.1 route).toOption)) = some (some (some second), some (some first)) ∧
      (run start [.set route first, .set route second, .delete route]).toOption.map
        (fun st => (st.2 route, (kvstoreArrayGet st.1 route).toOption)) = some (some none, some (some second)) := by
  decide +kernel

end GameAccelerator.ArrayHistory
