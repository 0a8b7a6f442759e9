import GameAccelerator.HashContents
import GameAccelerator.HashServer
import Mathlib.Algebra.Ring.Nat

namespace GameAccelerator.HashInvariant

open CString Platform Buckets HashEngine HashContents HashServer

variable {m : Mutex} {al : Alloc} {t t' : HashTable} {key value : CStr} {r : Int}

def nodeCount (t : HashTable) : Nat := (elems t.nodes).length

def PowerOfTwo (t : HashTable) : Prop := ∃ k, t.maxSlots = 1024 * 2 ^ k

/-- What every call keeps, with the lock apart. -/
structure Sound (t : HashTable) : Prop where
  placed : WellPlaced t
  count : t.count = nodeCount t
  power : PowerOfTwo t

theorem empty_sound : Sound (kvstoreHashCreate fun _ => []) := by
  have he : elems (kvstoreHashCreate fun _ => []).nodes = [] := elems_empty
  refine ⟨represents_empty.1, ?_, 0, rfl⟩
  rw [nodeCount, he]
  rfl

theorem sound_lock (h : Sound t) (lock : Bool) : Sound { t with lock := lock } := ⟨h.placed, h.count, h.power⟩

theorem replace_sound (h : Sound t) {i : Fin t.maxSlots} {pre post : List HashNode} {n : HashNode}
    (hi : t.nodes i = pre ++ [n] ++ post) (v : Option CStr) :
    Sound (setBucket t i (pre ++ [{ n with value := v }] ++ post)) := by
  refine ⟨(Indexed.replace h.placed { n with value := v } hi rfl).1, ?_, h.power⟩
  have hlen : nodeCount (setBucket t i (pre ++ [{ n with value := v }] ++ post)) = nodeCount t := length_elems_replace _ hi
  rw [hlen]
  exact h.count

theorem push_sound (h : Sound t) (hf : find HashNode.key key (t.nodes (index t key)) = none) (v : Option CStr) :
    Sound { setBucket t (index t key) (⟨key, v, ()⟩ :: t.nodes (index t key)) with count := t.count + 1 } := by
  rw [nodeOf_bucket h.placed] at hf
  have hpush := Indexed.push (a := (⟨key, v, ()⟩ : HashNode)) h.placed hf
  refine ⟨hpush.1, ?_, h.power⟩
  have hlen : (elems (Buckets.push HashNode.key (index t) t.nodes ⟨key, v, ()⟩)).length = nodeCount t + 1 :=
    (elems_push HashNode.key (index t) t.nodes ⟨key, v, ()⟩).length_eq
  exact (congrArg (· + 1) h.count).trans (congrArg Int.ofNat hlen).symm

theorem remove_sound (h : Sound t) {i : Fin t.maxSlots} {pre post : List HashNode} {n : HashNode}
    (hi : t.nodes i = pre ++ [n] ++ post) :
    Sound { setBucket t i (pre ++ post) with count := t.count - 1, lock := false } := by
  refine ⟨(Indexed.remove h.placed hi).1, ?_, h.power⟩
  have hlen : nodeCount (setBucket t i (pre ++ post)) + 1 = nodeCount t := length_elems_remove hi
  have hcount := h.count
  rw [← hlen] at hcount
  change t.count - 1 = nodeCount (setBucket t i (pre ++ post))
  omega

theorem doubled_sound (h : Sound t) : Sound (doubled t) := by
  refine ⟨(doubled_spec h.placed).1, ?_, ?_⟩
  · exact h.count.trans (congrArg Int.ofNat (doubled_perm t).length_eq).symm
  · obtain ⟨k, hk⟩ := h.power
    refine ⟨k + 1, ?_⟩
    calc t.maxSlots * 2 = 1024 * 2 ^ k * 2 := by rw [hk]
      _ = 1024 * 2 ^ (k + 1) := by rw [pow_succ, Nat.mul_assoc]

theorem resize_sound (al : Alloc) (h : Sound t) : Sound (resizeHashtable al t).2 := by
  rw [resize_eq]
  split_ifs
  · exact doubled_sound h
  · exact h

theorem prepared_sound (al : Alloc) (h : Sound t) : Sound (prepared al t) := by
  rw [prepared]
  split_ifs
  · exact resize_sound al (sound_lock h true)
  · exact sound_lock h true

variable {key? value? : Option CStr}

theorem put_sound (h : Sound t) (hput : putKvHashtable () m al t key? value? = .ok (r, t')) : Sound t' := by
  have hp := prepared_sound al h
  rcases put_null hput with rfl | ⟨key, value, rfl, rfl⟩
  · exact h
  rcases put_cases hput with ⟨pre, n, post, v, hc, _, rfl⟩ | ⟨hf, v, rfl⟩
  · exact sound_lock (replace_sound hp hc v) false
  · exact sound_lock (push_sound hp hf v) false

theorem delete_sound (h : Sound t) (hdel : deleteKvHashtable m t key? = .ok (r, t')) : Sound t' := by
  rcases delete_null hdel with rfl | ⟨key, rfl⟩
  · exact h
  rcases delete_cases hdel with ⟨lock, rfl⟩ | ⟨pre, n, post, hc, _, rfl⟩
  · exact sound_lock h lock
  · exact remove_sound h hc

theorem modify_sound (h : Sound t) (hmod : kvsHashModify al t key? value? = .ok (r, t')) : Sound t' := by
  rcases modify_null hmod with rfl | ⟨key, value, rfl, rfl⟩
  · exact h
  rcases modify_cases hmod with rfl | ⟨pre, n, post, v, hc, _, rfl⟩
  · exact h
  · exact replace_sound h hc v

/-- The table is full and cannot be enlarged. -/
def refused (al : Alloc) (t : HashTable) : Bool := overloaded t && (resizeHashtable al t).1 != 0

/-- The tables that the calls reach, with the number of SETs and whether a
doubling has failed. The allocation of an array may fail, no other. -/
inductive Reaches (m : Mutex) : HashTable → Nat → Bool → Prop
  | start : Reaches m (kvstoreHashCreate fun _ => []) 0 false
  | set {t t' : HashTable} {sets : Nat} {failed : Bool} (h : Reaches m t sets failed) (al : Alloc)
      (hal : al.node = true ∧ al.key = true ∧ al.value = true) (key value : Option CStr) (r : Int)
      (he : kvsHashSet m al t key value = .ok (r, t')) :
      Reaches m t' (sets + 1) (failed || key.isSome && value.isSome && refused al t)
  | modify {t t' : HashTable} {sets : Nat} {failed : Bool} (h : Reaches m t sets failed) (al : Alloc)
      (hal : al.value = true) (key value : Option CStr) (r : Int)
      (he : kvsHashModify al t key value = .ok (r, t')) : Reaches m t' sets failed
  | delete {t t' : HashTable} {sets : Nat} {failed : Bool} (h : Reaches m t sets failed) (key : Option CStr) (r : Int)
      (he : kvsHashDelete m t key = .ok (r, t')) : Reaches m t' sets failed

theorem reaches_sound {sets : Nat} {failed : Bool} (h : Reaches m t sets failed) : Sound t := by
  induction h with
  | start => exact empty_sound
  | set _ al _ key value r he ih => exact put_sound ih he
  | modify _ al _ key value r he ih => exact modify_sound ih he
  | delete _ key r he ih => exact delete_sound ih he

theorem maxSlots_ge (h : Sound t) : 1024 ≤ t.maxSlots := by
  obtain ⟨k, hk⟩ := h.power
  rw [hk]
  exact Nat.le_mul_of_pos_right _ (Nat.two_pow_pos k)

theorem prepared_eq (al : Alloc) (t : HashTable) :
    prepared al t =
      if overloaded t ∧ refused al t = false then doubled { t with lock := true } else { t with lock := true } := by
  have hload : overloaded { t with lock := true } = overloaded t := rfl
  rw [prepared, hload, refused, resize_eq, resize_eq]
  cases overloaded t with
  | false => rfl
  | true => by_cases hroom : al.slots ∧ t.maxSlots * 2 < 2147483648 <;> simp [hroom]

theorem prepared_count (al : Alloc) (t : HashTable) : (prepared al t).count = t.count := by
  rw [prepared_eq]
  split_ifs <;> rfl

/-- Seven tenths of the buckets suffice for the nodes. -/
def Roomy (t : HashTable) : Prop := 10 * t.count ≤ 7 * t.maxSlots

/-- A table that is not overloaded has room for one node more, and a doubled one
has it since it has at least 2048 buckets. -/
theorem prepared_roomy (hs : Sound t) (h : Roomy t) (hr : refused al t = false) :
    10 * ((prepared al t).count + 1) ≤ 7 * ((prepared al t).maxSlots : Int) := by
  have hbig := maxSlots_ge hs
  rw [Roomy] at h
  rw [prepared_count, prepared_eq]
  cases ho : overloaded t with
  | false =>
      rw [overloaded] at ho
      have hle := of_decide_eq_false ho
      simp only [Bool.false_eq_true, false_and, if_false]
      omega
  | true =>
      simp only [hr, and_self, if_true, doubled]
      omega

theorem put_roomy (hs : Sound t) (h : Roomy t) (hr : (key?.isSome && value?.isSome && refused al t) = false)
    (hput : putKvHashtable () m al t key? value? = .ok (r, t')) : Roomy t' := by
  rcases put_null hput with rfl | ⟨key, value, rfl, rfl⟩
  · exact h
  have hroom := prepared_roomy hs h hr
  rcases put_cases hput with ⟨pre, n, post, v, _, _, rfl⟩ | ⟨_, v, rfl⟩
  · change 10 * (prepared al t).count ≤ 7 * ((prepared al t).maxSlots : Int)
    omega
  · exact hroom

theorem put_count (hput : putKvHashtable () m al t key? value? = .ok (r, t')) : t'.count ≤ t.count + 1 := by
  rcases put_null hput with rfl | ⟨key, value, rfl, rfl⟩
  · omega
  have hc := prepared_count al t
  rcases put_cases hput with ⟨pre, n, post, v, _, _, rfl⟩ | ⟨_, v, rfl⟩
  · change (prepared al t).count ≤ t.count + 1
    omega
  · exact le_of_eq (congrArg (· + 1) hc)

/-- A deletion does not change the size of the array and adds no node. -/
theorem delete_count (hdel : deleteKvHashtable m t key? = .ok (r, t')) :
    t'.count ≤ t.count ∧ t'.maxSlots = t.maxSlots := by
  rcases delete_null hdel with rfl | ⟨key, rfl⟩
  · exact ⟨le_refl _, rfl⟩
  rcases delete_cases hdel with ⟨lock, rfl⟩ | ⟨pre, n, post, _, _, rfl⟩
  · exact ⟨le_refl _, rfl⟩
  · exact ⟨Int.sub_le_self _ (by decide), rfl⟩

theorem modify_count (hmod : kvsHashModify al t key? value? = .ok (r, t')) :
    t'.count = t.count ∧ t'.maxSlots = t.maxSlots := by
  rcases modify_null hmod with rfl | ⟨key, value, rfl, rfl⟩
  · exact ⟨rfl, rfl⟩
  rcases modify_cases hmod with rfl | ⟨pre, n, post, v, _, _, rfl⟩ <;> exact ⟨rfl, rfl⟩

variable {sets : Nat} {failed : Bool}

theorem reaches_roomy (h : Reaches m t sets failed) : failed = false → Roomy t := by
  induction h with
  | start =>
      intro _
      change (10 : Int) * 0 ≤ 7 * (1024 : Nat)
      omega
  | set h al _ key value r he ih =>
      intro hf
      rw [Bool.or_eq_false_iff] at hf
      exact put_roomy (reaches_sound h) (ih hf.1) hf.2 he
  | modify _ al _ key value r he ih =>
      intro hf
      obtain ⟨hc, hm⟩ := modify_count he
      rw [Roomy, hc, hm]
      exact ih hf
  | delete _ key r he ih =>
      intro hf
      obtain ⟨hc, hm⟩ := delete_count he
      have hle := ih hf
      rw [Roomy] at hle ⊢
      omega

theorem reaches_count (h : Reaches m t sets failed) : t.count ≤ sets := by
  induction h with
  | start => exact le_refl (0 : Int)
  | set _ al _ key value r he ih => exact (put_count he).trans (Int.add_le_add_right ih 1)
  | modify _ al _ key value r he ih => exact (modify_count he).1.trans_le ih
  | delete _ key r he ih => exact (delete_count he).1.trans ih

/-- The `int` holds every size that is asked for. -/
theorem doubling_in_range (h : Reaches m t sets failed) (hsets : sets < 536870912) (ho : overloaded t = true) :
    t.maxSlots * 2 < 2147483648 := by
  have hcount := reaches_count h
  have hload := of_decide_eq_true ho
  omega

structure Representation (t : HashTable) (failed : Bool) : Prop where
  bucket : ∀ i, ∀ n ∈ t.nodes i, index t n.key = i
  keys : ((elems t.nodes).map HashNode.key).Nodup
  count : t.count = nodeCount t
  power : PowerOfTwo t
  kept : ∀ al, (resizeHashtable al t).1 ≠ 0 → (resizeHashtable al t).2 = t
  range : overloaded t = true → t.maxSlots * 2 < 2147483648
  load : failed = false → 10 * t.count ≤ 7 * t.maxSlots

/-- Collisions, overwrites, deletions and doublings, those that fail too, keep
the table in order. -/
theorem hash_representation (h : Reaches m t sets failed) (hsets : sets < 536870912) : Representation t failed where
  bucket := (reaches_sound h).placed.placed
  keys := (reaches_sound h).placed.nodup
  count := (reaches_sound h).count
  power := (reaches_sound h).power
  kept al hne := by
    rw [resize_eq] at hne ⊢
    split_ifs at hne ⊢
    · exact absurd rfl hne
    · rfl
  range := doubling_in_range h hsets
  load := reaches_roomy h

theorem set_delete_representation :
    ∃ t, Reaches .exclusive t 2 false ∧ t.count = 0 ∧ Representation t false := by
  have hset := Reaches.set (m := .exclusive) .start .succeeds ⟨rfl, rfl, rfl⟩ (some HashLock.name) (some HashLock.nameValue) 0 rfl
  have hagain := hset.set ⟨false, true, true, true⟩ ⟨rfl, rfl, rfl⟩ (some HashLock.name) (some HashLock.nameValue) 0 rfl
  have hdel := hagain.delete (some HashLock.name) 0 rfl
  exact ⟨_, hdel, rfl, hash_representation hdel (by decide)⟩

end GameAccelerator.HashInvariant
