import Mathlib.Data.List.FinRange
import Mathlib.Data.List.Perm.Basic
import Mathlib.Data.List.Nodup

namespace GameAccelerator.Buckets

open scoped List

variable {α κ : Type} {n m : Nat}

/-- All elements of a bucket array, bucket after bucket. -/
def elems (b : Fin n → List α) : List α := (List.finRange n).flatMap b

theorem mem_elems {b : Fin n → List α} {a : α} : a ∈ elems b ↔ ∃ i, a ∈ b i := by
  simp [elems]

/-- Setting one bucket exchanges exactly its elements. -/
theorem elems_split (b : Fin n → List α) (i : Fin n) :
    ∃ rest, ∀ l, (elems (Function.update b i l)).Perm (l ++ rest) := by
  refine ⟨((List.finRange n).erase i).flatMap b, fun l => ?_⟩
  have hi : (List.finRange n).Perm (i :: (List.finRange n).erase i) :=
    List.perm_cons_erase (List.mem_finRange i)
  have hrest : ((List.finRange n).erase i).flatMap (Function.update b i l) =
      ((List.finRange n).erase i).flatMap b := by
    apply List.flatMap_congr
    intro j hj
    have hne : j ≠ i := fun h => by
      subst j
      exact (List.nodup_finRange n).not_mem_erase hj
    rw [Function.update_of_ne hne]
  have h := hi.flatMap_right (Function.update b i l)
  rwa [List.flatMap_cons, Function.update_self, hrest] at h

/-- What an exchange inside one bucket leaves of the other elements. -/
theorem elems_exchange {b : Fin n → List α} {i : Fin n} {pre mid post : List α}
    (hi : b i = pre ++ mid ++ post) : ∃ rest, (elems b).Perm (mid ++ rest) ∧
      ∀ mid', (elems (Function.update b i (pre ++ mid' ++ post))).Perm (mid' ++ rest) := by
  obtain ⟨rest, hrest⟩ := elems_split b i
  have hall (mid' : List α) :
      (elems (Function.update b i (pre ++ mid' ++ post))).Perm (mid' ++ (pre ++ (post ++ rest))) := by
    calc elems (Function.update b i (pre ++ mid' ++ post))
        _ ~ (pre ++ mid' ++ post) ++ rest := hrest _
        _ ~ (mid' ++ pre ++ post) ++ rest := (List.perm_append_comm.append_right post).append_right rest
        _ ~ mid' ++ (pre ++ (post ++ rest)) := by simp only [List.append_assoc]; exact List.Perm.refl _
  refine ⟨pre ++ (post ++ rest), ?_, hall⟩
  have h := hall mid
  rwa [← hi, Function.update_eq_self] at h

theorem length_elems_replace {b : Fin n → List α} {i : Fin n} {pre post : List α} {a : α} (a' : α)
    (hi : b i = pre ++ [a] ++ post) :
    (elems (Function.update b i (pre ++ [a'] ++ post))).length = (elems b).length := by
  obtain ⟨rest, hold, hnew⟩ := elems_exchange hi
  rw [(hnew [a']).length_eq, hold.length_eq]
  rfl

theorem length_elems_remove {b : Fin n → List α} {i : Fin n} {pre post : List α} {a : α}
    (hi : b i = pre ++ [a] ++ post) :
    (elems (Function.update b i (pre ++ post))).length + 1 = (elems b).length := by
  obtain ⟨rest, hold, hnew⟩ := elems_exchange hi
  have hrest := (hnew []).length_eq
  rw [List.append_nil, List.nil_append] at hrest
  rw [hrest, hold.length_eq]
  rfl

variable [DecidableEq κ]

/-- Every element lies in the bucket its key hashes to and no key occurs twice. -/
structure Indexed (key : α → κ) (h : κ → Fin n) (b : Fin n → List α) : Prop where
  placed : ∀ i, ∀ a ∈ b i, h (key a) = i
  nodup : ((elems b).map key).Nodup

def find (key : α → κ) (k : κ) (l : List α) : Option α := l.find? (fun a => key a = k)

theorem find_eq_some {key : α → κ} {k : κ} {l : List α} {a : α} (hl : (l.map key).Nodup) :
    find key k l = some a ↔ a ∈ l ∧ key a = k := by
  constructor
  · intro h
    exact ⟨List.mem_of_find?_eq_some h, by simpa using List.find?_some h⟩
  · rintro ⟨hm, hk⟩
    cases hf : find key k l with
    | none => exact absurd hk (by simpa using List.find?_eq_none.mp hf a hm)
    | some a' =>
        have hm' := List.mem_of_find?_eq_some hf
        have hk' : key a' = k := by simpa using List.find?_some hf
        rw [List.inj_on_of_nodup_map hl hm' hm (hk'.trans hk.symm)]

namespace Indexed

variable {key : α → κ} {h : κ → Fin n} {b : Fin n → List α}

omit [DecidableEq κ] in
theorem nodup_bucket (hb : Indexed key h b) (i : Fin n) : ((b i).map key).Nodup := by
  refine hb.nodup.sublist (List.Sublist.map key ?_)
  rw [elems, List.flatMap_def]
  exact List.sublist_flatten_of_mem (List.mem_map_of_mem (List.mem_finRange i))

omit [DecidableEq κ] in
theorem mem_bucket (hb : Indexed key h b) {a : α} : a ∈ elems b ↔ a ∈ b (h (key a)) := by
  constructor
  · intro ha
    obtain ⟨i, hi⟩ := mem_elems.mp ha
    rwa [hb.placed i a hi]
  · intro ha
    exact mem_elems.mpr ⟨_, ha⟩

/-- Looking into the one bucket of a key is looking into the whole array. -/
theorem find_bucket (hb : Indexed key h b) (k : κ) : find key k (b (h k)) = find key k (elems b) := by
  ext a
  rw [find_eq_some (hb.nodup_bucket _), find_eq_some hb.nodup]
  constructor
  · rintro ⟨ha, rfl⟩
    exact ⟨hb.mem_bucket.mpr ha, rfl⟩
  · rintro ⟨ha, rfl⟩
    exact ⟨hb.mem_bucket.mp ha, rfl⟩

omit [DecidableEq κ] in
theorem update (hb : Indexed key h b) {i : Fin n} {l : List α}
    (hl : ∀ a ∈ l, h (key a) = i) (hn : ((elems (Function.update b i l)).map key).Nodup) :
    Indexed key h (Function.update b i l) := by
  refine ⟨fun j a ha => ?_, hn⟩
  by_cases hj : j = i
  · subst j
    exact hl a (by simpa using ha)
  · exact hb.placed j a (by simpa [hj] using ha)

end Indexed

/-- Push an element onto the head of its bucket. -/
def push (key : α → κ) (h : κ → Fin n) (b : Fin n → List α) (a : α) : Fin n → List α :=
  Function.update b (h (key a)) (a :: b (h (key a)))

omit [DecidableEq κ] in
theorem elems_push (key : α → κ) (h : κ → Fin n) (b : Fin n → List α) (a : α) :
    (elems (push key h b a)).Perm (a :: elems b) := by
  have hi : b (h (key a)) = [] ++ [] ++ b (h (key a)) := rfl
  obtain ⟨rest, hrest, hpush⟩ := elems_exchange hi
  exact (hpush [a]).trans (hrest.symm.cons a)

omit [DecidableEq κ] in
theorem elems_foldl_push (key : α → κ) (h : κ → Fin n) (l : List α) (b : Fin n → List α) :
    (elems (l.foldl (push key h) b)).Perm (l ++ elems b) := by
  induction l generalizing b with
  | nil => exact List.Perm.refl _
  | cons a l ih =>
      calc elems (l.foldl (push key h) (push key h b a))
          _ ~ l ++ elems (push key h b a) := ih _
          _ ~ l ++ a :: elems b := (elems_push key h b a).append_left l
          _ ~ a :: l ++ elems b := List.perm_middle

omit [DecidableEq κ] in
/-- Pushing commutes with a map that keeps the keys. -/
theorem map_foldl_push {β : Type} {key : α → κ} {key' : β → κ} {f : β → α} (hf : ∀ a, key (f a) = key' a)
    (h : κ → Fin n) (l : List β) (b : Fin n → List β) :
    (fun i => (l.foldl (push key' h) b i).map f) = (l.map f).foldl (push key h) (fun i => (b i).map f) := by
  induction l generalizing b with
  | nil => rfl
  | cons a l ih =>
      rw [List.foldl_cons, List.map_cons, List.foldl_cons, ih]
      congr 1
      funext i
      by_cases hi : i = h (key' a)
      · subst i
        simp [push, hf]
      · simp [push, hf, hi]

omit [DecidableEq κ] in
theorem placed_foldl_push (key : α → κ) (h : κ → Fin n) (l : List α) (b : Fin n → List α)
    (hb : ∀ i, ∀ a ∈ b i, h (key a) = i) :
    ∀ i, ∀ a ∈ l.foldl (push key h) b i, h (key a) = i := by
  induction l generalizing b with
  | nil => exact hb
  | cons a l ih =>
      apply ih _
      intro i c hc
      by_cases hi : i = h (key a)
      · subst i
        rcases List.mem_cons.mp (by simpa [push] using hc) with rfl | hc
        · rfl
        · exact hb _ c hc
      · exact hb i c (by simpa [push, hi] using hc)

omit [DecidableEq κ] in
theorem elems_empty : elems (fun _ : Fin n => ([] : List α)) = [] := by
  simp [elems]

omit [DecidableEq κ] in
/-- Moving all elements into an empty array of another size, under the hash
of that size, indexes the same elements. -/
theorem Indexed.rehash {key : α → κ} {h : κ → Fin n} {b : Fin n → List α}
    (hb : Indexed key h b) (h' : κ → Fin m) :
    Indexed key h' ((elems b).foldl (push key h') (fun _ => [])) := by
  refine ⟨placed_foldl_push key h' _ _ (by simp), ?_⟩
  have hp := elems_foldl_push key h' (elems b) (fun _ => [])
  rw [elems_empty, List.append_nil] at hp
  exact (hp.map key).nodup_iff.mpr hb.nodup

theorem find_cons (key : α → κ) (k : κ) (a : α) (l : List α) :
    find key k (a :: l) = if key a = k then some a else find key k l := by
  by_cases hk : key a = k <;> simp [find, hk]

theorem find_insert_ne {key : α → κ} {a : α} {k : κ} (hk : key a ≠ k) (pre post : List α) :
    find key k (pre ++ a :: post) = find key k (pre ++ post) := by
  simp [find, List.find?_append, hk]

/-- An element is found where nothing in front of it has its key. -/
theorem find_inserted {key : α → κ} {pre : List α} {a : α} (ha : find key (key a) pre = none) (post : List α) (k : κ) :
    find key k (pre ++ a :: post) = if key a = k then some a else find key k (pre ++ post) := by
  split_ifs with hk
  · rw [find] at ha
    simp [find, List.find?_append, ← hk, ha]
  · exact find_insert_ne hk pre post

theorem find_perm {key : α → κ} {l l' : List α} (hp : l.Perm l') (hl : (l.map key).Nodup) (k : κ) :
    find key k l = find key k l' := by
  ext a
  rw [find_eq_some hl, find_eq_some ((hp.map key).nodup_iff.mp hl), hp.mem_iff]

theorem find_of_not_mem {key : α → κ} {k : κ} {l : List α} (hk : k ∉ l.map key) :
    find key k l = none := by
  refine List.find?_eq_none.mpr fun a ha => ?_
  simpa using fun he => hk (List.mem_map.mpr ⟨a, ha, he⟩)

section

variable {key : α → κ} {l l' rest : List α} {a a' : α}

/-- What a list with distinct keys finds after it has got one element more. -/
theorem find_added (hl : (l.map key).Nodup) (hp : l'.Perm (a :: l)) (ha : find key (key a) l = none) :
    (l'.map key).Nodup ∧ ∀ k, find key k l' = if key a = k then some a else find key k l := by
  have hn : ((a :: l).map key).Nodup := by
    refine List.nodup_cons.mpr ⟨fun hm => ?_, hl⟩
    obtain ⟨c, hc, he⟩ := List.mem_map.mp hm
    exact absurd he (by simpa using List.find?_eq_none.mp ha c hc)
  have hn' := (hp.map key).nodup_iff.mpr hn
  refine ⟨hn', fun k => ?_⟩
  rw [find_perm hp hn', find_cons]

theorem find_exchanged (hl : (l.map key).Nodup) (hold : l.Perm (a :: rest)) (hnew : l'.Perm (a' :: rest))
    (hk : key a' = key a) :
    (l'.map key).Nodup ∧ ∀ k, find key k l' = if key a = k then some a' else find key k l := by
  have hn : (l'.map key).Nodup := by
    rw [(hnew.map key).nodup_iff]
    simpa [hk] using (hold.map key).nodup_iff.mp hl
  refine ⟨hn, fun k => ?_⟩
  rw [find_perm hnew hn, find_perm hold hl, find_cons, find_cons, hk]
  split <;> rfl

theorem find_removed (hl : (l.map key).Nodup) (hold : l.Perm (a :: rest)) (hnew : l'.Perm rest) :
    (l'.map key).Nodup ∧ ∀ k, find key k l' = if key a = k then none else find key k l := by
  obtain ⟨hfresh, hnd⟩ := List.nodup_cons.mp ((hold.map key).nodup_iff.mp hl : ((a :: rest).map key).Nodup)
  have hn := (hnew.map key).nodup_iff.mpr hnd
  refine ⟨hn, fun k => ?_⟩
  rw [find_perm hnew hn, find_perm hold hl, find_cons]
  split
  · rename_i hk
    exact find_of_not_mem (hk ▸ hfresh)
  · rfl

end

namespace Indexed

variable {key : α → κ} {h : κ → Fin n} {b : Fin n → List α}

theorem find_rehash (hb : Indexed key h b) (h' : κ → Fin m) (k : κ) :
    find key k (elems ((elems b).foldl (push key h') (fun _ => []))) = find key k (elems b) := by
  have hp := elems_foldl_push key h' (elems b) (fun _ => [])
  rw [elems_empty, List.append_nil] at hp
  exact find_perm hp (hb.rehash h').nodup k

/-- A new key goes to the head of its bucket. -/
theorem push (hb : Indexed key h b) {a : α} (ha : find key (key a) (elems b) = none) :
    Indexed key h (push key h b a) ∧
      ∀ k, find key k (elems (Buckets.push key h b a)) = if key a = k then some a else find key k (elems b) := by
  obtain ⟨hn, hfind⟩ := find_added hb.nodup (elems_push key h b a) ha
  exact ⟨⟨placed_foldl_push key h [a] b hb.placed, hn⟩, hfind⟩

theorem replace (hb : Indexed key h b) {i : Fin n} {pre post : List α} {a : α} (a' : α)
    (hi : b i = pre ++ [a] ++ post) (hk : key a' = key a) :
    Indexed key h (Function.update b i (pre ++ [a'] ++ post)) ∧
      ∀ k, find key k (elems (Function.update b i (pre ++ [a'] ++ post))) =
        if key a = k then some a' else find key k (elems b) := by
  obtain ⟨rest, hold, hnew⟩ := elems_exchange hi
  obtain ⟨hn, hfind⟩ := find_exchanged hb.nodup hold (hnew [a']) hk
  have hplaced := hb.placed i
  rw [hi] at hplaced
  refine ⟨hb.update (fun c hc => ?_) hn, hfind⟩
  simp only [List.mem_append, List.mem_singleton] at hc hplaced
  rcases hc with (hc | rfl) | hc
  · exact hplaced c (Or.inl (Or.inl hc))
  · rw [hk]; exact hplaced a (Or.inl (Or.inr rfl))
  · exact hplaced c (Or.inr hc)

theorem remove (hb : Indexed key h b) {i : Fin n} {pre post : List α} {a : α}
    (hi : b i = pre ++ [a] ++ post) :
    Indexed key h (Function.update b i (pre ++ post)) ∧
      ∀ k, find key k (elems (Function.update b i (pre ++ post))) =
        if key a = k then none else find key k (elems b) := by
  obtain ⟨rest, hold, hnew⟩ := elems_exchange hi
  have hrest := hnew []
  rw [List.append_nil, List.nil_append] at hrest
  obtain ⟨hn, hfind⟩ := find_removed hb.nodup hold hrest
  refine ⟨hb.update (fun c hc => hb.placed i c ?_) hn, hfind⟩
  rw [hi]
  simp only [List.mem_append, List.mem_singleton] at hc ⊢
  tauto

end Indexed

section Live

variable {β : Type} {ks : List κ} {bound : κ → Option β} {k : κ}

/-- The keys that a map binds, each once. -/
structure Live (ks : List κ) (bound : κ → Option β) : Prop where
  nodup : ks.Nodup
  bound : ∀ k, k ∈ ks ↔ (bound k).isSome

omit [DecidableEq κ] in
theorem live_nil : Live [] fun _ : κ => (none : Option β) := ⟨List.nodup_nil, by simp⟩

theorem Live.bind (h : Live ks bound) (k : κ) (v : β) :
    Live (ks.insert k) (Function.update bound k (some v)) := by
  refine ⟨h.nodup.insert, fun k' => ?_⟩
  by_cases hk : k' = k
  · subst hk
    simp
  · simp [hk, h.bound]

theorem Live.rebind (h : Live ks bound) (hk : (bound k).isSome) (v : β) :
    Live ks (Function.update bound k (some v)) := by
  have hbind := h.bind k v
  rwa [List.insert_of_mem ((h.bound k).mpr hk)] at hbind

theorem Live.erase (h : Live ks bound) (k : κ) : Live (ks.erase k) (Function.update bound k none) := by
  refine ⟨h.nodup.erase k, fun k' => ?_⟩
  rw [h.nodup.mem_erase_iff, h.bound]
  by_cases hk : k' = k <;> simp [hk]

theorem Live.erase_unbound (h : Live ks bound) (hk : (bound k).isSome ≠ true) : Live (ks.erase k) bound := by
  rw [List.erase_of_not_mem fun hmem => hk ((h.bound k).mp hmem)]
  exact h

end Live

end GameAccelerator.Buckets
