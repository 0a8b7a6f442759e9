import Mathlib.Data.List.Nodup
import Mathlib.Data.List.Perm.Basic

namespace GameAccelerator.Tables

variable {κ ν : Type}

/-- A map with one entry for a key, in the order in which it is walked. -/
structure Table (κ ν : Type) where
  entries : List (κ × ν)
  nodup : (entries.map Prod.fst).Nodup

/-- Any order of the entries; a container that rehashes is free to choose it. -/
abbrev Arrangement (κ ν : Type) := (l : List (κ × ν)) → { l' : List (κ × ν) // l'.Perm l }

def Table.empty : Table κ ν := ⟨[], List.nodup_nil⟩

def Table.mapVals (t : Table κ ν) (f : ν → ν) : Table κ ν where
  entries := t.entries.map fun e => (e.1, f e.2)
  nodup := by simpa [List.map_map, Function.comp_def] using t.nodup

variable [DecidableEq κ]

def Table.find (t : Table κ ν) (k : κ) : Option ν := (t.entries.find? fun e => e.1 = k).map Prod.snd

def Table.modify (t : Table κ ν) (k : κ) (f : ν → ν) : Table κ ν where
  entries := t.entries.map fun e => if e.1 = k then (e.1, f e.2) else e
  nodup := by
    have h : (t.entries.map fun e => if e.1 = k then (e.1, f e.2) else e).map Prod.fst = t.entries.map Prod.fst := by
      rw [List.map_map]
      apply List.map_congr_left
      intro e _
      simp only [Function.comp_apply]
      split <;> rfl
    rw [h]
    exact t.nodup

def Table.erase (t : Table κ ν) (k : κ) : Table κ ν where
  entries := t.entries.filter fun e => e.1 ≠ k
  nodup := t.nodup.sublist (List.filter_sublist.map _)

theorem find_eq_some {t : Table κ ν} {k : κ} {v : ν} : t.find k = some v ↔ (k, v) ∈ t.entries := by
  obtain ⟨l, hl⟩ := t
  simp only [Table.find]
  induction l with
  | nil => simp
  | cons e l ih =>
      simp only [List.map_cons, List.nodup_cons] at hl
      by_cases he : e.1 = k
      · subst he
        have hno : (e.1, v) ∉ l := fun h => hl.1 (List.mem_map.mpr ⟨_, h, rfl⟩)
        simp [hno, Prod.ext_iff, eq_comm]
      · have hne : (k, v) ≠ e := fun h => he (h ▸ rfl)
        simp [he, hne, ih hl.2]

theorem find_eq_none {t : Table κ ν} {k : κ} : t.find k = none ↔ k ∉ t.entries.map Prod.fst := by
  rw [Option.eq_none_iff_forall_ne_some, List.mem_map]
  refine ⟨fun h ⟨e, he, hk⟩ => ?_, fun h v hv => h ⟨(k, v), find_eq_some.mp hv, rfl⟩⟩
  exact h e.2 (find_eq_some.mpr (hk ▸ he))

/-- Adds an entry unless the key has one. -/
def Table.emplace (t : Table κ ν) (arrange : Arrangement κ ν) (k : κ) (v : ν) : Table κ ν :=
  if h : t.find k = none then
    { entries := (arrange ((k, v) :: t.entries)).1
      nodup := (((arrange ((k, v) :: t.entries)).2.map Prod.fst).nodup_iff).mpr
        (List.nodup_cons.mpr ⟨find_eq_none.mp h, t.nodup⟩) }
  else t

theorem find_ext {t : Table κ ν} {k : κ} {o : Option ν} (h : ∀ v, (k, v) ∈ t.entries ↔ o = some v) :
    t.find k = o :=
  Option.ext fun v => find_eq_some.trans (h v)

@[simp] theorem find_mapVals (t : Table κ ν) (f : ν → ν) (k : κ) : (t.mapVals f).find k = (t.find k).map f := by
  apply find_ext
  intro v
  simp only [Table.mapVals, List.mem_map, Option.map_eq_some_iff, find_eq_some, Prod.mk.injEq]
  constructor
  · rintro ⟨⟨k', w⟩, he, rfl, rfl⟩
    exact ⟨w, he, rfl⟩
  · rintro ⟨w, he, rfl⟩
    exact ⟨(k, w), he, rfl, rfl⟩

theorem find_modify (t : Table κ ν) (k : κ) (f : ν → ν) (k' : κ) :
    (t.modify k f).find k' = if k' = k then (t.find k').map f else t.find k' := by
  apply find_ext
  intro v
  simp only [Table.modify, List.mem_map]
  split
  next h =>
    subst h
    rw [Option.map_eq_some_iff]
    constructor
    · rintro ⟨⟨k'', w⟩, he, h⟩
      split at h
      next hk =>
        cases h
        exact ⟨w, find_eq_some.mpr he, rfl⟩
      next hk =>
        cases h
        exact absurd rfl hk
    · rintro ⟨w, he, rfl⟩
      exact ⟨(k', w), find_eq_some.mp he, if_pos rfl⟩
  next h =>
    rw [find_eq_some]
    constructor
    · rintro ⟨⟨k'', w⟩, he, h'⟩
      split at h'
      next hk =>
        cases h'
        exact absurd hk h
      next hk =>
        cases h'
        exact he
    · exact fun he => ⟨(k', v), he, if_neg h⟩

@[simp] theorem find_modify_self (t : Table κ ν) (k : κ) (f : ν → ν) : (t.modify k f).find k = (t.find k).map f := by
  rw [find_modify, if_pos rfl]

theorem find_modify_of_ne {k k' : κ} (h : k' ≠ k) (t : Table κ ν) (f : ν → ν) :
    (t.modify k f).find k' = t.find k' := by
  rw [find_modify, if_neg h]

theorem modify_modify_const (t : Table κ ν) (k : κ) (v w : ν) :
    (t.modify k fun _ => v).modify k (fun _ => w) = t.modify k fun _ => w := by
  simp only [Table.modify, List.map_map, Table.mk.injEq]
  apply List.map_congr_left
  intro e _
  by_cases h : e.1 = k <;> simp [h]

theorem modify_const_self {t : Table κ ν} {k : κ} {v : ν} (h : t.find k = some v) : (t.modify k fun _ => v) = t := by
  obtain ⟨l, hl⟩ := t
  simp only [Table.modify, Table.mk.injEq]
  conv_rhs => rw [← List.map_id l]
  apply List.map_congr_left
  intro e he
  split
  next hk =>
    have hv : Table.find ⟨l, hl⟩ k = some e.2 := find_eq_some.mpr (hk ▸ he)
    rw [h] at hv
    cases hv
    rfl
  next => rfl

theorem find_erase (t : Table κ ν) (k k' : κ) : (t.erase k).find k' = if k' = k then none else t.find k' := by
  apply find_ext
  intro v
  simp only [Table.erase, List.mem_filter]
  split
  next h => simp [h]
  next h => simp [h, find_eq_some]

theorem find_emplace {t : Table κ ν} {k : κ} (h : t.find k = none) (arrange : Arrangement κ ν) (v : ν) (k' : κ) :
    (t.emplace arrange k v).find k' = if k' = k then some v else t.find k' := by
  apply find_ext
  intro w
  rw [Table.emplace, dif_pos h]
  simp only [(arrange _).2.mem_iff, List.mem_cons, ← find_eq_some (t := t)]
  split
  next hk =>
    subst hk
    simp [h, eq_comm]
  next hk => simp [hk]

end GameAccelerator.Tables
