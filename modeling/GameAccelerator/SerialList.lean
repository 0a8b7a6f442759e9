import Mathlib.Data.List.Perm.Subperm
import GameAccelerator.Serial

namespace GameAccelerator.SerialList

open Serial

variable {β : Type} (sn : β → UInt32)

/-- The items are numbered in ascending order, from `base` on and below `limit`. -/
structure Ascending (base limit : Nat) (l : List β) : Prop where
  within : ∀ x ∈ l, index base (sn x) < limit
  ordered : l.Pairwise fun x y => index base (sn x) < index base (sn y)

section Ascending

variable {sn} {base limit : Nat} {l l' : List β} {x y : β}

theorem Ascending.nil : Ascending sn base limit [] := by constructor <;> simp

theorem Ascending.sublist (h : Ascending sn base limit l) (hl : l'.Sublist l) : Ascending sn base limit l' :=
  ⟨fun x hx => h.within x (hl.subset hx), h.ordered.sublist hl⟩

theorem Ascending.mono {limit' : Nat} (h : Ascending sn base limit l) (hle : limit ≤ limit') :
    Ascending sn base limit' l :=
  ⟨fun x hx => Nat.lt_of_lt_of_le (h.within x hx) hle, h.ordered⟩

theorem Ascending.cons_iff : Ascending sn base limit (x :: l) ↔
    index base (sn x) < limit ∧ (∀ y ∈ l, index base (sn x) < index base (sn y)) ∧ Ascending sn base limit l := by
  constructor
  · rintro ⟨hw, ho⟩
    rw [List.pairwise_cons] at ho
    exact ⟨hw x List.mem_cons_self, ho.1, fun y hy => hw y (List.mem_cons_of_mem x hy), ho.2⟩
  · rintro ⟨hx, hlt, hw, ho⟩
    refine ⟨?_, List.pairwise_cons.mpr ⟨hlt, ho⟩⟩
    rintro y (_ | ⟨_, hy⟩)
    · exact hx
    · exact hw y hy

/-- Nothing is numbered before the items that have gone, so the base may move on. -/
theorem Ascending.rebase {base' : Nat} (h : Ascending sn base limit l) (hle : base ≤ base')
    (hge : ∀ x ∈ l, base' ≤ index base (sn x)) : Ascending sn base' limit l := by
  have heq : ∀ x ∈ l, index base' (sn x) = index base (sn x) := fun x hx => index_of_le hle (hge x hx)
  constructor
  · intro x hx
    rw [heq x hx]
    exact h.within x hx
  · apply h.ordered.imp_of_mem
    intro x y hx hy hlt
    rwa [heq x hx, heq y hy]

theorem Ascending.concat (h : Ascending sn base (index base (sn x)) l) :
    Ascending sn base (index base (sn x) + 1) (l ++ [x]) := by
  constructor
  · intro y hy
    rcases List.mem_append.mp hy with hy | hy
    · exact Nat.lt_succ_of_lt (h.within y hy)
    · rw [List.mem_singleton.mp hy]
      exact Nat.lt_succ_self _
  · refine List.pairwise_append.mpr ⟨h.ordered, List.pairwise_singleton _ _, ?_⟩
    intro y hy z hz
    rw [List.mem_singleton.mp hz]
    exact h.within y hy

/-- There are no more items than numbers. -/
theorem Ascending.length_le (h : Ascending sn base limit l) : l.length ≤ limit - base := by
  have hsub : l.map (fun x => index base (sn x)) ⊆ List.range' base (limit - base) := by
    intro n hn
    obtain ⟨x, hx, rfl⟩ := List.mem_map.mp hn
    have hlt := h.within x hx
    have hle := le_index base (sn x)
    exact List.mem_range'_1.mpr ⟨hle, by omega⟩
  have hnodup : (l.map fun x => index base (sn x)).Nodup := by
    apply List.pairwise_map.mpr
    exact h.ordered.imp Nat.ne_of_lt
  have hle := (List.subperm_of_subset hnodup hsub).length_le
  rwa [List.length_map, List.length_range'] at hle

end Ascending

section Insert

/-- Looks from the end of a list for the place of an item; `none` if one with
its number is there. The list is given with its end first. -/
def place (x : β) : List β → Option (List β)
  | [] => some [x]
  | y :: before =>
      if sn y = sn x then none
      else if 0 < diff (sn x) (sn y) then some (x :: y :: before)
      else (place x before).map (y :: ·)

def insert (x : β) (l : List β) : Option (List β) := (place sn x l.reverse).map List.reverse

variable {sn} {base limit : Nat} {l l' : List β} {x y : β}

theorem place_perm (h : place sn x l = some l') : l'.Perm (x :: l) := by
  induction l generalizing l' with
  | nil =>
      cases h
      exact .refl _
  | cons y l ih =>
      rw [place] at h
      split at h
      · cases h
      · split at h
        · cases h
          exact .refl _
        · obtain ⟨m, hm, rfl⟩ := Option.map_eq_some_iff.mp h
          exact ((ih hm).cons y).trans (.swap x y l)

theorem exists_of_place_eq_none (h : place sn x l = none) : ∃ y ∈ l, sn y = sn x := by
  induction l with
  | nil => cases h
  | cons y l ih =>
      rw [place] at h
      split at h
      · next he => exact ⟨y, List.mem_cons_self, he⟩
      · split at h
        · cases h
        · obtain ⟨z, hz, he⟩ := ih (Option.map_eq_none_iff.mp h)
          exact ⟨z, List.mem_cons_of_mem y hz, he⟩

/-- The scan stops at the first smaller number. -/
theorem place_pairwise (hb : limit ≤ base + 2147483648) (hw : ∀ y ∈ l, index base (sn y) < limit)
    (hx : index base (sn x) < limit) (ho : l.Pairwise fun y z => index base (sn z) < index base (sn y))
    (h : place sn x l = some l') : l'.Pairwise fun y z => index base (sn z) < index base (sn y) := by
  induction l generalizing l' with
  | nil =>
      cases h
      exact List.pairwise_singleton _ _
  | cons y l ih =>
      have hy := hw y List.mem_cons_self
      have hdiff : diff (sn x) (sn y) = (index base (sn x) : Int) - index base (sn y) :=
        diff_index (by omega) (by omega)
      rw [List.pairwise_cons] at ho
      rw [place] at h
      split at h
      · cases h
      · next hne =>
        have hne : index base (sn y) ≠ index base (sn x) := fun h => hne (index_inj.mp h)
        split at h
        · cases h
          refine List.pairwise_cons.mpr ⟨?_, List.pairwise_cons.mpr ho⟩
          rintro z (_ | ⟨_, hz⟩)
          · omega
          · have := ho.1 z hz
            omega
        · obtain ⟨m, hm, rfl⟩ := Option.map_eq_some_iff.mp h
          refine List.pairwise_cons.mpr ⟨?_, ih (fun z hz => hw z (List.mem_cons_of_mem y hz)) ho.2 hm⟩
          intro z hz
          rcases List.mem_cons.mp ((place_perm hm).mem_iff.mp hz) with rfl | hz
          · omega
          · exact ho.1 z hz

theorem insert_perm (h : insert sn x l = some l') : l'.Perm (x :: l) := by
  obtain ⟨m, hm, rfl⟩ := Option.map_eq_some_iff.mp h
  exact (List.reverse_perm m).trans ((place_perm hm).trans ((List.reverse_perm l).cons x))

theorem exists_of_insert_eq_none (h : insert sn x l = none) : ∃ y ∈ l, sn y = sn x := by
  obtain ⟨y, hy, he⟩ := exists_of_place_eq_none (Option.map_eq_none_iff.mp h)
  exact ⟨y, List.mem_reverse.mp hy, he⟩

theorem Ascending.insert (hl : Ascending sn base limit l) (hb : limit ≤ base + 2147483648)
    (hx : index base (sn x) < limit) (h : insert sn x l = some l') : Ascending sn base limit l' := by
  have hperm := insert_perm h
  obtain ⟨m, hm, rfl⟩ := Option.map_eq_some_iff.mp h
  constructor
  · intro y hy
    rcases List.mem_cons.mp (hperm.mem_iff.mp hy) with rfl | hy
    · exact hx
    · exact hl.within y hy
  · rw [List.pairwise_reverse]
    apply place_pairwise hb _ hx _ hm
    · exact fun y hy => hl.within y (List.mem_reverse.mp hy)
    · rw [List.pairwise_reverse]
      exact hl.ordered

end Insert

section Erase

/-- Looks from the start of a list for the item with a number; the search ends
at a later one. -/
def erase (n : UInt32) : List β → List β
  | [] => []
  | y :: l =>
      if n = sn y then l
      else if diff n (sn y) < 0 then y :: l
      else y :: erase n l

variable {sn} {n : UInt32} {l : List β}

theorem erase_sublist : (erase sn n l).Sublist l := by
  induction l with
  | nil => exact .slnil
  | cons y l ih =>
      rw [erase]
      split
      · exact List.sublist_cons_self y l
      · split
        · exact .refl _
        · exact ih.cons_cons y

theorem mem_erase_or {y : β} (hy : y ∈ l) : y ∈ erase sn n l ∨ sn y = n := by
  induction l with
  | nil => cases hy
  | cons z l ih =>
      rw [erase]
      split
      · next he =>
        rcases List.mem_cons.mp hy with rfl | hy
        · exact .inr he.symm
        · exact .inl hy
      · split
        · exact .inl hy
        · rcases List.mem_cons.mp hy with rfl | hy
          · exact .inl List.mem_cons_self
          · exact (ih hy).imp_left (List.mem_cons_of_mem z)

end Erase

section Run

/-- The items at the start of a list that have consecutive numbers from `next`
on, at most `room` of them, and the items behind them. -/
def splitRun : Nat → UInt32 → List β → List β × List β
  | _, _, [] => ([], [])
  | room, next, x :: l =>
      if sn x = next ∧ 0 < room then
        (x :: (splitRun (room - 1) (next + 1) l).1, (splitRun (room - 1) (next + 1) l).2)
      else ([], x :: l)

theorem splitRun_append (room : Nat) (next : UInt32) (l : List β) :
    (splitRun sn room next l).1 ++ (splitRun sn room next l).2 = l := by
  induction l generalizing room next with
  | nil => rfl
  | cons x l ih =>
      rw [splitRun]
      split
      · exact congrArg (x :: ·) (ih _ _)
      · rfl

theorem splitRun_length_le (room : Nat) (next : UInt32) (l : List β) : (splitRun sn room next l).1.length ≤ room := by
  induction l generalizing room next with
  | nil => exact Nat.zero_le room
  | cons x l ih =>
      rw [splitRun]
      split
      · next h =>
        have := ih (room - 1) (next + 1)
        rw [List.length_cons]
        omega
      · exact Nat.zero_le room

theorem splitRun_numbers (room base : Nat) (l : List β) {i : Nat} {x : β}
    (h : (splitRun sn room (.ofNat base) l).1[i]? = some x) : sn x = .ofNat (base + i) := by
  induction l generalizing room base i with
  | nil => cases h
  | cons y l ih =>
      rw [splitRun] at h
      split at h
      · next he =>
        cases i with
        | zero =>
            cases h
            exact he.1
        | succ i =>
            rw [← ofNat_succ] at h
            rw [ih (room - 1) (base + 1) h, Nat.add_right_comm, Nat.add_assoc]
      · cases h

variable {sn} {base limit : Nat} {l : List β}

theorem splitRun_index {room i : Nat} {x : β} (hroom : room ≤ 4294967296)
    (h : (splitRun sn room (.ofNat base) l).1[i]? = some x) : index base (sn x) = base + i := by
  have hi : i < (splitRun sn room (.ofNat base) l).1.length := (List.getElem?_eq_some_iff.mp h).1
  have hle := splitRun_length_le sn room (.ofNat base) l
  rw [splitRun_numbers sn room base l h]
  exact index_ofNat (Nat.le_add_right _ _) (by omega)

/-- What is left is numbered behind the run. -/
theorem Ascending.le_of_mem_splitRun (h : Ascending sn base limit l) (room : Nat) :
    ∀ x ∈ (splitRun sn room (.ofNat base) l).2, base + (splitRun sn room (.ofNat base) l).1.length ≤ index base (sn x) := by
  induction l generalizing room base with
  | nil => simp [splitRun]
  | cons y l ih =>
      obtain ⟨-, hlt, hl⟩ := Ascending.cons_iff.mp h
      rw [splitRun]
      split
      · next he =>
        rw [he.1, index_self] at hlt
        intro x hx
        have hmem : x ∈ l := by
          rw [← splitRun_append sn (room - 1) (.ofNat base + 1) l]
          exact List.mem_append_right _ hx
        rw [← ofNat_succ] at hx ⊢
        have hle := ih (hl.rebase (Nat.le_succ base) hlt) (room - 1) x hx
        rw [index_of_le (Nat.le_succ base) (hlt x hmem)] at hle
        rwa [List.length_cons, ← Nat.succ_add_eq_add_succ]
      · intro x hx
        exact le_index _ _

theorem Ascending.splitRun (h : Ascending sn base limit l) (room : Nat) :
    Ascending sn (base + (splitRun sn room (.ofNat base) l).1.length) limit (splitRun sn room (.ofNat base) l).2 := by
  have hsuf : (SerialList.splitRun sn room (.ofNat base) l).2 <:+ l := ⟨_, splitRun_append sn room (.ofNat base) l⟩
  exact (h.sublist hsuf.sublist).rebase (Nat.le_add_right _ _) (h.le_of_mem_splitRun room)

/-- The run is as long as the numbers and the room allow. -/
theorem splitRun_maximal (h : Ascending sn base limit l) (room : Nat)
    (hroom : (splitRun sn room (.ofNat base) l).1.length < room) :
    ∀ x ∈ (splitRun sn room (.ofNat base) l).2, sn x ≠ .ofNat (base + (splitRun sn room (.ofNat base) l).1.length) := by
  induction l generalizing room base with
  | nil => simp [splitRun]
  | cons y l ih =>
      obtain ⟨-, hlt, hl⟩ := Ascending.cons_iff.mp h
      rw [splitRun] at hroom ⊢
      split at hroom
      · next he =>
        rw [he.1, index_self] at hlt
        rw [if_pos he]
        rw [List.length_cons] at hroom ⊢
        have hl' := ih (hl.rebase (Nat.le_succ base) hlt) (room - 1)
        rw [ofNat_succ, Nat.succ_add_eq_add_succ] at hl'
        exact hl' (by omega)
      · next he =>
        rw [if_neg he]
        have hy : sn y ≠ .ofNat base := fun hy => he ⟨hy, hroom⟩
        rintro x (_ | ⟨_, hx⟩) hsn
        · exact hy hsn
        · have hxy := hlt x hx
          rw [hsn, List.length_nil, Nat.add_zero, index_self] at hxy
          exact absurd (le_index base (sn y)) (Nat.not_le.mpr hxy)

end Run

end GameAccelerator.SerialList
