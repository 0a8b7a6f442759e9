import Mathlib.Data.List.Nodup
import Mathlib.Data.List.Perm.Subperm
import Mathlib.Data.Nat.Find

namespace GameAccelerator.Probing

variable {α : Type} {f : Nat → α} {taken : List α}

/-- Among more places than are taken one is free. -/
theorem exists_free (hf : ∀ i ≤ taken.length, ∀ j ≤ taken.length, f i = f j → i = j) :
    ∃ k ≤ taken.length, f k ∉ taken := by
  by_contra hno
  have hall : ∀ k ≤ taken.length, f k ∈ taken := by
    intro k hk
    by_contra hfree
    exact hno ⟨k, hk, hfree⟩
  have hnodup : ((List.range (taken.length + 1)).map f).Nodup := by
    refine List.Nodup.map_on (fun i hi j hj => ?_) List.nodup_range
    exact hf i (Nat.le_of_lt_succ (List.mem_range.mp hi)) j (Nat.le_of_lt_succ (List.mem_range.mp hj))
  have hsub : (List.range (taken.length + 1)).map f ⊆ taken := by
    intro a ha
    obtain ⟨k, hk, rfl⟩ := List.mem_map.mp ha
    exact hall k (Nat.le_of_lt_succ (List.mem_range.mp hk))
  have hle := (hnodup.subperm hsub).length_le
  rw [List.length_map, List.length_range] at hle
  exact Nat.not_succ_le_self _ hle

/-- The places are tried one after the other until one is free. -/
theorem exists_first_free [DecidableEq α] (hf : ∀ i ≤ taken.length, ∀ j ≤ taken.length, f i = f j → i = j) :
    ∃ k ≤ taken.length, f k ∉ taken ∧ ∀ j < k, f j ∈ taken := by
  obtain ⟨n, hn, hfree⟩ := exists_free hf
  have hex : ∃ k, f k ∉ taken := ⟨n, hfree⟩
  refine ⟨Nat.find hex, Nat.le_trans (Nat.find_min' hex hfree) hn, Nat.find_spec hex, fun j hj => ?_⟩
  exact not_not.mp (Nat.find_min hex hj)

end GameAccelerator.Probing
