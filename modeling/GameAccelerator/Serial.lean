import Mathlib.Data.Int.Init
import Mathlib.Tactic.Common

namespace GameAccelerator.Serial

/-- How far a number is ahead of another one on the circle of 32 bits; half of
the circle counts as ahead and half of it as behind. -/
def diff (later earlier : UInt32) : Int := (later - earlier).toInt32.toInt

theorem diff_eq (later earlier : UInt32) :
    diff later earlier = ((later.toNat : Int) - earlier.toNat).bmod 4294967296 := by
  have hlt := earlier.toNat_lt
  rw [diff, Int32.toInt, UInt32.toBitVec_toInt32]
  simp only [BitVec.toInt_eq_toNat_bmod, UInt32.toNat_toBitVec, UInt32.toNat_sub]
  simp only [Int.bmod]
  omega

/-- Numbers that are close are compared as if there were no circle. -/
theorem diff_ofNat {a b : Nat} (ha : a < b + 2147483648) (hb : b ≤ a + 2147483648) :
    diff (.ofNat a) (.ofNat b) = (a : Int) - b := by
  rw [diff_eq, UInt32.toNat_ofNat', UInt32.toNat_ofNat', Int.bmod]
  omega

theorem ofNat_succ (a : Nat) : UInt32.ofNat (a + 1) = .ofNat a + 1 := by
  apply UInt32.toNat_inj.mp
  simp [UInt32.toNat_add]

theorem sub_sub (a b c : UInt32) : a - b - c = a - (b + c) := by grind

/-- The first number from `base` on that has its place on the circle at `n`. -/
def index (base : Nat) (n : UInt32) : Nat := base + (n - .ofNat base).toNat

theorem le_index (base : Nat) (n : UInt32) : base ≤ index base n := Nat.le_add_right _ _

@[simp]
theorem ofNat_index (base : Nat) (n : UInt32) : UInt32.ofNat (index base n) = n := by
  have hn := n.toNat_lt
  apply UInt32.toNat_inj.mp
  rw [index, UInt32.toNat_ofNat', UInt32.toNat_sub, UInt32.toNat_ofNat']
  omega

theorem index_ofNat {base a : Nat} (hle : base ≤ a) (hlt : a < base + 4294967296) : index base (.ofNat a) = a := by
  rw [index, UInt32.toNat_sub, UInt32.toNat_ofNat', UInt32.toNat_ofNat']
  omega

theorem index_inj {base : Nat} {m n : UInt32} : index base m = index base n ↔ m = n := by
  constructor
  · intro h
    rw [← ofNat_index base m, h, ofNat_index]
  · intro h
    rw [h]

theorem index_self (base : Nat) : index base (.ofNat base) = base := index_ofNat (Nat.le_refl _) (by omega)

/-- The base may move on over numbers that are before the place. -/
theorem index_of_le {base base' : Nat} {n : UInt32} (hle : base ≤ base') (hn : base' ≤ index base n) :
    index base' n = index base n := by
  have hlt : index base n < base' + 4294967296 := by
    have := (n - .ofNat base).toNat_lt
    rw [index]
    omega
  have h := index_ofNat hn hlt
  rwa [ofNat_index] at h

theorem diff_index {base : Nat} {m n : UInt32} (hm : index base m < base + 2147483648)
    (hn : index base n < base + 2147483648) : diff m n = (index base m : Int) - index base n := by
  have hm' := le_index base m
  have hn' := le_index base n
  conv_lhs => rw [← ofNat_index base m, ← ofNat_index base n]
  apply diff_ofNat <;> omega

/-- The half of the circle that is ahead. -/
theorem diff_base_nonneg_iff (base : Nat) (n : UInt32) :
    0 ≤ diff n (.ofNat base) ↔ index base n < base + 2147483648 := by
  have hn := n.toNat_lt
  rw [diff_eq, index, UInt32.toNat_sub, UInt32.toNat_ofNat', Int.bmod]
  omega

end GameAccelerator.Serial
