import Mathlib.Data.List.Basic

namespace GameAccelerator.Buffer

variable {α : Type}

/-- `n` elements from `off` on, if all of them are there. -/
def load (buf : List α) (off n : Nat) : Option (List α) :=
  if off + n ≤ buf.length then some ((buf.drop off).take n) else none

/-- The elements are written from `off` on, if there is room for all of them. -/
def store (buf : List α) (off : Nat) (data : List α) : Option (List α) :=
  if off + data.length ≤ buf.length then some (buf.take off ++ data ++ buf.drop (off + data.length)) else none

theorem store_append (front : List α) {rest data : List α} (h : data.length ≤ rest.length) :
    store (front ++ rest) front.length data = some (front ++ data ++ rest.drop data.length) := by
  have hroom : front.length + data.length ≤ (front ++ rest).length := by
    rw [List.length_append]
    omega
  rw [store, if_pos hroom, List.take_left, List.drop_append]
  simp

end GameAccelerator.Buffer
