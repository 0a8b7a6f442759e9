import GameAccelerator.CString

namespace GameAccelerator.Platform

/-- The ways in which a call does not come back to its caller. -/
inductive Fault
  | blocked
  | nullDeref
  | assertFailed
  | uninitToken (i : Nat)
  | tokenOverflow (i : Nat)
  | diverges
  | useAfterFree
  deriving DecidableEq

/-- Which of the `kvstore_malloc` calls that one operation can make succeed.
Every site below is reached at most once in a call. -/
structure Alloc where
  slots : Bool
  node : Bool
  key : Bool
  value : Bool

def Alloc.succeeds : Alloc := ⟨true, true, true, true⟩

/-- What a call of an engine returns: a status code, or a string or NULL. -/
inductive Ret
  | code (c : Int)
  | string (s : Option CString.CStr)

/-- Two calls that come out the same. -/
theorem map_eq_map {α β γ : Type} {x : Except Fault α} {y : Except Fault β} {f : α → γ} {g : β → γ}
    (h : x.map f = y.map g) :
    (∃ e, x = .error e ∧ y = .error e) ∨ ∃ a b, x = .ok a ∧ y = .ok b ∧ f a = g b := by
  cases x with
  | error e =>
      cases y with
      | error e' =>
          cases h
          exact .inl ⟨e, rfl, rfl⟩
      | ok b => cases h
  | ok a =>
      cases y with
      | error e' => cases h
      | ok b => exact .inr ⟨a, b, rfl, rfl, Except.ok.inj h⟩

end GameAccelerator.Platform
