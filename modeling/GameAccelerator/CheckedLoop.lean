import GameAccelerator.WhileLoop

namespace GameAccelerator.CheckedLoop

open WhileLoop

variable {σ ε α β : Type}

/-- The result of a loop, or the error `out` where the fuel has not lasted. -/
def finish (out : ε) : Option α → Except ε α
  | none => .error out
  | some a => .ok a

/-- `while (cond) body` where the test and the body may fail. -/
def checkedLoop (out : ε) (cond : σ → Except ε Bool) (body : σ → Except ε σ) : Nat → σ → Except ε σ
  | 0, s => do
      if ← cond s then .error out else .ok s
  | fuel + 1, s => do
      if ← cond s then checkedLoop out cond body fuel (← body s) else .ok s

@[simp] theorem ok_bind (a : α) (f : α → Except ε β) : (Except.ok a >>= f) = f a := rfl

theorem finish_bind {out : ε} {f : α → β} {g : α → Except ε β} (h : ∀ a, g a = .ok (f a)) (o : Option α) :
    (finish out o >>= g) = finish out (o.map f) := by
  cases o with
  | none => rfl
  | some a => exact h a

theorem checkedLoop_test {out e : ε} {cond : σ → Except ε Bool} {body : σ → Except ε σ} {s : σ}
    (h : cond s = .error e) (fuel : Nat) : checkedLoop out cond body fuel s = .error e := by
  cases fuel <;> rw [checkedLoop, h] <;> rfl

theorem checkedLoop_done {out : ε} {cond : σ → Except ε Bool} {body : σ → Except ε σ} {s : σ}
    (h : cond s = .ok false) (fuel : Nat) : checkedLoop out cond body fuel s = .ok s := by
  cases fuel <;> rw [checkedLoop, h] <;> rfl

/-- The loop stops in the first round whose test fails to hold. -/
theorem checkedLoop_first {out : ε} {cond : σ → Except ε Bool} {body : σ → Except ε σ} (walk : Nat → σ) {k fuel : Nat}
    (hrun : ∀ j < k, cond (walk j) = .ok true ∧ body (walk j) = .ok (walk (j + 1)))
    (hstop : cond (walk k) = .ok false) (hk : k ≤ fuel) :
    checkedLoop out cond body fuel (walk 0) = .ok (walk k) := by
  induction k generalizing walk fuel with
  | zero => exact checkedLoop_done hstop fuel
  | succ k ih =>
      obtain ⟨fuel, rfl⟩ := Nat.exists_eq_succ_of_ne_zero (Nat.ne_zero_of_lt hk)
      obtain ⟨htrue, hbody⟩ := hrun 0 k.succ_pos
      rw [checkedLoop, htrue, ok_bind, if_pos rfl, hbody, ok_bind]
      exact ih (fun j => walk (j + 1)) (fun j hj => hrun (j + 1) (Nat.succ_lt_succ hj)) hstop
        (Nat.le_of_succ_le_succ hk)

/-- Where neither the test nor the body fails, the loop is the plain one. -/
theorem checkedLoop_eq {out : ε} {cond : σ → Bool} {body : σ → σ} {cond' : σ → Except ε Bool} {body' : σ → Except ε σ}
    (Inv : σ → Prop) (hcond : ∀ s, Inv s → cond' s = .ok (cond s))
    (hbody : ∀ s, Inv s → cond s = true → body' s = .ok (body s) ∧ Inv (body s)) (fuel : Nat) {s : σ} (hs : Inv s) :
    checkedLoop out cond' body' fuel s = finish out (whileLoop cond body fuel s) := by
  induction fuel generalizing s with
  | zero =>
      rw [checkedLoop, hcond s hs, ok_bind]
      cases hc : cond s with
      | false => rw [whileLoop_false hc]; rfl
      | true => rw [whileLoop_zero hc]; rfl
  | succ fuel ih =>
      rw [checkedLoop, hcond s hs, ok_bind]
      cases hc : cond s with
      | false => rw [whileLoop_false hc]; rfl
      | true =>
          obtain ⟨hb, hi⟩ := hbody s hs hc
          rw [whileLoop_true hc, if_pos rfl, hb, ok_bind]
          exact ih hi

end GameAccelerator.CheckedLoop
