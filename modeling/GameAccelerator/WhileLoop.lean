import Mathlib.Logic.Basic

namespace GameAccelerator.WhileLoop

variable {σ : Type}

/-- `while (cond) body` cut off after `fuel` rounds. -/
def whileLoop (cond : σ → Bool) (body : σ → σ) : Nat → σ → Option σ
  | fuel, s =>
      if cond s then
        match fuel with
        | 0 => none
        | fuel + 1 => whileLoop cond body fuel (body s)
      else some s

theorem whileLoop_false {cond : σ → Bool} {body : σ → σ} {s : σ} (h : cond s = false) (fuel : Nat) :
    whileLoop cond body fuel s = some s := by
  rw [whileLoop.eq_def]
  simp [h]

theorem whileLoop_zero {cond : σ → Bool} {body : σ → σ} {s : σ} (h : cond s = true) :
    whileLoop cond body 0 s = none := by
  rw [whileLoop.eq_def]
  simp [h]

theorem whileLoop_true {cond : σ → Bool} {body : σ → σ} {s : σ} (h : cond s = true) (fuel : Nat) :
    whileLoop cond body (fuel + 1) s = whileLoop cond body fuel (body s) := by
  rw [whileLoop.eq_def]
  simp [h]

theorem whileLoop_exit {cond : σ → Bool} {body : σ → σ} {fuel : Nat} {s s' : σ}
    (h : whileLoop cond body fuel s = some s') : cond s' = false := by
  induction fuel generalizing s with
  | zero =>
      cases hc : cond s with
      | false =>
          cases (whileLoop_false hc 0).symm.trans h
          exact hc
      | true => cases (whileLoop_zero hc).symm.trans h
  | succ fuel ih =>
      cases hc : cond s with
      | false =>
          cases (whileLoop_false hc _).symm.trans h
          exact hc
      | true => exact ih ((whileLoop_true hc fuel).symm.trans h)

/-- Total correctness. The invariant carries a bound on the rounds to come,
which every round lowers. -/
theorem whileLoop_spec {cond : σ → Bool} {body : σ → σ} (Inv : Nat → σ → Prop)
    (step : ∀ n s, Inv n s → cond s = true → ∃ m, m < n ∧ Inv m (body s))
    {n fuel : Nat} {s : σ} (hs : Inv n s) (hf : n ≤ fuel) :
    ∃ m s', whileLoop cond body fuel s = some s' ∧ Inv m s' ∧ cond s' = false := by
  induction fuel generalizing n s with
  | zero =>
      cases hc : cond s with
      | false => exact ⟨n, s, whileLoop_false hc 0, hs, hc⟩
      | true =>
          obtain ⟨m, hm, _⟩ := step n s hs hc
          omega
  | succ fuel ih =>
      cases hc : cond s with
      | false => exact ⟨n, s, whileLoop_false hc _, hs, hc⟩
      | true =>
          obtain ⟨m, hm, hi⟩ := step n s hs hc
          obtain ⟨m', s', he, hi', hc'⟩ := ih hi (by omega)
          exact ⟨m', s', by rw [whileLoop_true hc, he], hi', hc'⟩

/-- The loop stops in the first round whose test fails. -/
theorem whileLoop_first {cond : σ → Bool} {body : σ → σ} (walk : Nat → σ) {k fuel : Nat}
    (hrun : ∀ j < k, cond (walk j) = true ∧ body (walk j) = walk (j + 1)) (hstop : cond (walk k) = false)
    (hk : k ≤ fuel) : whileLoop cond body fuel (walk 0) = some (walk k) := by
  induction k generalizing walk fuel with
  | zero => exact whileLoop_false hstop fuel
  | succ k ih =>
      obtain ⟨fuel, rfl⟩ := Nat.exists_eq_succ_of_ne_zero (Nat.ne_zero_of_lt hk)
      obtain ⟨htrue, hbody⟩ := hrun 0 k.succ_pos
      rw [whileLoop_true htrue, hbody]
      exact ih (fun j => walk (j + 1)) (fun j hj => hrun (j + 1) (Nat.succ_lt_succ hj)) hstop
        (Nat.le_of_succ_le_succ hk)

/-- Two loops in step, where the second sees only `f` of the state. -/
theorem whileLoop_map {τ : Type} {cond : σ → Bool} {body : σ → σ} {cond' : τ → Bool} {body' : τ → τ} (f : σ → τ)
    (hcond : ∀ s, cond' (f s) = cond s) (hbody : ∀ s, body' (f s) = f (body s)) (fuel : Nat) (s : σ) :
    whileLoop cond' body' fuel (f s) = (whileLoop cond body fuel s).map f := by
  induction fuel generalizing s with
  | zero =>
      cases hc : cond s with
      | false => rw [whileLoop_false hc, whileLoop_false ((hcond s).trans hc), Option.map_some]
      | true => rw [whileLoop_zero hc, whileLoop_zero ((hcond s).trans hc), Option.map_none]
  | succ fuel ih =>
      cases hc : cond s with
      | false => rw [whileLoop_false hc, whileLoop_false ((hcond s).trans hc), Option.map_some]
      | true => rw [whileLoop_true hc, whileLoop_true ((hcond s).trans hc), hbody, ih]

end GameAccelerator.WhileLoop
