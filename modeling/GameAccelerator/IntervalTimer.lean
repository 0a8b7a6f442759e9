import Mathlib.Order.Bounds.Defs

namespace GameAccelerator.IntervalTimer

/-- A timer that was started at the instant `since` and expires once in every
period. -/
@[ext]
structure Running where
  since : Nat
  period : Nat
  pos : 0 < period

def Running.Expires (t : Running) (instant : Nat) : Prop := ∃ k, instant = t.since + t.period * (k + 1)

/-- The next time that it expires after `now`. -/
def Running.next (t : Running) (now : Nat) : Nat := t.since + t.period * ((now - t.since) / t.period + 1)

def Running.restart (t : Running) (now : Nat) : Running := { t with since := now }

variable {t : Running} {now : Nat}

theorem lt_next : now < t.next now := by
  have h := Nat.lt_mul_div_succ (now - t.since) t.pos
  rw [Running.next]
  omega

theorem next_least : IsLeast { instant | t.Expires instant ∧ now < instant } (t.next now) := by
  refine ⟨⟨⟨_, rfl⟩, lt_next⟩, ?_⟩
  rintro instant ⟨⟨k, rfl⟩, hlt⟩
  apply Nat.add_le_add_left
  apply Nat.mul_le_mul_left
  have hpos : 0 < t.period * (k + 1) := Nat.mul_pos t.pos k.succ_pos
  have hk : (now - t.since) / t.period < k + 1 := Nat.div_lt_of_lt_mul (by omega)
  exact hk

theorem le_of_expires {instant : Nat} (h : t.Expires instant) : t.since + t.period ≤ instant := by
  obtain ⟨k, rfl⟩ := h
  exact Nat.add_le_add_left (Nat.le_mul_of_pos_right _ k.succ_pos) _

theorem next_restart : (t.restart now).next now = now + t.period := by
  simp [Running.next, Running.restart]

/-- A restart puts the next expiry off, but for the instants at which the timer
expires anyway. -/
theorem next_restart_le_iff (h : t.since ≤ now) : (t.restart now).next now ≤ t.next now ↔ t.period ∣ now - t.since := by
  have hmod := Nat.div_add_mod (now - t.since) t.period
  have hnext : t.next now + (now - t.since) % t.period = now + t.period := by
    rw [Running.next, Nat.mul_add, Nat.mul_one]
    omega
  rw [next_restart, Nat.dvd_iff_mod_eq_zero]
  omega

end GameAccelerator.IntervalTimer
