import Mathlib.Logic.Function.Basic

namespace GameAccelerator.Writes

variable {σ κ β : Type}

/-- A write of `new` to `k` that comes back with a code and a state: with the
code zero, where `p` asks for it, the write has taken place and nothing else
has, and with any other code nothing has. What a state holds is seen through
`get`. -/
structure AllOrNothing (get : σ → κ → β) (p : Prop) (k : κ) (new : β) (st : σ) (r : Int × σ) : Prop where
  done : r.1 = 0 → p → get r.2 k = new ∧ ∀ k', k' ≠ k → get r.2 k' = get st k'
  kept : r.1 ≠ 0 → ∀ k', get r.2 k' = get st k'

variable {get : σ → κ → β} {p : Prop} {k : κ} {new : β} {st st' : σ} {c : Int}

theorem AllOrNothing.of_same (h : ∀ k', get st' k' = get st k') (hc : c = 0 → ¬ p) :
    AllOrNothing get p k new st (c, st') :=
  ⟨fun h0 hp => absurd hp (hc h0), fun _ => h⟩

theorem AllOrNothing.of_update [DecidableEq κ] (h : ∀ k', get st' k' = if k = k' then new else get st k') :
    AllOrNothing get p k new st (0, st') := by
  refine ⟨fun _ _ => ⟨(h k).trans (if_pos rfl), fun k' hk => ?_⟩, fun hc => absurd rfl hc⟩
  exact (h k').trans (if_neg hk.symm)

/-- A write that has failed but left something at its key. -/
theorem AllOrNothing.failed_iff [DecidableEq κ] {left : β} (hc : c ≠ 0)
    (h : ∀ k', get st' k' = if k = k' then left else get st k') :
    AllOrNothing get p k new st (c, st') ↔ get st k = left := by
  constructor
  · intro ha
    have hkept := ha.kept hc k
    rw [h, if_pos rfl] at hkept
    exact hkept.symm
  · intro hleft
    apply AllOrNothing.of_same _ fun h0 => absurd h0 hc
    intro k'
    rw [h]
    by_cases hk : k = k'
    · rw [if_pos hk, ← hk, hleft]
    · rw [if_neg hk]

end GameAccelerator.Writes
