import Mathlib.Data.List.Basic

namespace GameAccelerator.Continuation

variable {σ ε : Type} {step : σ → ε → σ} {ok : σ → ε → Prop} {a b c : σ}

/-- Each of the events is of the kind that may happen in the state in which it
happens. -/
def Allowed (step : σ → ε → σ) (ok : σ → ε → Prop) : σ → List ε → Prop
  | _, [] => True
  | s, event :: events => ok s event ∧ Allowed step ok (step s event) events

theorem Allowed.append {events events' : List ε} (h : Allowed step ok a events)
    (h' : Allowed step ok (events.foldl step a) events') : Allowed step ok a (events ++ events') := by
  induction events generalizing a with
  | nil => exact h'
  | cons event events ih => exact ⟨h.1, ih h.2 h'⟩

/-- Some events that may happen lead from one state to another. -/
def Continues (step : σ → ε → σ) (ok : σ → ε → Prop) (a b : σ) : Prop :=
  ∃ events : List ε, Allowed step ok a events ∧ events.foldl step a = b

theorem Continues.refl (a : σ) : Continues step ok a a := ⟨[], trivial, rfl⟩

theorem Continues.single (a : σ) {event : ε} (h : ok a event) : Continues step ok a (step a event) :=
  ⟨[event], ⟨h, trivial⟩, rfl⟩

theorem Continues.trans (h : Continues step ok a b) (h' : Continues step ok b c) : Continues step ok a c := by
  obtain ⟨events, hok, rfl⟩ := h
  obtain ⟨events', hok', rfl⟩ := h'
  exact ⟨events ++ events', hok.append hok', List.foldl_append⟩

/-- What every single event keeps. -/
theorem Continues.invariant (h : Continues step ok a b) (inv : σ → Prop)
    (hstep : ∀ s event, inv s → ok s event → inv (step s event)) (ha : inv a) : inv b := by
  obtain ⟨events, hok, rfl⟩ := h
  induction events generalizing a with
  | nil => exact ha
  | cons event events ih =>
      rw [List.foldl_cons]
      exact ih (hstep a event ha hok.1) hok.2

/-- If a measure can be lowered as long as something is left to do, everything
can be done. -/
theorem exists_done (inv done : σ → Prop) (measure : σ → Nat)
    (h : ∀ s, inv s → ¬done s → ∃ s', Continues step ok s s' ∧ inv s' ∧ measure s' < measure s) (ha : inv a) :
    ∃ b, Continues step ok a b ∧ inv b ∧ done b := by
  induction hm : measure a using Nat.strongRecOn generalizing a with
  | ind n ih =>
      by_cases hdone : done a
      · exact ⟨a, .refl a, ha, hdone⟩
      · obtain ⟨s, hs, hinv, hlt⟩ := h a ha hdone
        obtain ⟨b, hb, hb'⟩ := ih (measure s) (hm ▸ hlt) hinv rfl
        exact ⟨b, hs.trans hb, hb'⟩

end GameAccelerator.Continuation
