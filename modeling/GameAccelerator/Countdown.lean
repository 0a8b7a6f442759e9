import Mathlib.Data.List.Infix

namespace GameAccelerator.Countdown

variable {α β γ : Type}

/-- The pieces of a message, each with the number of those that follow it. -/
def countdown : List α → List (Nat × α)
  | [] => []
  | x :: xs => (xs.length, x) :: countdown xs

@[simp]
theorem length_countdown (m : List α) : (countdown m).length = m.length := by
  induction m with
  | nil => rfl
  | cons x m ih => rw [countdown, List.length_cons, ih, List.length_cons]

@[simp]
theorem map_snd_countdown (m : List α) : (countdown m).map Prod.snd = m := by
  induction m with
  | nil => rfl
  | cons x m ih => rw [countdown, List.map_cons, ih]

theorem mem_countdown {m : List α} {p : Nat × α} (h : p ∈ countdown m) : p.1 < m.length ∧ p.2 ∈ m := by
  induction m with
  | nil => cases h
  | cons x m ih =>
      rcases List.mem_cons.mp h with rfl | h
      · exact ⟨Nat.lt_succ_self _, List.mem_cons_self⟩
      · obtain ⟨hlt, hmem⟩ := ih h
        exact ⟨Nat.lt_succ_of_lt hlt, List.mem_cons_of_mem x hmem⟩

/-- Messages one after the other. -/
def frames (ms : List (List α)) : List (Nat × α) := ms.flatMap countdown

theorem frames_cons (m : List α) (ms : List (List α)) : frames (m :: ms) = countdown m ++ frames ms := List.flatMap_cons

theorem frames_append (ms ms' : List (List α)) : frames (ms ++ ms') = frames ms ++ frames ms' := List.flatMap_append

theorem length_frames (ms : List (List α)) : (frames ms).length = ms.flatten.length := by
  induction ms with
  | nil => rfl
  | cons m ms ih => rw [frames_cons, List.flatten_cons, List.length_append, List.length_append, ih, length_countdown]

theorem length_frames_le {ms : List (List α)} {bound : Nat} (h : ∀ m ∈ ms, m.length ≤ bound) :
    (frames ms).length ≤ bound * ms.length := by
  induction ms with
  | nil => exact Nat.zero_le _
  | cons m ms ih =>
      obtain ⟨hm, hms⟩ := List.forall_mem_cons.mp h
      rw [frames_cons, List.length_append, length_countdown, List.length_cons, Nat.mul_succ, Nat.add_comm]
      exact Nat.add_le_add (ih hms) hm

def isLast (piece : Nat × α) : Bool := piece.1 = 0

section Split

/-- The items up to the first one that is the last of its message, and those
behind it. -/
def splitMessage (last : β → Bool) : List β → List β × List β
  | [] => ([], [])
  | x :: l => if last x then ([x], l) else (x :: (splitMessage last l).1, (splitMessage last l).2)

theorem splitMessage_append (last : β → Bool) (l : List β) :
    (splitMessage last l).1 ++ (splitMessage last l).2 = l := by
  induction l with
  | nil => rfl
  | cons x l ih =>
      rw [splitMessage]
      split
      · rfl
      · exact congrArg (x :: ·) ih

theorem splitMessage_map (last : γ → Bool) (f : β → γ) (l : List β) :
    splitMessage last (l.map f) = ((splitMessage (last ∘ f) l).1.map f, (splitMessage (last ∘ f) l).2.map f) := by
  induction l with
  | nil => rfl
  | cons x l ih =>
      rw [List.map_cons, splitMessage, splitMessage, ih, Function.comp_apply]
      split <;> rfl

theorem splitMessage_countdown {m : List α} (hm : m ≠ []) (rest : List (Nat × α)) :
    splitMessage isLast (countdown m ++ rest) = (countdown m, rest) := by
  induction m with
  | nil => exact absurd rfl hm
  | cons x m ih =>
      cases m with
      | nil => rfl
      | cons y m =>
          have hy := ih (List.cons_ne_nil y m)
          rw [countdown, List.cons_append, splitMessage, hy]
          rfl

/-- At the start of a stream, the first piece tells whether its message is
there. -/
theorem exists_message {q : List (Nat × α)} {p : Nat × α} {ms : List (List α)} (hms : ∀ m ∈ ms, m ≠ [])
    (hq : p :: q <+: frames ms) (hp : p.1 ≤ q.length) :
    ∃ m ms', ms = m :: ms' ∧ (splitMessage isLast (p :: q)).1 = countdown m ∧
      (splitMessage isLast (p :: q)).2 <+: frames ms' := by
  cases ms with
  | nil => exact absurd (List.prefix_nil.mp hq) (List.cons_ne_nil p q)
  | cons m ms =>
      refine ⟨m, ms, rfl, ?_⟩
      have hm := hms m List.mem_cons_self
      have hpre : countdown m <+: p :: q := by
        apply List.prefix_of_prefix_length_le _ hq _
        · exact List.prefix_append (countdown m) (frames ms)
        · cases m with
          | nil => exact absurd rfl hm
          | cons x xs =>
              have he : p = (xs.length, x) := (List.cons_prefix_cons.mp hq).1
              rw [he] at hp
              rw [length_countdown]
              exact Nat.succ_le_succ hp
      obtain ⟨rest, hrest⟩ := hpre
      rw [← hrest, splitMessage_countdown hm]
      rw [← hrest, frames_cons] at hq
      exact ⟨rfl, (List.prefix_append_right_inj _).mp hq⟩

end Split

end GameAccelerator.Countdown
