import GameAccelerator.IkcpFrame

namespace GameAccelerator.Ikcp

open Serial

variable {kcp : Ikcpcb} {current : UInt32}

theorem itimediff_eq (later earlier : UInt32) :
    itimediff later earlier = ((later.toNat : Int) - earlier.toNat).bmod 4294967296 := diff_eq later earlier

theorem itimediff_self (t : UInt32) : itimediff t t = 0 := by
  rw [itimediff_eq, Int.sub_self]
  rfl

theorem itimediff_self_nonneg (t : UInt32) : 0 ≤ itimediff t t := Int.le_of_eq (itimediff_self t).symm

section Flush

theorem ikcpUpdate_of_due (h : (nextFlush kcp current).1 = true) : ikcpUpdate kcp current = ikcpFlush (setClock kcp current) :=
  if_pos h

theorem ikcpUpdate_of_not_due (h : (nextFlush kcp current).1 = false) : ikcpUpdate kcp current = (setClock kcp current, []) := by
  rw [ikcpUpdate, if_neg]
  · rfl
  · rw [h]
    exact Bool.false_ne_true

/-- A flush is due when `ts_flush` is reached or far away. -/
theorem due_iff (hu : kcp.updated = true) : (nextFlush kcp current).1 = true ↔
    0 ≤ itimediff current kcp.tsFlush ∨ itimediff current kcp.tsFlush < -10000 := by
  simp only [nextFlush, hu, if_true]
  split
  · next h =>
    simp only [true_iff]
    omega
  · next h =>
    simp only [Bool.false_eq_true, false_iff]
    omega

/-- Not long after any time there is one at which an update flushes. -/
theorem exists_due (kcp : Ikcpcb) (time : UInt32) :
    ∃ t, (nextFlush kcp t).1 = true ∧ 0 ≤ itimediff t time ∧ itimediff t time ≤ 10000 := by
  have hnow : 0 ≤ itimediff time time ∧ itimediff time time ≤ 10000 := by
    rw [itimediff_self]
    decide
  cases hu : kcp.updated with
  | false =>
      refine ⟨time, ?_, hnow⟩
      simp [nextFlush, hu, itimediff_self]
  | true =>
      by_cases hdue : 0 ≤ itimediff time kcp.tsFlush ∨ itimediff time kcp.tsFlush < -10000
      · exact ⟨time, (due_iff hu).mpr hdue, hnow⟩
      · -- the time is shortly before `ts_flush`
        refine ⟨kcp.tsFlush, (due_iff hu).mpr (.inl (itimediff_self_nonneg _)), ?_⟩
        rw [itimediff_eq, Int.bmod] at hdue ⊢
        omega

/-- A time is not on the other side of the circle from the clock. -/
def Near (kcp : Ikcpcb) (time : UInt32) : Prop :=
  -2147400000 ≤ itimediff time kcp.current ∧ itimediff time kcp.current ≤ 2147400000

/-- The clock can go forward to a time that is near, and a little further until
an update flushes. -/
theorem exists_due_after {time : UInt32} (h : Near kcp time) :
    ∃ t, (nextFlush kcp t).1 = true ∧ 0 ≤ itimediff t kcp.current ∧ 0 ≤ itimediff t time := by
  rw [Near] at h
  by_cases hahead : 0 ≤ itimediff time kcp.current
  · obtain ⟨t, ht, hlow, hhigh⟩ := exists_due kcp time
    refine ⟨t, ht, ?_, hlow⟩
    rw [itimediff_eq, Int.bmod] at hlow hhigh h hahead ⊢
    omega
  · obtain ⟨t, ht, hlow, hhigh⟩ := exists_due kcp kcp.current
    refine ⟨t, ht, hlow, ?_⟩
    rw [itimediff_eq, Int.bmod] at hlow hhigh h hahead ⊢
    omega

/-- A quarter of the circle, by which the clock goes forward when a time is on
the other side. -/
def quarter : UInt32 := 1073741824

theorem itimediff_quarter (t : UInt32) : 0 ≤ itimediff (t + quarter) t := by
  have hq : quarter.toNat = 1073741824 := rfl
  rw [itimediff_eq, Int.bmod, UInt32.toNat_add, hq]
  have hlt := t.toNat_lt
  omega

/-- The time is then near and has not come yet. -/
theorem near_quarter {kcp' : Ikcpcb} {time : UInt32} (h : ¬Near kcp time) (hclock : kcp'.current = kcp.current + quarter) :
    Near kcp' time ∧ itimediff (kcp.current + quarter) time < 0 := by
  have hq : quarter.toNat = 1073741824 := rfl
  have hlt := kcp.current.toNat_lt
  have hlt' := time.toNat_lt
  rw [Near, itimediff_eq, Int.bmod] at h
  rw [Near, hclock, itimediff_eq, itimediff_eq, Int.bmod, Int.bmod, UInt32.toNat_add, hq]
  omega

end Flush

section Check

theorem pos_of_nextResend {segs : List Ikcpseg} {least packet : Int} (hl : 0 < least)
    (h : nextResend current segs least = some packet) : 0 < packet := by
  induction segs generalizing least with
  | nil =>
      cases h
      exact hl
  | cons seg segs ih =>
      simp only [nextResend] at h
      split at h
      · cases h
      · exact ih (by omega) h

/-- The time that `ikcp_check` returns is now, or later and then not after
`ts_flush`, which is near. -/
theorem ikcpCheck_cases (kcp : Ikcpcb) (current : UInt32) : ikcpCheck kcp current = current ∨
    ∃ wait : UInt32, ikcpCheck kcp current = current + wait ∧ wait.toNat ≤ kcp.interval.toNat ∧ kcp.updated = true ∧
      (wait.toNat : Int) ≤ itimediff kcp.tsFlush current ∧ itimediff kcp.tsFlush current ≤ 10000 := by
  cases hu : kcp.updated with
  | false =>
      left
      simp [ikcpCheck, hu]
  | true =>
      simp only [ikcpCheck, hu, Bool.not_true, Bool.false_eq_true, if_false]
      by_cases hlate : itimediff current kcp.tsFlush ≥ 10000 ∨ itimediff current kcp.tsFlush < -10000
      · left
        rw [if_pos hlate, if_pos (itimediff_self_nonneg current)]
      · rw [if_neg hlate]
        split
        · exact .inl rfl
        · next hbefore =>
          have hdiff : itimediff kcp.tsFlush current = -itimediff current kcp.tsFlush := by
            rw [itimediff_eq, Int.bmod] at hlate hbefore
            rw [itimediff_eq, itimediff_eq, Int.bmod, Int.bmod]
            omega
          split
          · exact .inl rfl
          · next packet hpacket =>
            have hpos := pos_of_nextResend (by decide) hpacket
            refine .inr ⟨_, rfl, ?_, trivial, ?_, by omega⟩
            · rw [UInt32.toNat_min]
              exact Nat.min_le_right _ _
            · rw [UInt32.toNat_min, UInt32.ofInt, UInt32.toNat_ofNat']
              omega

/-- Until the time that `ikcp_check` returns, updates do nothing but set the
clock. -/
theorem ikcpUpdate_before_check (kcp : Ikcpcb) (current t : UInt32) (h : 0 ≤ itimediff t current)
    (h' : itimediff t (ikcpCheck kcp current) < 0) : ikcpUpdate kcp t = ({ kcp with current := t }, []) := by
  rcases ikcpCheck_cases kcp current with heq | ⟨wait, heq, -, hu, hle, hnear⟩
  · rw [heq] at h'
    omega
  · rw [heq] at h'
    have hbefore : itimediff t kcp.tsFlush < 0 ∧ -10000 ≤ itimediff t kcp.tsFlush := by
      have hwait := wait.toNat_lt
      rw [itimediff_eq, UInt32.toNat_add] at h'
      rw [itimediff_eq] at h hle hnear
      rw [itimediff_eq]
      simp only [Int.bmod] at h h' hle hnear ⊢
      omega
    have hdue : (nextFlush kcp t).1 = false := by
      rw [← Bool.not_eq_true, due_iff hu]
      omega
    have hts : (nextFlush kcp t).2 = kcp.tsFlush := by
      simp only [nextFlush, hu, if_true]
      rw [if_neg (by omega), if_neg (by omega)]
    rw [ikcpUpdate_of_not_due hdue, setClock, hts, ← hu]

end Check

/-- A control block that has been updated at the time 0. -/
def startedKcp : Ikcpcb := (ikcpUpdate (ikcpCreate 7) 0).1

theorem ikcpUpdate_before_check_of_started : ikcpUpdate startedKcp 50 = ({ startedKcp with current := 50 }, []) :=
  ikcpUpdate_before_check startedKcp 0 50 (by decide +kernel) (by decide +kernel)

end GameAccelerator.Ikcp
