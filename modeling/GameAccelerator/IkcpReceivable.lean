import GameAccelerator.IkcpProgress

namespace GameAccelerator.Ikcp

open CString Serial SerialList Countdown

variable {conv : UInt32} {e e' peer : Endpoint} {kcp kcp' : Ikcpcb}

section Receivable

/-- What calls of `ikcp_recv` with a buffer that is large enough return, one
after the other. -/
def receiveAll : Nat → Ikcpcb → List Bytes
  | 0, _ => []
  | fuel + 1, kcp =>
      if 0 ≤ ikcpPeeksize kcp then
        (ikcpRecv kcp (ikcpPeeksize kcp)).2.1 :: receiveAll fuel (ikcpRecv kcp (ikcpPeeksize kcp)).2.2
      else []

/-- The messages that can be received. Every one of them has a segment. -/
def receivable (kcp : Ikcpcb) : List Bytes := receiveAll (heldCount kcp) kcp

theorem receiveAll_of_drained (h : Drained kcp) (fuel : Nat) : receiveAll fuel kcp = [] := by
  cases fuel with
  | zero => rfl
  | succ fuel => exact if_neg (Int.not_le.mpr h)

theorem drained_of_heldCount (h : heldCount kcp = 0) : Drained kcp := by
  have hnil : kcp.rcvQueue = [] := List.length_eq_zero_iff.mp (by rw [heldCount] at h; omega)
  simp [Drained, ikcpPeeksize, hnil]

/-- Rounds beyond the number of segments bring nothing more. -/
theorem receiveAll_congr {fuel fuel' : Nat} (h : heldCount kcp ≤ fuel) (h' : heldCount kcp ≤ fuel') :
    receiveAll fuel kcp = receiveAll fuel' kcp := by
  induction fuel generalizing fuel' kcp with
  | zero =>
      have hd := drained_of_heldCount (Nat.le_zero.mp h)
      rw [receiveAll_of_drained hd, receiveAll_of_drained hd]
  | succ fuel ih =>
      by_cases hd : Drained kcp
      · rw [receiveAll_of_drained hd, receiveAll_of_drained hd]
      · have hlt := heldCount_ikcpRecv hd
        rw [Drained, Int.not_lt] at hd
        cases fuel' with
        | zero => omega
        | succ fuel' => rw [receiveAll, receiveAll, if_pos hd, if_pos hd, ih (by omega) (show _ ≤ fuel' by omega)]

theorem receivable_of_drained (h : Drained kcp) : receivable kcp = [] := receiveAll_of_drained h _

theorem receivable_of_not_drained (h : ¬Drained kcp) :
    receivable kcp = (ikcpRecv kcp (ikcpPeeksize kcp)).2.1 :: receivable (ikcpRecv kcp (ikcpPeeksize kcp)).2.2 := by
  have hlt := heldCount_ikcpRecv h
  rw [Drained, Int.not_lt] at h
  obtain ⟨n, hn⟩ := Nat.exists_eq_succ_of_ne_zero (Nat.ne_zero_of_lt hlt)
  rw [receivable, hn, receiveAll, if_pos h, receivable, receiveAll_congr (show _ ≤ n by omega) le_rfl]

/-- What `ikcp_recv` returns only depends on what has arrived. -/
theorem ikcpRecv_congr (h : kcp'.inbound = kcp.inbound) :
    ikcpPeeksize kcp' = ikcpPeeksize kcp ∧ ∀ len, (ikcpRecv kcp' len).2.1 = (ikcpRecv kcp len).2.1 ∧
      (ikcpRecv kcp' len).2.2.inbound = (ikcpRecv kcp len).2.2.inbound := by
  have hqueue : kcp'.rcvQueue = kcp.rcvQueue := congrArg Inbound.rcvQueue h
  have hcount : kcp'.nrcvQue = kcp.nrcvQue := congrArg Inbound.nrcvQue h
  have hpeek : ikcpPeeksize kcp' = ikcpPeeksize kcp := by rw [ikcpPeeksize, ikcpPeeksize, hqueue, hcount]
  refine ⟨hpeek, fun len => ?_⟩
  rw [ikcpRecv, ikcpRecv, hqueue, hpeek]
  split
  · exact ⟨rfl, h⟩
  · split
    · exact ⟨rfl, h⟩
    · split
      · exact ⟨rfl, h⟩
      · refine ⟨rfl, ?_⟩
        have hin (recover : Bool) (k : Ikcpcb) : (fastRecover recover (moveReceived k k.rcvBuf)).inbound = k.inbound.move :=
          inbound_moveReceived k k.rcvBuf
        rw [hin, hin]
        apply congrArg Inbound.move
        split
        · exact h
        · have hremove (k : Ikcpcb) : (removeMessage k).inbound = { k.inbound with
              rcvQueue := (takeMessage k.inbound.rcvQueue).2
              nrcvQue := k.inbound.nrcvQue - .ofNat (takeMessage k.inbound.rcvQueue).1.length } := rfl
          rw [hremove, hremove, h]

theorem receivable_congr (h : kcp'.inbound = kcp.inbound) : receivable kcp' = receivable kcp := by
  have hall (fuel : Nat) : receiveAll fuel kcp' = receiveAll fuel kcp := by
    induction fuel generalizing kcp kcp' with
    | zero => rfl
    | succ fuel ih =>
        obtain ⟨hpeek, hrecv⟩ := ikcpRecv_congr h
        rw [receiveAll, receiveAll, hpeek, (hrecv _).1, ih (hrecv _).2]
  have hcount : heldCount kcp' = heldCount kcp :=
    congrArg (fun i : Inbound => i.rcvQueue.length + i.rcvBuf.length) h
  rw [receivable, hcount, hall]
  rfl

end Receivable

/-- The first message, if it is complete. -/
theorem ikcpPeeksize_eq (h : ¬Drained kcp) :
    kcp.rcvQueue ≠ [] ∧ ikcpPeeksize kcp = (merged (takeMessage kcp.rcvQueue).1).length := by
  rw [Drained] at h
  cases hq : kcp.rcvQueue with
  | nil => simp [ikcpPeeksize, hq] at h
  | cons seg queue =>
      simp only [ikcpPeeksize, hq] at h ⊢
      refine ⟨List.cons_ne_nil _ _, ?_⟩
      by_cases hfrg : seg.frg = 0
      · simp [hfrg, takeMessage, splitMessage, merged]
      · rw [if_neg hfrg] at h ⊢
        split
        · next hlt =>
          rw [if_pos hlt] at h
          exact absurd (Int.negSucc_lt_zero 0) h
        · rfl

/-- A buffer that holds the message is as good as one of its size. -/
theorem ikcpRecv_of_le {len : Int} (h : ¬Drained kcp) (hlen : ikcpPeeksize kcp ≤ len) :
    ikcpRecv kcp len =
      (ikcpPeeksize kcp, merged (takeMessage kcp.rcvQueue).1, (ikcpRecv kcp (ikcpPeeksize kcp)).2.2) := by
  obtain ⟨hne, hpeek⟩ := ikcpPeeksize_eq h
  have hrecv {n : Int} (hn : ikcpPeeksize kcp ≤ n) : ikcpRecv kcp n =
      (((merged (takeMessage kcp.rcvQueue).1).length : Int), merged (takeMessage kcp.rcvQueue).1,
        fastRecover (decide (kcp.nrcvQue ≥ kcp.rcvWnd)) (moveReceived (removeMessage kcp) (removeMessage kcp).rcvBuf)) := by
    rw [ikcpRecv, if_neg hne, if_neg (by omega), if_neg (by omega)]
    simp only [if_neg (show ¬n < 0 by omega)]
  rw [hrecv hlen, hrecv (Int.le_refl _), hpeek]

namespace Endpoint

/-- Receiving moves a message from one list to the other. -/
theorem got_append_recv (e : Endpoint) {len : Int} (hlen : 0 ≤ len) :
    (e.call (.recv len)).got ++ receivable (e.call (.recv len)).kcp = e.got ++ receivable e.kcp := by
  by_cases hfit : Drained e.kcp ∨ len < ikcpPeeksize e.kcp
  · have hfail : (ikcpRecv e.kcp len).1 < 0 ∧ (ikcpRecv e.kcp len).2.2 = e.kcp := by
      rw [ikcpRecv]
      split
      · exact ⟨Int.negSucc_lt_zero _, rfl⟩
      · split
        · exact ⟨Int.negSucc_lt_zero _, rfl⟩
        · next hpeek =>
          rw [if_pos (by rw [Drained] at hfit; omega)]
          exact ⟨Int.negSucc_lt_zero _, rfl⟩
    rw [Endpoint.call, recvGot, if_pos (.inl hfail.1), hfail.2, List.append_nil]
  · rw [not_or, Int.not_lt] at hfit
    have hpeek := Int.not_lt.mp hfit.1
    have heq := ikcpRecv_of_le hfit.1 hfit.2
    have hself := ikcpRecv_of_le hfit.1 (Int.le_refl _)
    have hgot : recvGot e.kcp len = [merged (takeMessage e.kcp.rcvQueue).1] := by
      rw [recvGot, heq]
      exact if_neg (by simp only; omega)
    rw [receivable_of_not_drained hfit.1, Endpoint.call, hgot, heq, List.append_assoc, congrArg (fun r => r.2.1) hself]
    rfl

/-- These are the messages that have arrived in full, as far as those before
them have, too. -/
structure Complete (e peer : Endpoint) (ms : List (List Bytes)) : Prop where
  sent : ms <+: peer.cuts
  has : ∀ n < (frames ms).length, e.Has n
  next : ∀ m, ms ++ [m] <+: peer.cuts → ∃ n < (frames (ms ++ [m])).length, ¬e.Has n

theorem Complete.prefix_of_grows {peer' : Endpoint} {ms ms' : List (List Bytes)} (h : e.Complete peer ms)
    (h' : e'.Complete peer' ms') (hg : e.Grows e') (hp : peer.cuts <+: peer'.cuts) : ms <+: ms' := by
  rcases List.prefix_or_prefix_of_prefix (h.sent.trans hp) h'.sent with hpre | ⟨rest, hrest⟩
  · exact hpre
  · cases rest with
    | nil => rw [← hrest, List.append_nil]
    | cons m rest =>
        have hms : ms = ms' ++ [m] ++ rest := by rw [← hrest, List.append_assoc, List.singleton_append]
        have hpre : ms' ++ [m] <+: ms := ⟨rest, hms.symm⟩
        obtain ⟨n, hn, hmissing⟩ := h'.next m (hpre.trans (h.sent.trans hp))
        have hlt : n < (frames ms).length := by
          rw [hms, frames_append, List.length_append]
          exact Nat.lt_add_right _ hn
        exact absurd (hg.advances.has n (h.has n hlt)) hmissing

/-- If no message is complete in `rcv_queue`, the next message has a segment
that is missing. -/
theorem Sound.complete_of_drained (h : e.Sound conv peer) (hpeer : peer.Framed) (hm : e.kcp.inbound.Moved)
    (hd : Drained e.kcp) {ms : List (List Bytes)} (hms : ms <+: peer.cuts) (htaken : e.taken = frames ms) :
    e.Complete peer ms := by
  have hrel : e.kcp.inbound.released e.taken = (frames ms).length + e.kcp.rcvQueue.length := by rw [htaken]; rfl
  refine ⟨hms, fun n hn => .inl (by omega), fun m hnext => ?_⟩
  by_contra hall
  push Not at hall
  obtain ⟨rest, hrest⟩ := hnext
  have hm0 : m ≠ [] := by
    apply (hpeer.cuts m _).1
    rw [← hrest]
    simp
  have hlen : (frames (ms ++ [m])).length = (frames ms).length + m.length := by
    rw [frames_append, List.length_append, frames_cons, List.length_append, length_countdown]
    rfl
  rw [hlen] at hall
  -- the first segment that is not in the queue is not in the buffer
  have hqueue : m.length ≤ e.kcp.rcvQueue.length := by
    by_contra hlt
    rcases hall (e.kcp.inbound.released e.taken) (by omega) with hless | ⟨seg, hseg, hidx⟩
    · exact absurd hless (lt_irrefl _)
    · have hsn : seg.sn = e.kcp.inbound.rcvNxt := by
        rw [h.receiver.nxt, ← ofNat_index (e.kcp.inbound.released e.taken) seg.sn, hidx]
      have hfull : 128 ≤ e.kcp.rcvQueue.length := hm seg hseg hsn
      have hroom := h.queue_lt hpeer hd
      omega
  cases hq : e.kcp.rcvQueue with
  | nil =>
      rw [hq, List.length_nil, Nat.le_zero, List.length_eq_zero_iff] at hqueue
      exact hm0 hqueue
  | cons seg queue =>
      have hpre := h.queue_prefix
      rw [htaken, history, ← hrest, frames_append, frames_append, List.append_assoc, List.prefix_append_right_inj, hq,
        frames_cons, List.map_cons] at hpre
      cases m with
      | nil => exact hm0 rfl
      | cons x xs =>
          rw [countdown, List.cons_append, List.cons_append, List.cons_prefix_cons] at hpre
          have hfrg : seg.frg.toNat = xs.length := congrArg Prod.fst hpre.1
          rw [hq, List.length_cons, List.length_cons] at hqueue
          rw [Drained, ikcpPeeksize_cons h.receiver.queCount hq, if_pos (by omega)] at hd
          omega

/-- What has been received and what can be received are the messages that have
arrived in full. -/
theorem Sound.exists_complete (h : e.Sound conv peer) (hpeer : peer.Framed) (hm : e.kcp.inbound.Moved)
    (hw : 128 ≤ e.kcp.rcvWnd.toNat) :
    ∃ ms, e.Complete peer ms ∧ e.got ++ receivable e.kcp = ms.map List.flatten := by
  induction hn : heldCount e.kcp using Nat.strong_induction_on generalizing e with
  | _ n ih =>
      by_cases hd : Drained e.kcp
      · obtain ⟨ms, hms, htaken, hgot⟩ := h.got
        refine ⟨ms, h.complete_of_drained hpeer hm hd hms htaken, ?_⟩
        rw [receivable_of_drained hd, List.append_nil, hgot]
      · obtain ⟨hsound, hgrows⟩ := h.recv hpeer (ikcpPeeksize e.kcp)
        have hlt : heldCount (e.call (.recv (ikcpPeeksize e.kcp))).kcp < n := hn ▸ heldCount_ikcpRecv hd
        have hset := (frame_ikcpRecv e.kcp (ikcpPeeksize e.kcp)).2.1
        have hwnd : (e.call (.recv (ikcpPeeksize e.kcp))).kcp.rcvWnd = e.kcp.rcvWnd := congrArg Settings.rcvWnd hset
        obtain ⟨ms, ⟨hms, hhas, hnext⟩, hgot⟩ := ih _ hlt hsound
          (h.receiver.moved_ikcpRecv hw hm _) (hwnd ▸ hw) rfl
        rw [e.got_append_recv (Int.not_lt.mp hd)] at hgot
        refine ⟨ms, ⟨hms, fun k hk => h.receiver.has_ikcpRecv (hhas k hk), fun m hm' => ?_⟩, hgot⟩
        obtain ⟨k, hk, hmissing⟩ := hnext m hm'
        exact ⟨k, hk, fun hhas' => hmissing (hgrows.advances.has k hhas')⟩

/-- When nothing waits at one end, everything has been received at the other end
or can be. -/
theorem Sound.got_receivable_prefix (h : e.Sound conv peer) (hpeer : peer.Framed) (hm : e.kcp.inbound.Moved)
    (hw : 128 ≤ e.kcp.rcvWnd.toNat) : e.got ++ receivable e.kcp <+: peer.sent := by
  obtain ⟨ms, hms, hgot⟩ := h.exists_complete hpeer hm hw
  rw [hgot, hpeer.sent]
  exact hms.sent.map List.flatten

theorem Sound.received_all (h : e.Sound conv peer) (hpeer : peer.Sound conv e) (hm : e.kcp.inbound.Moved)
    (hw : 128 ≤ e.kcp.rcvWnd.toNat) (hs : peer.history.length < 2147483648) (hwait : ikcpWaitsnd peer.kcp = 0) :
    e.got ++ receivable e.kcp = peer.sent := by
  obtain ⟨ms, ⟨⟨rest, hrest⟩, -, hnext⟩, hgot⟩ := h.exists_complete hpeer.framed hm hw
  rw [hgot, hpeer.framed.sent]
  cases rest with
  | nil => rw [← hrest, List.append_nil]
  | cons m rest =>
      have hsplit : peer.cuts = ms ++ [m] ++ rest := by rw [← hrest, List.append_assoc, List.singleton_append]
      obtain ⟨n, hn, hmissing⟩ := hnext m ⟨rest, hsplit.symm⟩
      have hlt : n < peer.history.length := by
        rw [history, hsplit, frames_append, List.length_append]
        exact Nat.lt_add_right _ hn
      exact absurd (hpeer.has_all hs hwait n hlt) hmissing

/-- Messages that can be received stay so, whatever arrives later. -/
theorem Sound.receivable_prefix {bound : Nat} (h : e.Sound conv peer) (h' : e'.Sound conv peer) (hpeer : peer.Framed)
    (hi : e.Intact bound) (hi' : e'.Intact bound) (hg : e.Grows e') :
    e.got ++ receivable e.kcp <+: e'.got ++ receivable e'.kcp := by
  obtain ⟨ms, hms, heq⟩ := h.exists_complete hpeer hi.moved hi.tuned.rcvWnd
  obtain ⟨ms', hms', heq'⟩ := h'.exists_complete hpeer hi'.moved hi'.tuned.rcvWnd
  rw [heq, heq']
  exact (hms.prefix_of_grows hms' hg List.prefix_rfl).map List.flatten

end Endpoint

end GameAccelerator.Ikcp
