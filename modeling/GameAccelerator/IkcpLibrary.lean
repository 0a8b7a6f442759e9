import GameAccelerator.IkcpReceivable

namespace GameAccelerator.Ikcp

open CString

/-- The library that the gateway is linked with. A session sets it up with
`ikcp_nodelay(kcp, 1, 10, 2, 1)`, and its messages are those that `ikcp_recv` is
going to return. -/
def library : Kcp.Library Ikcpcb where
  create conv := ikcpNodelay (ikcpCreate conv) 1 10 2 1
  input kcp data :=
    let rest := (ikcpInput kcp.rest data).2
    (receivable rest, rest, [])
  update kcp current := ikcpUpdate kcp.rest current
  flush kcp := ikcpFlush kcp.rest
  send kcp buffer := (ikcpSend kcp.rest buffer).2
  recv kcp := (ikcpRecv kcp.rest (ikcpPeeksize kcp.rest)).2.2

variable {kcp : Ikcpcb}

section View

/-- A control block as the gateway sees it. -/
def gatewayView (kcp : Ikcpcb) : Kcp.Ikcpcb Ikcpcb := ⟨kcp.conv, receivable kcp, kcp⟩

theorem gatewayView_eq {kcp' : Ikcpcb} (hin : kcp'.inbound = kcp.inbound) (hset : kcp'.settings = kcp.settings) :
    gatewayView kcp' = ⟨kcp.conv, receivable kcp, kcp'⟩ := by
  have hconv : kcp'.conv = kcp.conv := congrArg Settings.conv hset
  rw [gatewayView, receivable_congr hin, hconv]

theorem ikcpCreate_library (conv : UInt32) :
    Kcp.ikcpCreate library conv = gatewayView (ikcpNodelay (ikcpCreate conv) 1 10 2 1) := rfl

theorem frame_ikcpUpdate (kcp : Ikcpcb) (current : UInt32) :
    (ikcpUpdate kcp current).1.inbound = kcp.inbound ∧ (ikcpUpdate kcp current).1.settings = kcp.settings := by
  rcases ikcpUpdate_cases kcp current with heq | heq <;> rw [heq]
  · exact ⟨inbound_ikcpFlush _, settings_ikcpFlush _⟩
  · exact ⟨rfl, rfl⟩

theorem ikcpUpdate_library (kcp : Ikcpcb) (current : UInt32) :
    Kcp.ikcpUpdate library (gatewayView kcp) current = (gatewayView (ikcpUpdate kcp current).1, (ikcpUpdate kcp current).2) := by
  obtain ⟨hin, hset⟩ := frame_ikcpUpdate kcp current
  rw [gatewayView_eq hin hset]
  rfl

theorem ikcpFlush_library (kcp : Ikcpcb) :
    Kcp.ikcpFlush library (gatewayView kcp) = (gatewayView (ikcpFlush kcp).1, (ikcpFlush kcp).2) := by
  rw [gatewayView_eq (inbound_ikcpFlush kcp) (settings_ikcpFlush kcp)]
  rfl

theorem frame_sendSegments (kcp : Ikcpcb) (sent : Nat) (buffer : Bytes) :
    (sendSegments kcp sent buffer).2.inbound = kcp.inbound ∧ (sendSegments kcp sent buffer).2.settings = kcp.settings := by
  simp only [sendSegments]
  split <;> exact ⟨rfl, rfl⟩

theorem frame_extendLast (kcp : Ikcpcb) (buffer : Bytes) :
    (extendLast kcp buffer).2.inbound = kcp.inbound ∧ (extendLast kcp buffer).2.settings = kcp.settings := by
  rw [extendLast]
  split
  · exact ⟨rfl, rfl⟩
  · split <;> exact ⟨rfl, rfl⟩

theorem frame_ikcpSend (kcp : Ikcpcb) (buffer : Bytes) :
    (ikcpSend kcp buffer).2.inbound = kcp.inbound ∧ (ikcpSend kcp buffer).2.settings = kcp.settings := by
  rw [ikcpSend]
  dsimp only
  have hext := frame_extendLast kcp buffer
  split
  · split
    · exact hext
    · obtain ⟨hin, hset⟩ := frame_sendSegments (extendLast kcp buffer).2 (extendLast kcp buffer).1
        (buffer.drop (extendLast kcp buffer).1)
      exact ⟨hin.trans hext.1, hset.trans hext.2⟩
  · exact frame_sendSegments kcp 0 buffer

theorem ikcpSend_library (kcp : Ikcpcb) (buffer : Bytes) :
    Kcp.ikcpSend library (gatewayView kcp) buffer = gatewayView (ikcpSend kcp buffer).2 := by
  obtain ⟨hin, hset⟩ := frame_ikcpSend kcp buffer
  rw [gatewayView_eq hin hset]
  rfl

theorem ikcpInput_library (kcp : Ikcpcb) (data : Bytes) :
    Kcp.ikcpInput library (gatewayView kcp) data = (gatewayView (ikcpInput kcp data).2, []) := by
  have hconv : (ikcpInput kcp data).2.conv = kcp.conv := congrArg Settings.conv (Endpoint.settings_ikcpInput kcp data)
  simp only [Kcp.ikcpInput, library, gatewayView, hconv]

/-- What the gateway gets is what `ikcp_recv` returns, but for the code that says
why there is no message. -/
theorem ikcpRecv_library (kcp : Ikcpcb) (len : Nat) :
    (Kcp.ikcpRecv library (gatewayView kcp) len).2 = ((ikcpRecv kcp len).2.1, gatewayView (ikcpRecv kcp len).2.2) ∧
      ((Kcp.ikcpRecv library (gatewayView kcp) len).1 = (ikcpRecv kcp len).1 ∨
        (Kcp.ikcpRecv library (gatewayView kcp) len).1 < 0 ∧ (ikcpRecv kcp len).1 < 0) := by
  by_cases hd : Drained kcp
  · have hnone : Kcp.ikcpRecv library (gatewayView kcp) len = (-1, [], gatewayView kcp) := by
      rw [Kcp.ikcpRecv, gatewayView, receivable_of_drained hd]
    have hfail : (ikcpRecv kcp len).1 < 0 ∧ (ikcpRecv kcp len).2 = ([], kcp) := by
      rcases ikcpRecv_cases kcp len with hfail | ⟨hpeek, -⟩
      · exact hfail
      · exact absurd hd (Int.not_lt.mpr hpeek)
    rw [hnone, hfail.2]
    exact ⟨rfl, .inr ⟨Int.negSucc_lt_zero 0, hfail.1⟩⟩
  · have hset := (frame_ikcpRecv kcp (ikcpPeeksize kcp)).2.1
    have hconv : (ikcpRecv kcp (ikcpPeeksize kcp)).2.2.conv = kcp.conv := congrArg Settings.conv hset
    obtain ⟨hne, hpeek⟩ := ikcpPeeksize_eq hd
    have hmsg := congrArg (fun r => r.2.1) (ikcpRecv_of_le hd (Int.le_refl _))
    have hqueue := receivable_of_not_drained hd
    simp only at hmsg
    rw [hmsg] at hqueue
    by_cases hle : ikcpPeeksize kcp ≤ len
    · rw [ikcpRecv_of_le hd hle, hpeek, Kcp.ikcpRecv, gatewayView, hqueue]
      simp only
      rw [if_neg (by omega)]
      refine ⟨?_, .inl rfl⟩
      rw [gatewayView, ← hpeek, hconv]
      rfl
    · have hlong : ikcpRecv kcp len = (-3, [], kcp) := by
        rw [ikcpRecv, if_neg hne, if_neg (by omega), if_pos (by omega)]
      rw [hlong, Kcp.ikcpRecv, gatewayView, hqueue]
      simp only
      rw [if_pos (by omega)]
      exact ⟨rfl, .inl rfl⟩

end View

section Fresh

/-- Nothing has been sent and nothing has arrived. -/
structure Still (kcp : Ikcpcb) : Prop where
  acklist : kcp.acklist = []
  probe : kcp.probe = 0
  rmtWnd : kcp.rmtWnd ≠ 0
  sndQueue : kcp.sndQueue = []
  sndBuf : kcp.sndBuf = []

theorem Still.flushQueue (h : Still kcp) : Still (flushQueue kcp) := by
  obtain ⟨hack, hprobe, hwnd, hqueue, hbuf⟩ := h
  simp only [Ikcp.flushQueue, probeWindow, hqueue, moveSent]
  exact ⟨rfl, rfl, hwnd, rfl, hbuf⟩

theorem Still.flushed (h : Still kcp) : flushed kcp = [] := by
  have hprobe : (probeWindow kcp).probe = 0 := by
    simp only [probeWindow, nextProbe, if_neg h.rmtWnd, h.probe]
  rw [Ikcp.flushed, ackSegments, h.acklist, hprobe, h.flushQueue.sndBuf]
  rfl

theorem Still.flush (h : Still kcp) : Still (ikcpFlush kcp).1 ∧ (ikcpFlush kcp).2 = [] := by
  cases hu : kcp.updated with
  | false =>
      rw [ikcpFlush_of_not_updated hu]
      exact ⟨h, rfl⟩
  | true =>
      refine ⟨?_, by rw [packets_ikcpFlush hu, h.flushed]; rfl⟩
      have hq := h.flushQueue
      rw [ikcpFlush, if_neg (by simp [hu])]
      simp only [hq.sndBuf, flushSegments]
      exact ⟨hq.acklist, hq.probe, hq.rmtWnd, hq.sndQueue, rfl⟩

theorem Still.update (h : Still kcp) (current : UInt32) :
    Still (ikcpUpdate kcp current).1 ∧ (ikcpUpdate kcp current).2 = [] := by
  have hclock : Still (setClock kcp current) := ⟨h.acklist, h.probe, h.rmtWnd, h.sndQueue, h.sndBuf⟩
  rcases ikcpUpdate_cases kcp current with heq | heq <;> rw [heq]
  · exact hclock.flush
  · exact ⟨hclock, rfl⟩

theorem library_silentWhileFresh : library.SilentWhileFresh := by
  have hstill (kcp : Kcp.Ikcpcb Ikcpcb) (h : Kcp.Fresh library kcp) : Still kcp.rest := by
    induction h with
    | create conv => exact ⟨rfl, rfl, (by decide : wndRcv ≠ 0), rfl, rfl⟩
    | update _ current ih => exact (ih.update current).1
  exact fun kcp current h => ((hstill kcp h).update current).2

end Fresh

end GameAccelerator.Ikcp
