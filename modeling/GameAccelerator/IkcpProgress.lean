import GameAccelerator.IkcpInvariant
import GameAccelerator.IkcpTiming

namespace GameAccelerator.Ikcp

open CString Serial SerialList Countdown
open LosslessKcp (cmdPush cmdAck)

variable {conv : UInt32} {e peer : Endpoint} {kcp : Ikcpcb} {w : Wire} {d : Bytes} {seg : Ikcpseg}

section Drain

/-- No message of `rcv_queue` is complete. -/
def Drained (kcp : Ikcpcb) : Prop := ikcpPeeksize kcp < 0

/-- The number of segments that have arrived and have not been received. -/
def heldCount (kcp : Ikcpcb) : Nat := kcp.rcvQueue.length + kcp.rcvBuf.length

theorem heldCount_moveReceived (kcp : Ikcpcb) (l : List Ikcpseg) :
    heldCount (moveReceived kcp l) = kcp.rcvQueue.length + l.length := by
  have hlen := congrArg List.length (splitRun_append Ikcpseg.sn (kcp.rcvWnd.toNat - kcp.nrcvQue.toNat) kcp.rcvNxt l)
  rw [List.length_append] at hlen
  rw [moveReceived_eq]
  simp only [heldCount, List.length_append]
  omega

theorem takeMessage_pos {queue : List Ikcpseg} (h : queue ≠ []) : 0 < (takeMessage queue).1.length := by
  obtain ⟨seg, rest, rfl⟩ := List.exists_cons_of_ne_nil h
  rw [takeMessage, splitMessage]
  split <;> exact Nat.succ_pos _

/-- A call with a buffer that is large enough takes a message. -/
theorem heldCount_ikcpRecv (h : ¬Drained kcp) : heldCount (ikcpRecv kcp (ikcpPeeksize kcp)).2.2 < heldCount kcp := by
  rw [Drained, Int.not_lt] at h
  have hne : kcp.rcvQueue ≠ [] := by
    intro hnil
    simp [ikcpPeeksize, hnil] at h
  have happ := congrArg List.length (takeMessage_append kcp.rcvQueue)
  have hpos := takeMessage_pos hne
  rw [List.length_append] at happ
  rw [ikcpRecv, if_neg hne, if_neg (by omega), if_neg (by omega)]
  simp only [if_neg (Int.not_lt.mpr h)]
  have hcount (recover : Bool) (kcp : Ikcpcb) : heldCount (fastRecover recover kcp) = heldCount kcp := rfl
  rw [hcount, heldCount_moveReceived]
  simp only [removeMessage, heldCount]
  omega

namespace Endpoint

/-- A queue without a complete message is not full. -/
theorem Sound.queue_lt (h : e.Sound conv peer) (hpeer : peer.Framed) (hd : Drained e.kcp) : e.kcp.rcvQueue.length < 128 := by
  cases hq : e.kcp.rcvQueue with
  | nil => exact Nat.zero_lt_succ _
  | cons seg queue =>
      rw [Drained, ikcpPeeksize_cons h.receiver.queCount hq] at hd
      split at hd
      · omega
      · next hlt =>
        have hget : (e.taken ++ e.kcp.inbound.rcvQueue.map piece)[e.taken.length]? = some (piece seg) := by
          have hin : e.kcp.inbound.rcvQueue = seg :: queue := hq
          rw [List.getElem?_append_right le_rfl, Nat.sub_self, hin]
          rfl
        have hfrg := (mem_of_history hpeer (h.receiver.releasedAllowed _ _ hget)).1
        change seg.frg.toNat < 128 at hfrg
        rw [List.length_cons]
        omega

end Endpoint

end Drain

section Una

theorem Sender.toNat_una {history : List Piece} {una nxt : Nat} {o : Outbound} (h : Sender history conv una nxt o)
    (hs : history.length < 2147483648) : o.sndUna.toNat = una ∧ o.sndNxt.toNat = nxt := by
  have hle := h.una_le
  have hle' := h.nxt_le
  rw [h.una_eq, h.nxt_eq, UInt32.toNat_ofNat', UInt32.toNat_ofNat']
  omega

namespace Endpoint

theorem Sound.sender_toNat (h : e.Sound conv peer) (hs : e.history.length < 2147483648) :
    Sender e.history conv e.kcp.sndUna.toNat e.kcp.sndNxt.toNat e.kcp.outbound ∧
      ∀ n < e.kcp.sndNxt.toNat, e.Pending n ∨ peer.Has n := by
  obtain ⟨una, nxt, hsend, hpend⟩ := h.sender
  obtain ⟨huna, hnxt⟩ := hsend.toNat_una hs
  change e.kcp.sndUna.toNat = una at huna
  change e.kcp.sndNxt.toNat = nxt at hnxt
  rw [huna, hnxt]
  exact ⟨hsend, hpend⟩

/-- Everything has been acknowledged exactly if nothing waits. -/
theorem Sound.una_eq_iff (h : e.Sound conv peer) (hs : e.history.length < 2147483648) :
    e.kcp.sndUna.toNat = e.history.length ↔ ikcpWaitsnd e.kcp = 0 := by
  have hsend := (h.sender_toNat hs).1
  have hle := hsend.una_le
  have hle' := hsend.nxt_le
  rw [hsend.waitsnd_eq_zero_iff hs]
  constructor
  · intro hall
    have hlen := hsend.buf.length_le
    exact ⟨List.length_eq_zero_iff.mp (by omega), by omega⟩
  · rintro ⟨hempty, hnxt⟩
    have hfirst : e.kcp.sndUna = e.kcp.sndNxt := by
      have hfirst := hsend.first
      rwa [hempty] at hfirst
    rw [hfirst, hnxt]

/-- What has been acknowledged has arrived, and if there is room for it, it is
in `rcv_queue`. -/
theorem Sound.una_le_released (h : e.Sound conv peer) (hpeer : peer.Sound conv e) (hm : peer.kcp.inbound.Moved)
    (hq : peer.kcp.rcvQueue.length < 128) (hs : e.history.length < 2147483648) :
    e.kcp.sndUna.toNat ≤ peer.kcp.inbound.released peer.taken := by
  by_contra hlt
  rw [Nat.not_le] at hlt
  obtain ⟨hsend, hpend⟩ := h.sender_toNat hs
  have hle := hsend.una_le
  have hle' := hsend.nxt_le
  rcases hpend _ (hlt.trans_le hle) with ⟨s, hs', hsn⟩ | hless | ⟨seg, hseg, hidx⟩
  · have hidx := hsend.buf.within s hs'
    have hge := le_index e.kcp.sndUna.toNat s.sn
    have hnat := congrArg UInt32.toNat (ofNat_index e.kcp.sndUna.toNat s.sn)
    rw [hsn, UInt32.toNat_ofNat', UInt32.toNat_ofNat'] at hnat
    rw [hsn] at hidx hge
    omega
  · exact absurd hless (lt_irrefl _)
  · have hsn : seg.sn = peer.kcp.inbound.rcvNxt := by
      rw [hpeer.receiver.nxt, ← ofNat_index (peer.kcp.inbound.released peer.taken) seg.sn, hidx]
    have hfull : 128 ≤ peer.kcp.rcvQueue.length := hm seg hseg hsn
    omega

theorem Sound.una_lt_nxt (h : e.Sound conv peer) (hs : e.history.length < 2147483648) (hbuf : e.kcp.sndBuf ≠ []) :
    e.kcp.sndUna.toNat < e.kcp.sndNxt.toNat := by
  obtain ⟨seg, rest, hseg⟩ := List.exists_cons_of_ne_nil hbuf
  have hslot : slot seg ∈ e.kcp.outbound.sndBuf := by
    simp only [Ikcpcb.outbound, hseg]
    exact List.mem_cons_self
  exact (le_index _ _).trans_lt ((h.sender_toNat hs).1.buf.within _ hslot)

/-- The first segment that waits has the number `snd_una`. -/
theorem Sound.first_segment (h : e.Sound conv peer) {rest : List Ikcpseg} (hseg : e.kcp.sndBuf = seg :: rest) :
    seg.sn = e.kcp.sndUna ∧ seg.cmd = cmdPush := by
  obtain ⟨una, nxt, hsend, -⟩ := h.sender
  have hfirst := hsend.first
  have hslots := hsend.slots
  simp only [Ikcpcb.outbound, hseg] at hfirst hslots
  exact ⟨hfirst.symm, (hslots (slot seg) List.mem_cons_self).2.1⟩

end Endpoint

end Una

section Acknowledged

theorem acklist_inputPush (kcp : Ikcpcb) (w : Wire) : kcp.acklist <+: (inputPush kcp w).acklist := by
  simp only [inputPush]
  split
  · split
    · rw [acklist_parseData]
      exact List.prefix_append _ _
    · exact List.prefix_append _ _
  · exact List.prefix_rfl

theorem acklist_inputSegment (kcp : Ikcpcb) (ack : Maxack) (w : Wire) : kcp.acklist <+: (inputSegment kcp ack w).1.acklist := by
  rcases inputSegment_cases kcp ack w with ⟨-, heq⟩ | ⟨-, heq⟩ | ⟨-, heq⟩ | ⟨-, heq⟩ <;> rw [heq]
  · rw [acklist_inputAck]
    exact List.prefix_rfl
  · exact acklist_inputPush (takeUna kcp w) w
  · exact List.prefix_rfl
  · exact List.prefix_rfl

theorem acklist_inputAll (kcp : Ikcpcb) (ack : Maxack) (ws : List Wire) : kcp.acklist <+: (inputAll kcp ack ws).1.acklist := by
  induction ws generalizing kcp ack with
  | nil => exact List.prefix_rfl
  | cons w ws ih => exact (acklist_inputSegment kcp ack w).trans (ih _ _)

theorem inputAll_append (kcp : Ikcpcb) (ack : Maxack) (ws ws' : List Wire) :
    inputAll kcp ack (ws ++ ws') = inputAll (inputAll kcp ack ws).1 (inputAll kcp ack ws).2 ws' := List.foldl_append

theorem inputAll_cons (kcp : Ikcpcb) (ack : Maxack) (w : Wire) (ws : List Wire) :
    inputAll kcp ack (w :: ws) = inputAll (inputSegment kcp ack w).1 (inputSegment kcp ack w).2 ws := rfl

/-- Data in the window is acknowledged, also if it is old. -/
theorem mem_acklist_inputSegment (hcmd : w.cmd = cmdPush) (hwin : itimediff w.sn (kcp.rcvNxt + kcp.rcvWnd) < 0) (ack : Maxack) :
    (w.sn, w.ts) ∈ (inputSegment kcp ack w).1.acklist := by
  have hwin' : itimediff w.sn ((takeUna kcp w).rcvNxt + (takeUna kcp w).rcvWnd) < 0 := hwin
  have heq : inputSegment kcp ack w = (inputPush (takeUna kcp w) w, ack) := by
    have hack : cmdPush ≠ cmdAck := by decide
    rw [inputSegment, hcmd, if_neg hack, if_pos rfl]
    rfl
  rw [heq]
  simp only [inputPush]
  rw [if_pos hwin']
  split
  · rw [acklist_parseData]
    exact List.mem_append_right _ List.mem_cons_self
  · exact List.mem_append_right _ List.mem_cons_self

namespace Endpoint

theorem acklist_input (e : Endpoint) (d : Bytes) :
    (e.input d).kcp.acklist = (inputAll e.kcp none (segmentsOf e.kcp.conv d)).1.acklist := by
  rcases ikcpInput_cases e.kcp d with heq | heq
  · rw [Endpoint.input, heq]
  · rw [Endpoint.input, heq, acklist_endInput]

/-- A segment that is not ahead of what is expected is acknowledged. -/
theorem Sound.acknowledges (h : e.Sound conv peer) (hpeer : peer.Sound conv e) (hi : e.Intact 65535)
    (hs : e.history.length < 2147483648) (hs' : peer.history.length < 2147418112) (hd : d ∈ peer.wire)
    (hw : w ∈ segmentsOf conv d) (hcmd : w.cmd = cmdPush) {n : Nat} (hsn : w.sn = .ofNat n)
    (hn : n ≤ e.kcp.inbound.released e.taken) : (w.sn, w.ts) ∈ (e.input d).kcp.acklist := by
  have hsays := hpeer.says_wire hd
  rw [acklist_input, h.conv_eq]
  obtain ⟨ws, ws', hws⟩ := List.append_of_mem hw
  rw [hws] at hsays ⊢
  obtain ⟨hbefore, hgrow⟩ := h.inputAll hs (hs'.trans (by decide)) hpeer
    (fun w' hw' => hsays w' (List.mem_append_left _ hw')) none
  have hrel := hbefore.released_le
  have hle := hgrow.advances.released
  have hset : (Ikcp.inputAll e.kcp none ws).1.rcvWnd = e.kcp.rcvWnd := congrArg Settings.rcvWnd (settings_inputAll _ _ _)
  have hnxt : (Ikcp.inputAll e.kcp none ws).1.rcvNxt = .ofNat _ := hbefore.receiver.nxt
  have hlow := hi.tuned.rcvWnd
  have hhigh := hi.receiver.window
  change 128 ≤ e.kcp.rcvWnd.toNat at hlow
  change e.kcp.rcvWnd.toNat ≤ 65535 at hhigh
  have hwin : itimediff w.sn ((Ikcp.inputAll e.kcp none ws).1.rcvNxt + (Ikcp.inputAll e.kcp none ws).1.rcvWnd) < 0 := by
    rw [hsn, hnxt, hset, ← UInt32.ofNat_toNat (x := e.kcp.rcvWnd), ← UInt32.ofNat_add, itimediff,
      diff_ofNat (by omega) (by simp only [withKcp] at hrel hle ⊢; omega)]
    simp only [withKcp] at hrel hle ⊢
    omega
  rw [inputAll_append, inputAll_cons]
  exact (acklist_inputAll _ _ _).subset (mem_acklist_inputSegment hcmd hwin _)

end Endpoint

end Acknowledged

section Advance

variable {history : List Piece} {una nxt : Nat}

theorem Sender.takeUna (h : Sender history conv una nxt kcp.outbound) (w : Wire) :
    ∃ una', una ≤ una' ∧ Sender history conv una' nxt (takeUna kcp w).outbound := by
  obtain ⟨l, heq, hsub, -⟩ := outbound_parseUna { kcp with rmtWnd := w.wnd.toUInt32 } w.una
  have hwnd : (w.wnd.toUInt32).toNat ≤ 65535 := by
    have := w.wnd.toNat_lt
    rw [UInt16.toNat_toUInt32]
    omega
  have h' : Sender history conv una nxt { kcp.outbound with rmtWnd := w.wnd.toUInt32 } := { h with remote := hwnd }
  obtain ⟨una', hle, hsend, -⟩ := h'.keep hsub
  refine ⟨una', hle, ?_⟩
  rw [Ikcp.takeUna, heq]
  exact hsend

/-- The first segment is taken off, so that another one is the first. -/
theorem Sender.parseAck_first (h : Sender history conv una nxt kcp.outbound) (hs : history.length < 2147483648)
    (hlt : una < nxt) : (shrinkBuf (parseAck kcp (.ofNat una))).sndUna ≠ .ofNat una := by
  obtain ⟨hu, hn⟩ := h.toNat_una hs
  have hle := h.nxt_le
  have hne : kcp.sndNxt ≠ .ofNat una := by
    intro heq
    have hnat := congrArg UInt32.toNat heq
    change kcp.sndNxt.toNat = nxt at hn
    rw [UInt32.toNat_ofNat'] at hnat
    omega
  have hfirst := h.first
  cases hbuf : kcp.sndBuf with
  | nil =>
      simp only [Ikcpcb.outbound, hbuf] at hfirst
      exact absurd (hfirst.symm.trans h.una_eq) hne
  | cons seg rest =>
      simp only [Ikcpcb.outbound, hbuf] at hfirst
      have hsn : seg.sn = .ofNat una := hfirst.symm.trans h.una_eq
      have hflight : inFlight kcp (.ofNat una) := by
        have hun : kcp.sndUna = .ofNat una := h.una_eq
        have hnx : kcp.sndNxt = .ofNat nxt := h.nxt_eq
        rw [inFlight, hun, hnx, itimediff, itimediff, diff_ofNat (by omega) (by omega), diff_ofNat (by omega) (by omega)]
        omega
      have hrest : (parseAck kcp (.ofNat una)).sndBuf = rest := by
        rw [parseAck]
        simp only [if_pos hflight, hbuf]
        rw [erase, if_pos hsn.symm]
      have hasc := h.buf
      simp only [Ikcpcb.outbound, hbuf, List.map_cons] at hasc
      rw [shrinkBuf]
      simp only [hrest]
      cases rest with
      | nil => exact hne
      | cons seg' rest =>
          obtain ⟨-, hless, -⟩ := Ascending.cons_iff.mp hasc
          have hless' : index una seg.sn < index una seg'.sn := hless (slot seg') (List.mem_map_of_mem List.mem_cons_self)
          intro hsn'
          change seg'.sn = .ofNat una at hsn'
          rw [hsn, hsn'] at hless'
          exact lt_irrefl _ hless'

/-- The acknowledgement of the first segment that waits takes it off
`snd_buf`. -/
theorem Sender.ack_first (h : Sender history conv una nxt kcp.outbound) (hs : history.length < 2147483648) (hlt : una < nxt)
    (ack : Maxack) (hcmd : w.cmd = cmdAck) (hsn : w.sn = .ofNat una) :
    ∃ una', una < una' ∧ Sender history conv una' nxt (Ikcp.inputSegment kcp ack w).1.outbound := by
  obtain ⟨una', hle, hsend, -⟩ := h.inputSegment ack w
  refine ⟨una', Nat.lt_of_le_of_ne hle ?_, hsend⟩
  rintro rfl
  have heq : (Ikcp.inputSegment kcp ack w).1 = inputAck (Ikcp.takeUna kcp w) w.sn w.ts := by
    rw [Ikcp.inputSegment, if_pos hcmd]
    rfl
  rw [heq] at hsend
  obtain ⟨una₁, hle₁, htake⟩ := h.takeUna w
  rw [← outbound_measureRtt (Ikcp.takeUna kcp w) w.ts] at htake
  -- if the first segment is still the first behind `una`, it goes now
  obtain ⟨una₂, hle₂, hack⟩ : ∃ una₂, una₁ ≤ una₂ ∧
      Sender history conv una₂ nxt (inputAck (Ikcp.takeUna kcp w) w.sn w.ts).outbound := by
    obtain ⟨l, hl, hsub, -⟩ := outbound_parseAck (measureRtt (Ikcp.takeUna kcp w) w.ts) w.sn
    obtain ⟨una₂, hle₂, hkeep, -⟩ := htake.keep hsub
    refine ⟨una₂, hle₂, ?_⟩
    rw [inputAck, hl]
    exact hkeep
  have hfinal := (hsend.toNat_una hs).1.symm.trans (hack.toNat_una hs).1
  have hsame : una₁ = una := by omega
  rw [hsame] at htake
  apply htake.parseAck_first hs hlt
  rw [← hsn]
  exact hsend.una_eq.trans hsn.symm

theorem Sender.inputAll (h : Sender history conv una nxt kcp.outbound) (ack : Maxack) (ws : List Wire) :
    ∃ una', una ≤ una' ∧ Sender history conv una' nxt (inputAll kcp ack ws).1.outbound := by
  induction ws generalizing kcp una ack with
  | nil => exact ⟨una, le_rfl, h⟩
  | cons w ws ih =>
      obtain ⟨una₁, hle₁, h₁, -⟩ := h.inputSegment ack w
      obtain ⟨una₂, hle₂, h₂⟩ := ih h₁ (Ikcp.inputSegment kcp ack w).2
      exact ⟨una₂, hle₁.trans hle₂, h₂⟩

namespace Endpoint

theorem outbound_input (e : Endpoint) (d : Bytes) :
    (e.input d).kcp.outbound = (Ikcp.inputAll e.kcp none (segmentsOf e.kcp.conv d)).1.outbound := by
  rcases ikcpInput_cases e.kcp d with heq | heq
  · rw [Endpoint.input, heq]
  · rw [Endpoint.input, heq, outbound_endInput]

/-- What has been acknowledged stays acknowledged. -/
theorem Sound.una_le_input (h : e.Sound conv peer) (hs : e.history.length < 2147483648) (d : Bytes) :
    e.kcp.sndUna.toNat ≤ (e.input d).kcp.sndUna.toNat := by
  obtain ⟨una', hle, hsend⟩ := (h.sender_toNat hs).1.inputAll none (segmentsOf e.kcp.conv d)
  rw [← outbound_input] at hsend
  have hnat : (e.input d).kcp.sndUna.toNat = una' := (hsend.toNat_una hs).1
  rwa [hnat]

/-- The acknowledgement of the first segment that waits is progress. -/
theorem Sound.una_lt_input (h : e.Sound conv peer) (hs : e.history.length < 2147483648)
    (hlt : e.kcp.sndUna.toNat < e.kcp.sndNxt.toNat) (hw : w ∈ segmentsOf conv d) (hcmd : w.cmd = cmdAck)
    (hsn : w.sn = e.kcp.sndUna) : e.kcp.sndUna.toNat < (e.input d).kcp.sndUna.toNat := by
  obtain ⟨ws, ws', hws⟩ := List.append_of_mem hw
  obtain ⟨una₁, hle₁, h₁⟩ := (h.sender_toNat hs).1.inputAll none ws
  have hfinal : ∃ una', e.kcp.sndUna.toNat < una' ∧
      Sender e.history conv una' e.kcp.sndNxt.toNat (e.input d).kcp.outbound := by
    rw [outbound_input, h.conv_eq, hws, inputAll_append, inputAll_cons]
    rcases Nat.eq_or_lt_of_le hle₁ with rfl | hlt₁
    · have hsn' : w.sn = .ofNat e.kcp.sndUna.toNat := by rw [hsn, UInt32.ofNat_toNat]
      obtain ⟨una₂, hlt₂, h₂⟩ := h₁.ack_first hs hlt (Ikcp.inputAll e.kcp none ws).2 hcmd hsn'
      obtain ⟨una₃, hle₃, h₃⟩ := h₂.inputAll (Ikcp.inputSegment _ (Ikcp.inputAll e.kcp none ws).2 w).2 ws'
      exact ⟨una₃, hlt₂.trans_le hle₃, h₃⟩
    · obtain ⟨una₂, hle₂, h₂, -⟩ := h₁.inputSegment (Ikcp.inputAll e.kcp none ws).2 w
      obtain ⟨una₃, hle₃, h₃⟩ := h₂.inputAll (Ikcp.inputSegment _ (Ikcp.inputAll e.kcp none ws).2 w).2 ws'
      exact ⟨una₃, hlt₁.trans_le (hle₂.trans hle₃), h₃⟩
  obtain ⟨una', hlt', hsend⟩ := hfinal
  have hnat : (e.input d).kcp.sndUna.toNat = una' := (hsend.toNat_una hs).1
  rwa [hnat]

end Endpoint

end Advance

section Carry

namespace Endpoint

/-- Every segment that an update sends is in one of its datagrams. -/
theorem Sound.exists_carrier (h : e.Sound conv peer) (hi : e.Intact 65535) (hf : e.Fitting conv) {t : UInt32}
    (ht : (nextFlush e.kcp t).1 = true) (hseg : seg ∈ flushed (Ikcp.setClock e.kcp t)) :
    ∃ i d, e.wire.length ≤ i ∧ (e.call (.update t)).wire[i]? = some d ∧ Ikcp.wire seg ∈ segmentsOf conv d ∧
      ∀ w ∈ segmentsOf conv d, ∃ seg' ∈ flushed (Ikcp.setClock e.kcp t), w = Ikcp.wire seg' := by
  obtain ⟨d, hd, group, rfl, hmem, hall⟩ := exists_packet rfl hseg
  obtain ⟨j, hj⟩ := List.mem_iff_getElem?.mp hd
  have hclock : (e.withKcp (Ikcp.setClock e.kcp t)).Fitting conv := hf.congr rfl
  obtain ⟨-, hnonempty, hfits⟩ := hclock.packets (hi.congr rfl rfl hi.tuned rfl hi.timed) _ hd
  have hsegs : segmentsOf conv (group.flatMap encode) = group.map Ikcp.wire := by
    have hflat : group.flatMap encode = (group.map Ikcp.wire).flatMap Wire.encode := by
      rw [List.flatMap_map]
      rfl
    have hvalid : ∀ w ∈ group.map Ikcp.wire, w.Valid conv := by
      intro w hw
      obtain ⟨seg', hseg', rfl⟩ := List.mem_map.mp hw
      exact ((h.setClock t).1.says_flushed (hall seg' hseg')).valid
    rw [hflat] at hnonempty hfits ⊢
    rw [segmentsOf_encode hvalid, if_neg]
    rw [length_lt_of_int_lt (by omega)]
    omega
  refine ⟨e.wire.length + j, group.flatMap encode, Nat.le_add_right _ _, ?_, ?_, ?_⟩
  · have hwire : (e.call (.update t)).wire = e.wire ++ (ikcpFlush (Ikcp.setClock e.kcp t)).2 := by
      rw [Endpoint.call, ikcpUpdate_of_due ht]
    rw [hwire, List.getElem?_append_right (Nat.le_add_right _ _), Nat.add_sub_cancel_left]
    exact hj
  · rw [hsegs]
    exact List.mem_map_of_mem hmem
  · rw [hsegs]
    intro w hw
    obtain ⟨seg', hseg', rfl⟩ := List.mem_map.mp hw
    exact ⟨seg', hall seg' hseg', rfl⟩

end Endpoint

theorem sndBuf_moveSent (cwnd : UInt32) (kcp : Ikcpcb) (l : List Ikcpseg) : kcp.sndBuf <+: (moveSent cwnd kcp l).sndBuf := by
  induction l generalizing kcp with
  | nil => exact List.prefix_rfl
  | cons seg l ih =>
      rw [moveSent]
      split
      · exact (List.prefix_append _ _).trans (ih (sendNext kcp seg))
      · exact List.prefix_rfl

theorem sndBuf_flushQueue (kcp : Ikcpcb) : kcp.sndBuf <+: (flushQueue kcp).sndBuf :=
  sndBuf_moveSent _ { probeWindow { kcp with acklist := [] } with probe := 0 } _

/-- Numbering segments changes neither the clock nor the probe nor the other
windows. -/
theorem control_moveSent (cwnd : UInt32) (kcp : Ikcpcb) (l : List Ikcpseg) :
    (moveSent cwnd kcp l).current = kcp.current ∧ (moveSent cwnd kcp l).rmtWnd = kcp.rmtWnd ∧
      (moveSent cwnd kcp l).probeWait = kcp.probeWait ∧ (moveSent cwnd kcp l).tsProbe = kcp.tsProbe ∧
      (moveSent cwnd kcp l).sndUna = kcp.sndUna := by
  induction l generalizing kcp with
  | nil => exact ⟨rfl, rfl, rfl, rfl, rfl⟩
  | cons seg l ih =>
      rw [moveSent]
      split
      · exact ih (sendNext kcp seg)
      · exact ⟨rfl, rfl, rfl, rfl, rfl⟩

theorem exists_sent_segment {reason : Reason} (hseg : seg ∈ kcp.sndBuf) (hneed : needsend (flushQueue kcp) seg = some reason) :
    ∃ seg' ∈ flushed kcp, slot seg' = slot seg := by
  refine ⟨transmit (flushQueue kcp) seg reason, ?_, slot_transmit _ _ _⟩
  apply List.mem_append_right
  apply List.mem_filterMap.mpr
  exact ⟨seg, (sndBuf_flushQueue kcp).subset hseg, by rw [hneed]; rfl⟩

/-- A segment whose time has come is sent. -/
theorem exists_due_segment (hseg : seg ∈ kcp.sndBuf) (hdue : 0 ≤ itimediff kcp.current seg.resendts) :
    ∃ seg' ∈ flushed kcp, slot seg' = slot seg := by
  have hcurrent : (flushQueue kcp).current = kcp.current := (control_moveSent _ _ _).1
  have hneed : ∃ reason, needsend (flushQueue kcp) seg = some reason := by
    rw [needsend, hcurrent]
    split
    · exact ⟨_, rfl⟩
    · exact ⟨_, rfl⟩
  obtain ⟨reason, hneed⟩ := hneed
  exact exists_sent_segment hseg hneed

/-- The first segment is sent, or a flush leaves it as it is. -/
theorem sent_or_kept {rest : List Ikcpseg} (hu : kcp.updated = true) (hseg : kcp.sndBuf = seg :: rest) :
    (∃ seg' ∈ flushed kcp, slot seg' = slot seg) ∨ ∃ rest', (ikcpFlush kcp).1.sndBuf = seg :: rest' := by
  cases hneed : needsend (flushQueue kcp) seg with
  | some reason => exact .inl (exists_sent_segment (hseg ▸ List.mem_cons_self) hneed)
  | none =>
      obtain ⟨more, hmore⟩ := sndBuf_flushQueue kcp
      rw [hseg, List.cons_append] at hmore
      right
      rw [ikcpFlush, if_neg (by simp [hu])]
      simp only [adjustCwnd, ← hmore, flushSegments, hneed]
      exact ⟨_, rfl⟩

/-- What is to be acknowledged is acknowledged. -/
theorem exists_ack_segment {ack : UInt32 × UInt32} (hack : ack ∈ kcp.acklist) :
    ∃ seg ∈ flushed kcp, seg.cmd = cmdAck ∧ seg.sn = ack.1 := by
  refine ⟨{ ackSegment kcp with sn := ack.1, ts := ack.2 }, ?_, rfl, rfl⟩
  apply List.mem_append_left
  apply List.mem_append_left
  exact List.mem_map_of_mem hack

end Carry

section Window

theorem sndUna_ikcpFlush (kcp : Ikcpcb) : (ikcpFlush kcp).1.sndUna = kcp.sndUna := by
  rw [ikcpFlush]
  split
  · rfl
  · exact (control_moveSent _ _ _).2.2.2.2

theorem current_ikcpFlush (kcp : Ikcpcb) : (ikcpFlush kcp).1.current = kcp.current := by
  rw [ikcpFlush]
  split
  · rfl
  · exact (control_moveSent _ _ _).1

theorem rmtWnd_ikcpFlush (kcp : Ikcpcb) : (ikcpFlush kcp).1.rmtWnd = kcp.rmtWnd := by
  rw [ikcpFlush]
  split
  · rfl
  · exact (control_moveSent _ _ _).2.1

theorem nextProbe_ikcpFlush (hu : kcp.updated = true) :
    (ikcpFlush kcp).1.probeWait = (nextProbe kcp).1 ∧ (ikcpFlush kcp).1.tsProbe = (nextProbe kcp).2.1 := by
  rw [ikcpFlush, if_neg (by simp [hu])]
  exact ⟨(control_moveSent _ _ _).2.2.1, (control_moveSent _ _ _).2.2.2.1⟩

/-- A window that has been closed is going to be probed. -/
theorem probeWait_ikcpFlush (hu : kcp.updated = true) (hw : kcp.rmtWnd = 0) (hp : kcp.probeWait = 0) :
    (ikcpFlush kcp).1.probeWait = probeInit := by
  rw [(nextProbe_ikcpFlush hu).1, nextProbe, if_pos hw, if_pos hp]

/-- Before its time the probe stays as it is. -/
theorem probe_ikcpFlush (hu : kcp.updated = true) (hw : kcp.rmtWnd = 0) (hp : kcp.probeWait ≠ 0)
    (ht : itimediff kcp.current kcp.tsProbe < 0) :
    (ikcpFlush kcp).1.probeWait = kcp.probeWait ∧ (ikcpFlush kcp).1.tsProbe = kcp.tsProbe := by
  obtain ⟨hwait, hts⟩ := nextProbe_ikcpFlush hu
  rw [hwait, hts, nextProbe, if_pos hw, if_neg hp, if_neg (Int.not_le.mpr ht)]
  exact ⟨rfl, rfl⟩

theorem and_or_distrib (p q mask : UInt32) : (p ||| q) &&& mask = (p &&& mask) ||| (q &&& mask) := by
  apply UInt32.toNat_inj.mp
  simp only [UInt32.toNat_and, UInt32.toNat_or, Nat.and_or_distrib_right]

theorem and_ne_zero_or {p q mask : UInt32} (h : p &&& mask ≠ 0 ∨ q &&& mask ≠ 0) : (p ||| q) &&& mask ≠ 0 := by
  rw [and_or_distrib, ne_eq, UInt32.or_eq_zero_iff]
  rintro ⟨hp, hq⟩
  exact h.elim (· hp) (· hq)

/-- When the time for it has come, the window is asked for. -/
theorem exists_wask_segment (hw : kcp.rmtWnd = 0) (hp : kcp.probeWait ≠ 0) (ht : 0 ≤ itimediff kcp.current kcp.tsProbe) :
    ∃ seg ∈ flushed kcp, seg.cmd = cmdWask := by
  have hprobe : (probeWindow kcp).probe &&& askSend ≠ 0 := by
    rw [probeWindow, nextProbe, if_pos hw, if_neg hp, if_pos ht]
    exact and_ne_zero_or (.inr (by decide))
  refine ⟨{ lastAck kcp (ackSegment kcp) with cmd := cmdWask }, ?_, rfl⟩
  apply List.mem_append_left
  apply List.mem_append_right
  apply List.mem_append_left
  rw [if_pos hprobe]
  exact List.mem_cons_self

/-- The window is to be told. -/
def Telling (kcp : Ikcpcb) : Prop := kcp.probe &&& askTell ≠ 0

theorem exists_wins_segment (h : Telling kcp) : ∃ seg, seg ∈ flushed kcp := by
  have hprobe : (probeWindow kcp).probe &&& askTell ≠ 0 := by
    simp only [probeWindow, nextProbe]
    split
    · split
      · exact h
      · split
        · exact and_ne_zero_or (.inl h)
        · exact h
    · exact h
  refine ⟨{ lastAck kcp (ackSegment kcp) with cmd := cmdWins }, ?_⟩
  apply List.mem_append_left
  apply List.mem_append_right
  apply List.mem_append_right
  rw [if_pos hprobe]
  exact List.mem_cons_self

theorem probe_inputPush (kcp : Ikcpcb) (w : Wire) : (inputPush kcp w).probe = kcp.probe := by
  simp only [inputPush]
  split
  · split
    · rcases parseData_cases (ackPush kcp w.sn w.ts) (receivedSegment w) with h | ⟨n, l, h⟩ <;> rw [h]
      · rfl
      · rw [moveReceived_eq]
        rfl
    · rfl
  · rfl

theorem probe_inputAck (kcp : Ikcpcb) (sn ts : UInt32) : (inputAck kcp sn ts).probe = kcp.probe := by
  have hack : (inputAck kcp sn ts).probe = (measureRtt kcp ts).probe := rfl
  rw [hack, measureRtt]
  split <;> rfl

/-- Being asked for the window is enough, and it is not forgotten. -/
theorem telling_inputSegment (kcp : Ikcpcb) (ack : Maxack) (w : Wire) (h : Telling kcp ∨ w.cmd = cmdWask) :
    Telling (inputSegment kcp ack w).1 := by
  have hkept (hw : w.cmd ≠ cmdWask) : Telling kcp := h.resolve_right hw
  rcases inputSegment_cases kcp ack w with ⟨hcmd, heq⟩ | ⟨hcmd, heq⟩ | ⟨-, heq⟩ | ⟨hcmd, heq⟩
  · rw [Telling, heq, probe_inputAck]
    exact hkept (by rw [hcmd]; decide)
  · rw [Telling, heq, probe_inputPush]
    exact hkept (by rw [hcmd]; decide)
  · rw [Telling, heq]
    exact and_ne_zero_or (.inr (by decide))
  · rw [Telling, heq]
    exact hkept hcmd

theorem telling_inputAll (kcp : Ikcpcb) (ack : Maxack) {ws : List Wire} (h : Telling kcp ∨ ∃ w ∈ ws, w.cmd = cmdWask) :
    Telling (inputAll kcp ack ws).1 := by
  induction ws generalizing kcp ack with
  | nil => exact h.resolve_right (by simp)
  | cons w ws ih =>
      apply ih
      rcases h with h | ⟨w', hw', hcmd⟩
      · exact .inl (telling_inputSegment kcp ack w (.inl h))
      · rcases List.mem_cons.mp hw' with rfl | hw'
        · exact .inl (telling_inputSegment kcp ack _ (.inr hcmd))
        · exact .inr ⟨w', hw', hcmd⟩

theorem telling_ikcpRecv (h : Telling kcp) (len : Int) : Telling (ikcpRecv kcp len).2.2 := by
  rcases ikcpRecv_cases kcp len with ⟨-, heq⟩ | ⟨-, -, recover, kcp', hkcp', heq⟩
  · rw [heq]
    exact h
  · have hmove : (moveReceived kcp' kcp'.rcvBuf).probe = kcp.probe := by
      rw [moveReceived_eq, hkcp']
      split <;> rfl
    rw [heq, Telling, fastRecover, hmove]
    split
    · exact and_ne_zero_or (.inl h)
    · exact h

theorem rmtWnd_inputSegment (kcp : Ikcpcb) (ack : Maxack) (w : Wire) : (inputSegment kcp ack w).1.rmtWnd = w.wnd.toUInt32 := by
  obtain ⟨l, heq, -, -⟩ := outbound_inputSegment kcp ack w
  exact congrArg Outbound.rmtWnd heq

/-- The window is the one of the last segment. -/
theorem rmtWnd_inputAll (kcp : Ikcpcb) (ack : Maxack) {ws : List Wire} {wnd : UInt16} (hne : ws ≠ [])
    (hws : ∀ w ∈ ws, w.wnd = wnd) : (inputAll kcp ack ws).1.rmtWnd = wnd.toUInt32 := by
  induction ws generalizing kcp ack with
  | nil => exact absurd rfl hne
  | cons w ws ih =>
      rw [inputAll_cons]
      by_cases hnil : ws = []
      · rw [hnil]
        exact (rmtWnd_inputSegment kcp ack w).trans (by rw [hws w List.mem_cons_self])
      · exact ih _ _ hnil fun w' hw' => hws w' (List.mem_cons_of_mem w hw')

namespace Endpoint

theorem telling_input (e : Endpoint) (h : ∃ w ∈ segmentsOf e.kcp.conv d, w.cmd = cmdWask) : Telling (e.input d).kcp := by
  have hall := telling_inputAll e.kcp none (.inr h)
  rcases ikcpInput_cases e.kcp d with heq | heq
  · rw [Endpoint.input, heq]
    exact hall
  · have hprobe (prevUna : UInt32) (kcp : Ikcpcb) (ack : Maxack) : (endInput prevUna kcp ack).probe = kcp.probe := by
      rcases endInput_cases prevUna kcp ack with heq | heq <;> rw [heq] <;> cases ack <;> rfl
    rw [Endpoint.input, heq, Telling, hprobe]
    exact hall

theorem rmtWnd_input (e : Endpoint) {wnd : UInt16} (hne : segmentsOf e.kcp.conv d ≠ [])
    (hws : ∀ w ∈ segmentsOf e.kcp.conv d, w.wnd = wnd) : (e.input d).kcp.rmtWnd = wnd.toUInt32 :=
  (congrArg Outbound.rmtWnd (outbound_input e d)).trans (rmtWnd_inputAll e.kcp none hne hws)

/-- There is room, and it is told. -/
theorem Intact.wndUnused_ne_zero (h : e.Intact 65535) (hq : e.kcp.rcvQueue.length < 128) :
    (wndUnused e.kcp).toUInt16.toUInt32 ≠ 0 := by
  have hlow : 128 ≤ e.kcp.rcvWnd.toNat := h.tuned.rcvWnd
  have hhigh : e.kcp.rcvWnd.toNat ≤ 65535 := h.receiver.window
  have hcount : e.kcp.nrcvQue.toNat = e.kcp.rcvQueue.length := h.receiver.queCount
  have hroom : e.kcp.nrcvQue < e.kcp.rcvWnd := UInt32.lt_iff_toNat_lt.mpr (by omega)
  intro hzero
  have hnat := congrArg UInt32.toNat hzero
  rw [UInt16.toNat_toUInt32, UInt32.toNat_toUInt16, wndUnused, if_pos hroom,
    UInt32.toNat_sub_of_le _ _ (UInt32.le_of_lt hroom)] at hnat
  change _ = 0 at hnat
  omega

end Endpoint

/-- After a flush the congestion window is open. -/
theorem cwnd_ikcpFlush (hu : kcp.updated = true) : 0 < (ikcpFlush kcp).1.cwnd.toNat := by
  have hwindows (kcp : Ikcpcb) (prior : UInt32) (timeouts fasts : Nat) :
      0 < (windowsAfter kcp prior timeouts fasts).cwnd.toNat := by
    simp only [windowsAfter]
    generalize (if timeouts > 0 then _ else _ : Windows) = w
    split
    · exact Nat.one_pos
    · next hge =>
      rw [UInt32.lt_iff_toNat_lt] at hge
      change ¬w.cwnd.toNat < 1 at hge
      omega
  rw [ikcpFlush, if_neg (by simp [hu])]
  exact hwindows _ _ _ _

theorem sendWindow_pos (hsnd : 0 < kcp.sndWnd.toNat) (hrmt : kcp.rmtWnd ≠ 0) (hcwnd : 0 < kcp.cwnd.toNat) :
    0 < (sendWindow kcp).toNat := by
  have hpos : 0 < kcp.rmtWnd.toNat := Nat.pos_of_ne_zero fun hzero => hrmt (UInt32.toNat_inj.mp hzero)
  simp only [sendWindow]
  split <;> simp only [UInt32.toNat_min] <;> omega

/-- An open window admits a segment if none is on its way. -/
theorem sndBuf_moveSent_ne_nil {cwnd : UInt32} {queue : List Ikcpseg} (hpos : 0 < cwnd.toNat) (hle : cwnd.toNat ≤ 65535)
    (hidle : kcp.sndUna = kcp.sndNxt) (hq : queue ≠ []) : (moveSent cwnd kcp queue).sndBuf ≠ [] := by
  obtain ⟨seg, rest, rfl⟩ := List.exists_cons_of_ne_nil hq
  have hlt : itimediff kcp.sndNxt (kcp.sndUna + cwnd) < 0 := by
    have hn := kcp.sndNxt.toNat_lt
    rw [hidle, itimediff_eq, UInt32.toNat_add, Int.bmod]
    omega
  have hpre := sndBuf_moveSent cwnd (sendNext kcp seg) rest
  rw [moveSent, if_pos hlt]
  intro hnil
  rw [hnil, List.prefix_nil] at hpre
  exact absurd hpre (by simp [sendNext])

/-- If the windows are open, there is something in `snd_buf` after a flush. -/
theorem sndBuf_ikcpFlush (hu : kcp.updated = true) (hsnd : 0 < kcp.sndWnd.toNat) (hrmt : kcp.rmtWnd ≠ 0)
    (hle : kcp.rmtWnd.toNat ≤ 65535) (hcwnd : 0 < kcp.cwnd.toNat)
    (hwait : kcp.sndBuf = [] → kcp.sndUna = kcp.sndNxt ∧ kcp.sndQueue ≠ []) : (ikcpFlush kcp).1.sndBuf ≠ [] := by
  have hslots : (ikcpFlush kcp).1.sndBuf.map slot = (flushQueue kcp).sndBuf.map slot :=
    congrArg Outbound.sndBuf (outbound_ikcpFlush hu)
  intro hnil
  rw [hnil, List.map_nil, eq_comm, List.map_eq_nil_iff] at hslots
  by_cases hbuf : kcp.sndBuf = []
  · obtain ⟨hidle, hq⟩ := hwait hbuf
    have hpos : 0 < (sendWindow { probeWindow { kcp with acklist := [] } with probe := 0 }).toNat :=
      sendWindow_pos hsnd hrmt hcwnd
    have hle' := ((sendWindow_le { probeWindow { kcp with acklist := [] } with probe := 0 }).trans (Nat.min_le_right _ _)).trans hle
    exact @sndBuf_moveSent_ne_nil { probeWindow { kcp with acklist := [] } with probe := 0 } _ _ hpos hle' hidle hq hslots
  · have hpre := sndBuf_flushQueue kcp
    rw [hslots, List.prefix_nil] at hpre
    exact hbuf hpre

end Window

end GameAccelerator.Ikcp
