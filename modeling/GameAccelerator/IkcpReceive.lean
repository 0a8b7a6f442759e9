import GameAccelerator.IkcpFrame

namespace GameAccelerator.Ikcp

open CString Serial SerialList
open LosslessKcp (cmdPush)

/-- The segments that can be moved to `rcv_queue`, and the others. -/
def Inbound.run (i : Inbound) : List Ikcpseg × List Ikcpseg :=
  splitRun Ikcpseg.sn (i.rcvWnd.toNat - i.nrcvQue.toNat) i.rcvNxt i.rcvBuf

/-- What `moveReceived` does, as one step. -/
def Inbound.move (i : Inbound) : Inbound :=
  { i with
    rcvNxt := i.rcvNxt + .ofNat i.run.1.length
    nrcvBuf := i.nrcvBuf - .ofNat i.run.1.length
    nrcvQue := i.nrcvQue + .ofNat i.run.1.length
    rcvBuf := i.run.2
    rcvQueue := i.rcvQueue ++ i.run.1 }

theorem Inbound.run_append (i : Inbound) : i.run.1 ++ i.run.2 = i.rcvBuf := splitRun_append _ _ _ _

theorem inbound_moveReceived (kcp : Ikcpcb) (l : List Ikcpseg) :
    (moveReceived kcp l).inbound = { kcp.inbound with rcvBuf := l }.move := by
  rw [moveReceived_eq]
  rfl

section Receiver

/-- How many segments have gone to `rcv_queue`, of which `taken` have been
received. -/
def Inbound.released (i : Inbound) (taken : List Piece) : Nat := taken.length + i.rcvQueue.length

/-- Segments up to the next one and those in `rcv_buf` need not be sent again. -/
def Inbound.Has (i : Inbound) (taken : List Piece) (n : Nat) : Prop :=
  n < i.released taken ∨ ∃ seg ∈ i.rcvBuf, index (i.released taken) seg.sn = n

/-- Nothing that has arrived gets lost. -/
structure Inbound.Advances (i : Inbound) (taken : List Piece) (i' : Inbound) (taken' : List Piece) : Prop where
  released : i.released taken ≤ i'.released taken'
  has : ∀ n, i.Has taken n → i'.Has taken' n

theorem Inbound.Advances.refl (i : Inbound) (taken : List Piece) : i.Advances taken i taken := ⟨le_rfl, fun _ hn => hn⟩

theorem Inbound.Advances.trans {i i' i'' : Inbound} {taken taken' taken'' : List Piece} (h : i.Advances taken i' taken')
    (h' : i'.Advances taken' i'' taken'') : i.Advances taken i'' taken'' :=
  ⟨h.released.trans h'.released, fun n hn => h'.has n (h.has n hn)⟩

/-- The segments that have been taken and those that are there follow each
other, and the piece with number `n` is one that `allowed` admits. At most
`bound` segments are in each of the lists. -/
structure Receiver (allowed : Nat → Piece → Prop) (bound : Nat) (taken : List Piece) (i : Inbound) : Prop where
  nxt : i.rcvNxt = .ofNat (i.released taken)
  held : Ascending Ikcpseg.sn (i.released taken) (i.released taken + bound) i.rcvBuf
  bufCount : i.nrcvBuf = .ofNat i.rcvBuf.length
  queCount : i.nrcvQue.toNat = i.rcvQueue.length
  window : i.rcvWnd.toNat ≤ bound
  room : i.rcvQueue.length ≤ bound
  heldAllowed : ∀ seg ∈ i.rcvBuf, allowed (index (i.released taken) seg.sn) (piece seg)
  releasedAllowed : ∀ n p, (taken ++ i.rcvQueue.map piece)[n]? = some p → allowed n p

variable {allowed : Nat → Piece → Prop} {bound : Nat} {taken : List Piece} {i : Inbound} {n : Nat}

theorem Receiver.create (hb : 128 ≤ bound) (conv : UInt32) : Receiver allowed bound [] (ikcpCreate conv).inbound where
  nxt := rfl
  held := .nil
  bufCount := rfl
  queCount := rfl
  window := hb
  room := Nat.zero_le bound
  heldAllowed := by simp [ikcpCreate, Ikcpcb.inbound]
  releasedAllowed := by simp [ikcpCreate, Ikcpcb.inbound]

section Move

theorem Inbound.released_move (i : Inbound) (taken : List Piece) :
    i.move.released taken = i.released taken + i.run.1.length := by
  simp [Inbound.released, Inbound.move, Nat.add_assoc]

theorem Receiver.index_run (h : Receiver allowed bound taken i) {k : Nat} {seg : Ikcpseg} (hk : i.run.1[k]? = some seg) :
    index (i.released taken) seg.sn = i.released taken + k := by
  have hroom : i.rcvWnd.toNat - i.nrcvQue.toNat ≤ 4294967296 := by
    have := i.rcvWnd.toNat_lt
    omega
  rw [Inbound.run, h.nxt] at hk
  exact splitRun_index hroom hk

/-- The segments that stay in `rcv_buf` keep their numbers. -/
theorem Receiver.index_move (h : Receiver allowed bound taken i) {seg : Ikcpseg} (hseg : seg ∈ i.run.2) :
    index (i.move.released taken) seg.sn = index (i.released taken) seg.sn := by
  rw [i.released_move]
  apply index_of_le (Nat.le_add_right _ _)
  rw [Inbound.run, h.nxt] at hseg ⊢
  exact h.held.le_of_mem_splitRun _ seg hseg

theorem Receiver.advances_move (h : Receiver allowed bound taken i) : i.Advances taken i.move taken := by
  have hle : i.released taken ≤ i.move.released taken := by
    rw [i.released_move]
    exact Nat.le_add_right _ _
  refine ⟨hle, ?_⟩
  rintro n (hn | ⟨seg, hseg, rfl⟩)
  · exact .inl (hn.trans_le hle)
  · rw [← i.run_append, List.mem_append] at hseg
    rcases hseg with hseg | hseg
    · obtain ⟨k, hk⟩ := List.mem_iff_getElem?.mp hseg
      left
      rw [h.index_run hk, i.released_move]
      exact Nat.add_lt_add_left (List.getElem?_eq_some_iff.mp hk).1 _
    · exact .inr ⟨seg, hseg, h.index_move hseg⟩

/-- Moving brings nothing new. -/
theorem Receiver.has_move (h : Receiver allowed bound taken i) (hn : i.move.Has taken n) : i.Has taken n := by
  rcases hn with hn | ⟨seg, hseg, rfl⟩
  · rw [i.released_move] at hn
    by_cases hlt : n < i.released taken
    · exact .inl hlt
    · obtain ⟨k, rfl⟩ := Nat.exists_eq_add_of_le (Nat.not_lt.mp hlt)
      have hk : k < i.run.1.length := Nat.lt_of_add_lt_add_left hn
      refine .inr ⟨i.run.1[k], ?_, h.index_run (List.getElem?_eq_getElem hk)⟩
      rw [← i.run_append]
      exact List.mem_append_left _ (List.getElem_mem hk)
  · refine .inr ⟨seg, ?_, (h.index_move hseg).symm⟩
    rw [← i.run_append]
    exact List.mem_append_right _ hseg

theorem Receiver.move (h : Receiver allowed bound taken i) : Receiver allowed bound taken i.move := by
  have hrun : i.run.1.length ≤ i.rcvWnd.toNat - i.nrcvQue.toNat := splitRun_length_le _ _ _ _
  have hlen := congrArg List.length i.run_append
  rw [List.length_append] at hlen
  have ⟨hnxt, hheld, hbuf, hque, hwindow, hroom, hallowed, hreleased⟩ := h
  constructor
  · rw [i.released_move, UInt32.ofNat_add, ← hnxt]
    rfl
  · have hasc := hheld.splitRun (i.rcvWnd.toNat - i.nrcvQue.toNat)
    rw [← hnxt] at hasc
    rw [i.released_move]
    exact hasc.mono (Nat.add_le_add_right (Nat.le_add_right _ _) bound)
  · simp only [Inbound.move]
    rw [hbuf, ← hlen, UInt32.ofNat_add]
    grind
  · have hwnd := i.rcvWnd.toNat_lt
    have hmax := i.nrcvQue.toNat_lt
    rw [Inbound.move, UInt32.toNat_add, UInt32.toNat_ofNat', List.length_append]
    omega
  · exact hwindow
  · simp only [Inbound.move, List.length_append]
    omega
  · intro seg hseg
    rw [h.index_move hseg]
    apply hallowed seg
    rw [← i.run_append]
    exact List.mem_append_right _ hseg
  · intro n p hp
    simp only [Inbound.move, List.map_append] at hp
    rw [← List.append_assoc] at hp
    by_cases hn : n < (taken ++ i.rcvQueue.map piece).length
    · rw [List.getElem?_append_left hn] at hp
      exact hreleased n p hp
    · rw [List.getElem?_append_right (Nat.not_lt.mp hn), List.getElem?_map] at hp
      obtain ⟨seg, hseg, rfl⟩ := Option.map_eq_some_iff.mp hp
      have hmem : seg ∈ i.rcvBuf := by
        rw [← i.run_append]
        exact List.mem_append_left _ (List.mem_of_getElem? hseg)
      have hidx := h.index_run hseg
      have hadd : i.released taken + (n - (taken ++ i.rcvQueue.map piece).length) = n := by
        rw [List.length_append, List.length_map] at hn ⊢
        rw [Inbound.released]
        omega
      rw [hadd] at hidx
      rw [← hidx]
      exact hallowed seg hmem

end Move

section Offer

/-- The window is compared on the circle. -/
theorem Receiver.lt_window (h : Receiver allowed bound taken i) (hb : bound ≤ 2147483648) {sn : UInt32}
    (hwin : itimediff sn (i.rcvNxt + i.rcvWnd) < 0) (hnew : 0 ≤ itimediff sn i.rcvNxt) :
    index (i.released taken) sn < i.released taken + i.rcvWnd.toNat := by
  have hw := h.window
  have hsum : i.rcvNxt + i.rcvWnd = .ofNat (i.released taken + i.rcvWnd.toNat) := by
    rw [UInt32.ofNat_add, ← h.nxt, UInt32.ofNat_toNat]
  rw [h.nxt] at hnew
  have hlt := (diff_base_nonneg_iff (i.released taken) sn).mp hnew
  have hle := le_index (i.released taken) sn
  rw [hsum, itimediff, ← ofNat_index (i.released taken) sn, diff_ofNat (by omega) (by omega)] at hwin
  omega

/-- The buffer with a segment that has been put in its place, unless there is
one with its number. -/
def Inbound.put (i : Inbound) (seg : Ikcpseg) : Inbound :=
  match insert Ikcpseg.sn seg i.rcvBuf with
  | none => i
  | some rcvBuf => { i with nrcvBuf := i.nrcvBuf + 1, rcvBuf := rcvBuf }

theorem inbound_parseData (kcp : Ikcpcb) (seg : Ikcpseg) :
    (parseData kcp seg).inbound =
      if itimediff seg.sn (kcp.rcvNxt + kcp.rcvWnd) ≥ 0 ∨ itimediff seg.sn kcp.rcvNxt < 0 then kcp.inbound
      else (kcp.inbound.put seg).move := by
  rw [parseData]
  split
  · rfl
  · have hbuf : kcp.inbound.rcvBuf = kcp.rcvBuf := rfl
    rw [Inbound.put, hbuf]
    cases insert Ikcpseg.sn seg kcp.rcvBuf <;> exact inbound_moveReceived _ _

variable {seg : Ikcpseg}

theorem Inbound.advances_put (i : Inbound) (taken : List Piece) (seg : Ikcpseg) : i.Advances taken (i.put seg) taken := by
  rw [Inbound.put]
  split
  · exact .refl i taken
  · next l hl =>
    refine ⟨le_rfl, ?_⟩
    rintro n (hn | ⟨old, hold, rfl⟩)
    · exact .inl hn
    · exact .inr ⟨old, (insert_perm hl).mem_iff.mpr (List.mem_cons_of_mem seg hold), rfl⟩

theorem Inbound.has_put (i : Inbound) (seg : Ikcpseg) : (i.put seg).Has taken (index (i.released taken) seg.sn) := by
  rw [Inbound.put]
  split
  · next hl =>
    obtain ⟨old, hold, hsn⟩ := exists_of_insert_eq_none hl
    exact .inr ⟨old, hold, by rw [hsn]⟩
  · next l hl => exact .inr ⟨seg, (insert_perm hl).mem_iff.mpr List.mem_cons_self, rfl⟩

theorem Receiver.put (h : Receiver allowed bound taken i) (hb : bound ≤ 2147483648)
    (hlt : index (i.released taken) seg.sn < i.released taken + i.rcvWnd.toNat)
    (hseg : allowed (index (i.released taken) seg.sn) (piece seg)) : Receiver allowed bound taken (i.put seg) := by
  rw [Inbound.put]
  split
  · exact h
  · next l hl =>
    have hperm := insert_perm hl
    have hlt' := hlt.trans_le (Nat.add_le_add_left h.window _)
    refine ⟨h.nxt, h.held.insert (Nat.add_le_add_left hb _) hlt' hl, ?_, h.queCount, h.window, h.room, ?_, h.releasedAllowed⟩
    · rw [hperm.length_eq, List.length_cons, ofNat_succ, ← h.bufCount]
    · intro old hold
      rcases List.mem_cons.mp (hperm.mem_iff.mp hold) with rfl | hold
      · exact hseg
      · exact h.heldAllowed old hold

/-- A segment in the window is taken, so that it need not be sent again. -/
theorem Receiver.parseData {kcp : Ikcpcb} (h : Receiver allowed bound taken kcp.inbound) (hb : bound ≤ 2147483648)
    (seg : Ikcpseg) (hwin : itimediff seg.sn (kcp.rcvNxt + kcp.rcvWnd) < 0) (hnew : 0 ≤ itimediff seg.sn kcp.rcvNxt)
    (hseg : allowed (index (kcp.inbound.released taken) seg.sn) (piece seg)) :
    Receiver allowed bound taken (parseData kcp seg).inbound ∧
      kcp.inbound.Advances taken (Ikcp.parseData kcp seg).inbound taken ∧
      (Ikcp.parseData kcp seg).inbound.Has taken (index (kcp.inbound.released taken) seg.sn) := by
  have hput := h.put hb (h.lt_window hb hwin hnew) hseg
  rw [inbound_parseData, if_neg (by omega)]
  exact ⟨hput.move, (Inbound.advances_put _ _ _).trans hput.advances_move, hput.advances_move.has _ (Inbound.has_put _ _)⟩

end Offer

section Input

variable {kcp : Ikcpcb}

/-- A segment is acknowledged if it is old or has been taken. -/
def Answers (kcp : Ikcpcb) (taken : List Piece) (w : Wire) (kcp' : Ikcpcb) : Prop :=
  kcp'.acklist = kcp.acklist ∨ w.cmd = cmdPush ∧ kcp'.acklist = kcp.acklist ++ [(w.sn, w.ts)] ∧
    (itimediff w.sn kcp.rcvNxt < 0 ∨
      0 ≤ itimediff w.sn kcp.rcvNxt ∧ kcp'.inbound.Has taken (index (kcp.inbound.released taken) w.sn))

theorem Receiver.inputPush (h : Receiver allowed bound taken kcp.inbound) (hb : bound ≤ 2147483648) {w : Wire}
    (hcmd : w.cmd = cmdPush)
    (hw : 0 ≤ itimediff w.sn kcp.rcvNxt → allowed (index (kcp.inbound.released taken) w.sn) (w.frg.toNat, w.data)) :
    Receiver allowed bound taken (inputPush kcp w).inbound ∧
      kcp.inbound.Advances taken (Ikcp.inputPush kcp w).inbound taken ∧ Answers kcp taken w (Ikcp.inputPush kcp w) := by
  simp only [Ikcp.inputPush]
  split
  · next hwin =>
    split
    · next hnew =>
      have h' : Receiver allowed bound taken (ackPush kcp w.sn w.ts).inbound := h
      have hpiece : piece (receivedSegment w) = (w.frg.toNat, w.data) := by
        rw [← UInt8.toNat_toUInt32]
        rfl
      rw [← hpiece] at hw
      obtain ⟨hrecv, hadv, hhas⟩ := h'.parseData hb (receivedSegment w) hwin hnew (hw hnew)
      exact ⟨hrecv, hadv, .inr ⟨hcmd, acklist_parseData _ _, .inr ⟨hnew, hhas⟩⟩⟩
    · next hold => exact ⟨h, .refl _ _, .inr ⟨hcmd, rfl, .inl (Int.not_le.mp hold)⟩⟩
  · exact ⟨h, .refl _ _, .inl rfl⟩

/-- What any segment does to the receiving part. -/
theorem Receiver.inputSegment (h : Receiver allowed bound taken kcp.inbound) (hb : bound ≤ 2147483648) (ack : Maxack)
    {w : Wire} (hw : w.cmd = cmdPush → 0 ≤ itimediff w.sn kcp.rcvNxt →
      allowed (index (kcp.inbound.released taken) w.sn) (w.frg.toNat, w.data)) :
    Receiver allowed bound taken (inputSegment kcp ack w).1.inbound ∧
      kcp.inbound.Advances taken (Ikcp.inputSegment kcp ack w).1.inbound taken ∧
      Answers kcp taken w (Ikcp.inputSegment kcp ack w).1 := by
  have h' : Receiver allowed bound taken (takeUna kcp w).inbound := h
  rcases inputSegment_cases kcp ack w with ⟨-, heq⟩ | ⟨hcmd, heq⟩ | ⟨-, heq⟩ | ⟨-, heq⟩ <;> rw [heq]
  · rw [inbound_inputAck]
    exact ⟨h, .refl _ _, .inl (acklist_inputAck _ _ _)⟩
  · exact h'.inputPush hb hcmd (hw hcmd)
  · exact ⟨h, .refl _ _, .inl rfl⟩
  · exact ⟨h, .refl _ _, .inl rfl⟩

end Input

section Take

variable {kcp : Ikcpcb}

theorem takeMessage_append (queue : List Ikcpseg) : (takeMessage queue).1 ++ (takeMessage queue).2 = queue :=
  Countdown.splitMessage_append _ _

/-- The first message of `rcv_queue` counts as taken. -/
theorem released_removeMessage (kcp : Ikcpcb) (taken : List Piece) :
    (removeMessage kcp).inbound.released (taken ++ (takeMessage kcp.rcvQueue).1.map piece) =
      kcp.inbound.released taken := by
  have hlen := congrArg List.length (takeMessage_append kcp.rcvQueue)
  rw [List.length_append] at hlen
  simp only [Inbound.released, Ikcpcb.inbound, removeMessage, List.length_append, List.length_map]
  omega

theorem Receiver.removeMessage (h : Receiver allowed bound taken kcp.inbound) :
    Receiver allowed bound (taken ++ (takeMessage kcp.rcvQueue).1.map piece) (removeMessage kcp).inbound := by
  have hrel := released_removeMessage kcp taken
  have happ := takeMessage_append kcp.rcvQueue
  have hlen := congrArg List.length happ
  rw [List.length_append] at hlen
  have ⟨hnxt, hheld, hbuf, hque, hwindow, hroom, hallowed, hreleased⟩ := h
  constructor
  · rw [hrel]
    exact hnxt
  · rw [hrel]
    exact hheld
  · exact hbuf
  · have hmax := kcp.nrcvQue.toNat_lt
    simp only [Ikcpcb.inbound, Ikcp.removeMessage] at hque ⊢
    have hle : UInt32.ofNat (takeMessage kcp.rcvQueue).1.length ≤ kcp.nrcvQue := by
      rw [UInt32.le_iff_toNat_le, UInt32.toNat_ofNat']
      omega
    rw [UInt32.toNat_sub_of_le _ _ hle, UInt32.toNat_ofNat']
    omega
  · exact hwindow
  · simp only [Ikcpcb.inbound, Ikcp.removeMessage] at hroom ⊢
    omega
  · rw [hrel]
    exact hallowed
  · intro n p hp
    apply hreleased n p
    rw [← hp, List.append_assoc]
    simp only [Ikcpcb.inbound, Ikcp.removeMessage]
    rw [← List.map_append, happ]

/-- What a call has taken off `rcv_queue`. -/
def recvTaken (kcp : Ikcpcb) (len : Int) : List Piece :=
  if (ikcpRecv kcp len).1 < 0 ∨ len < 0 then [] else (takeMessage kcp.rcvQueue).1.map piece

/-- A call fails and changes nothing, or it returns the first message. -/
theorem ikcpRecv_cases (kcp : Ikcpcb) (len : Int) :
    ((ikcpRecv kcp len).1 < 0 ∧ (ikcpRecv kcp len).2 = ([], kcp)) ∨
      (0 ≤ ikcpPeeksize kcp ∧ kcp.rcvQueue ≠ [] ∧ ∃ recover kcp', kcp' = (if len < 0 then kcp else removeMessage kcp) ∧
        ikcpRecv kcp len = (((merged (takeMessage kcp.rcvQueue).1).length : Int), merged (takeMessage kcp.rcvQueue).1,
          fastRecover recover (moveReceived kcp' kcp'.rcvBuf))) := by
  rw [ikcpRecv]
  split
  · exact .inl ⟨Int.negSucc_lt_zero _, rfl⟩
  · next hne =>
    split
    · exact .inl ⟨Int.negSucc_lt_zero _, rfl⟩
    · split
      · exact .inl ⟨Int.negSucc_lt_zero _, rfl⟩
      · exact .inr ⟨by omega, hne, _, _, rfl, rfl⟩

/-- A call changes nothing, or it takes what is to be taken and moves what has
room then. -/
theorem Receiver.recv_cases (h : Receiver allowed bound taken kcp.inbound) (len : Int) :
    (recvTaken kcp len = [] ∧ (Ikcp.ikcpRecv kcp len).2.2.inbound = kcp.inbound) ∨
      ∃ i, Receiver allowed bound (taken ++ recvTaken kcp len) i ∧
        i.released (taken ++ recvTaken kcp len) = kcp.inbound.released taken ∧ i.rcvBuf = kcp.rcvBuf ∧
        (Ikcp.ikcpRecv kcp len).2.2.inbound = i.move := by
  rw [recvTaken]
  rcases ikcpRecv_cases kcp len with ⟨hneg, heq⟩ | ⟨-, -, recover, kcp', hkcp', heq⟩
  · rw [if_pos (.inl hneg), heq]
    exact .inl ⟨rfl, rfl⟩
  · have hin : (fastRecover recover (moveReceived kcp' kcp'.rcvBuf)).inbound = kcp'.inbound.move :=
      inbound_moveReceived kcp' kcp'.rcvBuf
    rw [heq, hin]
    by_cases hlen : len < 0
    · rw [if_pos hlen] at hkcp'
      rw [if_pos (.inr hlen), List.append_nil, hkcp']
      exact .inr ⟨_, h, rfl, rfl, rfl⟩
    · rw [if_neg hlen] at hkcp'
      rw [if_neg (by simp; omega), hkcp']
      exact .inr ⟨_, h.removeMessage, released_removeMessage kcp taken, rfl, rfl⟩

theorem Receiver.ikcpRecv (h : Receiver allowed bound taken kcp.inbound) (len : Int) :
    Receiver allowed bound (taken ++ recvTaken kcp len) (ikcpRecv kcp len).2.2.inbound ∧
      kcp.inbound.Advances taken (Ikcp.ikcpRecv kcp len).2.2.inbound (taken ++ recvTaken kcp len) := by
  rcases h.recv_cases len with ⟨htaken, heq⟩ | ⟨i, hi, hrel, hbuf, heq⟩
  · rw [htaken, heq, List.append_nil]
    exact ⟨h, .refl _ _⟩
  · have hadv : kcp.inbound.Advances taken i (taken ++ recvTaken kcp len) := by
      refine ⟨hrel.ge, fun n hn => ?_⟩
      rw [Inbound.Has, hrel, hbuf]
      exact hn
    rw [heq]
    exact ⟨hi.move, hadv.trans hi.advances_move⟩

/-- A call brings nothing that has not been there before. -/
theorem Receiver.has_ikcpRecv (h : Receiver allowed bound taken kcp.inbound) {len : Int}
    (hn : (Ikcp.ikcpRecv kcp len).2.2.inbound.Has (taken ++ recvTaken kcp len) n) : kcp.inbound.Has taken n := by
  rcases h.recv_cases len with ⟨htaken, heq⟩ | ⟨i, hi, hrel, hbuf, heq⟩
  · rwa [htaken, heq, List.append_nil] at hn
  · rw [heq] at hn
    have hbefore := hi.has_move hn
    rwa [Inbound.Has, hrel, hbuf] at hbefore

/-- The first segment of the queue tells whether its message is complete. -/
theorem ikcpPeeksize_cons {seg : Ikcpseg} {queue : List Ikcpseg} (hc : kcp.nrcvQue.toNat = kcp.rcvQueue.length)
    (hq : kcp.rcvQueue = seg :: queue) :
    ikcpPeeksize kcp = if seg.frg.toNat ≤ queue.length then ((merged (takeMessage kcp.rcvQueue).1).length : Int) else -1 := by
  rw [hq, List.length_cons] at hc
  simp only [ikcpPeeksize, hq, hc]
  by_cases hfrg : seg.frg = 0
  · simp [hfrg, takeMessage, Countdown.splitMessage, merged]
  · rw [if_neg hfrg]
    by_cases hle : seg.frg.toNat ≤ queue.length
    · rw [if_pos hle, if_neg (by omega)]
    · rw [if_neg hle, if_pos (by omega)]

end Take

end Receiver

end GameAccelerator.Ikcp
