import GameAccelerator.Ikcp

namespace GameAccelerator.Ikcp

open CString Serial SerialList
open LosslessKcp (cmdPush cmdAck)

/-- What a segment brings: the number of fragments that follow it, and its data. -/
abbrev Piece := Nat × Bytes

def piece (seg : Ikcpseg) : Piece := (seg.frg.toNat, seg.data)

/-- The part of a segment that does not change any more once it has a number. -/
structure Slot where
  conv : UInt32
  cmd : UInt8
  sn : UInt32
  piece : Piece

def slot (seg : Ikcpseg) : Slot := ⟨seg.conv, seg.cmd, seg.sn, piece seg⟩

/-- The part of a control block that is about what arrives. -/
structure Inbound where
  rcvNxt : UInt32
  rcvWnd : UInt32
  nrcvBuf : UInt32
  nrcvQue : UInt32
  rcvBuf : List Ikcpseg
  rcvQueue : List Ikcpseg

/-- The part that is about what is sent. -/
structure Outbound where
  sndUna : UInt32
  sndNxt : UInt32
  rmtWnd : UInt32
  nsndBuf : UInt32
  nsndQue : UInt32
  sndBuf : List Slot
  sndQueue : List Piece

/-- The part that only the user of the library sets. -/
structure Settings where
  conv : UInt32
  mtu : UInt32
  mss : UInt32
  sndWnd : UInt32
  rcvWnd : UInt32
  rxMinrto : UInt32
  interval : UInt32
  stream : Int32

namespace Ikcpcb

def inbound (kcp : Ikcpcb) : Inbound :=
  ⟨kcp.rcvNxt, kcp.rcvWnd, kcp.nrcvBuf, kcp.nrcvQue, kcp.rcvBuf, kcp.rcvQueue⟩

def outbound (kcp : Ikcpcb) : Outbound :=
  ⟨kcp.sndUna, kcp.sndNxt, kcp.rmtWnd, kcp.nsndBuf, kcp.nsndQue, kcp.sndBuf.map slot, kcp.sndQueue.map piece⟩

def settings (kcp : Ikcpcb) : Settings :=
  ⟨kcp.conv, kcp.mtu, kcp.mss, kcp.sndWnd, kcp.rcvWnd, kcp.rxMinrto, kcp.interval, kcp.stream⟩

end Ikcpcb

section Receive

/-- The loop takes a run of consecutive numbers off `rcv_buf`. -/
theorem moveReceived_eq (kcp : Ikcpcb) (l : List Ikcpseg) :
    moveReceived kcp l =
      let run := splitRun Ikcpseg.sn (kcp.rcvWnd.toNat - kcp.nrcvQue.toNat) kcp.rcvNxt l
      { kcp with
        rcvNxt := kcp.rcvNxt + .ofNat run.1.length
        nrcvBuf := kcp.nrcvBuf - .ofNat run.1.length
        nrcvQue := kcp.nrcvQue + .ofNat run.1.length
        rcvBuf := run.2
        rcvQueue := kcp.rcvQueue ++ run.1 } := by
  induction l generalizing kcp with
  | nil => simp [moveReceived, splitRun]
  | cons seg l ih =>
      rw [moveReceived, splitRun]
      by_cases h : seg.sn = kcp.rcvNxt ∧ kcp.nrcvQue < kcp.rcvWnd
      · have hlt := UInt32.lt_iff_toNat_lt.mp h.2
        have hnext : (kcp.nrcvQue + 1).toNat = kcp.nrcvQue.toNat + 1 := by
          have hmax := kcp.rcvWnd.toNat_lt
          rw [UInt32.toNat_add, UInt32.toNat_one]
          omega
        rw [if_pos h, if_pos ⟨h.1, Nat.sub_pos_of_lt hlt⟩, ih]
        simp [hnext, Nat.sub_sub, Nat.add_comm _ 1, UInt32.add_assoc, sub_sub]
      · have h' : ¬(seg.sn = kcp.rcvNxt ∧ 0 < kcp.rcvWnd.toNat - kcp.nrcvQue.toNat) :=
          fun h' => h ⟨h'.1, UInt32.lt_iff_toNat_lt.mpr (Nat.lt_of_sub_pos h'.2)⟩
        rw [if_neg h, if_neg h']
        simp

@[simp]
theorem outbound_moveReceived (kcp : Ikcpcb) (l : List Ikcpseg) : (moveReceived kcp l).outbound = kcp.outbound := by
  rw [moveReceived_eq]
  rfl

@[simp]
theorem settings_moveReceived (kcp : Ikcpcb) (l : List Ikcpseg) : (moveReceived kcp l).settings = kcp.settings := by
  rw [moveReceived_eq]
  rfl

@[simp]
theorem acklist_moveReceived (kcp : Ikcpcb) (l : List Ikcpseg) : (moveReceived kcp l).acklist = kcp.acklist := by
  rw [moveReceived_eq]

/-- What `ikcp_parse_data` leaves is the same control block, with a list for
`rcv_buf`, before and after its loop. -/
theorem parseData_cases (kcp : Ikcpcb) (seg : Ikcpseg) :
    parseData kcp seg = kcp ∨ ∃ n l, parseData kcp seg = moveReceived { kcp with nrcvBuf := n } l := by
  rw [parseData]
  split
  · exact .inl rfl
  · split
    · exact .inr ⟨_, _, rfl⟩
    · exact .inr ⟨_, _, rfl⟩

@[simp]
theorem outbound_parseData (kcp : Ikcpcb) (seg : Ikcpseg) : (parseData kcp seg).outbound = kcp.outbound := by
  rcases parseData_cases kcp seg with h | ⟨n, l, h⟩ <;> rw [h]
  exact outbound_moveReceived _ _

@[simp]
theorem settings_parseData (kcp : Ikcpcb) (seg : Ikcpseg) : (parseData kcp seg).settings = kcp.settings := by
  rcases parseData_cases kcp seg with h | ⟨n, l, h⟩ <;> rw [h]
  exact settings_moveReceived _ _

@[simp]
theorem acklist_parseData (kcp : Ikcpcb) (seg : Ikcpseg) : (parseData kcp seg).acklist = kcp.acklist := by
  rcases parseData_cases kcp seg with h | ⟨n, l, h⟩ <;> rw [h]
  exact acklist_moveReceived _ _

/-- What `ikcp_recv` leaves is the same control block with another queue,
before and after its loop. -/
theorem frame_ikcpRecv (kcp : Ikcpcb) (len : Int) :
    (ikcpRecv kcp len).2.2.outbound = kcp.outbound ∧ (ikcpRecv kcp len).2.2.settings = kcp.settings ∧
      (ikcpRecv kcp len).2.2.acklist = kcp.acklist := by
  have hmove (recover : Bool) (kcp' : Ikcpcb) :
      (fastRecover recover (moveReceived kcp' kcp'.rcvBuf)).outbound = kcp'.outbound ∧
        (fastRecover recover (moveReceived kcp' kcp'.rcvBuf)).settings = kcp'.settings ∧
        (fastRecover recover (moveReceived kcp' kcp'.rcvBuf)).acklist = kcp'.acklist :=
    ⟨outbound_moveReceived _ _, settings_moveReceived _ _, acklist_moveReceived _ _⟩
  rw [ikcpRecv]
  split
  · exact ⟨rfl, rfl, rfl⟩
  · split
    · exact ⟨rfl, rfl, rfl⟩
    · split
      · exact ⟨rfl, rfl, rfl⟩
      · by_cases hlen : len < 0
        · simp only [hlen, if_true]
          exact hmove _ kcp
        · simp only [hlen, if_false]
          exact hmove _ (removeMessage kcp)

end Receive

section Acknowledge

@[simp]
theorem inbound_measureRtt (kcp : Ikcpcb) (ts : UInt32) : (measureRtt kcp ts).inbound = kcp.inbound := by
  rw [measureRtt]
  split <;> rfl

@[simp]
theorem outbound_measureRtt (kcp : Ikcpcb) (ts : UInt32) : (measureRtt kcp ts).outbound = kcp.outbound := by
  rw [measureRtt]
  split <;> rfl

@[simp]
theorem settings_measureRtt (kcp : Ikcpcb) (ts : UInt32) : (measureRtt kcp ts).settings = kcp.settings := by
  rw [measureRtt]
  split <;> rfl

@[simp]
theorem acklist_measureRtt (kcp : Ikcpcb) (ts : UInt32) : (measureRtt kcp ts).acklist = kcp.acklist := by
  rw [measureRtt]
  split <;> rfl

@[simp]
theorem inbound_shrinkBuf (kcp : Ikcpcb) : (shrinkBuf kcp).inbound = kcp.inbound := rfl

@[simp]
theorem settings_shrinkBuf (kcp : Ikcpcb) : (shrinkBuf kcp).settings = kcp.settings := rfl

@[simp]
theorem acklist_shrinkBuf (kcp : Ikcpcb) : (shrinkBuf kcp).acklist = kcp.acklist := rfl

@[simp]
theorem inbound_parseAck (kcp : Ikcpcb) (sn : UInt32) : (parseAck kcp sn).inbound = kcp.inbound := rfl

@[simp]
theorem settings_parseAck (kcp : Ikcpcb) (sn : UInt32) : (parseAck kcp sn).settings = kcp.settings := rfl

@[simp]
theorem acklist_parseAck (kcp : Ikcpcb) (sn : UInt32) : (parseAck kcp sn).acklist = kcp.acklist := rfl

@[simp]
theorem inbound_inputAck (kcp : Ikcpcb) (sn ts : UInt32) : (inputAck kcp sn ts).inbound = kcp.inbound := by
  rw [inputAck, inbound_shrinkBuf, inbound_parseAck, inbound_measureRtt]

@[simp]
theorem settings_inputAck (kcp : Ikcpcb) (sn ts : UInt32) : (inputAck kcp sn ts).settings = kcp.settings := by
  rw [inputAck, settings_shrinkBuf, settings_parseAck, settings_measureRtt]

@[simp]
theorem acklist_inputAck (kcp : Ikcpcb) (sn ts : UInt32) : (inputAck kcp sn ts).acklist = kcp.acklist := by
  rw [inputAck, acklist_shrinkBuf, acklist_parseAck, acklist_measureRtt]

/-- Counting acknowledgements does not touch the slots. -/
theorem map_slot_countFastack (sn ts : UInt32) (l : List Ikcpseg) : (countFastack sn ts l).map slot = l.map slot := by
  induction l with
  | nil => rfl
  | cons seg l ih =>
      rw [countFastack]
      split
      · rfl
      · split <;> exact congrArg (slot seg :: ·) ih

@[simp]
theorem inbound_countAcks (kcp : Ikcpcb) (ack : Maxack) : (countAcks kcp ack).inbound = kcp.inbound := by
  cases ack <;> rfl

@[simp]
theorem settings_countAcks (kcp : Ikcpcb) (ack : Maxack) : (countAcks kcp ack).settings = kcp.settings := by
  cases ack <;> rfl

@[simp]
theorem acklist_countAcks (kcp : Ikcpcb) (ack : Maxack) : (countAcks kcp ack).acklist = kcp.acklist := by
  cases ack <;> rfl

@[simp]
theorem outbound_countAcks (kcp : Ikcpcb) (ack : Maxack) : (countAcks kcp ack).outbound = kcp.outbound := by
  rcases ack with _ | ⟨sn, ts⟩
  · rfl
  · simp only [countAcks, parseFastack, Ikcpcb.outbound]
    split
    · rw [map_slot_countFastack]
    · rfl

/-- Behind the last segment only windows and counts of acknowledgements change. -/
theorem endInput_cases (prevUna : UInt32) (kcp : Ikcpcb) (ack : Maxack) :
    endInput prevUna kcp ack = growCwnd (countAcks kcp ack) ∨ endInput prevUna kcp ack = countAcks kcp ack := by
  simp only [endInput]
  split
  · exact .inl rfl
  · exact .inr rfl

@[simp]
theorem inbound_endInput (prevUna : UInt32) (kcp : Ikcpcb) (ack : Maxack) :
    (endInput prevUna kcp ack).inbound = kcp.inbound := by
  rw [← inbound_countAcks kcp ack]
  rcases endInput_cases prevUna kcp ack with h | h <;> rw [h]
  rfl

@[simp]
theorem outbound_endInput (prevUna : UInt32) (kcp : Ikcpcb) (ack : Maxack) :
    (endInput prevUna kcp ack).outbound = kcp.outbound := by
  rw [← outbound_countAcks kcp ack]
  rcases endInput_cases prevUna kcp ack with h | h <;> rw [h]
  rfl

@[simp]
theorem settings_endInput (prevUna : UInt32) (kcp : Ikcpcb) (ack : Maxack) :
    (endInput prevUna kcp ack).settings = kcp.settings := by
  rw [← settings_countAcks kcp ack]
  rcases endInput_cases prevUna kcp ack with h | h <;> rw [h]
  rfl

@[simp]
theorem acklist_endInput (prevUna : UInt32) (kcp : Ikcpcb) (ack : Maxack) :
    (endInput prevUna kcp ack).acklist = kcp.acklist := by
  rw [← acklist_countAcks kcp ack]
  rcases endInput_cases prevUna kcp ack with h | h <;> rw [h]
  rfl

end Acknowledge

section Input

@[simp]
theorem outbound_inputPush (kcp : Ikcpcb) (w : Wire) : (inputPush kcp w).outbound = kcp.outbound := by
  simp only [inputPush]
  split
  · split
    · exact outbound_parseData _ _
    · rfl
  · rfl

@[simp]
theorem settings_inputPush (kcp : Ikcpcb) (w : Wire) : (inputPush kcp w).settings = kcp.settings := by
  simp only [inputPush]
  split
  · split
    · exact settings_parseData _ _
    · rfl
  · rfl

/-- The control block when the window and `una` of a segment have been read. -/
def takeUna (kcp : Ikcpcb) (w : Wire) : Ikcpcb := shrinkBuf (parseUna { kcp with rmtWnd := w.wnd.toUInt32 } w.una)

/-- What a segment does depends on its command. -/
theorem inputSegment_cases (kcp : Ikcpcb) (ack : Maxack) (w : Wire) :
    w.cmd = cmdAck ∧ (inputSegment kcp ack w).1 = inputAck (takeUna kcp w) w.sn w.ts ∨
      w.cmd = cmdPush ∧ (inputSegment kcp ack w).1 = inputPush (takeUna kcp w) w ∨
      w.cmd = cmdWask ∧ (inputSegment kcp ack w).1 = { takeUna kcp w with probe := kcp.probe ||| askTell } ∨
      w.cmd ≠ cmdWask ∧ (inputSegment kcp ack w).1 = takeUna kcp w := by
  simp only [inputSegment]
  split
  · next hack => exact .inl ⟨hack, rfl⟩
  · split
    · next hpush => exact .inr (.inl ⟨hpush, rfl⟩)
    · split
      · next hwask => exact .inr (.inr (.inl ⟨hwask, rfl⟩))
      · next hwask => exact .inr (.inr (.inr ⟨hwask, rfl⟩))

theorem settings_inputSegment (kcp : Ikcpcb) (ack : Maxack) (w : Wire) :
    (inputSegment kcp ack w).1.settings = kcp.settings := by
  have htake : (takeUna kcp w).settings = kcp.settings := rfl
  rcases inputSegment_cases kcp ack w with ⟨-, h⟩ | ⟨-, h⟩ | ⟨-, h⟩ | ⟨-, h⟩ <;> rw [h]
  · rw [settings_inputAck, htake]
  · rw [settings_inputPush, htake]
  · rfl
  · rfl

end Input

section Flush

/-- The loop over `snd_queue` only touches what is about sending. -/
theorem frame_moveSent (cwnd : UInt32) (kcp : Ikcpcb) (l : List Ikcpseg) :
    (moveSent cwnd kcp l).inbound = kcp.inbound ∧ (moveSent cwnd kcp l).settings = kcp.settings ∧
      (moveSent cwnd kcp l).acklist = kcp.acklist := by
  induction l generalizing kcp with
  | nil => exact ⟨rfl, rfl, rfl⟩
  | cons seg l ih =>
      rw [moveSent]
      split
      · exact ih (sendNext kcp seg)
      · exact ⟨rfl, rfl, rfl⟩

@[simp]
theorem inbound_flushQueue (kcp : Ikcpcb) : (flushQueue kcp).inbound = kcp.inbound := (frame_moveSent _ _ _).1

@[simp]
theorem settings_flushQueue (kcp : Ikcpcb) : (flushQueue kcp).settings = kcp.settings := (frame_moveSent _ _ _).2.1

@[simp]
theorem acklist_flushQueue (kcp : Ikcpcb) : (flushQueue kcp).acklist = [] := (frame_moveSent _ _ _).2.2

theorem slot_transmit (kcp : Ikcpcb) (seg : Ikcpseg) (reason : Reason) : slot (transmit kcp seg reason) = slot seg := by
  cases reason <;> rfl

/-- Sending a segment again does not touch its slot. -/
theorem map_slot_flushSegments (kcp : Ikcpcb) (l : List Ikcpseg) (o : Output) :
    (flushSegments kcp l o).segs.map slot = l.map slot := by
  induction l generalizing o with
  | nil => rfl
  | cons seg l ih =>
      rw [flushSegments]
      cases needsend kcp seg with
      | none => exact congrArg (slot seg :: ·) (ih o)
      | some reason =>
          simp only [List.map_cons, slot_transmit, ih]

variable {kcp : Ikcpcb}

theorem ikcpFlush_of_not_updated (h : kcp.updated = false) : ikcpFlush kcp = (kcp, []) := if_pos h

@[simp]
theorem inbound_ikcpFlush (kcp : Ikcpcb) : (ikcpFlush kcp).1.inbound = kcp.inbound := by
  rw [ikcpFlush]
  split
  · rfl
  · exact inbound_flushQueue kcp

@[simp]
theorem settings_ikcpFlush (kcp : Ikcpcb) : (ikcpFlush kcp).1.settings = kcp.settings := by
  rw [ikcpFlush]
  split
  · rfl
  · exact settings_flushQueue kcp

theorem acklist_ikcpFlush (h : kcp.updated = true) : (ikcpFlush kcp).1.acklist = [] := by
  rw [ikcpFlush, if_neg (by simp [h])]
  exact acklist_flushQueue kcp

theorem outbound_ikcpFlush (h : kcp.updated = true) : (ikcpFlush kcp).1.outbound = (flushQueue kcp).outbound := by
  rw [ikcpFlush, if_neg (by simp [h])]
  simp only [Ikcpcb.outbound, adjustCwnd, map_slot_flushSegments]

/-- The control block when the clock has been set. -/
def setClock (kcp : Ikcpcb) (current : UInt32) : Ikcpcb :=
  { kcp with current := current, updated := true, tsFlush := (nextFlush kcp current).2 }

theorem ikcpUpdate_cases (kcp : Ikcpcb) (current : UInt32) :
    ikcpUpdate kcp current = ikcpFlush (setClock kcp current) ∨ ikcpUpdate kcp current = (setClock kcp current, []) := by
  simp only [ikcpUpdate]
  split
  · exact .inl rfl
  · exact .inr rfl

end Flush

section Configure

/-- A number that is not negative keeps its value when it becomes unsigned. -/
theorem toNat_toUInt32 {n : Int32} (h : 0 ≤ n) : (n.toUInt32.toNat : Int) = n.toInt := by
  have hn : 0 ≤ n.toInt := Int32.le_iff_toInt_le.mp h
  have hlt := n.toUInt32.toNat_lt
  have hnat : n.toInt = (n.toUInt32.toNat : Int).bmod 4294967296 := BitVec.toInt_eq_toNat_bmod n.toBitVec
  rw [hnat, Int.bmod] at hn ⊢
  omega

theorem wnd_wndsize {rcvwnd : Int32} (h : rcvwnd > 0) : (max rcvwnd.toUInt32 wndRcv).toNat ≤ max rcvwnd.toInt.toNat 128 := by
  have heq := toNat_toUInt32 (Int32.le_of_lt h)
  have hw : wndRcv.toNat = 128 := rfl
  rw [UInt32.toNat_max, hw]
  omega

end Configure

end GameAccelerator.Ikcp
