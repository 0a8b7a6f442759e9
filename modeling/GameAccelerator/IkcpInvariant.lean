import GameAccelerator.IkcpEndpoint

namespace GameAccelerator.Ikcp

open CString Serial SerialList Countdown
open Kcp (ikcpGetconv)
open LosslessKcp (cmdPush cmdAck encodeSeg)

section Timeout

/-- The retransmission timeout is between 30 ms and a minute. -/
def Timed (rto : UInt32) : Prop := 30 ≤ rto.toNat ∧ rto.toNat ≤ 60000

theorem timed_ibound {lower : UInt32} (hl : 30 ≤ lower.toNat ∧ lower.toNat ≤ 100) (middle : UInt32) :
    Timed (ibound lower middle rtoMax) := by
  have hmax : rtoMax.toNat = 60000 := rfl
  rw [Timed, ibound, UInt32.toNat_min, UInt32.toNat_max, hmax]
  omega

@[simp]
theorem rxRto_moveReceived (kcp : Ikcpcb) (l : List Ikcpseg) : (moveReceived kcp l).rxRto = kcp.rxRto := by
  rw [moveReceived_eq]

theorem rxRto_inputPush (kcp : Ikcpcb) (w : Wire) : (inputPush kcp w).rxRto = kcp.rxRto := by
  simp only [inputPush]
  split
  · split
    · rcases parseData_cases (ackPush kcp w.sn w.ts) (receivedSegment w) with h | ⟨n, l, h⟩ <;> rw [h]
      · rfl
      · exact rxRto_moveReceived _ _
    · rfl
  · rfl

/-- Only a measured round trip changes the timeout. -/
theorem rxRto_inputSegment (kcp : Ikcpcb) (ack : Maxack) (w : Wire) :
    (inputSegment kcp ack w).1.rxRto = kcp.rxRto ∨
      ∃ rto, (inputSegment kcp ack w).1.rxRto = ibound kcp.rxMinrto rto rtoMax := by
  rcases inputSegment_cases kcp ack w with ⟨-, heq⟩ | ⟨-, heq⟩ | ⟨-, heq⟩ | ⟨-, heq⟩ <;> rw [heq]
  · have hack (kcp : Ikcpcb) : (inputAck kcp w.sn w.ts).rxRto = (measureRtt kcp w.ts).rxRto := rfl
    rw [hack, measureRtt]
    split
    · exact .inr ⟨_, rfl⟩
    · exact .inl rfl
  · exact .inl (rxRto_inputPush _ _)
  · exact .inl rfl
  · exact .inl rfl

theorem rxRto_endInput (prevUna : UInt32) (kcp : Ikcpcb) (ack : Maxack) : (endInput prevUna kcp ack).rxRto = kcp.rxRto := by
  rcases endInput_cases prevUna kcp ack with h | h <;> rw [h] <;> cases ack <;> rfl

theorem rxRto_ikcpRecv (kcp : Ikcpcb) (len : Int) : (ikcpRecv kcp len).2.2.rxRto = kcp.rxRto := by
  rcases ikcpRecv_cases kcp len with ⟨-, h⟩ | ⟨-, -, recover, kcp', hkcp', h⟩
  · rw [h]
  · rw [h, hkcp']
    simp only [fastRecover, rxRto_moveReceived]
    split <;> rfl

theorem rxRto_moveSent (cwnd : UInt32) (kcp : Ikcpcb) (l : List Ikcpseg) : (moveSent cwnd kcp l).rxRto = kcp.rxRto := by
  induction l generalizing kcp with
  | nil => rfl
  | cons seg l ih =>
      rw [moveSent]
      split
      · exact ih (sendNext kcp seg)
      · rfl

theorem rxRto_ikcpFlush (kcp : Ikcpcb) : (ikcpFlush kcp).1.rxRto = kcp.rxRto := by
  rw [ikcpFlush]
  split
  · rfl
  · exact rxRto_moveSent _ _ _

end Timeout

section Moved

/-- The next segment does not wait in `rcv_buf` while there is room for it. -/
def Inbound.Moved (i : Inbound) : Prop := ∀ seg ∈ i.rcvBuf, seg.sn = i.rcvNxt → 128 ≤ i.rcvQueue.length

variable {allowed : Nat → Piece → Prop} {bound : Nat} {taken : List Piece} {i : Inbound} {kcp : Ikcpcb}

theorem Receiver.moved_move (h : Receiver allowed bound taken i) (hw : 128 ≤ i.rcvWnd.toNat) : i.move.Moved := by
  intro seg hseg hsn
  have hnxt : i.move.rcvNxt = .ofNat (i.released taken + i.run.1.length) := by
    rw [UInt32.ofNat_add, ← h.nxt]
    rfl
  have hlen : i.move.rcvQueue.length = i.rcvQueue.length + i.run.1.length := List.length_append
  have hcount := h.queCount
  have hfull : ¬i.run.1.length < i.rcvWnd.toNat - i.nrcvQue.toNat := by
    intro hlt
    rw [hnxt] at hsn
    have hmax := splitRun_maximal h.held (i.rcvWnd.toNat - i.nrcvQue.toNat)
    rw [← h.nxt] at hmax
    exact hmax hlt seg hseg hsn
  omega

theorem Receiver.moved_inputPush (h : Receiver (fun _ _ => True) bound taken kcp.inbound) (hb : bound ≤ 2147483648)
    (hw : 128 ≤ kcp.rcvWnd.toNat) (hm : kcp.inbound.Moved) (w : Wire) : (Ikcp.inputPush kcp w).inbound.Moved := by
  simp only [Ikcp.inputPush]
  split
  · next hwin =>
    split
    · next hnew =>
      have h' : Receiver (fun _ _ => True) bound taken (ackPush kcp w.sn w.ts).inbound := h
      have hput := h'.put hb (show index _ (receivedSegment w).sn < _ from h.lt_window hb hwin hnew) trivial
      have hwnd : ((ackPush kcp w.sn w.ts).inbound.put (receivedSegment w)).rcvWnd = kcp.rcvWnd := by
        rw [Inbound.put]
        split <;> rfl
      rw [inbound_parseData]
      split
      · exact hm
      · exact hput.moved_move (by rwa [hwnd])
    · exact hm
  · exact hm

theorem Receiver.moved_inputSegment (h : Receiver (fun _ _ => True) bound taken kcp.inbound) (hb : bound ≤ 2147483648)
    (hw : 128 ≤ kcp.rcvWnd.toNat) (hm : kcp.inbound.Moved) (ack : Maxack) (w : Wire) :
    (Ikcp.inputSegment kcp ack w).1.inbound.Moved := by
  have h' : Receiver (fun _ _ => True) bound taken (takeUna kcp w).inbound := h
  rcases inputSegment_cases kcp ack w with ⟨-, heq⟩ | ⟨-, heq⟩ | ⟨-, heq⟩ | ⟨-, heq⟩ <;> rw [heq]
  · rw [inbound_inputAck]
    exact hm
  · exact h'.moved_inputPush hb hw hm w
  · exact hm
  · exact hm

theorem Receiver.moved_ikcpRecv (h : Receiver allowed bound taken kcp.inbound) (hw : 128 ≤ kcp.rcvWnd.toNat)
    (hm : kcp.inbound.Moved) (len : Int) : (Ikcp.ikcpRecv kcp len).2.2.inbound.Moved := by
  rcases h.recv_cases len with ⟨-, heq⟩ | ⟨i, hi, -, -, heq⟩
  · rwa [heq]
  · have hset := (frame_ikcpRecv kcp len).2.1
    have hwnd : (Ikcp.ikcpRecv kcp len).2.2.inbound.rcvWnd = kcp.rcvWnd := congrArg Settings.rcvWnd hset
    rw [heq] at hwnd ⊢
    exact hi.moved_move (by rw [← hwnd] at hw; exact hw)

end Moved

/-- What happens at one end: a call of its user, or a datagram of anyone. -/
inductive Act
  | call (c : Call)
  | input (data : Bytes)

def Act.setsMtu : Act → Bool
  | .call c => c.setsMtu
  | .input _ => false

/-- No call asks for a receive window of more than so many segments, and none
sets the MTU. -/
def Act.Within (bound : Nat) : Act → Prop
  | .call (.wndsize _ rcvwnd) => rcvwnd.toInt ≤ bound
  | .call (.setmtu _ _) => False
  | _ => True

/-- No call asks for a send window of more than so many segments. -/
def Act.SendsWithin (window : Nat) : Act → Prop
  | .call (.wndsize sndwnd _) => sndwnd.toInt ≤ window
  | _ => True

def Act.sends : Act → Bool
  | .call (.send _) => true
  | _ => false

theorem Act.within_max {a : Act} (ha : a.setsMtu = false) : a.Within 2147483648 := by
  cases a with
  | input data => trivial
  | call c =>
      cases c with
      | wndsize sndwnd rcvwnd =>
          have hlt := rcvwnd.toInt_lt
          change rcvwnd.toInt ≤ 2147483648
          omega
      | setmtu mtu malloc => cases ha
      | _ => trivial

/-- Settings that the library itself never leaves. -/
structure Settings.Tuned (s : Settings) : Prop where
  stream : s.stream = 0
  mss : 0 < s.mss.toNat ∧ s.mss.toNat < 2147483648
  rcvWnd : 128 ≤ s.rcvWnd.toNat
  sndWnd : 0 < s.sndWnd.toNat
  minrto : 30 ≤ s.rxMinrto.toNat ∧ s.rxMinrto.toNat ≤ 100

namespace Endpoint

def act (e : Endpoint) : Act → Endpoint
  | .call c => e.call c
  | .input data => e.input data

def acts (conv : UInt32) (as : List Act) : Endpoint := as.foldl act (create conv)

/-- What holds at one end whatever arrives there. -/
structure Intact (bound : Nat) (e : Endpoint) : Prop where
  tuned : e.kcp.settings.Tuned
  timed : Timed e.kcp.rxRto
  receiver : Receiver (fun _ _ => True) bound e.taken e.kcp.inbound
  moved : e.kcp.inbound.Moved
  sender : ∃ una nxt, Sender e.history e.kcp.conv una nxt e.kcp.outbound

variable {bound : Nat} {e : Endpoint}

theorem Intact.create (hb : 128 ≤ bound) (conv : UInt32) : (create conv).Intact bound where
  tuned := ⟨rfl, (by decide : 0 < (mtuDef - overhead).toNat ∧ (mtuDef - overhead).toNat < 2147483648), le_refl 128,
    (by decide : 0 < wndSnd.toNat), (by decide : 30 ≤ rtoMin.toNat ∧ rtoMin.toNat ≤ 100)⟩
  timed := (by decide : 30 ≤ rtoDef.toNat ∧ rtoDef.toNat ≤ 60000)
  receiver := .create hb conv
  moved := by simp [Inbound.Moved, Endpoint.create, ikcpCreate, Ikcpcb.inbound]
  sender := ⟨0, 0, .create conv⟩

/-- The same with other settings, timers and counters. -/
theorem Intact.congr {kcp : Ikcpcb} (h : e.Intact bound) (hin : kcp.inbound = e.kcp.inbound)
    (hout : kcp.outbound = e.kcp.outbound) (htuned : kcp.settings.Tuned) (hconv : kcp.conv = e.kcp.conv)
    (htimed : Timed kcp.rxRto) : (e.withKcp kcp).Intact bound := by
  refine ⟨htuned, htimed, ?_, ?_, ?_⟩
  · simp only [withKcp, hin]
    exact h.receiver
  · simp only [withKcp, hin]
    exact h.moved
  · simp only [withKcp, hconv, hout]
    exact h.sender

section Input

variable (hb : bound ≤ 2147483648)

include hb

theorem Intact.inputSegment (h : e.Intact bound) (ack : Maxack) (w : Wire) :
    (e.withKcp (inputSegment e.kcp ack w).1).Intact bound := by
  have hset := settings_inputSegment e.kcp ack w
  have hconv : (Ikcp.inputSegment e.kcp ack w).1.conv = e.kcp.conv := congrArg Settings.conv hset
  obtain ⟨una, nxt, hsend⟩ := h.sender
  obtain ⟨una', -, hsend', -⟩ := hsend.inputSegment ack w
  refine ⟨?_, ?_, (h.receiver.inputSegment hb ack fun _ _ => trivial).1,
    h.receiver.moved_inputSegment hb h.tuned.rcvWnd h.moved ack w, una', nxt, ?_⟩
  · rw [withKcp, hset]
    exact h.tuned
  · rcases rxRto_inputSegment e.kcp ack w with heq | ⟨rto, heq⟩
    · rw [withKcp, heq]
      exact h.timed
    · rw [withKcp, heq]
      exact timed_ibound h.tuned.minrto rto
  · rw [withKcp, hconv]
    exact hsend'

theorem Intact.inputAll (h : e.Intact bound) (ack : Maxack) (ws : List Wire) :
    (e.withKcp (inputAll e.kcp ack ws).1).Intact bound := by
  induction ws generalizing e ack with
  | nil => exact h
  | cons w ws ih => exact ih (h.inputSegment hb ack w) (Ikcp.inputSegment e.kcp ack w).2

/-- Any datagram may arrive. -/
theorem Intact.input (h : e.Intact bound) (data : Bytes) : (e.input data).Intact bound := by
  have hall := h.inputAll hb none (segmentsOf e.kcp.conv data)
  rcases ikcpInput_cases e.kcp data with heq | heq
  · rw [Endpoint.input, heq]
    exact hall
  · have hset := settings_endInput e.kcp.sndUna (Ikcp.inputAll e.kcp none (segmentsOf e.kcp.conv data)).1
      (Ikcp.inputAll e.kcp none (segmentsOf e.kcp.conv data)).2
    rw [Endpoint.input, heq]
    refine hall.congr (inbound_endInput _ _ _) (outbound_endInput _ _ _) ?_ (congrArg Settings.conv hset) ?_
    · rw [hset]
      exact hall.tuned
    · rw [rxRto_endInput]
      exact hall.timed

end Input

section Calls

theorem Intact.send (h : e.Intact bound) (buffer : Bytes) : (e.call (.send buffer)).Intact bound := by
  obtain ⟨una, nxt, hsend⟩ := h.sender
  have hsend' := hsend.ikcpSend h.tuned.stream buffer
  rw [history, ← frames_append] at hsend'
  have hkcp : (e.call (.send buffer)).kcp = (ikcpSend e.kcp buffer).2 := rfl
  have hsame : (ikcpSend e.kcp buffer).2.settings = e.kcp.settings ∧ (ikcpSend e.kcp buffer).2.rxRto = e.kcp.rxRto ∧
      (ikcpSend e.kcp buffer).2.inbound = e.kcp.inbound := by
    rcases ikcpSend_cases h.tuned.stream buffer with heq | ⟨-, heq⟩ <;> rw [heq] <;> exact ⟨rfl, rfl, rfl⟩
  obtain ⟨hset, hrto, hin⟩ := hsame
  have hconv : (ikcpSend e.kcp buffer).2.conv = e.kcp.conv := congrArg Settings.conv hset
  refine ⟨?_, ?_, ?_, ?_, una, nxt, ?_⟩
  · rw [hkcp, hset]
    exact h.tuned
  · rw [hkcp, hrto]
    exact h.timed
  · rw [hkcp, hin]
    exact h.receiver
  · rw [hkcp, hin]
    exact h.moved
  · rw [hkcp, hconv]
    exact hsend'

theorem Intact.recv (h : e.Intact bound) (len : Int) : (e.call (.recv len)).Intact bound := by
  obtain ⟨hout, hset, -⟩ := frame_ikcpRecv e.kcp len
  have hkcp : (e.call (.recv len)).kcp = (ikcpRecv e.kcp len).2.2 := rfl
  have hconv : (ikcpRecv e.kcp len).2.2.conv = e.kcp.conv := congrArg Settings.conv hset
  refine ⟨?_, ?_, (h.receiver.ikcpRecv len).1, h.receiver.moved_ikcpRecv h.tuned.rcvWnd h.moved len, ?_⟩
  · rw [hkcp, hset]
    exact h.tuned
  · rw [hkcp, rxRto_ikcpRecv]
    exact h.timed
  · rw [hkcp, hconv, hout]
    exact h.sender

theorem Intact.flush (h : e.Intact bound) : (e.withKcp (ikcpFlush e.kcp).1).Intact bound := by
  cases hu : e.kcp.updated with
  | false =>
      rw [ikcpFlush_of_not_updated hu]
      exact h
  | true =>
      obtain ⟨una, nxt, hsend⟩ := h.sender
      obtain ⟨nxt', hsend', -⟩ := hsend.flushQueue
      have hset := settings_ikcpFlush e.kcp
      have hconv : (ikcpFlush e.kcp).1.conv = e.kcp.conv := congrArg Settings.conv hset
      refine ⟨?_, ?_, ?_, ?_, una, nxt', ?_⟩
      · rw [withKcp, hset]
        exact h.tuned
      · rw [withKcp, rxRto_ikcpFlush]
        exact h.timed
      · rw [withKcp, inbound_ikcpFlush]
        exact h.receiver
      · rw [withKcp, inbound_ikcpFlush]
        exact h.moved
      · rw [withKcp, hconv, outbound_ikcpFlush hu]
        exact hsend'

theorem Intact.wndsize (h : e.Intact bound) {sndwnd rcvwnd : Int32} (hb : 128 ≤ bound) (hr : rcvwnd.toInt ≤ bound) :
    (e.call (.wndsize sndwnd rcvwnd)).Intact bound := by
  have hpositive {n : Int32} (hn : n > 0) : 0 < n.toUInt32.toNat := by
    have heq := toNat_toUInt32 (Int32.le_of_lt hn)
    have hlt := Int32.lt_iff_toInt_lt.mp hn
    change 0 < n.toInt at hlt
    omega
  obtain ⟨⟨hstream, hmss, hrcv, hsnd, hmin⟩, htimed, hrecv, hmoved, hsend⟩ := h
  have hwindow : 128 ≤ (ikcpWndsize e.kcp sndwnd rcvwnd).rcvWnd.toNat ∧
      (ikcpWndsize e.kcp sndwnd rcvwnd).rcvWnd.toNat ≤ bound := by
    simp only [ikcpWndsize]
    split
    · next hpos =>
      have hle := wnd_wndsize hpos
      have hdef : wndRcv.toNat = 128 := rfl
      rw [UInt32.toNat_max] at hle ⊢
      omega
    · exact ⟨hrcv, hrecv.window⟩
  refine ⟨⟨hstream, hmss, hwindow.1, ?_, hmin⟩, htimed, { hrecv with window := hwindow.2 }, hmoved, hsend⟩
  simp only [Endpoint.call, ikcpWndsize, Ikcpcb.settings]
  split
  · next hpos => exact hpositive hpos
  · exact hsnd

theorem Intact.call (h : e.Intact bound) (hb : 128 ≤ bound) {c : Call} (hc : (Act.call c).Within bound) :
    (e.call c).Intact bound := by
  have ⟨hstream, hmss, hrcv, hsnd, hmin⟩ := h.tuned
  cases c with
  | send buffer => exact h.send buffer
  | recv len => exact h.recv len
  | update current =>
      have hclock : (e.withKcp (setClock e.kcp current)).Intact bound := h.congr rfl rfl h.tuned rfl h.timed
      have hwire {e' : Endpoint} (wire : List Bytes) (h' : e'.Intact bound) : Intact bound { e' with wire := wire } :=
        ⟨h'.tuned, h'.timed, h'.receiver, h'.moved, h'.sender⟩
      rcases ikcpUpdate_cases e.kcp current with heq | heq
      · rw [Endpoint.call, heq]
        exact hwire _ hclock.flush
      · rw [Endpoint.call, heq]
        exact hwire _ hclock
  | flush =>
      have h' := h.flush
      exact ⟨h'.tuned, h'.timed, h'.receiver, h'.moved, h'.sender⟩
  | setmtu mtu malloc => exact hc.elim
  | interval interval => exact h.congr rfl rfl ⟨hstream, hmss, hrcv, hsnd, hmin⟩ rfl h.timed
  | nodelay nodelay interval resend nc =>
      refine h.congr rfl rfl ⟨hstream, hmss, hrcv, hsnd, ?_⟩ rfl h.timed
      simp only [ikcpNodelay, Ikcpcb.settings]
      split
      · split <;> decide
      · exact hmin
  | wndsize sndwnd rcvwnd => exact h.wndsize hb hc

end Calls

theorem Intact.act (h : e.Intact bound) (hb : 128 ≤ bound) (hb' : bound ≤ 2147483648) {a : Act} (ha : a.Within bound) :
    (e.act a).Intact bound := by
  cases a with
  | call c => exact h.call hb ha
  | input data => exact h.input hb' data

theorem intact_acts (conv : UInt32) (hb : 128 ≤ bound) (hb' : bound ≤ 2147483648) {as : List Act}
    (has : ∀ a ∈ as, a.Within bound) : (acts conv as).Intact bound := by
  induction as using List.reverseRecOn with
  | nil => exact .create hb conv
  | append_singleton as a ih =>
      rw [acts, List.foldl_append]
      exact (ih fun a' ha' => has a' (List.mem_append_left _ ha')).act hb hb' (has a (List.mem_append_right _ List.mem_cons_self))

section Window

/-- `snd_wnd` has never been more than `window`, and neither has the number of
segments on the way. -/
structure Windowed (window : Nat) (e : Endpoint) : Prop where
  wnd : e.kcp.sndWnd.toNat ≤ window
  flight : ∃ una nxt, Sender e.history e.kcp.conv una nxt e.kcp.outbound ∧ nxt ≤ una + window

variable {window : Nat}

theorem Windowed.create (hw : 32 ≤ window) (conv : UInt32) : (create conv).Windowed window :=
  ⟨hw, 0, 0, .create conv, Nat.zero_le _⟩

theorem Windowed.congr {kcp : Ikcpcb} (h : e.Windowed window) (hout : kcp.outbound = e.kcp.outbound)
    (hset : kcp.settings = e.kcp.settings) : (e.withKcp kcp).Windowed window := by
  have hwnd : kcp.sndWnd = e.kcp.sndWnd := congrArg Settings.sndWnd hset
  have hconv : kcp.conv = e.kcp.conv := congrArg Settings.conv hset
  refine ⟨?_, ?_⟩
  · rw [withKcp, hwnd]
    exact h.wnd
  · simp only [withKcp, hconv, hout]
    exact h.flight

theorem Windowed.inputAll (h : e.Windowed window) (ack : Maxack) (ws : List Wire) :
    (e.withKcp (inputAll e.kcp ack ws).1).Windowed window := by
  induction ws generalizing e ack with
  | nil => exact h
  | cons w ws ih =>
      have hset := settings_inputSegment e.kcp ack w
      have hwnd : (Ikcp.inputSegment e.kcp ack w).1.sndWnd = e.kcp.sndWnd := congrArg Settings.sndWnd hset
      have hconv : (Ikcp.inputSegment e.kcp ack w).1.conv = e.kcp.conv := congrArg Settings.conv hset
      obtain ⟨una, nxt, hsend, hle⟩ := h.flight
      obtain ⟨una', hge, hsend', -⟩ := hsend.inputSegment ack w
      have hstep : (e.withKcp (Ikcp.inputSegment e.kcp ack w).1).Windowed window := by
        refine ⟨?_, una', nxt, ?_, by omega⟩
        · rw [withKcp, hwnd]
          exact h.wnd
        · rw [withKcp, hconv]
          exact hsend'
      exact ih hstep (Ikcp.inputSegment e.kcp ack w).2

theorem Windowed.input (h : e.Windowed window) (data : Bytes) : (e.input data).Windowed window := by
  have hall := h.inputAll none (segmentsOf e.kcp.conv data)
  rcases ikcpInput_cases e.kcp data with heq | heq
  · rw [Endpoint.input, heq]
    exact hall
  · rw [Endpoint.input, heq]
    exact hall.congr (outbound_endInput _ _ _) (settings_endInput _ _ _)

theorem Windowed.flush (h : e.Windowed window) : (e.withKcp (ikcpFlush e.kcp).1).Windowed window := by
  cases hu : e.kcp.updated with
  | false =>
      rw [ikcpFlush_of_not_updated hu]
      exact h
  | true =>
      obtain ⟨una, nxt, hsend, hle⟩ := h.flight
      obtain ⟨nxt', hsend', hmax, -⟩ := hsend.flushQueue
      have hset := settings_ikcpFlush e.kcp
      have hwnd : (ikcpFlush e.kcp).1.sndWnd = e.kcp.sndWnd := congrArg Settings.sndWnd hset
      have hconv : (ikcpFlush e.kcp).1.conv = e.kcp.conv := congrArg Settings.conv hset
      have hold := h.wnd
      refine ⟨?_, una, nxt', ?_, by omega⟩
      · rw [withKcp, hwnd]
        exact hold
      · rw [withKcp, hconv, outbound_ikcpFlush hu]
        exact hsend'

theorem Windowed.send (h : e.Windowed window) (hs : e.kcp.stream = 0) (buffer : Bytes) :
    (e.call (.send buffer)).Windowed window := by
  obtain ⟨una, nxt, hsend, hle⟩ := h.flight
  have hsend' := hsend.ikcpSend hs buffer
  rw [history, ← frames_append] at hsend'
  have hset : (ikcpSend e.kcp buffer).2.settings = e.kcp.settings := by
    rcases ikcpSend_cases hs buffer with heq | ⟨-, heq⟩ <;> rw [heq]
    rfl
  have hwnd : (ikcpSend e.kcp buffer).2.sndWnd = e.kcp.sndWnd := congrArg Settings.sndWnd hset
  have hconv : (ikcpSend e.kcp buffer).2.conv = e.kcp.conv := congrArg Settings.conv hset
  refine ⟨?_, una, nxt, ?_, hle⟩
  · rw [Endpoint.call, hwnd]
    exact h.wnd
  · rw [Endpoint.call, hconv]
    exact hsend'

theorem Windowed.call (h : e.Windowed window) (hs : e.kcp.stream = 0) {c : Call} (hc : (Act.call c).SendsWithin window) :
    (e.call c).Windowed window := by
  have hwire {e' : Endpoint} (wire : List Bytes) (h' : e'.Windowed window) : Windowed window { e' with wire := wire } :=
    ⟨h'.wnd, h'.flight⟩
  cases c with
  | send buffer => exact h.send hs buffer
  | recv len =>
      obtain ⟨hout, hset, -⟩ := frame_ikcpRecv e.kcp len
      obtain ⟨hwnd, hflight⟩ := h.congr hout hset
      exact ⟨hwnd, hflight⟩
  | update current =>
      have hclock : (e.withKcp (setClock e.kcp current)).Windowed window := h.congr rfl rfl
      rcases ikcpUpdate_cases e.kcp current with heq | heq <;> rw [Endpoint.call, heq]
      · exact hwire _ hclock.flush
      · exact hwire _ hclock
  | flush => exact hwire _ h.flush
  | setmtu mtu malloc =>
      rw [Endpoint.call, ikcpSetmtu]
      split
      · exact h
      · split
        · exact h
        · exact ⟨h.wnd, h.flight⟩
  | interval interval => exact ⟨h.wnd, h.flight⟩
  | nodelay nodelay interval resend nc => exact ⟨h.wnd, h.flight⟩
  | wndsize sndwnd rcvwnd =>
      refine ⟨?_, h.flight⟩
      simp only [Endpoint.call, ikcpWndsize]
      split
      · next hpos =>
        have heq := toNat_toUInt32 (Int32.le_of_lt hpos)
        change sndwnd.toInt ≤ window at hc
        omega
      · exact h.wnd

/-- The counters of the lists with a bound are right, and the one of `snd_queue`
is, modulo `2^32`. -/
theorem Intact.counted (h : e.Intact bound) (hb : bound ≤ 2147483648) (hw : e.Windowed window) :
    e.kcp.nrcvBuf.toNat = e.kcp.rcvBuf.length ∧ e.kcp.nrcvQue.toNat = e.kcp.rcvQueue.length ∧
      e.kcp.nsndBuf.toNat = e.kcp.sndBuf.length ∧ e.kcp.nsndQue = .ofNat e.kcp.sndQueue.length ∧
      e.kcp.rcvBuf.length ≤ bound ∧ e.kcp.rcvQueue.length ≤ bound ∧
      e.kcp.sndBuf.length ≤ window ∧ 30 ≤ e.kcp.rxRto.toNat ∧ e.kcp.rxRto.toNat ≤ 60000 := by
  obtain ⟨una, nxt, hsend, hle⟩ := hw.flight
  have hflight := hsend.flight
  have hrbuf : e.kcp.nrcvBuf = .ofNat e.kcp.rcvBuf.length := h.receiver.bufCount
  have hbuf : e.kcp.nsndBuf = .ofNat (e.kcp.sndBuf.map slot).length := hsend.bufCount
  have hque : e.kcp.nsndQue = .ofNat (e.kcp.sndQueue.map piece).length := hsend.queCount
  have hrcv : e.kcp.rcvBuf.length ≤ _ := h.receiver.held.length_le
  have hsnd : (e.kcp.sndBuf.map slot).length ≤ _ := hsend.buf.length_le
  rw [List.length_map] at hbuf hque hsnd
  refine ⟨?_, h.receiver.queCount, ?_, hque, by omega, h.receiver.room, by omega, h.timed.1, h.timed.2⟩
  · rw [hrbuf, UInt32.toNat_ofNat']
    omega
  · rw [hbuf, UInt32.toNat_ofNat']
    omega

theorem windowed_acts (conv : UInt32) (hb : 128 ≤ bound) (hb' : bound ≤ 2147483648) (hw : 32 ≤ window) {as : List Act}
    (has : ∀ a ∈ as, a.Within bound) (hsend : ∀ a ∈ as, a.SendsWithin window) : (acts conv as).Windowed window := by
  induction as using List.reverseRecOn with
  | nil => exact .create hw conv
  | append_singleton as a ih =>
      rw [List.forall_mem_append] at has hsend
      have hi := intact_acts conv hb hb' has.1
      have h := ih has.1 hsend.1
      have ha := hsend.2 a List.mem_cons_self
      rw [acts, List.foldl_append]
      cases a with
      | call c => exact h.call hi.tuned.stream ha
      | input data => exact h.input data

end Window

section Sent

theorem Framed.create (conv : UInt32) : (create conv).Framed where
  cuts := List.forall_mem_nil _
  sent := rfl

theorem Framed.act (h : e.Framed) (hi : e.Intact bound) (a : Act) : (e.act a).Framed := by
  cases a with
  | input data => exact ⟨h.cuts, h.sent⟩
  | call c =>
      cases c with
      | send buffer => exact h.send hi.tuned.stream hi.tuned.mss buffer
      | _ => exact ⟨h.cuts, h.sent⟩

theorem length_sent_act (e : Endpoint) (a : Act) : (e.act a).sent.length ≤ e.sent.length + [a].countP Act.sends := by
  cases a with
  | input data => exact le_rfl
  | call c =>
      cases c with
      | send buffer =>
          simp only [act, Endpoint.call]
          split
          · exact Nat.le_add_right _ _
          · exact List.length_append.le
      | _ => exact le_rfl

theorem framed_acts (conv : UInt32) (hb : 128 ≤ bound) (hb' : bound ≤ 2147483648) {as : List Act}
    (has : ∀ a ∈ as, a.Within bound) : (acts conv as).Framed ∧ (acts conv as).sent.length ≤ as.countP Act.sends := by
  induction as using List.reverseRecOn with
  | nil => exact ⟨.create conv, le_rfl⟩
  | append_singleton as a ih =>
      rw [List.forall_mem_append] at has
      obtain ⟨hframed, hlen⟩ := ih has.1
      rw [List.countP_append, acts, List.foldl_append]
      exact ⟨hframed.act (intact_acts conv hb hb' has.1) a, (length_sent_act _ a).trans (Nat.add_le_add_right hlen _)⟩

/-- `snd_queue` has no more segments than the messages that have been sent. -/
theorem Intact.length_sndQueue_le (h : e.Intact bound) (hf : e.Framed) : e.kcp.sndQueue.length ≤ 128 * e.sent.length := by
  obtain ⟨una, nxt, hsend⟩ := h.sender
  have hlen : (e.kcp.sndQueue.map piece).length = e.history.length - nxt := by
    rw [← List.length_drop, ← hsend.queue]
    rfl
  rw [List.length_map] at hlen
  rw [hlen]
  exact (Nat.sub_le _ _).trans hf.length_history_le

end Sent

/-- Whatever arrives, the counters are right, the lists are as short as the
windows and the timeout stays in its range. -/
theorem counted_acts (conv : UInt32) (bound window : Nat) (hb : 128 ≤ bound) (hb' : bound ≤ 2147483648) (hw : 32 ≤ window)
    (as : List Act) (has : ∀ a ∈ as, a.Within bound) (hsend : ∀ a ∈ as, a.SendsWithin window)
    (hfew : as.countP Act.sends < 33554432) :
    let kcp := (acts conv as).kcp
    kcp.nrcvBuf.toNat = kcp.rcvBuf.length ∧ kcp.nrcvQue.toNat = kcp.rcvQueue.length ∧
      kcp.nsndBuf.toNat = kcp.sndBuf.length ∧ kcp.nsndQue.toNat = kcp.sndQueue.length ∧
      kcp.rcvBuf.length ≤ bound ∧ kcp.rcvQueue.length ≤ bound ∧
      kcp.sndBuf.length ≤ window ∧ 30 ≤ kcp.rxRto.toNat ∧ kcp.rxRto.toNat ≤ 60000 := by
  have hi := intact_acts conv hb hb' has
  obtain ⟨hframed, hsent⟩ := framed_acts conv hb hb' has
  have hlen := hi.length_sndQueue_le hframed
  obtain ⟨hrb, hrq, hsb, hsq, hrest⟩ := hi.counted hb' (windowed_acts conv hb hb' hw has hsend)
  refine ⟨hrb, hrq, hsb, ?_, hrest⟩
  rw [hsq, UInt32.toNat_ofNat']
  omega

/-- A message is sent, and what arrives is no segment. -/
def sampleActs : List Act := [.call (.nodelay 1 10 2 1), .call (.send (ascii "hello")), .call (.update 0), .input (ascii "stray")]

theorem counted_acts_of_sample :
    (acts 7 sampleActs).kcp.sndBuf.length = 1 ∧ (acts 7 sampleActs).kcp.nsndBuf.toNat = 1 := by
  have hwithin : ∀ a ∈ sampleActs, a.Within 128 := by simp [sampleActs, Act.Within]
  have hsend : ∀ a ∈ sampleActs, a.SendsWithin 32 := by simp [sampleActs, Act.SendsWithin]
  obtain ⟨-, -, hbuf, -⟩ := counted_acts 7 128 32 (by decide) (by decide) (by decide) sampleActs hwithin hsend (by decide)
  have hlen : (acts 7 sampleActs).kcp.sndBuf.length = 1 := by decide +kernel
  exact ⟨hlen, hbuf.trans hlen⟩

section Mtu

/-- A datagram of the conversation: at least one segment, and no more than the
MTU. -/
structure Datagram (conv : UInt32) (d : Bytes) : Prop where
  conv_eq : ikcpGetconv d = conv
  nonempty : 24 ≤ d.length
  fits : d.length ≤ 1400

/-- The MTU is the one of `ikcp_create`, segments fit into it, and what has gone
out are datagrams of the conversation. -/
structure Fitting (conv : UInt32) (e : Endpoint) : Prop where
  conv_eq : e.kcp.conv = conv
  mtu : e.kcp.mtu = mtuDef
  mss : e.kcp.mss = mtuDef - overhead
  pieces : ∀ p ∈ e.history, p.2.length ≤ 1376
  wire : ∀ d ∈ e.wire, Datagram conv d

variable {conv : UInt32}

theorem Fitting.create (conv : UInt32) : (create conv).Fitting conv where
  conv_eq := rfl
  mtu := rfl
  mss := rfl
  pieces := by simp [Endpoint.create, history, frames]
  wire := by simp [Endpoint.create]

/-- The same settings, pieces and datagrams. -/
theorem Fitting.congr {kcp : Ikcpcb} (h : e.Fitting conv) (hset : kcp.settings = e.kcp.settings) :
    (e.withKcp kcp).Fitting conv where
  conv_eq := (congrArg Settings.conv hset).trans h.conv_eq
  mtu := (congrArg Settings.mtu hset).trans h.mtu
  mss := (congrArg Settings.mss hset).trans h.mss
  pieces := h.pieces
  wire := h.wire

theorem Fitting.send (h : e.Fitting conv) (hs : e.kcp.stream = 0) (buffer : Bytes) : (e.call (.send buffer)).Fitting conv := by
  have hmss : e.kcp.mss.toNat = 1376 := by
    rw [h.mss]
    decide
  have hset : (ikcpSend e.kcp buffer).2.settings = e.kcp.settings := by
    rcases ikcpSend_cases hs buffer with heq | ⟨-, heq⟩
    · rw [heq]
    · rw [heq]
      rfl
  obtain ⟨hconv, hmtu, hmss', -, -⟩ := h.congr hset
  refine ⟨hconv, hmtu, hmss', ?_, h.wire⟩
  intro p hp
  have hhist : (e.call (.send buffer)).history = e.history ++ frames (sendCuts e.kcp buffer) := frames_append _ _
  rw [hhist, List.mem_append] at hp
  rcases hp with hp | hp
  · exact h.pieces p hp
  · obtain ⟨c, hc, hpc⟩ := List.mem_flatMap.mp hp
    rw [sendCuts] at hc
    split at hc
    · cases hc
    · rw [List.mem_singleton.mp hc] at hpc
      rw [← hmss]
      exact length_le_of_mem_cut (mem_countdown hpc).2

/-- A segment that is sent is one of the history or has no data. -/
theorem Fitting.flushed (h : e.Fitting conv) (hi : e.Intact bound) {seg : Ikcpseg} (hseg : seg ∈ flushed e.kcp) :
    seg.conv = conv ∧ (encode seg).length ≤ 1400 := by
  obtain ⟨una, nxt, hsend⟩ := hi.sender
  obtain ⟨nxt', hsend', -⟩ := hsend.flushQueue
  rw [length_encode]
  obtain ⟨-, -, ⟨hconv, hdata, -⟩ | hslot⟩ := mem_flushed hseg
  · rw [hdata]
    exact ⟨hconv.trans h.conv_eq, by decide⟩
  · obtain ⟨hconv, -, hget⟩ := hsend'.slots _ hslot
    have hle : seg.data.length ≤ 1376 := h.pieces _ (List.mem_of_getElem? hget)
    exact ⟨hconv.trans h.conv_eq, by omega⟩

theorem Fitting.packets (h : e.Fitting conv) (hi : e.Intact bound) : ∀ d ∈ (ikcpFlush e.kcp).2, Datagram conv d := by
  intro d hd
  cases hu : e.kcp.updated with
  | false =>
      rw [ikcpFlush_of_not_updated hu] at hd
      cases hd
  | true =>
      have hmtu : e.kcp.mtu.toNat = 1400 := by
        rw [h.mtu]
        rfl
      rw [packets_ikcpFlush hu] at hd
      have hfits : d.length ≤ 1400 := by
        have hempty : Output.Fits e.kcp.mtu ⟨[], []⟩ := ⟨Nat.zero_le _, by simp⟩
        rw [← hmtu]
        apply (hempty.pack fun seg hseg => ?_).output d hd
        rw [hmtu]
        exact (h.flushed hi hseg).2
      obtain ⟨groups, heq, hflat, hne⟩ := exists_groups e.kcp.mtu (Ikcp.flushed e.kcp)
      rw [heq] at hd
      obtain ⟨group, hgroup, rfl⟩ := List.mem_map.mp hd
      obtain ⟨seg, rest, rfl⟩ := List.exists_cons_of_ne_nil (hne group hgroup)
      have hseg : seg ∈ Ikcp.flushed e.kcp := by
        rw [← hflat]
        exact List.mem_flatten_of_mem hgroup List.mem_cons_self
      refine ⟨?_, ?_, hfits⟩
      · rw [List.flatMap_cons, ← (h.flushed hi hseg).1, encode, encodeSeg]
        simp only [List.append_assoc]
        exact getconv_encode32u _ _
      · rw [List.flatMap_cons, List.length_append, length_encode]
        omega

theorem Fitting.flush (h : e.Fitting conv) (hi : e.Intact bound) : (e.call .flush).Fitting conv := by
  obtain ⟨hconv, hmtu, hmss, hpieces, -⟩ := h.congr (settings_ikcpFlush e.kcp)
  exact ⟨hconv, hmtu, hmss, hpieces, List.forall_mem_append.mpr ⟨h.wire, h.packets hi⟩⟩

theorem Fitting.call (h : e.Fitting conv) (hi : e.Intact bound) {c : Call} (hc : (Act.call c).setsMtu = false) :
    (e.call c).Fitting conv := by
  cases c with
  | send buffer => exact h.send hi.tuned.stream buffer
  | recv len =>
      obtain ⟨hconv, hmtu, hmss, hpieces, hwire⟩ := h.congr (frame_ikcpRecv e.kcp len).2.1
      exact ⟨hconv, hmtu, hmss, hpieces, hwire⟩
  | update current =>
      have hclock : (e.withKcp (setClock e.kcp current)).Fitting conv := h.congr rfl
      have hclock' : (e.withKcp (setClock e.kcp current)).Intact bound := hi.congr rfl rfl hi.tuned rfl hi.timed
      rcases ikcpUpdate_cases e.kcp current with heq | heq
      · rw [Endpoint.call, heq]
        exact hclock.flush hclock'
      · rw [Endpoint.call, heq, List.append_nil]
        exact hclock
  | flush => exact h.flush hi
  | setmtu mtu malloc => cases hc
  | interval interval => exact ⟨h.conv_eq, h.mtu, h.mss, h.pieces, h.wire⟩
  | nodelay nodelay interval resend nc => exact ⟨h.conv_eq, h.mtu, h.mss, h.pieces, h.wire⟩
  | wndsize sndwnd rcvwnd => exact ⟨h.conv_eq, h.mtu, h.mss, h.pieces, h.wire⟩

theorem settings_inputAll (kcp : Ikcpcb) (ack : Maxack) (ws : List Wire) : (inputAll kcp ack ws).1.settings = kcp.settings := by
  induction ws generalizing kcp ack with
  | nil => rfl
  | cons w ws ih => exact (ih _ _).trans (settings_inputSegment kcp ack w)

theorem settings_ikcpInput (kcp : Ikcpcb) (data : Bytes) : (ikcpInput kcp data).2.settings = kcp.settings := by
  rcases ikcpInput_cases kcp data with heq | heq
  · rw [heq, settings_inputAll]
  · rw [heq, settings_endInput, settings_inputAll]

theorem Fitting.act (h : e.Fitting conv) (hi : e.Intact bound) {a : Act} (ha : a.setsMtu = false) : (e.act a).Fitting conv := by
  cases a with
  | call c => exact h.call hi ha
  | input data => exact h.congr (settings_ikcpInput e.kcp data)

theorem fitting_acts (conv : UInt32) {as : List Act} (has : ∀ a ∈ as, a.setsMtu = false) : (acts conv as).Fitting conv := by
  induction as using List.reverseRecOn with
  | nil => exact .create conv
  | append_singleton as a ih =>
      rw [List.forall_mem_append] at has
      have hi := intact_acts conv (by decide) le_rfl fun a' ha' => Act.within_max (has.1 a' ha')
      rw [acts, List.foldl_append]
      exact (ih has.1).act hi (has.2 a List.mem_cons_self)

/-- As long as nobody changes the MTU, every datagram begins with the number of
the conversation and has between 24 and 1400 bytes. -/
theorem wire_datagrams (conv : UInt32) (as : List Act) (has : ∀ a ∈ as, a.setsMtu = false) :
    ∀ d ∈ (acts conv as).wire, ikcpGetconv d = conv ∧ 24 ≤ d.length ∧ d.length ≤ 1400 := by
  intro d hd
  obtain ⟨hconv, hlow, hhigh⟩ := (fitting_acts conv has).wire d hd
  exact ⟨hconv, hlow, hhigh⟩

theorem wire_datagrams_of_sample :
    (acts 7 sampleActs).wire ≠ [] ∧ ∀ d ∈ (acts 7 sampleActs).wire, ikcpGetconv d = 7 ∧ 24 ≤ d.length ∧ d.length ≤ 1400 := by
  have hmtu : ∀ a ∈ sampleActs, a.setsMtu = false := by simp [sampleActs, Act.setsMtu, Call.setsMtu]
  exact ⟨by decide +kernel, wire_datagrams 7 sampleActs hmtu⟩

end Mtu

end Endpoint

end GameAccelerator.Ikcp
