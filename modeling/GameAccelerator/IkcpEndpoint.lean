import GameAccelerator.IkcpOutput
import GameAccelerator.IkcpReceive
import GameAccelerator.IkcpTransmit

namespace GameAccelerator.Ikcp

open CString Serial SerialList Countdown
open LosslessKcp (cmdPush cmdAck)

/-- One end of a conversation with all that has happened at it: the messages
that have been sent, with the segments they have been cut into, the pieces that
have been taken from `rcv_queue`, the messages that have been received and the
datagrams that have gone to the output callback. -/
structure Endpoint where
  kcp : Ikcpcb
  sent : List Bytes
  cuts : List (List Bytes)
  taken : List Piece
  got : List Bytes
  wire : List Bytes

inductive Call
  | send (buffer : Bytes)
  | recv (len : Int)
  | update (current : UInt32)
  | flush
  | setmtu (mtu : Int32) (malloc : Bool)
  | interval (interval : Int32)
  | nodelay (nodelay interval resend nc : Int32)
  | wndsize (sndwnd rcvwnd : Int32)

/-- `ikcp_setmtu` also replaces the buffer in which `ikcp_flush` writes
segments that have been cut before. -/
def Call.setsMtu : Call → Bool
  | .setmtu _ _ => true
  | _ => false

theorem Call.setsMtu_recv (len : Int) : (Call.recv len).setsMtu = false := rfl

theorem Call.setsMtu_update (t : UInt32) : (Call.update t).setsMtu = false := rfl

namespace Endpoint

def create (conv : UInt32) : Endpoint := ⟨ikcpCreate conv, [], [], [], [], []⟩

/-- What a call to `ikcp_recv` has taken out of the control block. -/
def recvGot (kcp : Ikcpcb) (len : Int) : List Bytes :=
  if (ikcpRecv kcp len).1 < 0 ∨ len < 0 then [] else [(ikcpRecv kcp len).2.1]

def call (e : Endpoint) : Call → Endpoint
  | .send buffer =>
      { e with
        kcp := (ikcpSend e.kcp buffer).2
        sent := if (ikcpSend e.kcp buffer).1 < 0 then e.sent else e.sent ++ [buffer]
        cuts := e.cuts ++ sendCuts e.kcp buffer }
  | .recv len =>
      { e with
        kcp := (ikcpRecv e.kcp len).2.2
        taken := e.taken ++ recvTaken e.kcp len
        got := e.got ++ recvGot e.kcp len }
  | .update current =>
      { e with kcp := (ikcpUpdate e.kcp current).1, wire := e.wire ++ (ikcpUpdate e.kcp current).2 }
  | .flush => { e with kcp := (ikcpFlush e.kcp).1, wire := e.wire ++ (ikcpFlush e.kcp).2 }
  | .setmtu mtu malloc => { e with kcp := (ikcpSetmtu e.kcp mtu malloc).2 }
  | .interval interval => { e with kcp := ikcpInterval e.kcp interval }
  | .nodelay nodelay interval resend nc => { e with kcp := ikcpNodelay e.kcp nodelay interval resend nc }
  | .wndsize sndwnd rcvwnd => { e with kcp := ikcpWndsize e.kcp sndwnd rcvwnd }

def input (e : Endpoint) (data : Bytes) : Endpoint := { e with kcp := (ikcpInput e.kcp data).2 }

/-- The pieces in the order of their numbers. -/
def history (e : Endpoint) : List Piece := frames e.cuts

def Has (e : Endpoint) (n : Nat) : Prop := e.kcp.inbound.Has e.taken n

/-- A segment says what is so: the data has been sent under its number, and
what it acknowledges has arrived. -/
structure Says (e : Endpoint) (conv : UInt32) (w : Wire) : Prop where
  valid : w.Valid conv
  una : ∃ n ≤ e.kcp.inbound.released e.taken, w.una = .ofNat n
  data : w.cmd = cmdPush → ∃ n, w.sn = .ofNat n ∧ e.history[n]? = some (w.frg.toNat, w.data)
  ack : w.cmd = cmdAck → ∃ n, w.sn = .ofNat n ∧ e.Has n

/-- An end of a conversation has grown. -/
structure Grows (e e' : Endpoint) : Prop where
  cuts : e.cuts <+: e'.cuts
  advances : e.kcp.inbound.Advances e.taken e'.kcp.inbound e'.taken

def Pending (e : Endpoint) (n : Nat) : Prop := e.kcp.outbound.Pending n

/-- Messages have been cut so that every segment has a header that fits it. -/
structure Framed (e : Endpoint) : Prop where
  cuts : ∀ c ∈ e.cuts, c ≠ [] ∧ c.length ≤ 128 ∧ ∀ data ∈ c, data.length < 2147483648
  sent : e.sent = e.cuts.map List.flatten

/-- What holds at one end of a conversation, with the other end being `peer`. -/
structure Sound (conv : UInt32) (e peer : Endpoint) : Prop where
  conv_eq : e.kcp.conv = conv
  stream : e.kcp.stream = 0
  mss : 0 < e.kcp.mss.toNat ∧ e.kcp.mss.toNat < 2147483648
  framed : e.Framed
  receiver : Receiver (fun n p => peer.history[n]? = some p) 2147483648 e.taken e.kcp.inbound
  sender : ∃ una nxt, Sender e.history conv una nxt e.kcp.outbound ∧ ∀ n < nxt, e.Pending n ∨ peer.Has n
  got : ∃ ms, ms <+: peer.cuts ∧ e.taken = frames ms ∧ e.got = ms.map List.flatten
  acks : ∀ a ∈ e.kcp.acklist, ∃ n, a.1 = .ofNat n ∧ e.Has n
  wire : ∀ d ∈ e.wire, ∃ ws : List Wire, d = ws.flatMap Wire.encode ∧ ∀ w ∈ ws, e.Says conv w

variable {conv : UInt32} {e e' peer peer' : Endpoint} {w : Wire}

theorem Grows.refl (e : Endpoint) : e.Grows e := ⟨List.prefix_rfl, .refl _ _⟩

theorem Grows.trans {e'' : Endpoint} (h : e.Grows e') (h' : e'.Grows e'') : e.Grows e'' :=
  ⟨h.cuts.trans h'.cuts, h.advances.trans h'.advances⟩

theorem Grows.history (h : e.Grows e') : e.history <+: e'.history := by
  obtain ⟨rest, hrest⟩ := h.cuts
  rw [Endpoint.history, Endpoint.history, ← hrest, frames_append]
  exact List.prefix_append _ _

theorem Grows.getElem? {n : Nat} {p : Piece} (h : e.Grows e') (hp : e.history[n]? = some p) : e'.history[n]? = some p := by
  obtain ⟨rest, hrest⟩ := h.history
  rw [← hrest, List.getElem?_append_left (List.getElem?_eq_some_iff.mp hp).1, hp]

theorem Says.mono (h : e.Says conv w) (hg : e.Grows e') : e'.Says conv w := by
  refine ⟨h.valid, ?_, fun hcmd => ?_, fun hcmd => ?_⟩
  · obtain ⟨n, hle, heq⟩ := h.una
    exact ⟨n, hle.trans hg.advances.released, heq⟩
  · obtain ⟨n, hsn, hp⟩ := h.data hcmd
    exact ⟨n, hsn, hg.getElem? hp⟩
  · obtain ⟨n, hsn, hn⟩ := h.ack hcmd
    exact ⟨n, hsn, hg.advances.has n hn⟩

/-- What holds at one end is not disturbed by what happens at the other. -/
theorem Sound.mono_peer (h : e.Sound conv peer) (hg : peer.Grows peer') : e.Sound conv peer' := by
  obtain ⟨hconv, hstream, hmss, hframed, hrecv, ⟨una, nxt, hsend, hpend⟩, ⟨ms, hms, htaken, hgot⟩, hacks, hwire⟩ := h
  refine ⟨hconv, hstream, hmss, hframed, ?_, ⟨una, nxt, hsend, fun n hn => ?_⟩, ⟨ms, hms.trans hg.cuts, htaken, hgot⟩, hacks, hwire⟩
  · exact { hrecv with
      heldAllowed := fun seg hseg => hg.getElem? (hrecv.heldAllowed seg hseg)
      releasedAllowed := fun n p hp => hg.getElem? (hrecv.releasedAllowed n p hp) }
  · exact (hpend n hn).imp_right (hg.advances.has n)

theorem Sound.create (conv : UInt32) : (create conv).Sound conv (Endpoint.create conv) where
  conv_eq := rfl
  stream := rfl
  mss := (by decide : 0 < (mtuDef - overhead).toNat ∧ (mtuDef - overhead).toNat < 2147483648)
  framed := ⟨by simp [Endpoint.create], rfl⟩
  receiver := .create (by decide) conv
  sender := ⟨0, 0, .create conv, by simp⟩
  got := ⟨[], List.nil_prefix, rfl, rfl⟩
  acks := by simp [Endpoint.create, ikcpCreate]
  wire := by simp [Endpoint.create]

section Numbers

theorem mem_of_history {n : Nat} {p : Piece} (h : e.Framed) (hp : e.history[n]? = some p) :
    p.1 < 128 ∧ p.2.length < 2147483648 := by
  obtain ⟨c, hc, hpc⟩ := List.mem_flatMap.mp (List.mem_of_getElem? hp)
  obtain ⟨-, hlen, hdata⟩ := h.cuts c hc
  obtain ⟨hlt, hmem⟩ := mem_countdown hpc
  exact ⟨hlt.trans_le hlen, hdata p.2 hmem⟩

/-- Only what has been sent arrives. -/
theorem Sound.lt_of_has {n : Nat} (h : e.Sound conv peer) (hn : e.Has n) : n < peer.history.length := by
  rcases hn with hn | ⟨seg, hseg, rfl⟩
  · have hlen : n < (e.taken ++ e.kcp.inbound.rcvQueue.map piece).length := by
      rw [List.length_append, List.length_map]
      exact hn
    exact (List.getElem?_eq_some_iff.mp (h.receiver.releasedAllowed n _ (List.getElem?_eq_getElem hlen))).1
  · exact (List.getElem?_eq_some_iff.mp (h.receiver.heldAllowed seg hseg)).1

theorem Sound.released_le (h : e.Sound conv peer) : e.kcp.inbound.released e.taken ≤ peer.history.length := by
  by_contra hlt
  rw [Nat.not_le] at hlt
  exact absurd (h.lt_of_has (.inl hlt)) (lt_irrefl _)

theorem ofNat_inj {m n : Nat} (hm : m < 2147483648) (hn : n < 2147483648) (h : UInt32.ofNat m = .ofNat n) : m = n := by
  have hmod := congrArg UInt32.toNat h
  rw [UInt32.toNat_ofNat', UInt32.toNat_ofNat'] at hmod
  omega

theorem itimediff_ofNat {m n : Nat} (hm : m < 2147483648) (hn : n < 2147483648) :
    itimediff (.ofNat m) (.ofNat n) = (m : Int) - n := diff_ofNat (by omega) (by omega)

end Numbers

/-- The end with another control block. -/
def withKcp (e : Endpoint) (kcp : Ikcpcb) : Endpoint := { e with kcp := kcp }

section Input

variable (h : e.Sound conv peer) (hpeer : peer.Sound conv e) (hw : peer.Says conv w) (ack : Maxack)
  (hsmall : e.history.length < 2147483648) (hsmall' : peer.history.length < 2147483648)

include h hw hsmall'

/-- Data that is not old is what has been sent under its number. -/
theorem Sound.allowed (hcmd : w.cmd = cmdPush) (hge : 0 ≤ itimediff w.sn e.kcp.rcvNxt) :
    w.sn = .ofNat (index (e.kcp.inbound.released e.taken) w.sn) ∧
      peer.history[index (e.kcp.inbound.released e.taken) w.sn]? = some (w.frg.toNat, w.data) := by
  have hrel := h.released_le
  have hnxt : e.kcp.rcvNxt = .ofNat (e.kcp.inbound.released e.taken) := h.receiver.nxt
  obtain ⟨n, hsn, hp⟩ := hw.data hcmd
  have hlt := (List.getElem?_eq_some_iff.mp hp).1
  rw [hsn, hnxt, itimediff_ofNat (by omega) (by omega)] at hge
  rw [hsn, index_ofNat (by omega) (by omega)]
  exact ⟨rfl, hp⟩

theorem Sound.acks_inputSegment {kcp' : Ikcpcb} (hadv : e.kcp.inbound.Advances e.taken kcp'.inbound e.taken)
    (hans : Answers e.kcp e.taken w kcp') : ∀ a ∈ kcp'.acklist, ∃ n, a.1 = .ofNat n ∧ (e.withKcp kcp').Has n := by
  have hold : ∀ a ∈ e.kcp.acklist, ∃ n, a.1 = .ofNat n ∧ (e.withKcp kcp').Has n := by
    intro a ha
    obtain ⟨n, hsn, hn⟩ := h.acks a ha
    exact ⟨n, hsn, hadv.has n hn⟩
  rcases hans with heq | ⟨hcmd, heq, hcase⟩
  · rwa [heq]
  · rw [heq]
    intro a ha
    rcases List.mem_append.mp ha with ha | ha
    · exact hold a ha
    · rw [List.mem_singleton.mp ha]
      rcases hcase with hlt | ⟨hge, hhas⟩
      · obtain ⟨n, hsn, hp⟩ := hw.data hcmd
        have hrel := h.released_le
        have hnxt : e.kcp.rcvNxt = .ofNat (e.kcp.inbound.released e.taken) := h.receiver.nxt
        have hn := (List.getElem?_eq_some_iff.mp hp).1
        rw [hsn, hnxt, itimediff_ofNat (by omega) (by omega)] at hlt
        exact ⟨n, hsn, hadv.has n (.inl (by omega))⟩
      · exact ⟨_, (h.allowed hw hsmall' hcmd hge).1, hhas⟩

include hpeer hsmall

omit hsmall' in
theorem Sound.sender_inputSegment : ∃ una nxt, Sender e.history conv una nxt (inputSegment e.kcp ack w).1.outbound ∧
    ∀ n < nxt, (e.withKcp (inputSegment e.kcp ack w).1).Pending n ∨ peer.Has n := by
  obtain ⟨una, nxt, hsend, hpend⟩ := h.sender
  obtain ⟨una', -, hsend', hkept⟩ := hsend.inputSegment ack w
  refine ⟨una', nxt, hsend', fun n hn => ?_⟩
  have hnxt := hsend.nxt_le
  rcases hpend n hn with ⟨s, hs, hsn⟩ | hhas
  · rcases hkept s hs with hs | hpos | ⟨hcmd, hsn'⟩
    · exact .inl ⟨s, hs, hsn⟩
    · obtain ⟨m, hm, huna⟩ := hw.una
      have hrel := hpeer.released_le
      rw [huna, hsn, itimediff_ofNat (by omega) (by omega)] at hpos
      exact .inr (.inl (by omega))
    · obtain ⟨m, hm, hhas⟩ := hw.ack hcmd
      have hlt := hpeer.lt_of_has hhas
      rw [hsn, hm] at hsn'
      rw [ofNat_inj (by omega) (by omega) hsn']
      exact .inr hhas
  · exact .inr hhas

theorem Sound.inputSegment : (e.withKcp (inputSegment e.kcp ack w).1).Sound conv peer ∧
    e.Grows (e.withKcp (Ikcp.inputSegment e.kcp ack w).1) := by
  have hsettings := settings_inputSegment e.kcp ack w
  obtain ⟨hrecv, hadv, hans⟩ := h.receiver.inputSegment le_rfl ack fun hcmd hge => (h.allowed hw hsmall' hcmd hge).2
  have hgrows : e.Grows (e.withKcp (Ikcp.inputSegment e.kcp ack w).1) := ⟨List.prefix_rfl, hadv⟩
  refine ⟨⟨?_, ?_, ?_, ⟨h.framed.cuts, h.framed.sent⟩, hrecv, h.sender_inputSegment hpeer hw ack hsmall, h.got,
    h.acks_inputSegment hw hsmall' hadv hans, ?_⟩, hgrows⟩
  · exact (congrArg Settings.conv hsettings).trans h.conv_eq
  · exact (congrArg Settings.stream hsettings).trans h.stream
  · have hmss : (Ikcp.inputSegment e.kcp ack w).1.mss = e.kcp.mss := congrArg Settings.mss hsettings
    rw [withKcp, hmss]
    exact h.mss
  · intro d hd
    obtain ⟨ws, hws, hall⟩ := h.wire d hd
    exact ⟨ws, hws, fun w' hw' => (hall w' hw').mono hgrows⟩

end Input

section Datagrams

/-- The same with other windows, timers and counters. -/
theorem Sound.congr {kcp kcp' : Ikcpcb} (h : (e.withKcp kcp).Sound conv peer) (hin : kcp'.inbound = kcp.inbound)
    (hout : kcp'.outbound = kcp.outbound) (hack : kcp'.acklist = kcp.acklist) (hconv : kcp'.conv = kcp.conv)
    (hstream : kcp'.stream = kcp.stream) (hmss : 0 < kcp'.mss.toNat ∧ kcp'.mss.toNat < 2147483648) :
    (e.withKcp kcp').Sound conv peer ∧ (e.withKcp kcp).Grows (e.withKcp kcp') := by
  have hgrows : (e.withKcp kcp).Grows (e.withKcp kcp') := by
    refine ⟨List.prefix_rfl, ?_⟩
    simp only [withKcp, hin]
    exact .refl _ _
  refine ⟨⟨hconv.trans h.conv_eq, hstream.trans h.stream, hmss, ⟨h.framed.cuts, h.framed.sent⟩, ?_, ?_, h.got, ?_, ?_⟩, hgrows⟩
  · simp only [withKcp, hin]
    exact h.receiver
  · simp only [withKcp, Pending, Outbound.Pending, hout]
    exact h.sender
  · intro a ha
    simp only [withKcp, hack] at ha
    obtain ⟨n, hsn, hn⟩ := h.acks a ha
    exact ⟨n, hsn, hgrows.advances.has n hn⟩
  · intro d hd
    obtain ⟨ws, hws, hall⟩ := h.wire d hd
    exact ⟨ws, hws, fun w' hw' => (hall w' hw').mono hgrows⟩

/-- What is taken from a datagram is what has been put into it. -/
theorem segmentsOf_encode {ws : List Wire} (hws : ∀ w ∈ ws, w.Valid conv) : segmentsOf conv (ws.flatMap Wire.encode) =
    if Int32.ofNat (ws.flatMap Wire.encode).length < overhead.toInt32 then [] else ws := by
  have hdec := decodeAll_encode hws (show ([] : Bytes).length < 24 by decide) (le_refl _)
  rw [List.append_nil] at hdec
  rw [segmentsOf, hdec]

theorem Sound.says_wire (h : e.Sound conv peer) {d : Bytes} (hd : d ∈ e.wire) : ∀ w ∈ segmentsOf conv d, e.Says conv w := by
  obtain ⟨ws, rfl, hall⟩ := h.wire d hd
  rw [segmentsOf_encode fun w hw => (hall w hw).valid]
  split
  · exact List.forall_mem_nil _
  · exact hall

variable (hsmall : e.history.length < 2147483648) (hsmall' : peer.history.length < 2147483648)

include hsmall hsmall'

theorem Sound.inputAll (h : e.Sound conv peer) (hpeer : peer.Sound conv e) {ws : List Wire}
    (hws : ∀ w ∈ ws, peer.Says conv w) (ack : Maxack) :
    (e.withKcp (inputAll e.kcp ack ws).1).Sound conv peer ∧ e.Grows (e.withKcp (Ikcp.inputAll e.kcp ack ws).1) := by
  induction ws generalizing e ack with
  | nil => exact ⟨h, .refl e⟩
  | cons w ws ih =>
      obtain ⟨hstep, hgrow⟩ := h.inputSegment hpeer (hws w List.mem_cons_self) ack hsmall hsmall'
      obtain ⟨hrest, hgrow'⟩ := ih (e := e.withKcp (Ikcp.inputSegment e.kcp ack w).1) hsmall hstep (hpeer.mono_peer hgrow)
        (fun w' hw' => hws w' (List.mem_cons_of_mem w hw')) (Ikcp.inputSegment e.kcp ack w).2
      exact ⟨hrest, hgrow.trans hgrow'⟩

/-- A datagram of the other end arrives, early or late, once or again. -/
theorem Sound.input (h : e.Sound conv peer) (hpeer : peer.Sound conv e) {data : Bytes} (hdata : data ∈ peer.wire) :
    (e.input data).Sound conv peer ∧ e.Grows (e.input data) := by
  obtain ⟨hsound, hgrow⟩ := h.inputAll hsmall hsmall' hpeer (hpeer.says_wire hdata) none
  have hcases := ikcpInput_cases e.kcp data
  rw [h.conv_eq] at hcases
  generalize segmentsOf conv data = ws at hsound hgrow hcases
  rcases hcases with heq | heq
  · rw [Endpoint.input, heq]
    exact ⟨hsound, hgrow⟩
  · have hset := settings_endInput e.kcp.sndUna (Ikcp.inputAll e.kcp none ws).1 (Ikcp.inputAll e.kcp none ws).2
    have hmss : (endInput e.kcp.sndUna (Ikcp.inputAll e.kcp none ws).1 (Ikcp.inputAll e.kcp none ws).2).mss =
        (Ikcp.inputAll e.kcp none ws).1.mss := congrArg Settings.mss hset
    obtain ⟨hsound', hgrow'⟩ := hsound.congr (inbound_endInput e.kcp.sndUna _ _) (outbound_endInput _ _ _)
      (acklist_endInput _ _ _) (congrArg Settings.conv hset) (congrArg Settings.stream hset) (by rw [hmss]; exact hsound.mss)
    rw [Endpoint.input, heq]
    exact ⟨hsound', hgrow.trans hgrow'⟩

end Datagrams

section Send

/-- The segments of a message make up the message. -/
theorem Framed.send (h : e.Framed) (hs : e.kcp.stream = 0) (hmss : 0 < e.kcp.mss.toNat ∧ e.kcp.mss.toNat < 2147483648)
    (buffer : Bytes) : (e.call (.send buffer)).Framed := by
  rcases ikcpSend_cases hs buffer with heq | ⟨hcount, heq⟩
  · have hcall : e.call (.send buffer) = e := by simp [Endpoint.call, sendCuts, heq]
    rwa [hcall]
  · have hcuts : sendCuts e.kcp buffer = [cut e.kcp.mss.toNat (segmentCount e.kcp buffer) buffer] := by simp [sendCuts, heq]
    have hlen := length_cut e.kcp.mss.toNat (segmentCount e.kcp buffer) buffer
    have hpos := segmentCount_pos hmss.1 buffer
    constructor
    · intro c hc
      rcases List.mem_append.mp hc with hc | hc
      · exact h.cuts c hc
      · rw [hcuts, List.mem_singleton] at hc
        subst hc
        refine ⟨List.ne_nil_of_length_pos (by omega), by omega, fun data hdata => ?_⟩
        exact (length_le_of_mem_cut hdata).trans_lt hmss.2
    · have hflat := flatten_cut (length_le_segmentCount hmss.1 buffer)
      simp [Endpoint.call, hcuts, heq, h.sent, hflat]

/-- A message is cut into no more than 128 segments. -/
theorem Framed.length_history_le (h : e.Framed) : e.history.length ≤ 128 * e.sent.length := by
  rw [h.sent, List.length_map]
  exact length_frames_le fun m hm => (h.cuts m hm).2.1

theorem Sound.send (h : e.Sound conv peer) (buffer : Bytes) :
    (e.call (.send buffer)).Sound conv peer ∧ e.Grows (e.call (.send buffer)) := by
  have hframed := h.framed.send h.stream h.mss buffer
  obtain ⟨una, nxt, hsend, hpend⟩ := h.sender
  have hsend' := hsend.ikcpSend h.stream buffer
  rw [history, ← frames_append] at hsend'
  rcases ikcpSend_cases h.stream buffer with heq | ⟨-, heq⟩
  · have hcall : e.call (.send buffer) = e := by simp [Endpoint.call, sendCuts, heq]
    rw [hcall]
    exact ⟨h, .refl e⟩
  · have hgrows : e.Grows (e.call (.send buffer)) := by
      refine ⟨List.prefix_append _ _, ?_⟩
      simp only [Endpoint.call, heq]
      exact .refl _ _
    have hkcp : (e.call (.send buffer)).kcp = (ikcpSend e.kcp buffer).2 := rfl
    refine ⟨⟨?_, ?_, ?_, hframed, ?_, ⟨una, nxt, hsend', ?_⟩, h.got, ?_, ?_⟩, hgrows⟩
    · rw [hkcp, heq]
      exact h.conv_eq
    · rw [hkcp, heq]
      exact h.stream
    · rw [hkcp, heq]
      exact h.mss
    · rw [hkcp, heq]
      exact h.receiver
    · simp only [Pending, hkcp, heq]
      exact hpend
    · simp only [Has, hkcp, heq]
      exact h.acks
    · intro d hd
      obtain ⟨ws, hws, hall⟩ := h.wire d hd
      exact ⟨ws, hws, fun w' hw' => (hall w' hw').mono hgrows⟩

end Send

section Recv

/-- What is in `rcv_queue` continues what has been taken. -/
theorem Sound.queue_prefix (h : e.Sound conv peer) : e.taken ++ e.kcp.rcvQueue.map piece <+: peer.history := by
  apply List.prefix_iff_getElem?.mpr
  intro i hi
  exact h.receiver.releasedAllowed i _ (List.getElem?_eq_getElem hi)

theorem merged_eq (segs : List Ikcpseg) : merged segs = ((segs.map piece).map Prod.snd).flatten := by
  rw [merged, List.map_map, List.flatMap]
  rfl

theorem isLast_comp_piece : isLast ∘ piece = fun seg => decide (seg.frg = 0) := by
  funext seg
  exact decide_eq_decide.mpr (UInt32.toNat_inj (b := 0))

theorem takeMessage_map (queue : List Ikcpseg) :
    splitMessage isLast (queue.map piece) = ((takeMessage queue).1.map piece, (takeMessage queue).2.map piece) := by
  rw [splitMessage_map, isLast_comp_piece]
  rfl

theorem Sound.got_recv (h : e.Sound conv peer) (hpeer : peer.Framed) (len : Int) : ∃ ms, ms <+: peer.cuts ∧
    (e.call (.recv len)).taken = frames ms ∧ (e.call (.recv len)).got = ms.map List.flatten := by
  obtain ⟨ms, ⟨rest, hcuts⟩, htaken, hgot⟩ := h.got
  by_cases hfail : (ikcpRecv e.kcp len).1 < 0 ∨ len < 0
  · exact ⟨ms, ⟨rest, hcuts⟩, by simp [Endpoint.call, recvTaken, hfail, htaken], by simp [Endpoint.call, recvGot, hfail, hgot]⟩
  · rcases ikcpRecv_cases e.kcp len with ⟨hneg, -⟩ | ⟨hpeek, hne, recover, kcp', -, heq⟩
    · exact absurd (.inl hneg) hfail
    · obtain ⟨seg, queue, hq⟩ := List.exists_cons_of_ne_nil hne
      have hle : seg.frg.toNat ≤ (queue.map piece).length := by
        rw [ikcpPeeksize_cons h.receiver.queCount hq] at hpeek
        split at hpeek
        · rwa [List.length_map]
        · cases hpeek
      have hpre := h.queue_prefix
      rw [history, ← hcuts, frames_append, htaken, List.prefix_append_right_inj, hq, List.map_cons] at hpre
      have hms : ∀ m ∈ rest, m ≠ [] := by
        intro m hm
        apply (hpeer.cuts m _).1
        rw [← hcuts]
        exact List.mem_append_right ms hm
      obtain ⟨m, rest', hrest, hsplit, -⟩ := exists_message hms hpre hle
      rw [← List.map_cons, ← hq, takeMessage_map] at hsplit
      change (takeMessage e.kcp.rcvQueue).1.map piece = countdown m at hsplit
      refine ⟨ms ++ [m], ⟨rest', by rw [← hcuts, hrest, List.append_assoc, List.singleton_append]⟩, ?_, ?_⟩
      · simp only [Endpoint.call, recvTaken, if_neg hfail]
        rw [htaken, frames_append, frames_cons, hsplit]
        simp [frames]
      · simp only [Endpoint.call, recvGot, if_neg hfail]
        rw [heq, hgot, List.map_append, merged_eq, hsplit, map_snd_countdown]
        rfl

theorem Sound.recv (h : e.Sound conv peer) (hpeer : peer.Framed) (len : Int) :
    (e.call (.recv len)).Sound conv peer ∧ e.Grows (e.call (.recv len)) := by
  obtain ⟨hrecv, hadv⟩ := h.receiver.ikcpRecv len
  have hgrows : e.Grows (e.call (.recv len)) := ⟨List.prefix_rfl, hadv⟩
  have hset := (frame_ikcpRecv e.kcp len).2.1
  have hmss : (ikcpRecv e.kcp len).2.2.mss = e.kcp.mss := congrArg Settings.mss hset
  have hout := (frame_ikcpRecv e.kcp len).1
  have hkcp : (e.call (.recv len)).kcp = (ikcpRecv e.kcp len).2.2 := rfl
  refine ⟨⟨?_, ?_, ?_, ⟨h.framed.cuts, h.framed.sent⟩, hrecv, ?_, h.got_recv hpeer len, ?_, ?_⟩, hgrows⟩
  · exact (congrArg Settings.conv hset).trans h.conv_eq
  · exact (congrArg Settings.stream hset).trans h.stream
  · rw [hkcp, hmss]
    exact h.mss
  · simp only [Pending, hkcp, hout]
    exact h.sender
  · intro a ha
    rw [hkcp, (frame_ikcpRecv e.kcp len).2.2] at ha
    obtain ⟨n, hsn, hn⟩ := h.acks a ha
    exact ⟨n, hsn, hadv.has n hn⟩
  · intro d hd
    obtain ⟨ws, hws, hall⟩ := h.wire d hd
    exact ⟨ws, hws, fun w' hw' => (hall w' hw').mono hgrows⟩

end Recv

section Flush

variable {seg : Ikcpseg}

/-- A segment without data. -/
theorem Sound.says_control (h : e.Sound conv peer) (huna : seg.una = e.kcp.rcvNxt) (hconv : seg.conv = e.kcp.conv)
    (hdata : seg.data = [])
    (hcmd : (seg.cmd = cmdAck ∧ (seg.sn, seg.ts) ∈ e.kcp.acklist) ∨ seg.cmd = cmdWask ∨ seg.cmd = cmdWins) :
    e.Says conv (Ikcp.wire seg) := by
  have hpush : seg.cmd ≠ cmdPush := by
    intro hpush
    rw [hpush] at hcmd
    rcases hcmd with ⟨hcmd, -⟩ | hcmd | hcmd <;> exact absurd hcmd (by decide)
  refine ⟨⟨hconv.trans h.conv_eq, ?_, ?_⟩, ⟨_, le_rfl, huna.trans h.receiver.nxt⟩, fun hcmd' => absurd hcmd' hpush, fun hack => ?_⟩
  · exact .inr (hcmd.imp_left And.left)
  · simp [Ikcp.wire, hdata]
  · rcases hcmd with ⟨-, hmem⟩ | hcmd
    · exact h.acks _ hmem
    · have hseg : seg.cmd = cmdAck := hack
      rw [hseg] at hcmd
      rcases hcmd with hcmd | hcmd <;> exact absurd hcmd (by decide)

/-- A segment of `snd_buf`. -/
theorem Sound.says_data (h : e.Sound conv peer) (huna : seg.una = e.kcp.rcvNxt) {una nxt : Nat} {o : Outbound}
    (hsend : Sender e.history conv una nxt o) (hslot : slot seg ∈ o.sndBuf) : e.Says conv (Ikcp.wire seg) := by
  obtain ⟨hconv, hcmd, hget⟩ := hsend.slots _ hslot
  obtain ⟨hfrg, hlen⟩ := mem_of_history h.framed hget
  change seg.frg.toNat < 128 at hfrg
  refine ⟨⟨hconv, .inl hcmd, hlen⟩, ⟨_, le_rfl, huna.trans h.receiver.nxt⟩, fun _ => ?_, fun hack => ?_⟩
  · refine ⟨index una seg.sn, (ofNat_index _ _).symm, ?_⟩
    have hbyte : seg.frg.toUInt8.toNat = seg.frg.toNat := by
      rw [UInt32.toNat_toUInt8]
      omega
    simp only [Ikcp.wire, hbyte]
    exact hget
  · have hseg : seg.cmd = cmdAck := hack
    have hpush : seg.cmd = cmdPush := hcmd
    rw [hseg] at hpush
    exact absurd hpush (by decide)

theorem grows_flush (e : Endpoint) : e.Grows (e.call .flush) := by
  refine ⟨List.prefix_rfl, ?_⟩
  rw [Endpoint.call, inbound_ikcpFlush]
  exact .refl _ _

theorem Sound.says_flushed (h : e.Sound conv peer) (hseg : seg ∈ flushed e.kcp) : e.Says conv (Ikcp.wire seg) := by
  obtain ⟨una, nxt, hsend, -⟩ := h.sender
  rw [← h.conv_eq] at hsend
  obtain ⟨nxt', hsend', -⟩ := hsend.flushQueue
  rw [h.conv_eq] at hsend'
  obtain ⟨huna, -, ⟨hconv, hdata, hcmd⟩ | hslot⟩ := mem_flushed hseg
  · exact h.says_control huna hconv hdata hcmd
  · exact h.says_data huna hsend' hslot

theorem Sound.flush (h : e.Sound conv peer) :
    (e.call .flush).Sound conv peer ∧ e.Grows (e.call .flush) := by
  cases hu : e.kcp.updated with
  | false =>
      have hcall : e.call .flush = e := by simp [Endpoint.call, ikcpFlush_of_not_updated hu]
      rw [hcall]
      exact ⟨h, .refl e⟩
  | true =>
      obtain ⟨una, nxt, hsend, hpend⟩ := h.sender
      rw [← h.conv_eq] at hsend
      obtain ⟨nxt', hsend', -, hpend'⟩ := hsend.flushQueue
      rw [h.conv_eq] at hsend'
      have hset := settings_ikcpFlush e.kcp
      have hmss : (ikcpFlush e.kcp).1.mss = e.kcp.mss := congrArg Settings.mss hset
      have hkcp : (e.call .flush).kcp = (ikcpFlush e.kcp).1 := rfl
      have hgrows := e.grows_flush
      refine ⟨⟨?_, ?_, ?_, ⟨h.framed.cuts, h.framed.sent⟩, ?_, ⟨una, nxt', ?_, fun n hn => ?_⟩, h.got, ?_, fun d hd => ?_⟩, hgrows⟩
      · exact (congrArg Settings.conv hset).trans h.conv_eq
      · exact (congrArg Settings.stream hset).trans h.stream
      · rw [hkcp, hmss]
        exact h.mss
      · rw [hkcp, inbound_ikcpFlush]
        exact h.receiver
      · rw [hkcp, outbound_ikcpFlush hu]
        exact hsend'
      · rw [Pending, hkcp, outbound_ikcpFlush hu]
        by_cases hlt : n < nxt
        · exact (hpend n hlt).imp_left fun hp => hpend' n hn (.inl hp)
        · exact .inl (hpend' n hn (.inr (Nat.not_lt.mp hlt)))
      · rw [hkcp, acklist_ikcpFlush hu]
        simp
      · rcases List.mem_append.mp hd with hd | hd
        · obtain ⟨ws, hws, hall⟩ := h.wire d hd
          exact ⟨ws, hws, fun w' hw' => (hall w' hw').mono hgrows⟩
        · rw [packets_ikcpFlush hu] at hd
          obtain ⟨groups, heq, hflat, -⟩ := exists_groups e.kcp.mtu (flushed e.kcp)
          rw [heq] at hd
          obtain ⟨group, hgroup, rfl⟩ := List.mem_map.mp hd
          refine ⟨group.map Ikcp.wire, by rw [List.flatMap_map]; rfl, ?_⟩
          intro w hw
          obtain ⟨seg, hseg, rfl⟩ := List.mem_map.mp hw
          apply (h.says_flushed _).mono hgrows
          rw [← hflat]
          exact List.mem_flatten_of_mem hgroup hseg

end Flush

section Calls

theorem Sound.setClock (h : e.Sound conv peer) (current : UInt32) :
    (e.withKcp (setClock e.kcp current)).Sound conv peer ∧ e.Grows (e.withKcp (Ikcp.setClock e.kcp current)) :=
  @Sound.congr conv e peer e.kcp (Ikcp.setClock e.kcp current) h rfl rfl rfl rfl rfl h.mss

theorem Sound.update (h : e.Sound conv peer) (current : UInt32) :
    (e.call (.update current)).Sound conv peer ∧ e.Grows (e.call (.update current)) := by
  have hclock := h.setClock current
  rcases ikcpUpdate_cases e.kcp current with heq | heq
  · rw [Endpoint.call, heq]
    obtain ⟨hflush, hgrow⟩ := hclock.1.flush
    exact ⟨hflush, hclock.2.trans hgrow⟩
  · rw [Endpoint.call, heq, List.append_nil]
    exact hclock

theorem Sound.wndsize (h : e.Sound conv peer) (sndwnd rcvwnd : Int32) :
    (e.call (.wndsize sndwnd rcvwnd)).Sound conv peer ∧ e.Grows (e.call (.wndsize sndwnd rcvwnd)) := by
  have hwindow : (ikcpWndsize e.kcp sndwnd rcvwnd).inbound.rcvWnd.toNat ≤ 2147483648 := by
    simp only [ikcpWndsize, Ikcpcb.inbound]
    split
    · next hpos =>
      have hle := wnd_wndsize hpos
      have hlt := rcvwnd.toInt_lt
      omega
    · exact h.receiver.window
  have hadv : e.kcp.inbound.Advances e.taken (ikcpWndsize e.kcp sndwnd rcvwnd).inbound e.taken := ⟨le_rfl, fun _ hn => hn⟩
  have hgrows : e.Grows (e.call (.wndsize sndwnd rcvwnd)) := ⟨List.prefix_rfl, hadv⟩
  refine ⟨⟨h.conv_eq, h.stream, h.mss, ⟨h.framed.cuts, h.framed.sent⟩, ?_, h.sender, h.got, h.acks, fun d hd => ?_⟩, hgrows⟩
  · exact ⟨h.receiver.nxt, h.receiver.held, h.receiver.bufCount, h.receiver.queCount, hwindow, h.receiver.room,
      h.receiver.heldAllowed, h.receiver.releasedAllowed⟩
  · obtain ⟨ws, hws, hall⟩ := h.wire d hd
    exact ⟨ws, hws, fun w' hw' => (hall w' hw').mono hgrows⟩

theorem Sound.call (h : e.Sound conv peer) (hpeer : peer.Framed) {c : Call} (hc : c.setsMtu = false) :
    (e.call c).Sound conv peer ∧ e.Grows (e.call c) := by
  cases c with
  | send buffer => exact h.send buffer
  | recv len => exact h.recv hpeer len
  | update current => exact h.update current
  | flush => exact h.flush
  | setmtu mtu malloc => cases hc
  | interval interval => exact h.congr rfl rfl rfl rfl rfl h.mss
  | nodelay nodelay interval resend nc => exact h.congr rfl rfl rfl rfl rfl h.mss
  | wndsize sndwnd rcvwnd => exact h.wndsize sndwnd rcvwnd

end Calls

section Acknowledged

/-- What does not wait any more has arrived. -/
theorem Sound.has_all (h : e.Sound conv peer) (hs : e.history.length < 2147483648) (hwait : ikcpWaitsnd e.kcp = 0) :
    ∀ n < e.history.length, peer.Has n := by
  obtain ⟨una, nxt, hsend, hpend⟩ := h.sender
  obtain ⟨hempty, hnxt⟩ := (hsend.waitsnd_eq_zero_iff hs).mp hwait
  intro n hn
  rw [← hnxt] at hn
  rcases hpend n hn with ⟨s, hs, -⟩ | hhas
  · rw [hempty] at hs
    cases hs
  · exact hhas

end Acknowledged

end Endpoint

end GameAccelerator.Ikcp
