import GameAccelerator.IkcpFrame

namespace GameAccelerator.Ikcp

open CString Serial SerialList
open LosslessKcp (cmdPush cmdAck)

section Sender

/-- All pieces that have been handed to `ikcp_send` stand in `history`. Those
before `nxt` have a number, and those in `snd_buf` have not been acknowledged,
the first of them is `una`. -/
structure Sender (history : List Piece) (conv : UInt32) (una nxt : Nat) (o : Outbound) : Prop where
  una_eq : o.sndUna = .ofNat una
  nxt_eq : o.sndNxt = .ofNat nxt
  una_le : una ≤ nxt
  nxt_le : nxt ≤ history.length
  flight : nxt ≤ una + 65535
  remote : o.rmtWnd.toNat ≤ 65535
  buf : Ascending Slot.sn una nxt o.sndBuf
  first : o.sndUna = (o.sndBuf.head?.map Slot.sn).getD o.sndNxt
  bufCount : o.nsndBuf = .ofNat o.sndBuf.length
  queCount : o.nsndQue = .ofNat o.sndQueue.length
  slots : ∀ s ∈ o.sndBuf, s.conv = conv ∧ s.cmd = cmdPush ∧ history[index una s.sn]? = some s.piece
  queue : o.sndQueue = history.drop nxt

variable {history : List Piece} {conv : UInt32} {una nxt : Nat} {o : Outbound} {l : List Slot}

theorem Sender.create (conv : UInt32) : Sender [] conv 0 0 (ikcpCreate conv).outbound where
  una_eq := rfl
  nxt_eq := rfl
  una_le := le_rfl
  nxt_le := le_rfl
  flight := Nat.zero_le _
  remote := (by decide : 128 ≤ 65535)
  buf := .nil
  first := rfl
  bufCount := rfl
  queCount := rfl
  slots := by simp [ikcpCreate, Ikcpcb.outbound]
  queue := rfl

/-- The control block when only the segments of a list are left in `snd_buf`. -/
def Outbound.keep (o : Outbound) (l : List Slot) : Outbound :=
  { o with
    sndUna := (l.head?.map Slot.sn).getD o.sndNxt
    nsndBuf := o.nsndBuf - .ofNat (o.sndBuf.length - l.length)
    sndBuf := l }

theorem Sender.keep (h : Sender history conv una nxt o) (hl : l.Sublist o.sndBuf) :
    ∃ una', una ≤ una' ∧ Sender history conv una' nxt (o.keep l) ∧ ∀ s ∈ l, index una' s.sn = index una s.sn := by
  have hbuf := h.buf.sublist hl
  have hlen := hl.length_le
  have hcount : (o.keep l).nsndBuf = .ofNat l.length := by
    rw [Outbound.keep, h.bufCount, UInt32.ofNat_sub hlen]
    grind
  cases l with
  | nil =>
      exact ⟨nxt, h.una_le, ⟨h.nxt_eq, h.nxt_eq, le_rfl, h.nxt_le, Nat.le_add_right _ _, h.remote, .nil, rfl, hcount, h.queCount,
        by simp [Outbound.keep], h.queue⟩, by simp⟩
  | cons s l =>
      obtain ⟨hs, hlt, -⟩ := Ascending.cons_iff.mp hbuf
      have hge : ∀ t ∈ s :: l, index una s.sn ≤ index una t.sn := by
        rintro t (_ | ⟨_, ht⟩)
        · exact le_rfl
        · exact (hlt t ht).le
      have hidx : ∀ t ∈ s :: l, index (index una s.sn) t.sn = index una t.sn :=
        fun t ht => index_of_le (le_index _ _) (hge t ht)
      refine ⟨index una s.sn, le_index _ _, ⟨(ofNat_index una s.sn).symm, h.nxt_eq, hs.le, h.nxt_le,
        h.flight.trans (Nat.add_le_add_right (le_index _ _) _), h.remote, hbuf.rebase (le_index _ _) hge, rfl, hcount,
        h.queCount, ?_, h.queue⟩, hidx⟩
      intro t ht
      rw [hidx t ht]
      exact h.slots t (hl.subset ht)

theorem Outbound.keep_keep (o : Outbound) {l l' : List Slot} (hl : l.length ≤ o.sndBuf.length) (hl' : l'.length ≤ l.length) :
    (o.keep l).keep l' = o.keep l' := by
  simp only [Outbound.keep, Outbound.mk.injEq, true_and, and_true]
  rw [sub_sub, ← UInt32.ofNat_add]
  congr 2
  omega

section Acknowledge

/-- The segments that a list keeps, of those in `snd_buf`, and why it may leave
out others. -/
structure Kept (o o' : Outbound) (l : List Slot) (gone : Slot → Prop) : Prop where
  eq : o' = o.keep l
  sublist : l.Sublist o.sndBuf
  kept : ∀ s ∈ o.sndBuf, s ∈ l ∨ gone s

theorem outbound_shrinkBuf (kcp : Ikcpcb) (l : List Ikcpseg) :
    (shrinkBuf { kcp with sndBuf := l, nsndBuf := kcp.nsndBuf - .ofNat (kcp.sndBuf.length - l.length) }).outbound =
      kcp.outbound.keep (l.map slot) := by
  cases l <;> simp [shrinkBuf, Ikcpcb.outbound, Outbound.keep, slot]

theorem outbound_parseUna (kcp : Ikcpcb) (una : UInt32) :
    ∃ l, Kept kcp.outbound (shrinkBuf (parseUna kcp una)).outbound l fun s => 0 < itimediff una s.sn := by
  refine ⟨_, outbound_shrinkBuf kcp _, (List.dropWhile_sublist _).map slot, ?_⟩
  intro s hs
  obtain ⟨seg, hseg, rfl⟩ := List.mem_map.mp hs
  rw [← List.takeWhile_append_dropWhile (p := fun seg : Ikcpseg => decide (itimediff una seg.sn > 0)) (l := kcp.sndBuf),
    List.mem_append] at hseg
  rcases hseg with hseg | hseg
  · have hpos := List.mem_takeWhile_imp hseg
    exact .inr (of_decide_eq_true hpos)
  · exact .inl (List.mem_map_of_mem hseg)

theorem outbound_parseAck (kcp : Ikcpcb) (sn : UInt32) :
    ∃ l, Kept kcp.outbound (shrinkBuf (parseAck kcp sn)).outbound l fun s => s.sn = sn := by
  refine ⟨_, outbound_shrinkBuf kcp _, ?_, ?_⟩
  · split
    · exact erase_sublist.map slot
    · exact .refl _
  · intro s hs
    obtain ⟨seg, hseg, rfl⟩ := List.mem_map.mp hs
    split
    · exact (mem_erase_or hseg).imp_left List.mem_map_of_mem
    · exact .inl hs

theorem Kept.trans {o o' o'' : Outbound} {l l' : List Slot} {gone gone' : Slot → Prop} (h : Kept o o' l gone)
    (h' : Kept o' o'' l' gone') : Kept o o'' l' fun s => gone s ∨ gone' s := by
  obtain ⟨rfl, hsub, hkept⟩ := h
  obtain ⟨rfl, hsub', hkept'⟩ := h'
  refine ⟨o.keep_keep hsub.length_le hsub'.length_le, hsub'.trans hsub, ?_⟩
  intro s hs
  rcases hkept s hs with hs | hgone
  · exact (hkept' s hs).imp_right .inr
  · exact .inr (.inl hgone)

theorem Kept.imp {o o' : Outbound} {l : List Slot} {gone gone' : Slot → Prop} (h : Kept o o' l gone)
    (himp : ∀ s, gone s → gone' s) : Kept o o' l gone' :=
  ⟨h.eq, h.sublist, fun s hs => (h.kept s hs).imp_right (himp s)⟩

/-- A segment takes off `snd_buf` what it acknowledges, and nothing else. -/
theorem outbound_inputSegment (kcp : Ikcpcb) (ack : Maxack) (w : Wire) :
    ∃ l, Kept { kcp.outbound with rmtWnd := w.wnd.toUInt32 } (inputSegment kcp ack w).1.outbound l fun s =>
      0 < itimediff w.una s.sn ∨ w.cmd = cmdAck ∧ s.sn = w.sn := by
  obtain ⟨l, hl⟩ := outbound_parseUna { kcp with rmtWnd := w.wnd.toUInt32 } w.una
  have hl' : Kept _ _ l fun s => 0 < itimediff w.una s.sn ∨ w.cmd = cmdAck ∧ s.sn = w.sn := hl.imp fun s => .inl
  rcases inputSegment_cases kcp ack w with ⟨hack, heq⟩ | ⟨-, heq⟩ | ⟨-, heq⟩ | ⟨-, heq⟩ <;> rw [heq]
  · obtain ⟨l', hl''⟩ := outbound_parseAck (measureRtt (takeUna kcp w) w.ts) w.sn
    rw [outbound_measureRtt] at hl''
    exact ⟨l', (hl.trans hl'').imp fun s => .imp_right fun hs => ⟨hack, hs⟩⟩
  · rw [outbound_inputPush]
    exact ⟨l, hl'⟩
  · exact ⟨l, hl'⟩
  · exact ⟨l, hl'⟩

theorem Sender.inputSegment {kcp : Ikcpcb} (h : Sender history conv una nxt kcp.outbound) (ack : Maxack) (w : Wire) :
    ∃ una', una ≤ una' ∧ Sender history conv una' nxt (inputSegment kcp ack w).1.outbound ∧
      ∀ s ∈ kcp.outbound.sndBuf, s ∈ (Ikcp.inputSegment kcp ack w).1.outbound.sndBuf ∨
        0 < itimediff w.una s.sn ∨ w.cmd = cmdAck ∧ s.sn = w.sn := by
  obtain ⟨l, heq, hsub, hkept⟩ := outbound_inputSegment kcp ack w
  have hwnd : (w.wnd.toUInt32).toNat ≤ 65535 := by
    have := w.wnd.toNat_lt
    rw [UInt16.toNat_toUInt32]
    omega
  have h' : Sender history conv una nxt { kcp.outbound with rmtWnd := w.wnd.toUInt32 } := { h with remote := hwnd }
  obtain ⟨una', hle, hsend, -⟩ := h'.keep hsub
  rw [heq]
  exact ⟨una', hle, hsend, hkept⟩

end Acknowledge

section Launch

variable {p : Piece} {rest : List Piece} {cwnd : UInt32}

/-- The next piece of the queue has got its number. -/
def Outbound.launch (o : Outbound) (conv : UInt32) (p : Piece) (rest : List Piece) : Outbound :=
  { o with
    sndNxt := o.sndNxt + 1
    nsndBuf := o.nsndBuf + 1
    nsndQue := o.nsndQue - 1
    sndBuf := o.sndBuf ++ [⟨conv, cmdPush, o.sndNxt, p⟩]
    sndQueue := rest }

/-- The window is compared on the circle. -/
theorem Sender.lt_window (h : Sender history conv una nxt o) (hc : cwnd.toNat ≤ 65535)
    (hlt : itimediff o.sndNxt (o.sndUna + cwnd) < 0) : nxt < una + cwnd.toNat := by
  have hle := h.una_le
  have hflight := h.flight
  have hwin : o.sndUna + cwnd = .ofNat (una + cwnd.toNat) := by rw [UInt32.ofNat_add, UInt32.ofNat_toNat, h.una_eq]
  rw [hwin, h.nxt_eq, itimediff, diff_ofNat (by omega) (by omega)] at hlt
  omega

theorem Sender.launch (h : Sender history conv una nxt o) (hq : o.sndQueue = p :: rest) (hc : cwnd.toNat ≤ 65535)
    (hlt : itimediff o.sndNxt (o.sndUna + cwnd) < 0) : Sender history conv una (nxt + 1) (o.launch conv p rest) := by
  have hroom := h.lt_window hc hlt
  obtain ⟨huna, hnxt, hle, -, hflight, hremote, hbuf, hfirst, hcount, hque, hslots, hqueue⟩ := h
  have hdrop : history.drop nxt = p :: rest := hqueue.symm.trans hq
  have hget : history[nxt]? = some p := by
    rw [← Nat.add_zero nxt, ← List.getElem?_drop, hdrop]
    rfl
  have hidx : index una o.sndNxt = nxt := by
    rw [hnxt]
    exact index_ofNat hle (by omega)
  refine ⟨huna, ?_, Nat.le_succ_of_le hle, (List.getElem?_eq_some_iff.mp hget).1, by omega, hremote, ?_, ?_, ?_, ?_, ?_, ?_⟩
  · rw [ofNat_succ, ← hnxt]
    rfl
  · rw [← hidx] at hbuf ⊢
    exact Ascending.concat (x := (⟨conv, cmdPush, o.sndNxt, p⟩ : Slot)) hbuf
  · cases hl : o.sndBuf with
    | nil =>
        rw [hl] at hfirst
        simpa [Outbound.launch, hl] using hfirst
    | cons s l =>
        rw [hl] at hfirst
        simpa [Outbound.launch, hl] using hfirst
  · rw [Outbound.launch, List.length_append, List.length_singleton, ofNat_succ, hcount]
  · rw [Outbound.launch, hque, hq, List.length_cons, ofNat_succ]
    exact UInt32.add_sub_cancel _ _
  · intro s hs
    rcases List.mem_append.mp hs with hs | hs
    · exact hslots s hs
    · rw [List.mem_singleton.mp hs, hidx]
      exact ⟨rfl, rfl, hget⟩
  · rw [← List.tail_drop, hdrop, List.tail_cons]
    rfl

def Outbound.queueing (o : Outbound) (queue : List Piece) : Outbound := { o with sndQueue := queue }

/-- Segments that are waiting for an acknowledgement. -/
def Outbound.Pending (o : Outbound) (n : Nat) : Prop := ∃ s ∈ o.sndBuf, s.sn = .ofNat n

theorem outbound_sendNext (kcp : Ikcpcb) (seg : Ikcpseg) (rest : List Piece) :
    (sendNext kcp seg).outbound.queueing rest =
      (kcp.outbound.queueing (piece seg :: rest)).launch kcp.conv (piece seg) rest := by
  simp [sendNext, Ikcpcb.outbound, Outbound.queueing, Outbound.launch, slot, number, piece]

/-- The loop numbers segments until the window is full or the queue is empty. -/
theorem Sender.moveSent {kcp : Ikcpcb} {l : List Ikcpseg}
    (h : Sender history kcp.conv una nxt (kcp.outbound.queueing (l.map piece))) (hc : cwnd.toNat ≤ 65535) :
    ∃ nxt', Sender history kcp.conv una nxt' (moveSent cwnd kcp l).outbound ∧ nxt' ≤ max nxt (una + cwnd.toNat) ∧
      ∀ n < nxt', kcp.outbound.Pending n ∨ nxt ≤ n → (Ikcp.moveSent cwnd kcp l).outbound.Pending n := by
  induction l generalizing kcp nxt with
  | nil =>
      refine ⟨nxt, h, Nat.le_max_left _ _, ?_⟩
      rintro n hn (hp | hle)
      · exact hp
      · omega
  | cons seg l ih =>
      rw [Ikcp.moveSent]
      split
      · next hlt =>
        rw [List.map_cons] at h
        have hstep := h.launch rfl hc hlt
        have hroom := h.lt_window hc hlt
        rw [← outbound_sendNext] at hstep
        obtain ⟨nxt', hsend, hle, hpend⟩ := @ih _ (sendNext kcp seg) hstep
        refine ⟨nxt', hsend, by omega, fun n hn hcase => hpend n hn ?_⟩
        have hbuf : (sendNext kcp seg).outbound.sndBuf = kcp.outbound.sndBuf ++ [slot (number kcp seg)] := List.map_append
        rcases hcase with ⟨s, hs, hsn⟩ | hle
        · exact .inl ⟨s, by rw [hbuf]; exact List.mem_append_left _ hs, hsn⟩
        · rcases Nat.eq_or_lt_of_le hle with rfl | hlt
          · exact .inl ⟨_, by rw [hbuf]; exact List.mem_append_right _ List.mem_cons_self, h.nxt_eq⟩
          · exact .inr hlt
      · refine ⟨nxt, h, Nat.le_max_left _ _, ?_⟩
        rintro n hn (hp | hle)
        · exact hp
        · omega

theorem sendWindow_le (kcp : Ikcpcb) : (sendWindow kcp).toNat ≤ min kcp.sndWnd.toNat kcp.rmtWnd.toNat := by
  simp only [sendWindow]
  split <;> simp only [UInt32.toNat_min] <;> omega

theorem Sender.flushQueue {kcp : Ikcpcb} (h : Sender history kcp.conv una nxt kcp.outbound) :
    ∃ nxt', Sender history kcp.conv una nxt' (flushQueue kcp).outbound ∧ nxt' ≤ max nxt (una + kcp.sndWnd.toNat) ∧
      ∀ n < nxt', kcp.outbound.Pending n ∨ nxt ≤ n → (Ikcp.flushQueue kcp).outbound.Pending n := by
  have hw := sendWindow_le { probeWindow { kcp with acklist := [] } with probe := 0 }
  change _ ≤ min kcp.sndWnd.toNat _ at hw
  obtain ⟨nxt', hsend, hle, hpend⟩ := @Sender.moveSent history una nxt _
    { probeWindow { kcp with acklist := [] } with probe := 0 } kcp.sndQueue h ((hw.trans (Nat.min_le_right _ _)).trans h.remote)
  exact ⟨nxt', hsend, by omega, hpend⟩

end Launch

section Send

/-- The data of so many segments. -/
def cut (mss : Nat) : Nat → Bytes → List Bytes
  | 0, _ => []
  | n + 1, buffer => buffer.take mss :: cut mss n (buffer.drop mss)

theorem length_cut (mss n : Nat) (buffer : Bytes) : (cut mss n buffer).length = n := by
  induction n generalizing buffer with
  | zero => rfl
  | succ n ih => rw [cut, List.length_cons, ih]

theorem flatten_cut {mss n : Nat} {buffer : Bytes} (h : buffer.length ≤ n * mss) : (cut mss n buffer).flatten = buffer := by
  induction n generalizing buffer with
  | zero =>
      rw [Nat.zero_mul, Nat.le_zero, List.length_eq_zero_iff] at h
      rw [h]
      rfl
  | succ n ih =>
      have hrest : (buffer.drop mss).length ≤ n * mss := by
        rw [List.length_drop, Nat.sub_le_iff_le_add, ← Nat.succ_mul]
        exact h
      rw [cut, List.flatten_cons, ih hrest, List.take_append_drop]

theorem length_le_of_mem_cut {mss n : Nat} {buffer data : Bytes} (h : data ∈ cut mss n buffer) : data.length ≤ mss := by
  induction n generalizing buffer with
  | zero => cases h
  | succ n ih =>
      rcases List.mem_cons.mp h with rfl | h
      · exact List.length_take_le mss buffer
      · exact ih h

theorem map_piece_fragment {mss n : Nat} {buffer : Bytes} (hn : n ≤ 4294967296) :
    (fragment mss 0 n buffer).map piece = Countdown.countdown (cut mss n buffer) := by
  induction n generalizing buffer with
  | zero => rfl
  | succ n ih =>
      have hfrg : (UInt32.ofNat n).toNat = n := by
        rw [UInt32.toNat_ofNat']
        omega
      rw [fragment, cut, Countdown.countdown, List.map_cons, ih (by omega), length_cut]
      simp [piece, segmentNew, hfrg]

theorem segmentCount_pos {kcp : Ikcpcb} (hmss : 0 < kcp.mss.toNat) (buffer : Bytes) : 0 < segmentCount kcp buffer := by
  rw [segmentCount]
  split
  · exact Nat.one_pos
  · exact Nat.div_pos (by omega) hmss

theorem length_le_segmentCount {kcp : Ikcpcb} (hmss : 0 < kcp.mss.toNat) (buffer : Bytes) :
    buffer.length ≤ segmentCount kcp buffer * kcp.mss.toNat := by
  rw [segmentCount]
  split
  · omega
  · have hdiv := Nat.div_add_mod (buffer.length + kcp.mss.toNat - 1) kcp.mss.toNat
    have hmod := Nat.mod_lt (buffer.length + kcp.mss.toNat - 1) hmss
    rw [Nat.mul_comm] at hdiv
    omega

/-- Without streams, a call fails and changes nothing, or it appends the
segments of the buffer to `snd_queue`. -/
theorem ikcpSend_cases {kcp : Ikcpcb} (hs : kcp.stream = 0) (buffer : Bytes) :
    ikcpSend kcp buffer = (-2, kcp) ∨
      segmentCount kcp buffer < 128 ∧ ikcpSend kcp buffer = ((buffer.length : Int), { kcp with
        sndQueue := kcp.sndQueue ++ fragment kcp.mss.toNat 0 (segmentCount kcp buffer) buffer
        nsndQue := kcp.nsndQue + .ofNat (segmentCount kcp buffer) }) := by
  have hw : wndRcv.toNat = 128 := rfl
  simp only [ikcpSend, sendSegments, hs, hw]
  by_cases hc : segmentCount kcp buffer ≥ 128
  · left
    simp [hc]
  · right
    simp [hc]
    omega

theorem ikcpSend_nonneg {kcp : Ikcpcb} {buffer : Bytes} (hs : kcp.stream = 0) (hc : segmentCount kcp buffer < 128) :
    0 ≤ (ikcpSend kcp buffer).1 := by
  have hw : wndRcv.toNat = 128 := rfl
  simp only [ikcpSend, sendSegments, hs, hw]
  rw [if_neg (by simp), if_neg (by omega)]
  exact Int.add_nonneg (Int.natCast_nonneg _) (Int.natCast_nonneg _)

/-- The fragments that a call appends to the queue. -/
def sendCuts (kcp : Ikcpcb) (buffer : Bytes) : List (List Bytes) :=
  if (ikcpSend kcp buffer).1 < 0 then [] else [cut kcp.mss.toNat (segmentCount kcp buffer) buffer]

theorem Sender.append {history' : List Piece} (h : Sender history conv una nxt o) :
    Sender (history ++ history') conv una nxt
      { o with sndQueue := o.sndQueue ++ history', nsndQue := o.nsndQue + .ofNat history'.length } := by
  obtain ⟨huna, hnxt, hle, hlen, hflight, hremote, hbuf, hfirst, hcount, hque, hslots, hqueue⟩ := h
  refine ⟨huna, hnxt, hle, ?_, hflight, hremote, hbuf, hfirst, hcount, ?_, ?_, ?_⟩
  · rw [List.length_append]
    exact Nat.le_add_right_of_le hlen
  · rw [List.length_append, UInt32.ofNat_add, hque]
  · intro s hs
    obtain ⟨hconv, hcmd, hget⟩ := hslots s hs
    refine ⟨hconv, hcmd, ?_⟩
    rw [List.getElem?_append_left (List.getElem?_eq_some_iff.mp hget).1, hget]
  · rw [List.drop_append_of_le_length hlen, ← hqueue]

theorem Sender.ikcpSend {kcp : Ikcpcb} (h : Sender history conv una nxt kcp.outbound) (hs : kcp.stream = 0)
    (buffer : Bytes) :
    Sender (history ++ Countdown.frames (sendCuts kcp buffer)) conv una nxt (ikcpSend kcp buffer).2.outbound := by
  rw [sendCuts]
  rcases ikcpSend_cases hs buffer with heq | ⟨hc, heq⟩
  · rw [heq]
    simpa [Countdown.frames] using h
  · have hpieces : (fragment kcp.mss.toNat 0 (segmentCount kcp buffer) buffer).map piece =
        Countdown.countdown (cut kcp.mss.toNat (segmentCount kcp buffer) buffer) := map_piece_fragment (by omega)
    have happ : Sender (history ++ Countdown.countdown (cut kcp.mss.toNat (segmentCount kcp buffer) buffer)) conv una nxt _ :=
      h.append
    rw [heq, if_neg (by simp)]
    rw [Countdown.length_countdown, length_cut] at happ
    simpa [Countdown.frames, Ikcpcb.outbound, hpieces] using happ

end Send

section Waiting

theorem toInt32_ofNat_eq_zero_iff {n : Nat} (h : n < 4294967296) : (UInt32.ofNat n).toInt32 = 0 ↔ n = 0 := by
  constructor
  · intro heq
    have heq := congrArg (fun k : Int32 => k.toUInt32.toNat) heq
    change n % 4294967296 = 0 at heq
    omega
  · rintro rfl
    rfl

/-- Nothing waits when everything has been numbered and acknowledged. -/
theorem Sender.waitsnd_eq_zero_iff {kcp : Ikcpcb} (h : Sender history conv una nxt kcp.outbound)
    (hs : history.length < 2147483648) :
    ikcpWaitsnd kcp = 0 ↔ kcp.outbound.sndBuf = [] ∧ nxt = history.length := by
  have hbuf : kcp.nsndBuf = .ofNat kcp.outbound.sndBuf.length := h.bufCount
  have hque : kcp.nsndQue = .ofNat kcp.outbound.sndQueue.length := h.queCount
  have hlen := h.buf.length_le
  have huna := h.una_le
  have hnxt := h.nxt_le
  rw [h.queue, List.length_drop] at hque
  rw [ikcpWaitsnd, hbuf, hque, ← UInt32.ofNat_add, toInt32_ofNat_eq_zero_iff (by omega), Nat.add_eq_zero_iff,
    List.length_eq_zero_iff]
  exact and_congr_right fun _ => ⟨fun heq => by omega, fun heq => by omega⟩

end Waiting

end Sender

end GameAccelerator.Ikcp
