import GameAccelerator.IkcpFormat

namespace GameAccelerator.Ikcp

open CString
open LosslessKcp (cmdPush cmdAck)

/-- The segment as it is read from a datagram. -/
def wire (seg : Ikcpseg) : Wire :=
  ⟨seg.conv, seg.cmd, seg.frg.toUInt8, seg.wnd.toUInt16, seg.ts, seg.sn, seg.una, seg.data⟩

theorem length_encode (seg : Ikcpseg) : (encode seg).length = 24 + seg.data.length := (wire seg).length_encode

section Pack

/-- The packets after segments have been written one after the other. -/
def pack (mtu : UInt32) (segs : List Ikcpseg) (o : Output) : Output := segs.foldl (fun o seg => o.put mtu (encode seg)) o

/-- The packets when the rest of the buffer is out, too. -/
def Output.finish (o : Output) : List Bytes := ikcpOutput o.packets o.pending

/-- The packets and the bytes in the buffer are the encodings of groups of
segments. -/
structure Output.Holds (o : Output) (groups : List (List Ikcpseg)) (last : List Ikcpseg) : Prop where
  packets : o.packets = groups.map (List.flatMap encode)
  pending : o.pending = last.flatMap encode
  nonempty : ∀ group ∈ groups, group ≠ []

variable {mtu : UInt32} {o : Output} {groups : List (List Ikcpseg)} {last segs : List Ikcpseg}

theorem flatMap_encode_eq_nil : (segs.flatMap encode).length = 0 ↔ segs = [] := by
  cases segs with
  | nil => simp
  | cons seg segs =>
      have hlen := length_encode seg
      rw [List.flatMap_cons, List.length_append]
      simp only [reduceCtorEq, iff_false]
      omega

/-- What is in the buffer becomes a packet of its own. -/
theorem Output.Holds.output (h : o.Holds groups last) :
    ∃ groups' : List (List Ikcpseg), ikcpOutput o.packets o.pending = groups'.map (List.flatMap encode) ∧
      groups'.flatten = groups.flatten ++ last ∧ ∀ group ∈ groups', group ≠ [] := by
  rw [ikcpOutput, h.pending]
  split
  · next hlen =>
    rw [flatMap_encode_eq_nil.mp hlen, List.append_nil]
    exact ⟨groups, h.packets, rfl, h.nonempty⟩
  · next hlen =>
    refine ⟨groups ++ [last], by simp [h.packets], by simp, ?_⟩
    intro group hgroup
    rcases List.mem_append.mp hgroup with hgroup | hgroup
    · exact h.nonempty group hgroup
    · rw [List.mem_singleton.mp hgroup]
      exact fun hnil => hlen (flatMap_encode_eq_nil.mpr hnil)

theorem Output.Holds.put (h : o.Holds groups last) (mtu : UInt32) (seg : Ikcpseg) :
    ∃ groups' last', (o.put mtu (encode seg)).Holds groups' last' ∧
      groups'.flatten ++ last' = groups.flatten ++ last ++ [seg] := by
  rw [Output.put]
  split
  · obtain ⟨groups', hpackets, hflat, hne⟩ := h.output
    exact ⟨groups', [seg], ⟨hpackets, by simp, hne⟩, by rw [hflat]⟩
  · exact ⟨groups, last ++ [seg], ⟨h.packets, by simp [h.pending], h.nonempty⟩, by rw [List.append_assoc]⟩

theorem Output.Holds.pack (h : o.Holds groups last) (mtu : UInt32) (segs : List Ikcpseg) :
    ∃ groups' last', (pack mtu segs o).Holds groups' last' ∧ groups'.flatten ++ last' = groups.flatten ++ last ++ segs := by
  induction segs generalizing o groups last with
  | nil => exact ⟨groups, last, h, by rw [List.append_nil]⟩
  | cons seg segs ih =>
      obtain ⟨groups', last', h', hflat⟩ := h.put mtu seg
      obtain ⟨groups'', last'', h'', hflat'⟩ := ih h'
      exact ⟨groups'', last'', h'', by rw [hflat', hflat, List.append_assoc, List.singleton_append]⟩

/-- The packets are the segments in groups, in order and with nothing between
them. -/
theorem exists_groups (mtu : UInt32) (segs : List Ikcpseg) :
    ∃ groups : List (List Ikcpseg), (pack mtu segs ⟨[], []⟩).finish = groups.map (List.flatMap encode) ∧
      groups.flatten = segs ∧ ∀ group ∈ groups, group ≠ [] := by
  have h : Output.Holds ⟨[], []⟩ [] [] := ⟨rfl, rfl, by simp⟩
  obtain ⟨groups, last, h', hflat⟩ := h.pack mtu segs
  obtain ⟨groups', hpackets, hflat', hne⟩ := h'.output
  exact ⟨groups', hpackets, by rw [hflat', hflat]; rfl, hne⟩

/-- No packet is longer than the MTU. -/
def Output.Fits (mtu : UInt32) (o : Output) : Prop :=
  o.pending.length ≤ mtu.toNat ∧ ∀ packet ∈ o.packets, packet.length ≤ mtu.toNat

theorem Output.Fits.output (h : o.Fits mtu) : ∀ packet ∈ ikcpOutput o.packets o.pending, packet.length ≤ mtu.toNat := by
  rw [ikcpOutput]
  split
  · exact h.2
  · intro packet hp
    rcases List.mem_append.mp hp with hp | hp
    · exact h.2 packet hp
    · rw [List.mem_singleton.mp hp]
      exact h.1

theorem Output.Fits.put {bytes : Bytes} (h : o.Fits mtu) (hb : bytes.length ≤ mtu.toNat) : (o.put mtu bytes).Fits mtu := by
  rw [Output.put]
  split
  · exact ⟨hb, h.output⟩
  · next hle =>
    rw [Nat.not_lt] at hle
    exact ⟨by rwa [List.length_append], h.2⟩

theorem Output.Fits.pack (h : o.Fits mtu) (hsegs : ∀ seg ∈ segs, (encode seg).length ≤ mtu.toNat) :
    (pack mtu segs o).Fits mtu := by
  induction segs generalizing o with
  | nil => exact h
  | cons seg segs ih =>
      have hput := h.put (hsegs seg List.mem_cons_self)
      exact ih hput fun seg' hseg' => hsegs seg' (List.mem_cons_of_mem seg hseg')

end Pack

section Flush

variable {kcp : Ikcpcb}

/-- The segments that acknowledge. -/
def ackSegments (kcp : Ikcpcb) : List Ikcpseg :=
  kcp.acklist.map fun ack => { ackSegment kcp with sn := ack.1, ts := ack.2 }

/-- The segments that ask for the window or tell it. -/
def probeSegments (probe : UInt32) (seg : Ikcpseg) : List Ikcpseg :=
  (if probe &&& askSend ≠ 0 then [{ seg with cmd := cmdWask }] else []) ++
    (if probe &&& askTell ≠ 0 then [{ seg with cmd := cmdWins }] else [])

/-- The segments of `snd_buf` that are due, as they are sent. -/
def dueSegments (kcp : Ikcpcb) (l : List Ikcpseg) : List Ikcpseg :=
  l.filterMap fun seg => (needsend kcp seg).map (transmit kcp seg)

theorem flushAcks_eq (kcp : Ikcpcb) (o : Output) : flushAcks kcp (ackSegment kcp) o = pack kcp.mtu (ackSegments kcp) o := by
  rw [flushAcks, pack, ackSegments, List.foldl_map]

theorem flushProbes_eq (kcp : Ikcpcb) (seg : Ikcpseg) (o : Output) :
    flushProbes kcp seg o = pack kcp.mtu (probeSegments kcp.probe seg) o := by
  rw [flushProbes, probeSegments]
  split <;> split <;> rfl

theorem out_flushSegments (kcp : Ikcpcb) (l : List Ikcpseg) (o : Output) :
    (flushSegments kcp l o).out = pack kcp.mtu (dueSegments kcp l) o := by
  induction l generalizing o with
  | nil => rfl
  | cons seg l ih =>
      rw [flushSegments, dueSegments, List.filterMap_cons]
      cases needsend kcp seg with
      | none => exact ih o
      | some reason => exact ih _

/-- All segments that a flush sends, in order. -/
def flushed (kcp : Ikcpcb) : List Ikcpseg :=
  ackSegments kcp ++ probeSegments (probeWindow kcp).probe (lastAck kcp (ackSegment kcp)) ++
    dueSegments (flushQueue kcp) (flushQueue kcp).sndBuf

theorem packets_ikcpFlush (h : kcp.updated = true) :
    (ikcpFlush kcp).2 = (pack kcp.mtu (flushed kcp) ⟨[], []⟩).finish := by
  have hmtu : (flushQueue kcp).mtu = kcp.mtu := congrArg Settings.mtu (settings_flushQueue kcp)
  rw [ikcpFlush, if_neg (by simp [h])]
  simp only [out_flushSegments, flushProbes_eq, flushAcks_eq, hmtu, flushed, Output.finish]
  simp only [pack, List.foldl_append]
  rfl

variable {seg : Ikcpseg}

theorem mem_ackSegments (h : seg ∈ ackSegments kcp) :
    ∃ ack ∈ kcp.acklist, seg = { ackSegment kcp with sn := ack.1, ts := ack.2 } := by
  obtain ⟨ack, hack, rfl⟩ := List.mem_map.mp h
  exact ⟨ack, hack, rfl⟩

theorem lastAck_eq (kcp : Ikcpcb) (seg : Ikcpseg) : ∃ sn ts, lastAck kcp seg = { seg with sn := sn, ts := ts } := by
  rw [lastAck]
  split
  · exact ⟨seg.sn, seg.ts, rfl⟩
  · exact ⟨_, _, rfl⟩

theorem mem_probeSegments {probe : UInt32} {seg' : Ikcpseg} (h : seg ∈ probeSegments probe seg') :
    ∃ cmd, (cmd = cmdWask ∨ cmd = cmdWins) ∧ seg = { seg' with cmd := cmd } := by
  rcases List.mem_append.mp h with h | h
  · split at h
    · exact ⟨_, .inl rfl, List.mem_singleton.mp h⟩
    · cases h
  · split at h
    · exact ⟨_, .inr rfl, List.mem_singleton.mp h⟩
    · cases h

theorem header_transmit (kcp : Ikcpcb) (seg : Ikcpseg) (reason : Reason) :
    (transmit kcp seg reason).una = kcp.rcvNxt ∧ (transmit kcp seg reason).wnd = wndUnused kcp := by
  cases reason <;> exact ⟨rfl, rfl⟩

theorem mem_dueSegments {l : List Ikcpseg} (h : seg ∈ dueSegments kcp l) :
    seg.una = kcp.rcvNxt ∧ seg.wnd = wndUnused kcp ∧ slot seg ∈ l.map slot := by
  obtain ⟨seg', hseg', heq⟩ := List.mem_filterMap.mp h
  obtain ⟨reason, -, rfl⟩ := Option.map_eq_some_iff.mp heq
  obtain ⟨huna, hwnd⟩ := header_transmit kcp seg' reason
  refine ⟨huna, hwnd, ?_⟩
  rw [slot_transmit]
  exact List.mem_map_of_mem hseg'

/-- Whatever is sent tells the next number that is expected and how much room
there is. It acknowledges something that is to be acknowledged, or it is about
the window, or it is a segment of `snd_buf`. -/
theorem mem_flushed (h : seg ∈ flushed kcp) : seg.una = kcp.rcvNxt ∧ seg.wnd = wndUnused kcp ∧
    (seg.conv = kcp.conv ∧ seg.data = [] ∧
        ((seg.cmd = cmdAck ∧ (seg.sn, seg.ts) ∈ kcp.acklist) ∨ seg.cmd = cmdWask ∨ seg.cmd = cmdWins) ∨
      slot seg ∈ (flushQueue kcp).outbound.sndBuf) := by
  rw [flushed, List.append_assoc, List.mem_append, List.mem_append] at h
  rcases h with h | h | h
  · obtain ⟨ack, hack, rfl⟩ := mem_ackSegments h
    exact ⟨rfl, rfl, .inl ⟨rfl, rfl, .inl ⟨rfl, hack⟩⟩⟩
  · obtain ⟨cmd, hcmd, rfl⟩ := mem_probeSegments h
    obtain ⟨sn, ts, heq⟩ := lastAck_eq kcp (ackSegment kcp)
    rw [heq]
    exact ⟨rfl, rfl, .inl ⟨rfl, rfl, .inr hcmd⟩⟩
  · obtain ⟨huna, hwnd, hslot⟩ := mem_dueSegments h
    have hin := inbound_flushQueue kcp
    have hnxt : (flushQueue kcp).rcvNxt = kcp.rcvNxt := congrArg Inbound.rcvNxt hin
    have hunused : wndUnused (flushQueue kcp) = wndUnused kcp :=
      congrArg (fun i : Inbound => if i.nrcvQue < i.rcvWnd then i.rcvWnd - i.nrcvQue else 0) hin
    exact ⟨huna.trans hnxt, hwnd.trans hunused, .inr hslot⟩

/-- Every segment that is sent is in one of the packets. -/
theorem exists_packet (hu : kcp.updated = true) (hseg : seg ∈ flushed kcp) :
    ∃ d ∈ (ikcpFlush kcp).2, ∃ group : List Ikcpseg, d = group.flatMap encode ∧ seg ∈ group ∧
      ∀ seg' ∈ group, seg' ∈ flushed kcp := by
  obtain ⟨groups, heq, hflat, -⟩ := exists_groups kcp.mtu (flushed kcp)
  rw [← hflat] at hseg
  obtain ⟨group, hgroup, hmem⟩ := List.mem_flatten.mp hseg
  refine ⟨group.flatMap encode, ?_, group, rfl, hmem, fun seg' hseg' => ?_⟩
  · rw [packets_ikcpFlush hu, heq]
    exact List.mem_map_of_mem hgroup
  · rw [← hflat]
    exact List.mem_flatten_of_mem hgroup hseg'

end Flush

end GameAccelerator.Ikcp
