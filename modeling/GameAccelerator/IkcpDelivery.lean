import GameAccelerator.Continuation
import GameAccelerator.IkcpChannel
import GameAccelerator.IkcpReceivable

namespace GameAccelerator.Ikcp

open CString Serial SerialList Countdown Continuation
open LosslessKcp (cmdPush cmdAck)

/-- What still happens when nobody sends any more: the ends receive and update,
with clocks that do not go back, and datagrams arrive, but none of those that
had been sent before. -/
def Event.Quiet (ch₀ ch : Channel) : Event → Prop
  | .call _ (.recv _) _ => True
  | .call side (.update t) _ => 0 ≤ itimediff t (ch side).kcp.current
  | .deliver side i => (ch₀ side.peer).wire.length ≤ i
  | _ => False

def Event.Within (bound : Nat) : Event → Prop
  | .call _ c _ => (Act.call c).Within bound
  | _ => True

theorem Event.within_max (event : Event) : event.Within 2147483648 := by
  cases event with
  | call side c hc => exact Act.within_max (a := .call c) hc
  | _ => trivial

namespace Channel

variable {conv : UInt32} {ch₀ ch ch' : Channel} {side : Side} {event : Event}

section Step

theorem step_call_self (ch : Channel) (side : Side) {c : Call} (hc : c.setsMtu = false) :
    ch.step (.call side c hc) side = (ch side).call c := Function.update_self ..

theorem step_call_of_ne (ch : Channel) {side other : Side} {c : Call} (hc : c.setsMtu = false) (h : other ≠ side) :
    ch.step (.call side c hc) other = ch other := Function.update_of_ne h ..

theorem step_deliver_self {i : Nat} {d : Bytes} (h : (ch side.peer).wire[i]? = some d) :
    ch.step (.deliver side i) side = (ch side).input d := by
  rw [step, Function.update_self, h]
  rfl

theorem step_deliver_of_ne (ch : Channel) {side other : Side} (i : Nat) (h : other ≠ side) :
    ch.step (.deliver side i) other = ch other := Function.update_of_ne h ..

/-- An event is a call or a datagram at one of the ends. -/
theorem step_cases (ch : Channel) (event : Event) (side : Side) : ch.step event side = ch side ∨
    (∃ c hc, event = .call side c hc ∧ ch.step event side = (ch side).call c) ∨ ∃ d, ch.step event side = (ch side).input d := by
  cases event with
  | call side' c hc =>
      by_cases hside : side = side'
      · subst hside
        exact .inr (.inl ⟨c, hc, rfl, step_call_self ch side hc⟩)
      · exact .inl (step_call_of_ne ch hc hside)
  | deliver side' i =>
      by_cases hside : side = side'
      · subst hside
        cases hd : (ch side.peer).wire[i]? with
        | none =>
            left
            rw [step, Function.update_self, hd]
            rfl
        | some d => exact .inr (.inr ⟨d, step_deliver_self hd⟩)
      · exact .inl (step_deliver_of_ne ch i hside)
  | stray side' data =>
      rw [step]
      split
      · exact .inl rfl
      · by_cases hside : side = side'
        · subst hside
          exact .inr (.inr ⟨data, Function.update_self ..⟩)
        · exact .inl (Function.update_of_ne hside ..)

theorem intact_step {bound : Nat} (hb : 128 ≤ bound) (hb' : bound ≤ 2147483648) (h : (ch side).Intact bound)
    (hevent : event.Within bound) : (ch.step event side).Intact bound := by
  rcases step_cases ch event side with heq | ⟨c, hc, rfl, heq⟩ | ⟨d, heq⟩ <;> rw [heq]
  · exact h
  · exact h.call hb hevent
  · exact h.input hb' d

theorem intact_run {bound : Nat} (hb : 128 ≤ bound) (hb' : bound ≤ 2147483648) (conv : UInt32) {events : List Event}
    (hevents : ∀ event ∈ events, event.Within bound) (side : Side) : (run conv events side).Intact bound := by
  induction events using List.reverseRecOn with
  | nil => exact .create hb conv
  | append_singleton events event ih =>
      rw [run, List.foldl_append]
      exact intact_step hb hb' (ih fun event' hevent' => hevents event' (List.mem_append_left _ hevent'))
        (hevents event (List.mem_append_right _ List.mem_cons_self))

theorem fitting_step {bound : Nat} (hi : (ch side).Intact bound) (h : (ch side).Fitting conv) (event : Event) :
    (ch.step event side).Fitting conv := by
  rcases step_cases ch event side with heq | ⟨c, hc, -, heq⟩ | ⟨d, heq⟩ <;> rw [heq]
  · exact h
  · exact h.call hi hc
  · exact h.congr (Endpoint.settings_ikcpInput (ch side).kcp d)

theorem fitting_run (conv : UInt32) (events : List Event) (side : Side) : (run conv events side).Fitting conv := by
  induction events using List.reverseRecOn with
  | nil => exact .create conv
  | append_singleton events event ih =>
      rw [run, List.foldl_append]
      exact fitting_step (intact_run (by decide) le_rfl conv (fun event' _ => event'.within_max) side) ih event

end Step

section Since

/-- The number of segments that have been acknowledged to one end. -/
def una (ch : Channel) (side : Side) : Nat := (ch side).kcp.sndUna.toNat

/-- What holds from a state on while nobody sends. -/
structure Since (conv : UInt32) (ch₀ ch : Channel) : Prop where
  sound : ch.Sound conv
  intact : ∀ side, (ch side).Intact 65535
  fitting : ∀ side, (ch side).Fitting conv
  room : ∀ side, (ch side).history.length < 2147418112
  wire : ∀ side, (ch₀ side).wire.length ≤ (ch side).wire.length
  cuts : ∀ side, (ch side).cuts = (ch₀ side).cuts
  sent : ∀ side, (ch side).sent = (ch₀ side).sent

theorem Since.small (h : Since conv ch₀ ch) (side : Side) : (ch side).history.length < 2147483648 :=
  (h.room side).trans (by decide)

theorem Quiet.within (h : event.Quiet ch₀ ch) : event.Within 65535 := by
  rcases event with ⟨_, _ | _ | _ | _ | _ | _ | _ | _, _⟩ | _ | _ <;> trivial

/-- What a flush does not change is after an update what the clock has made it. -/
theorem update_of_flush {α : Type} (field : Ikcpcb → α) (hflush : ∀ kcp, field (ikcpFlush kcp).1 = field kcp)
    (e : Endpoint) (t : UInt32) : field (e.call (.update t)).kcp = field (setClock e.kcp t) := by
  rw [Endpoint.call]
  rcases ikcpUpdate_cases e.kcp t with heq | heq <;> rw [heq]
  exact hflush _

theorem sndUna_update (e : Endpoint) (t : UInt32) : (e.call (.update t)).kcp.sndUna = e.kcp.sndUna :=
  update_of_flush Ikcpcb.sndUna sndUna_ikcpFlush e t

theorem current_update (e : Endpoint) (t : UInt32) : (e.call (.update t)).kcp.current = t :=
  update_of_flush Ikcpcb.current current_ikcpFlush e t

theorem Since.step (h : Since conv ch₀ ch) (hq : event.Quiet ch₀ ch) :
    Since conv ch₀ (ch.step event) ∧ ∀ side, ch.una side ≤ (ch.step event).una side := by
  have hsmall : ch.Small := by
    intro side
    rw [← length_frames]
    exact h.small side
  have hside (side : Side) : (ch.step event side).cuts = (ch side).cuts ∧ (ch.step event side).sent = (ch side).sent ∧
      (ch side).wire.length ≤ (ch.step event side).wire.length ∧ ch.una side ≤ (ch.step event).una side := by
    rw [una, una]
    rcases step_cases ch event side with heq | ⟨c, hc, rfl, heq⟩ | ⟨d, heq⟩ <;> rw [heq]
    · exact ⟨rfl, rfl, le_rfl, le_rfl⟩
    · cases c with
      | recv len =>
          have hout := (frame_ikcpRecv (ch side).kcp len).1
          have huna : ((ch side).call (.recv len)).kcp.sndUna = (ch side).kcp.sndUna := congrArg Outbound.sndUna hout
          exact ⟨rfl, rfl, le_rfl, huna ▸ le_rfl⟩
      | update t =>
          refine ⟨rfl, rfl, ?_, ?_⟩
          · rw [Endpoint.call, List.length_append]
            exact Nat.le_add_right _ _
          · rw [sndUna_update]
      | _ => exact hq.elim
    · exact ⟨rfl, rfl, le_rfl, (h.sound side).una_le_input (h.small side) d⟩
  refine ⟨⟨h.sound.step hsmall event, fun side => ?_, fun side => ?_, fun side => ?_, fun side => ?_, fun side => ?_,
    fun side => ?_⟩, fun side => (hside side).2.2.2⟩
  · exact intact_step (by decide) (by decide) (h.intact side) (Quiet.within hq)
  · exact fitting_step (h.intact side) (h.fitting side) event
  · rw [Endpoint.history, (hside side).1]
    exact h.room side
  · exact (h.wire side).trans (hside side).2.2.1
  · rw [(hside side).1, h.cuts side]
  · rw [(hside side).2.1, h.sent side]

theorem Since.continues (h : Since conv ch₀ ch) (hc : Continues Channel.step (Event.Quiet ch₀) ch ch') :
    Since conv ch₀ ch' ∧ ∀ side, ch.una side ≤ ch'.una side := by
  apply hc.invariant fun c => Since conv ch₀ c ∧ ∀ side, ch.una side ≤ c.una side
  · rintro c event ⟨hc, hle⟩ hq
    obtain ⟨hstep, hle'⟩ := hc.step hq
    exact ⟨hstep, fun side => (hle side).trans (hle' side)⟩
  · exact ⟨h, fun _ => le_rfl⟩

theorem Since.history_eq (h : Since conv ch₀ ch) (h' : Since conv ch₀ ch') (side : Side) :
    (ch' side).history = (ch side).history := by
  rw [Endpoint.history, h'.cuts, ← h.cuts]
  rfl

end Since

/-- What can be reached from a state while nobody sends. -/
abbrev Onward (ch₀ ch ch' : Channel) : Prop := Continues step (Event.Quiet ch₀) ch ch'

section Rounds

/-- An end receives all that can be received. -/
theorem drain (ch₀ ch : Channel) (side : Side) : ∃ ch', Onward ch₀ ch ch' ∧
    Drained (ch' side).kcp ∧ ch' side.peer = ch side.peer ∧ (Telling (ch side).kcp → Telling (ch' side).kcp) := by
  have hdone : ∃ ch', Onward ch₀ ch ch' ∧
      (ch' side.peer = ch side.peer ∧ (Telling (ch side).kcp → Telling (ch' side).kcp)) ∧ Drained (ch' side).kcp := by
    apply exists_done (fun c : Channel => c side.peer = ch side.peer ∧ (Telling (ch side).kcp → Telling (c side).kcp))
      (fun c : Channel => Drained (c side).kcp) fun c : Channel => heldCount (c side).kcp
    · rintro c ⟨hpeer, htell⟩ hmore
      have hq : (Event.call side (.recv (ikcpPeeksize (c side).kcp)) (Call.setsMtu_recv _)).Quiet ch₀ c := trivial
      refine ⟨_, .single c hq, ⟨?_, ?_⟩, ?_⟩
      · rw [step_call_of_ne c _ (peer_ne side), hpeer]
      · rw [step_call_self]
        exact fun ht => telling_ikcpRecv (htell ht) _
      · rw [step_call_self]
        exact heldCount_ikcpRecv hmore
    · exact ⟨rfl, id⟩
  obtain ⟨ch', hc, ⟨hpeer, htell⟩, hdrained⟩ := hdone
  exact ⟨ch', hc, hdrained, hpeer, htell⟩

/-- An end updates. -/
theorem onward_update (ch₀ ch : Channel) (side : Side) {t : UInt32} (hfwd : 0 ≤ itimediff t (ch side).kcp.current) :
    ∃ ch', Onward ch₀ ch ch' ∧ ch' side = (ch side).call (.update t) ∧ ch' side.peer = ch side.peer := by
  have hupdate : (Event.call side (.update t) (Call.setsMtu_update t)).Quiet ch₀ ch := hfwd
  exact ⟨_, .single ch hupdate, step_call_self _ _ _, step_call_of_ne _ _ (peer_ne side)⟩

/-- An end flushes, and one of the datagrams arrives. -/
theorem Since.transmit (h : Since conv ch₀ ch) (side : Side) {t : UInt32} (ht : (nextFlush (ch side).kcp t).1 = true)
    (hfwd : 0 ≤ itimediff t (ch side).kcp.current) {seg : Ikcpseg} (hseg : seg ∈ flushed (setClock (ch side).kcp t)) :
    ∃ ch' d, Onward ch₀ ch ch' ∧ ch' side = (ch side).call (.update t) ∧ ch' side.peer = (ch side.peer).input d ∧
      d ∈ ((ch side).call (.update t)).wire ∧ Ikcp.wire seg ∈ segmentsOf conv d ∧
      ∀ w ∈ segmentsOf conv d, ∃ seg' ∈ flushed (setClock (ch side).kcp t), w = Ikcp.wire seg' := by
  obtain ⟨i, d, hi, hd, hw, hall⟩ := (h.sound side).exists_carrier (h.intact side) (h.fitting side) ht hseg
  obtain ⟨ch₁, hc₁, hself, hpeer⟩ := onward_update ch₀ ch side hfwd
  have hdeliver : (Event.deliver side.peer i).Quiet ch₀ ch₁ := by
    rw [Event.Quiet, peer_peer]
    exact (h.wire side).trans hi
  have hwire : (ch₁ side.peer.peer).wire[i]? = some d := by
    rw [peer_peer, hself]
    exact hd
  refine ⟨_, d, hc₁.trans (.single ch₁ hdeliver), ?_, ?_, List.mem_of_getElem? hd, hw, hall⟩
  · rw [step_deliver_of_ne _ _ (peer_ne side).symm, hself]
  · rw [step_deliver_self hwire, hpeer]

theorem sndBuf_update {e : Endpoint} (h : e.kcp.sndBuf ≠ []) (t : UInt32) : (e.call (.update t)).kcp.sndBuf ≠ [] := by
  rw [Endpoint.call]
  rcases ikcpUpdate_cases e.kcp t with heq | heq
  · have hslots : (ikcpFlush (setClock e.kcp t)).1.sndBuf.map slot = (flushQueue (setClock e.kcp t)).sndBuf.map slot :=
      congrArg Outbound.sndBuf (outbound_ikcpFlush rfl)
    have hpre := sndBuf_flushQueue (setClock e.kcp t)
    rw [heq]
    intro hnil
    rw [hnil, List.map_nil, eq_comm, List.map_eq_nil_iff] at hslots
    rw [hslots, List.prefix_nil] at hpre
    exact h hpre
  · rw [heq]
    exact h

theorem Since.peer_sound (h : Since conv ch₀ ch) (side : Side) : (ch side.peer).Sound conv (ch side) := by
  have hpeer := h.sound side.peer
  rwa [peer_peer] at hpeer

theorem Since.queue_lt (h : Since conv ch₀ ch) (hd : Drained (ch side).kcp) : (ch side).kcp.rcvQueue.length < 128 :=
  (h.sound side).queue_lt (h.sound side.peer).framed hd

/-- An update flushes the first segment or leaves it as it is. -/
theorem first_update {e : Endpoint} {seg : Ikcpseg} {rest : List Ikcpseg} (hseg : e.kcp.sndBuf = seg :: rest) (t : UInt32) :
    ((nextFlush e.kcp t).1 = true ∧ ∃ seg' ∈ flushed (setClock e.kcp t), slot seg' = slot seg) ∨
      ∃ rest', (e.call (.update t)).kcp.sndBuf = seg :: rest' := by
  rw [Endpoint.call]
  cases hdue : (nextFlush e.kcp t).1 with
  | false =>
      rw [ikcpUpdate_of_not_due hdue]
      exact .inr ⟨rest, hseg⟩
  | true =>
      rw [ikcpUpdate_of_due hdue]
      exact (@sent_or_kept (setClock e.kcp t) seg rest rfl hseg).imp_left (⟨rfl, ·⟩)

/-- The first segment is sent at some time, if the clock goes on. -/
theorem send_first (ch₀ ch : Channel) (side : Side) {seg : Ikcpseg} {rest : List Ikcpseg}
    (hseg : (ch side).kcp.sndBuf = seg :: rest) :
    ∃ ch' t seg', Onward ch₀ ch ch' ∧ ch' side.peer = ch side.peer ∧ (ch' side).kcp.sndUna = (ch side).kcp.sndUna ∧
      (ch' side).kcp.sndBuf ≠ [] ∧ (nextFlush (ch' side).kcp t).1 = true ∧ 0 ≤ itimediff t (ch' side).kcp.current ∧
      seg' ∈ flushed (setClock (ch' side).kcp t) ∧ slot seg' = slot seg := by
  -- once the time for it is near
  have hnear (ch' : Channel) (rest' : List Ikcpseg) (hseg' : (ch' side).kcp.sndBuf = seg :: rest')
      (h : Near (ch' side).kcp seg.resendts) : ∃ t seg', (nextFlush (ch' side).kcp t).1 = true ∧
        0 ≤ itimediff t (ch' side).kcp.current ∧ seg' ∈ flushed (setClock (ch' side).kcp t) ∧ slot seg' = slot seg := by
    obtain ⟨t, ht, hfwd, hdue⟩ := exists_due_after h
    have hmem : seg ∈ (setClock (ch' side).kcp t).sndBuf := hseg' ▸ List.mem_cons_self
    obtain ⟨seg', hflushed, hslot⟩ := exists_due_segment hmem hdue
    exact ⟨t, seg', ht, hfwd, hflushed, hslot⟩
  by_cases h : Near (ch side).kcp seg.resendts
  · obtain ⟨t, seg', hsent⟩ := hnear ch rest hseg h
    exact ⟨ch, t, seg', .refl ch, rfl, rfl, hseg ▸ List.cons_ne_nil _ _, hsent⟩
  · have hfwd := itimediff_quarter (ch side).kcp.current
    rcases first_update hseg ((ch side).kcp.current + quarter) with ⟨hdue, seg', hflushed, hslot⟩ | ⟨rest', hkept⟩
    · exact ⟨ch, _, seg', .refl ch, rfl, rfl, hseg ▸ List.cons_ne_nil _ _, hdue, hfwd, hflushed, hslot⟩
    · obtain ⟨ch', hc, hself, hpeer⟩ := onward_update ch₀ ch side hfwd
      rw [← hself] at hkept
      have hclock : (ch' side).kcp.current = (ch side).kcp.current + quarter := by rw [hself, current_update]
      have huna : (ch' side).kcp.sndUna = (ch side).kcp.sndUna := by rw [hself, sndUna_update]
      obtain ⟨t, seg', hsent⟩ := hnear ch' rest' hkept (near_quarter h hclock).1
      exact ⟨ch', t, seg', hc, hpeer, huna, hkept ▸ List.cons_ne_nil _ _, hsent⟩

/-- If a segment is on its way, the first one can be acknowledged. -/
theorem Since.acknowledge (h : Since conv ch₀ ch) (side : Side) (hbuf : (ch side).kcp.sndBuf ≠ []) :
    ∃ ch', Onward ch₀ ch ch' ∧ ch.una side < ch'.una side := by
  obtain ⟨chD, hcD, hdrained, hsame, -⟩ := drain ch₀ ch side.peer
  rw [peer_peer] at hsame
  rw [← hsame] at hbuf
  obtain ⟨seg, rest, hseg⟩ := List.exists_cons_of_ne_nil hbuf
  obtain ⟨hsn, hcmd⟩ := ((h.continues hcD).1.sound side).first_segment hseg
  obtain ⟨ch₁, t, seg', hc₁, hpeer₁, huna₁, hbuf₁, ht, hfwd, hflushed, hslot⟩ := send_first ch₀ chD side hseg
  rw [← hpeer₁] at hdrained
  have h₁ := (h.continues (hcD.trans hc₁)).1
  have hrel := (h₁.sound side).una_le_released (h₁.peer_sound side) (h₁.intact side.peer).moved (h₁.queue_lt hdrained)
    (h₁.small side)
  -- the first segment is sent and arrives
  have hcmd' : (Ikcp.wire seg').cmd = cmdPush := (congrArg Slot.cmd hslot).trans hcmd
  have hsn' : (Ikcp.wire seg').sn = (ch₁ side).kcp.sndUna := (congrArg Slot.sn hslot).trans (hsn.trans huna₁.symm)
  obtain ⟨ch₂, d, hc₂, hself₂, hpeer₂, hd, hw, -⟩ := h₁.transmit side ht hfwd hflushed
  have h₂ := (h₁.continues hc₂).1
  obtain ⟨hmid, hgrow⟩ := (h₁.sound side).call (h₁.sound side.peer).framed (Call.setsMtu_update t)
  have hack : ((Ikcp.wire seg').sn, (Ikcp.wire seg').ts) ∈ (ch₂ side.peer).kcp.acklist := by
    rw [hpeer₂]
    apply ((h₁.peer_sound side).mono_peer hgrow).acknowledges hmid (h₁.intact side.peer) (h₁.small side.peer)
      (h₁.room side) hd hw hcmd' _ hrel
    rw [hsn', UInt32.ofNat_toNat]
  -- its acknowledgement is sent and arrives
  obtain ⟨t', ht', hfwd', -⟩ := exists_due (ch₂ side.peer).kcp (ch₂ side.peer).kcp.current
  obtain ⟨segA, hflushedA, hcmdA, hsnA⟩ := @exists_ack_segment (setClock (ch₂ side.peer).kcp t') _ hack
  obtain ⟨ch₃, d', hc₃, -, hpeer₃, -, hw', -⟩ := h₂.transmit side.peer ht' hfwd' hflushedA
  rw [peer_peer] at hpeer₃
  refine ⟨ch₃, hcD.trans (hc₁.trans (hc₂.trans hc₃)), ?_⟩
  have huna : (ch₂ side).kcp.sndUna = (ch₁ side).kcp.sndUna := by rw [hself₂, sndUna_update]
  have hbuf₂ : (ch₂ side).kcp.sndBuf ≠ [] := hself₂ ▸ sndBuf_update hbuf₁ t
  have hlt := (h₂.sound side).una_lt_input (h₂.small side) ((h₂.sound side).una_lt_nxt (h₂.small side) hbuf₂) hw' hcmdA
    (hsnA.trans (hsn'.trans huna.symm))
  rw [una, una, ← hsame, ← huna₁, ← huna, hpeer₃]
  exact hlt

theorem kcp_update {e : Endpoint} {t : UInt32} (ht : (nextFlush e.kcp t).1 = true) :
    (e.call (.update t)).kcp = (ikcpFlush (setClock e.kcp t)).1 := by rw [Endpoint.call, ikcpUpdate_of_due ht]

/-- Before its time an update leaves the probe as it is. -/
theorem probe_update {e : Endpoint} {t : UInt32} (hw : e.kcp.rmtWnd = 0) (hp : e.kcp.probeWait ≠ 0)
    (ht : itimediff t e.kcp.tsProbe < 0) : (e.call (.update t)).kcp.rmtWnd = 0 ∧
      (e.call (.update t)).kcp.probeWait ≠ 0 ∧ (e.call (.update t)).kcp.tsProbe = e.kcp.tsProbe := by
  rw [Endpoint.call]
  rcases ikcpUpdate_cases e.kcp t with heq | heq
  · obtain ⟨hwait, hts⟩ := @probe_ikcpFlush (setClock e.kcp t) rfl hw hp ht
    rw [heq, rmtWnd_ikcpFlush, hwait, hts]
    exact ⟨hw, hp, rfl⟩
  · rw [heq]
    exact ⟨hw, hp, rfl⟩

/-- A window that is closed is going to be probed. -/
theorem probing (ch₀ ch : Channel) (side : Side) (hw : (ch side).kcp.rmtWnd = 0) :
    ∃ ch', Onward ch₀ ch ch' ∧ (ch' side).kcp.rmtWnd = 0 ∧ (ch' side).kcp.probeWait ≠ 0 := by
  by_cases hp : (ch side).kcp.probeWait = 0
  · obtain ⟨t, ht, hfwd, -⟩ := exists_due (ch side).kcp (ch side).kcp.current
    obtain ⟨ch', hc, hself, -⟩ := onward_update ch₀ ch side hfwd
    refine ⟨ch', hc, ?_, ?_⟩
    · rw [hself, kcp_update ht, rmtWnd_ikcpFlush]
      exact hw
    · have hwait : (ikcpFlush (setClock (ch side).kcp t)).1.probeWait = probeInit := probeWait_ikcpFlush rfl hw hp
      rw [hself, kcp_update ht, hwait]
      decide
  · exact ⟨ch, .refl ch, hw, hp⟩

/-- The time of the probe comes near, if the clock goes on. -/
theorem probing_near (ch₀ ch : Channel) (side : Side) (hw : (ch side).kcp.rmtWnd = 0) (hp : (ch side).kcp.probeWait ≠ 0) :
    ∃ ch', Onward ch₀ ch ch' ∧ (ch' side).kcp.rmtWnd = 0 ∧ (ch' side).kcp.probeWait ≠ 0 ∧
      Near (ch' side).kcp (ch' side).kcp.tsProbe := by
  by_cases h : Near (ch side).kcp (ch side).kcp.tsProbe
  · exact ⟨ch, .refl ch, hw, hp, h⟩
  · obtain ⟨ch', hc, hself, -⟩ := onward_update ch₀ ch side (itimediff_quarter (ch side).kcp.current)
    have hclock : (ch' side).kcp.current = (ch side).kcp.current + quarter := by rw [hself, current_update]
    obtain ⟨hnear, hbefore⟩ := near_quarter h hclock
    obtain ⟨hw', hp', hts⟩ := probe_update hw hp hbefore
    rw [← hself] at hw' hp' hts
    exact ⟨ch', hc, hw', hp', hts ▸ hnear⟩

/-- A window that is closed can be opened: it is asked for, there is room at the
other end when messages have been received there, and that is told. -/
theorem Since.open_window (h : Since conv ch₀ ch) (side : Side) :
    ∃ ch', Onward ch₀ ch ch' ∧ (ch' side).kcp.rmtWnd ≠ 0 := by
  by_cases hw : (ch side).kcp.rmtWnd = 0
  case neg => exact ⟨ch, .refl ch, hw⟩
  obtain ⟨chP, hcP, hwP, hpP⟩ := probing ch₀ ch side hw
  obtain ⟨ch₁, hc₁, hw₁, hp₁, hnear⟩ := probing_near ch₀ chP side hwP hpP
  have h₁ := (h.continues (hcP.trans hc₁)).1
  obtain ⟨t, ht, hfwd, hdue⟩ := exists_due_after hnear
  obtain ⟨seg, hseg, hcmd⟩ := @exists_wask_segment (setClock (ch₁ side).kcp t) hw₁ hp₁ hdue
  obtain ⟨ch₂, d, hc₂, -, hpeer₂, -, hmem, -⟩ := h₁.transmit side ht hfwd hseg
  have htell : Telling (ch₂ side.peer).kcp := by
    rw [hpeer₂]
    apply Endpoint.telling_input
    rw [(h₁.sound side.peer).conv_eq]
    exact ⟨_, hmem, hcmd⟩
  have h₂ := (h₁.continues hc₂).1
  obtain ⟨ch₃, hc₃, hdrained, -, htell₃⟩ := drain ch₀ ch₂ side.peer
  have h₃ := (h₂.continues hc₃).1
  obtain ⟨t', ht', hfwd', -⟩ := exists_due (ch₃ side.peer).kcp (ch₃ side.peer).kcp.current
  obtain ⟨seg', hseg'⟩ := @exists_wins_segment (setClock (ch₃ side.peer).kcp t') (htell₃ htell)
  obtain ⟨ch₄, d', hc₄, -, hpeer₄, -, hmem', hall⟩ := h₃.transmit side.peer ht' hfwd' hseg'
  rw [peer_peer] at hpeer₄
  refine ⟨ch₄, hcP.trans (hc₁.trans (hc₂.trans (hc₃.trans hc₄))), ?_⟩
  have hwnd : ∀ w ∈ segmentsOf (ch₃ side).kcp.conv d', w.wnd = (wndUnused (ch₃ side.peer).kcp).toUInt16 := by
    rw [(h₃.sound side).conv_eq]
    intro w hw
    obtain ⟨s, hs, rfl⟩ := hall w hw
    exact congrArg UInt32.toUInt16 (mem_flushed hs).2.1
  rw [← (h₃.sound side).conv_eq] at hmem'
  rw [hpeer₄, (ch₃ side).rmtWnd_input (List.ne_nil_of_mem hmem') hwnd]
  exact (h₃.intact side.peer).wndUnused_ne_zero (h₃.queue_lt hdrained)

/-- What waits in the queue can be sent when the window is open. -/
theorem Since.send_next (h : Since conv ch₀ ch) (side : Side) (hw : (ch side).kcp.rmtWnd ≠ 0)
    (hwait : ch.una side < (ch side).history.length) : ∃ ch', Onward ch₀ ch ch' ∧ (ch' side).kcp.sndBuf ≠ [] := by
  -- the first flush opens the congestion window
  obtain ⟨t, ht, hfwd, -⟩ := exists_due (ch side).kcp (ch side).kcp.current
  obtain ⟨ch₁, hc₁, hself₁, -⟩ := onward_update ch₀ ch side hfwd
  have h₁ := (h.continues hc₁).1
  have hhist : (ch₁ side).history = (ch side).history := by rw [hself₁]; rfl
  have huna : (ch₁ side).kcp.sndUna = (ch side).kcp.sndUna := by rw [hself₁, sndUna_update]
  have hkcp := congrArg Endpoint.kcp hself₁
  rw [kcp_update ht] at hkcp
  have hw₁ : (ch₁ side).kcp.rmtWnd ≠ 0 := by
    rw [hkcp, rmtWnd_ikcpFlush]
    exact hw
  have hcwnd : 0 < (ch₁ side).kcp.cwnd.toNat := by
    rw [hkcp]
    exact cwnd_ikcpFlush rfl
  have hsend := ((h₁.sound side).sender_toNat (h₁.small side)).1
  obtain ⟨t', ht', hfwd', -⟩ := exists_due (ch₁ side).kcp (ch₁ side).kcp.current
  obtain ⟨ch₂, hc₂, hself₂, -⟩ := onward_update ch₀ ch₁ side hfwd'
  refine ⟨ch₂, hc₁.trans hc₂, ?_⟩
  rw [hself₂, kcp_update ht']
  apply @sndBuf_ikcpFlush (setClock (ch₁ side).kcp t') rfl (h₁.intact side).tuned.sndWnd hw₁ hsend.remote hcwnd
  intro hnil
  have hempty : (ch₁ side).kcp.sndBuf = [] := hnil
  have hfirst := hsend.first
  simp only [Ikcpcb.outbound, hempty] at hfirst
  have hidle : (ch₁ side).kcp.sndUna = (ch₁ side).kcp.sndNxt := hfirst
  refine ⟨hidle, fun hqueue => ?_⟩
  have hqueue' : (ch₁ side).kcp.sndQueue = [] := hqueue
  have hdrop := hsend.queue
  simp only [Ikcpcb.outbound, hqueue', List.map_nil] at hdrop
  have hlen := congrArg List.length hdrop
  rw [List.length_drop, List.length_nil, ← hidle, huna, hhist] at hlen
  rw [una] at hwait
  omega

/-- As long as something waits, it can be acknowledged. -/
theorem Since.progress (h : Since conv ch₀ ch) (side : Side) (hwait : ch.una side < (ch side).history.length) :
    ∃ ch', Onward ch₀ ch ch' ∧ ch.una side < ch'.una side := by
  obtain ⟨ch₁, hc₁, hw⟩ := h.open_window side
  obtain ⟨h₁, hle₁⟩ := h.continues hc₁
  rcases Nat.eq_or_lt_of_le (hle₁ side) with heq | hlt
  · obtain ⟨ch₂, hc₂, hbuf⟩ := h₁.send_next side hw (by rwa [← heq, h.history_eq h₁])
    obtain ⟨h₂, hle₂⟩ := h₁.continues hc₂
    obtain ⟨ch₃, hc₃, hlt⟩ := h₂.acknowledge side hbuf
    exact ⟨ch₃, hc₁.trans (hc₂.trans hc₃), ((hle₁ side).trans (hle₂ side)).trans_lt hlt⟩
  · exact ⟨ch₁, hc₁, hlt⟩

end Rounds

section Delivery

/-- How many segments have not been acknowledged. -/
def unacked (ch : Channel) : Nat :=
  ((ch .client).history.length - ch.una .client) + ((ch .gateway).history.length - ch.una .gateway)

theorem Since.una_le (h : Since conv ch₀ ch) (side : Side) : ch.una side ≤ (ch side).history.length := by
  have hsend := ((h.sound side).sender_toNat (h.small side)).1
  exact hsend.una_le.trans hsend.nxt_le

theorem Since.unacked_lt (h : Since conv ch₀ ch) (hc : Onward ch₀ ch ch') (hlt : ch.una side < ch'.una side) :
    ch'.unacked < ch.unacked := by
  obtain ⟨h', hle⟩ := h.continues hc
  have hhist := h.history_eq h'
  have hclient := hle .client
  have hgateway := hle .gateway
  have hclient' := h'.una_le .client
  have hgateway' := h'.una_le .gateway
  rw [unacked, unacked, hhist, hhist]
  rw [hhist] at hclient' hgateway'
  cases side <;> omega

/-- Everything can be acknowledged. -/
theorem Since.acknowledge_all (h : Since conv ch₀ ch) :
    ∃ ch', Onward ch₀ ch ch' ∧ Since conv ch₀ ch' ∧ ∀ side, ikcpWaitsnd (ch' side).kcp = 0 := by
  apply exists_done (Since conv ch₀) (fun c : Channel => ∀ side, ikcpWaitsnd (c side).kcp = 0) unacked _ h
  intro c hc hmore
  rw [not_forall] at hmore
  obtain ⟨side, hwait⟩ := hmore
  rw [← (hc.sound side).una_eq_iff (hc.small side)] at hwait
  obtain ⟨c', hc', hlt⟩ := hc.progress side (Nat.lt_of_le_of_ne (hc.una_le side) hwait)
  exact ⟨c', hc', (hc.continues hc').1, hc.unacked_lt hc' hlt⟩

theorem Since.waitsnd_continues (h : Since conv ch₀ ch) (hc : Onward ch₀ ch ch') (hwait : ikcpWaitsnd (ch side).kcp = 0) :
    ikcpWaitsnd (ch' side).kcp = 0 := by
  obtain ⟨h', hle⟩ := h.continues hc
  rw [← (h.sound side).una_eq_iff (h.small side)] at hwait
  rw [← (h'.sound side).una_eq_iff (h'.small side)]
  have hle' := h'.una_le side
  apply hle'.antisymm
  rw [h.history_eq h', ← hwait]
  exact hle side

/-- Everything can be received. -/
theorem Since.receive_all (h : Since conv ch₀ ch) : ∃ ch', Onward ch₀ ch ch' ∧ ∀ side, (ch' side).got = (ch₀ side.peer).sent := by
  obtain ⟨ch₁, hc₁, h₁, hwait⟩ := h.acknowledge_all
  obtain ⟨ch₂, hc₂, hclient, -, -⟩ := drain ch₀ ch₁ .client
  obtain ⟨ch₃, hc₃, hgateway, hsame, -⟩ := drain ch₀ ch₂ .gateway
  have h₃ := (h₁.continues (hc₂.trans hc₃)).1
  refine ⟨ch₃, hc₁.trans (hc₂.trans hc₃), fun side => ?_⟩
  have hdrained : Drained (ch₃ side).kcp := by
    cases side with
    | client =>
        change ch₃ .client = ch₂ .client at hsame
        rwa [hsame]
    | gateway => exact hgateway
  have hall := (h₃.sound side).received_all (h₃.peer_sound side) (h₃.intact side).moved (h₃.intact side).tuned.rcvWnd
    (h₃.small side.peer) (h₁.waitsnd_continues (hc₂.trans hc₃) (hwait side.peer))
  rwa [receivable_of_drained hdrained, List.append_nil, h₃.sent] at hall

/-- When nothing waits to be sent or acknowledged at one end, every message has
been received at the other end or can be. -/
theorem all_receivable (conv : UInt32) (events : List Event) (hs : (run conv events).Small) (side : Side)
    (hwait : ikcpWaitsnd (run conv events side.peer).kcp = 0) :
    (run conv events side).got ++ receivable (run conv events side).kcp = (run conv events side.peer).sent := by
  have h := sound_run conv events hs
  have hpeer := h side.peer
  rw [peer_peer] at hpeer
  have hi : (run conv events side).Intact 2147483648 := intact_run (by decide) le_rfl conv (fun event _ => event.within_max) side
  exact (h side).received_all hpeer hi.moved hi.tuned.rcvWnd (hs.history side.peer) hwait

theorem all_receivable_of_lossy :
    (run 7 lossyEvents .gateway).got ++ receivable (run 7 lossyEvents .gateway).kcp = [ascii "a", ascii "b"] := by
  have hsent : (run 7 lossyEvents .client).sent = [ascii "a", ascii "b"] := by decide +kernel
  rw [← hsent]
  exact all_receivable 7 lossyEvents small_lossyEvents .gateway (by decide +kernel)

/-- At any time, whatever the network has done, everything that has been sent
can still be received, even if no datagram from before arrives any more, with
clocks that do not go back. -/
theorem delivery_possible (conv : UInt32) (events : List Event) (hw : ∀ event ∈ events, event.Within 65535)
    (hroom : ∀ side, (run conv events side).cuts.flatten.length < 2147418112) :
    ∃ more, Allowed step (Event.Quiet (run conv events)) (run conv events) more ∧
      ∀ side, (run conv (events ++ more) side).got = (run conv events side.peer).sent := by
  have hsmall : (run conv events).Small := fun side => (hroom side).trans (by decide)
  have hsince : Since conv (run conv events) (run conv events) := by
    refine ⟨sound_run conv events hsmall, intact_run (by decide) (by decide) conv hw, fitting_run conv events, fun side => ?_,
      fun _ => le_rfl, fun _ => rfl, fun _ => rfl⟩
    rw [Endpoint.history, length_frames]
    exact hroom side
  obtain ⟨ch', ⟨more, hquiet, rfl⟩, hgot⟩ := hsince.receive_all
  refine ⟨more, hquiet, fun side => ?_⟩
  rw [run, List.foldl_append]
  exact hgot side

end Delivery

theorem delivery_possible_of_lossy : ∃ more, (run 7 (lossyEvents ++ more) .gateway).got = [ascii "a", ascii "b"] := by
  have hwithin : ∀ event ∈ lossyEvents, event.Within 65535 := by simp [lossyEvents, Event.Within, Act.Within]
  have hroom : ∀ side, (run 7 lossyEvents side).cuts.flatten.length < 2147418112 := by
    intro side
    cases side <;> decide +kernel
  obtain ⟨more, -, hgot⟩ := delivery_possible 7 lossyEvents hwithin hroom
  have hsent : (run 7 lossyEvents .client).sent = [ascii "a", ascii "b"] := by decide +kernel
  exact ⟨more, (hgot .gateway).trans hsent⟩

end Channel

end GameAccelerator.Ikcp
