import GameAccelerator.IkcpDelivery
import GameAccelerator.KcpGateway
import GameAccelerator.RelayFidelity

namespace GameAccelerator.Conversation

open CString Platform NetUtils Kcp SessionManager GatewayLoop SessionInvariant Switchboard KcpGateway
  SessionFrame Relay RelayRun RelayFidelity
open Ikcp (library receivable)

/-- No datagram of the conversation `c`. -/
def Stray (c : UInt32) (bytes : Bytes) : Prop := ¬(ikcpGetconv bytes = c ∧ 24 ≤ bytes.length)

section Account

/-- What a stretch of the log has for the session `c` of `owner`: the messages
that have been completed, those that have been sent and where the datagrams for
the owner come from. -/
structure Account (c : UInt32) (owner : Endpoint) (effects : List Effect) (completed sent wire : List Bytes) : Prop where
  completes : completesOf c effects = completed
  sends : sendsOf c effects = sent
  datagrams : ∀ fd bytes, .tunnel fd owner bytes ∈ effects → bytes ∈ wire ∨ Stray c bytes

variable {c c' : UInt32} {owner : Endpoint} {effects effects' : List Effect} {completed completed' sent sent' wire wire' : List Bytes}

theorem Account.append (h : Account c owner effects completed sent wire) (h' : Account c owner effects' completed' sent' wire') :
    Account c owner (effects ++ effects') (completed ++ completed') (sent ++ sent') (wire ++ wire') := by
  refine ⟨?_, ?_, fun fd bytes hmem => ?_⟩
  · rw [completesOf, List.filterMap_append]
    exact congrArg₂ (· ++ ·) h.completes h'.completes
  · rw [sendsOf, List.filterMap_append]
    exact congrArg₂ (· ++ ·) h.sends h'.sends
  · rcases List.mem_append.mp hmem with hmem | hmem
    · exact (h.datagrams fd bytes hmem).imp_left (List.mem_append_left _)
    · exact (h'.datagrams fd bytes hmem).imp_left (List.mem_append_right _)

theorem account_plain (h : ∀ e ∈ effects, Plain e) : Account c owner effects [] [] [] := by
  refine ⟨List.filterMap_eq_nil_iff.mpr fun e he => ?_, List.filterMap_eq_nil_iff.mpr fun e he => ?_, fun fd bytes hmem => ?_⟩
  · cases e with
    | complete c' => cases h _ he
    | _ => rfl
  · cases e with
    | ikcpSend c' => cases h _ he
    | _ => rfl
  · have hshort : bytes.length < 24 := h _ hmem
    exact .inr fun hc => by omega

theorem account_created (src : Endpoint) (time : UInt64) : Account c owner [.created c' src time] [] [] [] :=
  ⟨rfl, rfl, fun fd bytes hmem => by simp at hmem⟩

theorem sendsOf_map (c : UInt32) (l : List Bytes) : sendsOf c (l.map (.ikcpSend c)) = l := by
  rw [sendsOf, List.filterMap_map]
  simp only [Function.comp_def, if_true]
  exact List.filterMap_some

variable {ks : KcpSession Ikcp.Ikcpcb} {packets : List Bytes}

theorem account_output (ks : KcpSession Ikcp.Ikcpcb) (packets : List Bytes) : Account c owner (kcpOutput ks packets) [] [] packets := by
  have hnone : ∀ e ∈ kcpOutput ks packets, messageOf e ≠ some c := by
    intro e he
    obtain ⟨d, -, rfl⟩ := List.mem_map.mp he
    intro hmsg
    cases hmsg
  refine ⟨completesOf_eq_nil hnone, sendsOf_eq_nil hnone, fun fd bytes hmem => ?_⟩
  obtain ⟨d, hd, heq⟩ := List.mem_map.mp hmem
  rw [← (Effect.tunnel.inj heq).2.2]
  exact .inl hd

theorem account_serve (ks : KcpSession Ikcp.Ikcpcb) (completed sent packets : List Bytes) :
    Account c owner (completed.map (.complete c) ++ sent.map (.ikcpSend c) ++ kcpOutput ks packets) completed sent packets := by
  have hcomplete : Account c owner (completed.map (.complete c)) completed [] [] :=
    ⟨completesOf_map c completed, sendsOf_map_complete c c completed, fun fd bytes hmem => by simp at hmem⟩
  have hsend : Account c owner (sent.map (.ikcpSend c)) [] sent [] :=
    ⟨by simp [completesOf, List.filterMap_map], sendsOf_map c sent, fun fd bytes hmem => by simp at hmem⟩
  simpa using (hcomplete.append hsend).append (account_output ks packets)

/-- What is of another session is nothing to this one. -/
theorem account_elsewhere (hc : c' ≠ c) (ks : KcpSession Ikcp.Ikcpcb) (completed sent : List Bytes)
    (hp : ∀ d ∈ packets, Ikcp.Endpoint.Datagram c' d) :
    Account c owner (completed.map (.complete c') ++ sent.map (.ikcpSend c') ++ kcpOutput ks packets) [] [] [] := by
  have hnone : ∀ e ∈ completed.map (Effect.complete c') ++ sent.map (.ikcpSend c') ++ kcpOutput ks packets,
      messageOf e ≠ some c := by
    intro e he hmsg
    rw [List.mem_append, List.mem_append] at he
    rcases he with (he | he) | he
    · obtain ⟨m, -, rfl⟩ := List.mem_map.mp he
      exact hc (Option.some.inj hmsg)
    · obtain ⟨m, -, rfl⟩ := List.mem_map.mp he
      exact hc (Option.some.inj hmsg)
    · obtain ⟨d, -, rfl⟩ := List.mem_map.mp he
      cases hmsg
  refine ⟨completesOf_eq_nil hnone, sendsOf_eq_nil hnone, fun fd bytes hmem => .inr fun hstray => ?_⟩
  rcases List.mem_append.mp hmem with hmem | hmem
  · simp at hmem
  · obtain ⟨d, hd, heq⟩ := List.mem_map.mp hmem
    rw [← (Effect.tunnel.inj heq).2.2, (hp d hd).conv_eq] at hstray
    exact hc hstray.1

end Account

theorem history_lt {e : Ikcp.Endpoint} (hf : e.Framed) (h : e.sent.length < 16777216) : e.history.length < 2147483648 := by
  have hle := hf.length_history_le
  omega

/-- A datagram of the other end, or one that is none of the conversation. -/
theorem input_sound {c : UInt32} {e peer : Ikcp.Endpoint} (h : e.Sound c peer) (hpeer : peer.Sound c e)
    (he : e.history.length < 2147483648) (hp : peer.history.length < 2147483648) {bytes : Bytes}
    (hbytes : bytes ∈ peer.wire ∨ Stray c bytes) : (e.input bytes).Sound c peer ∧ e.Grows (e.input bytes) := by
  rcases hbytes with hbytes | hstray
  · exact h.input he hp hpeer hbytes
  · rw [Stray, ← h.conv_eq] at hstray
    rw [Ikcp.Channel.input_stray hstray]
    exact ⟨h, .refl e⟩

section Joined

/-- Both ends of the session `c`, and what the log has from its creation on. The
client's end runs on its own, the other one is in the gateway until the session
is torn down. -/
structure Joined (c : UInt32) (owner : Endpoint) (log : List Effect) (v : View Ikcp.Ikcpcb) (client server : Ikcp.Endpoint) :
    Prop where
  clientSound : client.Sound c server
  serverSound : server.Sound c client
  intact : client.Intact 2147483648
  past : Past c server.kcp server
  block : v.blocks c = none ∨ ∃ ks, v.blocks c = some ks ∧ ks.peer = owner ∧ ks.kcp = Ikcp.gatewayView server.kcp
  account : ∃ effects, v.log = log ++ effects ∧
    Account c owner effects (server.got ++ receivable server.kcp) server.sent server.wire

variable {c : UInt32} {owner : Endpoint} {log : List Effect} {v v' : View Ikcp.Ikcpcb} {client server server' : Ikcp.Endpoint}
  {ks : KcpSession Ikcp.Ikcpcb} {k : Ikcpcb Ikcp.Ikcpcb} {completed sent packets : List Bytes}

/-- The other end after a call that completes, sends and puts on the wire what
the log says. -/
theorem Joined.served (h : Joined c owner log v client server) (hks : v.blocks c = some ks) (hsound : server'.Sound c client)
    (hgrows : server.Grows server') (hpast : Past c server'.kcp server') (hk : k = Ikcp.gatewayView server'.kcp)
    (hcompleted : server.got ++ receivable server.kcp ++ completed = server'.got ++ receivable server'.kcp)
    (hsent : server.sent ++ sent = server'.sent) (hwire : server.wire ++ packets = server'.wire) :
    Joined c owner log ⟨Function.update v.blocks c (some { ks with kcp := k }),
      v.log ++ (completed.map (.complete c) ++ sent.map (.ikcpSend c) ++ kcpOutput ks packets)⟩ client server' := by
  have hpeer : ks.peer = owner := by
    rcases h.block with hnone | ⟨ks', hks', hpeer, -⟩
    · cases hks.symm.trans hnone
    · rw [Option.some.inj (hks.symm.trans hks')]
      exact hpeer
  obtain ⟨effects, hlog, haccount⟩ := h.account
  refine ⟨h.clientSound.mono_peer hgrows, hsound, h.intact, hpast, .inr ⟨_, Function.update_self .., hpeer, hk⟩, ?_⟩
  have hnew := haccount.append (account_serve ks completed sent packets)
  rw [hcompleted, hsent, hwire] at hnew
  exact ⟨_, by rw [hlog, List.append_assoc], hnew⟩

/-- The gateway works for the session. -/
theorem Joined.serve (h : Joined c owner log v client server) (hclient : client.history.length < 2147483648)
    (hserver : server.history.length < 2147483648)
    {arrives : Endpoint → Bytes → Prop} (harrives : ∀ pkt, arrives owner pkt → pkt ∈ client.wire ∨ Stray c pkt)
    (hks : v.blocks c = some ks) (hserve : Serve library (arrives ks.peer) ks.kcp k completed sent packets) :
    ∃ server', Joined c owner log ⟨Function.update v.blocks c (some { ks with kcp := k }),
      v.log ++ (completed.map (.complete c) ++ sent.map (.ikcpSend c) ++ kcpOutput ks packets)⟩ client server' := by
  have hblock : ks.peer = owner ∧ ks.kcp = Ikcp.gatewayView server.kcp := by
    rcases h.block with hnone | ⟨ks', hks', hblock⟩
    · cases hks.symm.trans hnone
    · rw [Option.some.inj (hks.symm.trans hks')]
      exact hblock
  rw [hblock.1, hblock.2] at hserve
  have hframed := h.clientSound.framed
  cases hserve with
  | input pkt hpkt =>
      obtain ⟨hsound, hgrows⟩ := input_sound h.serverSound h.clientSound hserver hclient (harrives pkt hpkt)
      have hpast := h.past.input pkt
      have hmore := h.serverSound.receivable_prefix hsound hframed h.past.intact hpast.intact hgrows
      have hprefix : receivable server.kcp <+: receivable (server.input pkt).kcp := (List.prefix_append_right_inj _).mp hmore
      have heq := Ikcp.ikcpInput_library server.kcp pkt
      obtain ⟨new, hnew⟩ := hprefix
      have hcompleted : completed library (Ikcp.gatewayView server.kcp) pkt = new := by
        change (receivable (server.input pkt).kcp).drop (receivable server.kcp).length = new
        rw [← hnew, List.drop_left]
      refine ⟨_, h.served hks hsound hgrows hpast (congrArg Prod.fst heq) ?_ (List.append_nil _) ?_⟩
      · rw [hcompleted, List.append_assoc, hnew]
        rfl
      · rw [heq, List.append_nil]
        rfl
  | update now =>
      have heq := Ikcp.ikcpUpdate_library server.kcp now
      obtain ⟨hsound, hgrows⟩ := h.serverSound.call (c := .update now) hframed rfl
      have hpast := h.past.call (.update now) ⟨rfl, trivial, trivial⟩
      refine ⟨_, h.served hks hsound hgrows hpast (congrArg Prod.fst heq) ?_ (List.append_nil _) ?_⟩
      · rw [List.append_nil, ← Ikcp.receivable_congr (Ikcp.frame_ikcpUpdate server.kcp now).1]
        rfl
      · rw [heq]
        rfl
  | flush =>
      have heq := Ikcp.ikcpFlush_library server.kcp
      obtain ⟨hsound, hgrows⟩ := h.serverSound.call (c := .flush) hframed rfl
      have hpast := h.past.call .flush ⟨rfl, trivial, trivial⟩
      refine ⟨_, h.served hks hsound hgrows hpast (congrArg Prod.fst heq) ?_ (List.append_nil _) ?_⟩
      · rw [List.append_nil, ← Ikcp.receivable_congr (Ikcp.inbound_ikcpFlush server.kcp)]
        rfl
      · rw [heq]
        rfl
  | send msg hmsg =>
      obtain ⟨hsound, hgrows⟩ := h.serverSound.call (c := .send msg) hframed rfl
      have hpast := h.past.call (.send msg) ⟨rfl, trivial, trivial⟩
      refine ⟨_, h.served hks hsound hgrows hpast (Ikcp.ikcpSend_library server.kcp msg) ?_ ?_ (List.append_nil _)⟩
      · rw [List.append_nil, ← Ikcp.receivable_congr (Ikcp.frame_ikcpSend server.kcp msg).1]
        rfl
      · exact (if_neg (Int.not_lt.mpr (h.past.send_nonneg hmsg))).symm
  | recv =>
      have heq := (Ikcp.ikcpRecv_library server.kcp blockSize).1
      obtain ⟨hsound, hgrows⟩ := h.serverSound.call (c := .recv blockSize) hframed rfl
      have hpast := h.past.call (.recv blockSize) ⟨rfl, trivial, trivial⟩
      refine ⟨_, h.served hks hsound hgrows hpast (congrArg Prod.snd heq) ?_ (List.append_nil _) (List.append_nil _)⟩
      rw [List.append_nil, server.got_append_recv (Int.natCast_nonneg _)]

/-- What is of no concern to the session. -/
theorem Joined.idle (h : Joined c owner log v client server) {effects : List Effect}
    {blocks : UInt32 → Option (KcpSession Ikcp.Ikcpcb)} (hblock : blocks c = v.blocks c ∨ blocks c = none)
    (ha : Account c owner effects [] [] []) : Joined c owner log ⟨blocks, v.log ++ effects⟩ client server := by
  obtain ⟨effects', hlog, haccount⟩ := h.account
  have hblock' : blocks c = none ∨ ∃ ks, blocks c = some ks ∧ ks.peer = owner ∧ ks.kcp = Ikcp.gatewayView server.kcp := by
    rcases hblock with hblock | hblock
    · rw [hblock]
      exact h.block
    · exact .inl hblock
  have hnew := haccount.append ha
  rw [List.append_nil, List.append_nil, List.append_nil] at hnew
  exact ⟨h.clientSound, h.serverSound, h.intact, h.past, hblock', _, by rw [hlog, List.append_assoc], hnew⟩

/-- The conversation has not had more messages than there are numbers for, and
its own number has been given out once. -/
structure Brief (c : UInt32) (log : List Effect) (v : View Ikcp.Ikcpcb) (client : Ikcp.Endpoint) : Prop where
  once : ∀ src time, .created c src time ∉ v.log.drop log.length
  clientFew : client.sent.length < 16777216
  serverFew : (sendsOf c (v.log.drop log.length)).length < 16777216

theorem Brief.of_prefix {client' : Ikcp.Endpoint} (h : Brief c log v' client') (hlog : v.log <+: v'.log)
    (hsent : client.sent <+: client'.sent) : Brief c log v client := by
  obtain ⟨rest, hrest⟩ : v.log.drop log.length <+: v'.log.drop log.length := hlog.drop _
  refine ⟨fun src time hmem => h.once src time ?_, hsent.length_le.trans_lt h.clientFew, ?_⟩
  · rw [← hrest]
    exact List.mem_append_left _ hmem
  · have hfew := h.serverFew
    rw [← hrest, sendsOf, List.filterMap_append, List.length_append] at hfew
    exact (Nat.le_add_right _ _).trans_lt hfew

theorem Joined.few (h : Joined c owner log v client server) (hb : Brief c log v client) :
    client.history.length < 2147483648 ∧ server.history.length < 2147483648 := by
  obtain ⟨effects, hlog, haccount⟩ := h.account
  have hfew := hb.serverFew
  rw [hlog, List.drop_left, haccount.sends] at hfew
  exact ⟨history_lt h.clientSound.framed hb.clientFew, history_lt h.serverSound.framed hfew⟩

theorem move_log {env : Env Ikcp.Ikcpcb} {arrives : Endpoint → Bytes → Prop} (hm : Move env arrives v v') : v.log <+: v'.log := by
  cases hm with
  | gone => exact List.prefix_rfl
  | _ => exact List.prefix_append _ _

theorem Joined.move {env : Env Ikcp.Ikcpcb} (hK : env.kcp = library) (h : Joined c owner log v client server) (hs : Sane v)
    {arrives : Endpoint → Bytes → Prop} (harrives : ∀ pkt, arrives owner pkt → pkt ∈ client.wire ∨ Stray c pkt)
    (hm : Move env arrives v v') (hb : Brief c log v' client) : ∃ server', Joined c owner log v' client server' := by
  have hfew := h.few (hb.of_prefix (move_log hm) List.prefix_rfl)
  cases hm with
  | note effects he => exact ⟨server, h.idle (.inl rfl) (account_plain he)⟩
  | @serve c' ks k completed sent packets hks hserve =>
      rw [hK] at hserve
      by_cases hc : c' = c
      · subst hc
        exact h.serve hfew.1 hfew.2 harrives hks hserve
      · have hpackets := ((hs.blocks c' ks hks).serve hserve).2
        exact ⟨server, h.idle (.inl (Function.update_of_ne (Ne.symm hc) ..)) (account_elsewhere hc ks completed sent hpackets)⟩
  | @created c' hfree src time =>
      by_cases hc : c' = c
      · subst hc
        obtain ⟨effects, hlog, -⟩ := h.account
        refine absurd ?_ (hb.once src time)
        rw [hlog, List.append_assoc, List.drop_left]
        exact List.mem_append_right _ (List.mem_singleton_self _)
      · exact ⟨server, h.idle (.inl (Function.update_of_ne (Ne.symm hc) ..)) (account_created src time)⟩
  | gone c' =>
      have hblock : Function.update v.blocks c' none c = v.blocks c ∨ Function.update v.blocks c' none c = none := by
        by_cases hc : c = c'
        · subst hc
          exact .inr (Function.update_self ..)
        · exact .inl (Function.update_of_ne hc ..)
      have hidle := h.idle hblock (account_plain (List.forall_mem_nil _))
      rw [List.append_nil] at hidle
      exact ⟨server, hidle⟩

theorem Joined.moves {env : Env Ikcp.Ikcpcb} (hK : env.kcp = library) (h : Joined c owner log v client server) (hs : Sane v)
    {arrives : Endpoint → Bytes → Prop} (harrives : ∀ pkt, arrives owner pkt → pkt ∈ client.wire ∨ Stray c pkt)
    (hm : Moves env arrives v v') (hb : Brief c log v' client) : ∃ server', Joined c owner log v' client server' := by
  induction hm with
  | refl => exact ⟨server, h⟩
  | tail hmoves hmove ih =>
      obtain ⟨server', h'⟩ := ih (hb.of_prefix (move_log hmove) List.prefix_rfl)
      exact h'.move hK (hs.moves hK hmoves) harrives hmove hb

theorem Joined.clientCall (h : Joined c owner log v client server) {call : Ikcp.Call} (hcall : call.setsMtu = false) :
    Joined c owner log v (client.call call) server := by
  obtain ⟨hsound, hgrows⟩ := h.clientSound.call h.serverSound.framed hcall
  have hwithin : (Ikcp.Act.call call).Within 2147483648 := Ikcp.Act.within_max hcall
  exact ⟨hsound, h.serverSound.mono_peer hgrows, h.intact.call (by decide) hwithin, h.past, h.block, h.account⟩

/-- A datagram arrives at the client. -/
theorem Joined.clientInput (h : Joined c owner log v client server) (hb : Brief c log v client) {bytes : Bytes}
    (hbytes : bytes ∈ server.wire ∨ Stray c bytes) : Joined c owner log v (client.input bytes) server := by
  have hfew := h.few hb
  obtain ⟨hsound, hgrows⟩ := input_sound h.clientSound h.serverSound hfew.1 hfew.2 hbytes
  exact ⟨hsound, h.serverSound.mono_peer hgrows, h.intact.input (by decide) bytes, h.past, h.block, h.account⟩

end Joined

section Exchange

/-- The gateway and the client of the session `c`, from the gateway `g₀` on.
Datagrams may be lost, repeated, delayed and reordered, and others may arrive
that are of another conversation. -/
inductive Exchange (env : Env Ikcp.Ikcpcb) (c : UInt32) (owner : Endpoint) (g₀ : Gateway Ikcp.Ikcpcb) :
    List (Event Ikcp.Ikcpcb) → Gateway Ikcp.Ikcpcb → Ikcp.Endpoint → Prop
  | start : Exchange env c owner g₀ [] g₀ (.create c)
  /-- What the gateway reads from the owner's address is of the client. -/
  | gateway {events : List (Event Ikcp.Ikcpcb)} {g g' : Gateway Ikcp.Ikcpcb} {client : Ikcp.Endpoint}
      (h : Exchange env c owner g₀ events g client) (e : Event Ikcp.Ikcpcb)
      (harrive : Arriving (fun src pkt => src = owner → pkt ∈ client.wire ∨ Stray c pkt) e) (hstep : step env g e = .ok g') :
      Exchange env c owner g₀ (events ++ [e]) g' client
  | call {events : List (Event Ikcp.Ikcpcb)} {g : Gateway Ikcp.Ikcpcb} {client : Ikcp.Endpoint}
      (h : Exchange env c owner g₀ events g client) (call : Ikcp.Call) (hcall : call.setsMtu = false) :
      Exchange env c owner g₀ events g (client.call call)
  | input {events : List (Event Ikcp.Ikcpcb)} {g : Gateway Ikcp.Ikcpcb} {client : Ikcp.Endpoint}
      (h : Exchange env c owner g₀ events g client) {bytes : Bytes}
      (harrive : (∃ fd, .tunnel fd owner bytes ∈ since g₀ g) ∨ Stray c bytes) :
      Exchange env c owner g₀ events g (client.input bytes)

variable {env : Env Ikcp.Ikcpcb} {c : UInt32} {owner : Endpoint} {g₀ g : Gateway Ikcp.Ikcpcb} {client : Ikcp.Endpoint}
  {events : List (Event Ikcp.Ikcpcb)}

theorem Exchange.run (h : Exchange env c owner g₀ events g client) : runEvents env g₀ events = .ok g := by
  induction h with
  | start => rfl
  | gateway _ e _ hstep ih =>
      rw [runEvents_append ih, runEvents, hstep]
      rfl
  | call _ _ _ ih => exact ih
  | input _ _ ih => exact ih

theorem sent_call (e : Ikcp.Endpoint) (call : Ikcp.Call) : e.sent <+: (e.call call).sent := by
  cases call with
  | send buffer =>
      rw [Ikcp.Endpoint.call]
      dsimp only
      split
      · exact List.prefix_rfl
      · exact List.prefix_append _ _
  | _ => exact List.prefix_rfl

theorem joined_start (hK : env.kcp = library) (hnew : g₀.sessions.find c = some (newSession env.kcp env.clientFd c owner)) :
    ∃ server, Joined c owner g₀.log (view g₀) (.create c) server := by
  have hcreate := Ikcp.Endpoint.Sound.create c
  obtain ⟨hsound, hgrows⟩ := hcreate.call (c := .nodelay 1 10 2 1) hcreate.framed rfl
  have hpast := (past_create c).call (.nodelay 1 10 2 1) ⟨rfl, trivial, trivial⟩
  have hkcp : (newSession env.kcp env.clientFd c owner).kcp.kcp = Ikcp.gatewayView (Ikcp.ikcpNodelay (Ikcp.ikcpCreate c) 1 10 2 1) := by
    rw [hK]
    exact Ikcp.ikcpCreate_library c
  have haccount : Account c owner [] [] [] [] := account_plain (List.forall_mem_nil _)
  exact ⟨_, hcreate.mono_peer hgrows, hsound, .create (by decide) c, hpast,
    .inr ⟨_, congrArg (Option.map Session.kcp) hnew, rfl, hkcp⟩, [], (List.append_nil _).symm, haccount⟩

theorem Exchange.joined (hK : env.kcp = library) (hreach : ReachableByCalls env g₀)
    (hnew : g₀.sessions.find c = some (newSession env.kcp env.clientFd c owner)) (h : Exchange env c owner g₀ events g client)
    (hb : Brief c g₀.log (view g) client) : ∃ server, Joined c owner g₀.log (view g) client server := by
  induction h with
  | start => exact joined_start hK hnew
  | gateway h e harrive hstep ih =>
      have hreach' := reachableByCalls_of_run hreach h.run
      have hgood := reachableByCalls_good hreach'
      obtain ⟨server, hj⟩ := ih (hb.of_prefix (step_log hstep hgood) List.prefix_rfl)
      exact hj.moves hK (sane_of_reachable hK hreach') (fun pkt hpkt => hpkt rfl) (step_moves hgood harrive hstep) hb
  | @call _ _ client h call hcall ih =>
      obtain ⟨server, hj⟩ := ih (hb.of_prefix List.prefix_rfl (sent_call client call))
      exact ⟨server, hj.clientCall hcall⟩
  | @input _ _ client h bytes harrive ih =>
      have hb' : Brief c g₀.log (view _) client := hb.of_prefix List.prefix_rfl List.prefix_rfl
      obtain ⟨server, hj⟩ := ih hb'
      refine ⟨server, hj.clientInput hb' ?_⟩
      rcases harrive with ⟨fd, hmem⟩ | hstray
      · obtain ⟨effects, hlog, haccount⟩ := hj.account
        rw [since_eq hlog] at hmem
        exact haccount.datagrams fd bytes hmem
      · exact .inr hstray

end Exchange

end GameAccelerator.Conversation
