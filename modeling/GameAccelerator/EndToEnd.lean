import GameAccelerator.Conversation
import GameAccelerator.GatewayLedger

namespace GameAccelerator.EndToEnd

open CString Platform NetUtils TunnelMessages Kcp SessionManager GatewayLoop SessionInvariant Switchboard KcpGateway
  SessionFrame PoolBalance Relay RelaySteps RelayFidelity ConvLedger GatewayLedger Conversation
open Ikcp (library receivable ikcpWaitsnd)

section Ledger

variable {ρ : Type} {env : Env ρ} {c : UInt32} {g g₀ : Gateway ρ}

theorem ledgerKept_congr {lost : UInt32 × Endpoint → Prop} (h : ledger g = ledger g₀) (hk : LedgerKept lost g₀) :
    LedgerKept lost g := by
  have hregs : registrations g.log = registrations g₀.log := congrArg Ledger.given h
  rw [LedgerKept, h, hregs]
  exact hk

theorem ledgerKept_of_reachable (h : ReachableByCalls env g) : LedgerKept (fun _ => True) g := by
  induction h with
  | init =>
      refine fun _ => ⟨rfl, rfl, fun c e h => ?_, fun c e h => ?_⟩ <;> cases h
  | @step g g' h e he ih =>
      exact step_keep (fun h _ => act_kept h) (ledgerKept_congr (updateActive_ledger env g))
        (fun _ => ledgerKept_congr (sweepIdle_ledger env _ g.tick)) (fun _ => flushTeardown_kept fun _ _ _ _ => trivial) he (reachableByCalls_good h) ih
  | message h hs hd o buf ih =>
      exact acts_keep (fun h _ => act_kept h) ((GatewayMoves.inHand_of_find hs rfl hd).handleTunnelMsg o buf).1
        (reachableByCalls_good h) ih

/-- A number that is in use is not given out again. -/
theorem created_once (h₀ : ReachableByCalls env g₀) (h : ReachableByCalls env g) (hlog : g₀.log <+: g.log)
    (hfew : (registrations g.log).length < UInt32.size) (hc : (g₀.sessions.find c).isSome) (src : Endpoint) (time : UInt64) :
    .created c src time ∉ since g₀ g := by
  intro hmem
  obtain ⟨s, hs⟩ := Option.isSome_iff_exists.mp hc
  have hsplit : registrations g.log = registrations g₀.log ++ registrations (since g₀ g) := by
    rw [← registrations_append, ← log_since hlog]
  have hfew₀ : (registrations g₀.log).length < UInt32.size := by
    rw [hsplit, List.length_append] at hfew
    omega
  have hold : (c, s.clientAddr) ∈ registrations g₀.log :=
    (ledgerKept_of_reachable h₀ hfew₀).held c _ (congrArg (Option.map Session.clientAddr) hs)
  have hnew : (c, src) ∈ registrations (since g₀ g) := List.mem_filterMap.mpr ⟨_, hmem, rfl⟩
  have hnodup : ((registrations g.log).map Prod.fst).Nodup := by
    have hkept := ledgerKept_of_reachable h hfew
    rw [show registrations g.log = (ledger g).given from rfl, hkept.convs]
    refine List.Nodup.map_on (fun i hi j hj hij => ?_) List.nodup_range
    exact convAt_inj (Nat.lt_trans (List.mem_range.mp hi) hfew) (Nat.lt_trans (List.mem_range.mp hj) hfew) hij
  rw [hsplit, List.map_append] at hnodup
  exact List.disjoint_of_nodup_append hnodup (List.mem_map_of_mem hold : c ∈ _) (List.mem_map_of_mem hnew)

end Ledger

variable {env : Env Ikcp.Ikcpcb} {c : UInt32} {owner : Endpoint} {g₀ g : Gateway Ikcp.Ikcpcb} {client : Ikcp.Endpoint}
  {events : List (Event Ikcp.Ikcpcb)}

/-- A client that has just been given its number, and what has been going on
since. -/
structure Talk (env : Env Ikcp.Ikcpcb) (c : UInt32) (owner : Endpoint) (g₀ : Gateway Ikcp.Ikcpcb) (events : List (Event Ikcp.Ikcpcb))
    (g : Gateway Ikcp.Ikcpcb) (client : Ikcp.Endpoint) : Prop where
  kcp : env.kcp = library
  reachable : ReachableByCalls env g₀
  created : g₀.sessions.find c = some (newSession env.kcp env.clientFd c owner)
  exchange : Exchange env c owner g₀ events g client
  registrations : (registrations g.log).length < UInt32.size
  clientFew : client.sent.length < 16777216
  gatewayFew : (sendsOf c (since g₀ g)).length < 16777216

theorem Talk.joined (h : Talk env c owner g₀ events g client) : ∃ server, Joined c owner g₀.log (view g) client server := by
  have hlog := runEvents_log h.exchange.run (reachableByCalls_good h.reachable)
  have hreach := reachableByCalls_of_run h.reachable h.exchange.run
  refine h.exchange.joined h.kcp h.reachable h.created ⟨fun src time => ?_, h.clientFew, h.gatewayFew⟩
  apply created_once h.reachable hreach hlog h.registrations
  rw [h.created]
  rfl

theorem Talk.completes_prefix (h : Talk env c owner g₀ events g client) : completesOf c (since g₀ g) <+: client.sent := by
  obtain ⟨server, hj⟩ := h.joined
  obtain ⟨effects, hlog, haccount⟩ := hj.account
  rw [since_eq hlog, haccount.completes]
  exact hj.serverSound.got_receivable_prefix hj.clientSound.framed hj.past.intact.moved hj.past.intact.tuned.rcvWnd

theorem Talk.completes_eq (h : Talk env c owner g₀ events g client) (hwait : ikcpWaitsnd client.kcp = 0) :
    completesOf c (since g₀ g) = client.sent := by
  obtain ⟨server, hj⟩ := h.joined
  obtain ⟨effects, hlog, haccount⟩ := hj.account
  rw [since_eq hlog, haccount.completes]
  exact hj.serverSound.received_all hj.clientSound hj.past.intact.moved hj.past.intact.tuned.rcvWnd
    (history_lt hj.clientSound.framed h.clientFew) hwait

theorem Talk.got_prefix (h : Talk env c owner g₀ events g client) :
    client.got ++ receivable client.kcp <+: sendsOf c (since g₀ g) := by
  obtain ⟨server, hj⟩ := h.joined
  obtain ⟨effects, hlog, haccount⟩ := hj.account
  rw [since_eq hlog, haccount.sends]
  exact hj.clientSound.got_receivable_prefix hj.serverSound.framed hj.intact.moved hj.intact.tuned.rcvWnd

theorem Talk.got_eq (h : Talk env c owner g₀ events g client) {s : Session Ikcp.Ikcpcb} (hs : g.sessions.find c = some s)
    (hwait : ikcpWaitsnd s.kcp.kcp.rest = 0) : client.got ++ receivable client.kcp = sendsOf c (since g₀ g) := by
  obtain ⟨server, hj⟩ := h.joined
  obtain ⟨effects, hlog, haccount⟩ := hj.account
  have hkcp : s.kcp.kcp.rest = server.kcp := by
    have hks : (view g).blocks c = some s.kcp := congrArg (Option.map Session.kcp) hs
    rcases hj.block with hnone | ⟨ks, hks', -, hkcp⟩
    · cases hks.symm.trans hnone
    · rw [Option.some.inj (hks.symm.trans hks'), hkcp]
      rfl
  rw [hkcp] at hwait
  have hfew := h.gatewayFew
  rw [since_eq hlog, haccount.sends] at hfew ⊢
  exact hj.clientSound.received_all hj.serverSound hj.intact.moved hj.intact.tuned.rcvWnd
    (history_lt hj.serverSound.framed hfew) hwait

/-- Whatever the network does, each side gets what the other one has sent, in
this order, and all of it once nothing waits to be acknowledged. -/
theorem messages_cross (env : Env Ikcp.Ikcpcb) (c : UInt32) (owner : Endpoint) (g₀ g : Gateway Ikcp.Ikcpcb)
    (events : List (Event Ikcp.Ikcpcb)) (client : Ikcp.Endpoint) (h : Talk env c owner g₀ events g client) :
    completesOf c (since g₀ g) <+: client.sent ∧ client.got ++ receivable client.kcp <+: sendsOf c (since g₀ g) ∧
      (ikcpWaitsnd client.kcp = 0 → completesOf c (since g₀ g) = client.sent) ∧
      ∀ s, g.sessions.find c = some s → ikcpWaitsnd s.kcp.kcp.rest = 0 →
        client.got ++ receivable client.kcp = sendsOf c (since g₀ g) :=
  ⟨h.completes_prefix, h.got_prefix, h.completes_eq, fun _ hs hwait => h.got_eq hs hwait⟩

/-- The gateway has handled a part of what the client has sent. -/
theorem Talk.exists_handled {ms : List Message} (h : Talk env c owner g₀ events g client)
    (hms : client.sent = ms.map Message.encode) :
    ∃ ms', ms' <+: ms ∧ (ikcpWaitsnd client.kcp = 0 → ms' = ms) ∧ completesOf c (since g₀ g) = ms'.map Message.encode := by
  have hprefix := h.completes_prefix
  rw [hms] at hprefix
  refine ⟨ms.take (completesOf c (since g₀ g)).length, List.take_prefix _ _, fun hwait => ?_, ?_⟩
  · rw [h.completes_eq hwait, hms, List.length_map, List.take_length]
  · rw [List.map_take]
    exact List.prefix_iff_eq_take.mp hprefix

/-- The gateway relays what it has handled and sends what the target has
answered. -/
theorem Talk.reaches {kv : Bytes → Option Bytes} {ms : List Message} (h : Talk env c owner g₀ events g client)
    (hlives : lives env c g₀ events) (hsteady : ∀ e ∈ events, SteadyEvent kv e) (hreap : ∀ t, .reaped c t ∉ since g₀ g)
    (hms : completesOf c (since g₀ g) = ms.map Message.encode) :
    ∃ s, g.sessions.find c = some s ∧
      relaysOf c (since g₀ g) = (relayed (GatewayLoop.resolve env kv) ms).map (fun x => (s.targetFd, x.1, x.2)) ∧
      sendsOf c (since g₀ g) = (arrivals env c g₀ events).map replyMessage := by
  have hgood := reachableByCalls_good h.reachable
  have hrun := h.exchange.run
  have hpool : 2 ≤ g₀.pool.length := by
    rw [pool_of_reachable h.reachable]
    exact Nat.le_add_left 2 _
  obtain ⟨s, hs, hp, -⟩ := runEvents_reaches hgood hpool h.created (fun _ => rfl) hsteady hlives hreap
    (log_since (runEvents_log hrun hgood)) hms hrun
  obtain ⟨effects, hlog, -, hrelays, hsends, -⟩ := hp.effects
  rw [← since_eq hlog] at hrelays hsends
  have hpending : InPhase (newSession env.kcp env.clientFd c owner) .pending := ⟨rfl, Int.negSucc_lt_zero 0⟩
  refine ⟨s, hs, ?_, hsends⟩
  rw [hrelays _ hpending, outputs_pending]

/-- What a client sends through the tunnel reaches the target of its route, and
what the target answers reaches the client. -/
theorem client_reaches_target (env : Env Ikcp.Ikcpcb) (kv : Bytes → Option Bytes) (c : UInt32) (owner : Endpoint)
    (g₀ g : Gateway Ikcp.Ikcpcb) (events : List (Event Ikcp.Ikcpcb)) (client : Ikcp.Endpoint) (ms : List Message)
    (h : Talk env c owner g₀ events g client) (hlives : lives env c g₀ events) (hsteady : ∀ e ∈ events, SteadyEvent kv e)
    (hreap : ∀ t, .reaped c t ∉ since g₀ g) (hms : client.sent = ms.map Message.encode) :
    ∃ s ms', g.sessions.find c = some s ∧ ms' <+: ms ∧ (ikcpWaitsnd client.kcp = 0 → ms' = ms) ∧
      relaysOf c (since g₀ g) = (relayed (GatewayLoop.resolve env kv) ms').map (fun x => (s.targetFd, x.1, x.2)) ∧
      client.got ++ receivable client.kcp <+: (arrivals env c g₀ events).map replyMessage ∧
      (ikcpWaitsnd s.kcp.kcp.rest = 0 → client.got ++ receivable client.kcp = (arrivals env c g₀ events).map replyMessage) := by
  obtain ⟨ms', hprefix, hall, hcompletes⟩ := h.exists_handled hms
  obtain ⟨s, hs, hrelays, hsends⟩ := h.reaches hlives hsteady hreap hcompletes
  rw [← hsends]
  exact ⟨s, ms', hs, hprefix, hall, hrelays, h.got_prefix, h.got_eq hs⟩

section Sample

def tunnelOutcome : Outcome Ikcp.Ikcpcb where
  kvGet := steadyOutcome.kvGet
  socket := steadyOutcome.socket
  socket_fresh := steadyOutcome.socket_fresh
  arrange l := ⟨l, .refl l⟩

/-- What a client has put on the wire comes to the gateway. -/
def sentBy (client : Ikcp.Endpoint) : Event Ikcp.Ikcpcb :=
  .tunnel (client.wire.map fun bytes => ⟨⟨1, 1⟩, bytes, tunnelOutcome⟩)

/-- The gateway gets it and a reply. -/
def turnsOf (client : Ikcp.Endpoint) : List (Event Ikcp.Ikcpcb) := [sentBy client, .target 7 [ascii "yo"], .update]

def datagramTo (dst : Endpoint) : Effect → Option Bytes
  | .tunnel _ dst' bytes => if dst' = dst then some bytes else none
  | _ => none

theorem mem_of_datagramTo {dst : Endpoint} {log : List Effect} {bytes : Bytes} (h : bytes ∈ log.filterMap (datagramTo dst)) :
    ∃ fd, .tunnel fd dst bytes ∈ log := by
  obtain ⟨e, he, hsome⟩ := List.mem_filterMap.mp h
  cases e with
  | tunnel fd dst' bytes' =>
      rw [datagramTo] at hsome
      split at hsome
      · next hdst =>
        cases hsome
        exact ⟨fd, hdst ▸ he⟩
      · cases hsome
  | _ => cases hsome

def unreaped : Effect → Bool
  | .reaped _ _ => false
  | _ => true

theorem not_reaped_of_all {log : List Effect} (h : log.all unreaped = true) (t : UInt64) : .reaped c t ∉ log := by
  intro ht
  cases List.all_eq_true.mp h _ ht

theorem steady_turnsOf (client : Ikcp.Endpoint) : ∀ e ∈ turnsOf client, SteadyEvent tunnelOutcome.kvGet e := by
  rw [turnsOf, List.forall_mem_cons]
  refine ⟨fun d hd => ?_, List.forall_mem_cons.mpr ⟨trivial, List.forall_mem_singleton.mpr trivial⟩⟩
  obtain ⟨bytes, -, rfl⟩ := List.mem_map.mp hd
  exact ⟨rfl, fun fds => Int.natCast_nonneg (freshFd fds)⟩

/-- No datagram is longer than a block. -/
theorem arriving_sentBy (htake : ∀ bytes ∈ client.wire, bytes.take blockSize ∈ client.wire) :
    Arriving (fun src pkt => src = ⟨1, 1⟩ → pkt ∈ client.wire ∨ Stray 1000 pkt) (sentBy client) := by
  intro d hd _
  obtain ⟨bytes, hbytes, rfl⟩ := List.mem_map.mp hd
  exact .inl (htake bytes hbytes)

def request : List Message := sampleMessages.take 2

/-- The client has sent its request. -/
def asking : Ikcp.Endpoint :=
  (request.foldl (fun e m => e.call (.send m.encode)) ((Ikcp.Endpoint.create 1000).call (.nodelay 1 10 2 1))).call (.update 0)

def turns : List (Event Ikcp.Ikcpcb) := turnsOf asking

def answering : Gateway Ikcp.Ikcpcb := turns.foldl next registered

/-- What the gateway has sent to the client. -/
def answers : List Bytes := (since registered answering).filterMap (datagramTo ⟨1, 1⟩)

def answered : Ikcp.Endpoint := (answers.foldl Ikcp.Endpoint.input asking).call (.recv 2048)

theorem exchange_asking : Exchange tunnelEnv 1000 ⟨1, 1⟩ registered [] registered asking :=
  (((Exchange.start.call (.nodelay 1 10 2 1) rfl).call (.send _) rfl).call (.send _) rfl).call (.update 0) rfl

theorem exchange_answering : Exchange tunnelEnv 1000 ⟨1, 1⟩ registered turns answering asking := by
  have h₁ := exchange_asking.gateway (sentBy asking) (arriving_sentBy (by decide +kernel)) (step_next (by decide +kernel))
  have h₂ := h₁.gateway (.target 7 [ascii "yo"]) trivial (step_next (by decide +kernel))
  exact h₂.gateway .update trivial (step_next (by decide +kernel))

theorem exchange_inputs {client : Ikcp.Endpoint} (h : Exchange env c owner g₀ events g client) {l : List Bytes}
    (hl : ∀ bytes ∈ l, ∃ fd, .tunnel fd owner bytes ∈ since g₀ g) :
    Exchange env c owner g₀ events g (l.foldl Ikcp.Endpoint.input client) := by
  induction l generalizing client with
  | nil => exact h
  | cons bytes l ih =>
      obtain ⟨hbytes, hl⟩ := List.forall_mem_cons.mp hl
      exact ih (h.input (.inl hbytes)) hl

theorem talk_answered : Talk tunnelEnv 1000 ⟨1, 1⟩ registered turns answering answered where
  kcp := rfl
  reachable := .step .init _ (step_next (by decide +kernel))
  created := rfl
  exchange := (exchange_inputs exchange_answering fun _ => mem_of_datagramTo).call (.recv 2048) rfl
  registrations := by decide +kernel
  clientFew := by decide +kernel
  gatewayFew := by decide +kernel

theorem messages_cross_of_answered :
    completesOf 1000 (since registered answering) = request.map Message.encode ∧
      answered.got ++ receivable answered.kcp <+: sendsOf 1000 (since registered answering) := by
  obtain ⟨-, hgot, hall, -⟩ := messages_cross tunnelEnv 1000 ⟨1, 1⟩ registered answering turns answered talk_answered
  exact ⟨(hall (by decide +kernel)).trans (by decide +kernel), hgot⟩

theorem client_reaches_target_of_answered :
    ∃ s, answering.sessions.find 1000 = some s ∧
      relaysOf 1000 (since registered answering) = [(s.targetFd, ⟨16777343, 9000⟩, ascii "hi")] ∧
      answered.got ++ receivable answered.kcp <+: [replyMessage (ascii "yo")] := by
  obtain ⟨s, ms, hs, -, hms, hrelays, hgot, -⟩ := client_reaches_target tunnelEnv tunnelOutcome.kvGet 1000 ⟨1, 1⟩ registered
    answering turns answered request talk_answered (by decide +kernel) (steady_turnsOf asking)
    (not_reaped_of_all (by decide +kernel)) (by decide +kernel)
  rw [hms (by decide +kernel)] at hrelays
  have harrivals : arrivals tunnelEnv 1000 registered turns = [ascii "yo"] := by decide +kernel
  rw [harrivals] at hgot
  exact ⟨s, hs, hrelays, hgot⟩

end Sample

end GameAccelerator.EndToEnd
