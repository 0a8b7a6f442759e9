import GameAccelerator.EndToEnd

namespace GameAccelerator.ClientSession

open CString Platform NetUtils TunnelProtocol TunnelMessages Kcp SessionManager GatewayLoop SessionInvariant Switchboard
  KcpGateway Relay RelaySteps RelayFidelity GatewayLedger Conversation EndToEnd
open Ikcp (library receivable ikcpWaitsnd)

section Client

/-- The control block at the end of `connect`, for the conv that the gateway has
given out. -/
def connect (conv : UInt32) : Ikcp.Endpoint := (Ikcp.Endpoint.create conv).call (.nodelay 1 10 2 1)

def kcpPump (e : Ikcp.Endpoint) (now : UInt32) : Ikcp.Endpoint := (e.call (.update now)).call .flush

def sendTun (e : Ikcp.Endpoint) (now : UInt32) (pkt : Bytes) : Ikcp.Endpoint :=
  ((e.call (.update now)).call (.send pkt)).call .flush

def openRoute (e : Ikcp.Endpoint) (now : UInt32) (route : CStr) : Bool × Ikcp.Endpoint :=
  if route.bytes.length > routeMax then (false, e)
  else (true, sendTun e now (packConnect route.bytes (.ofNat route.bytes.length)))

def sendData (e : Ikcp.Endpoint) (now : UInt32) (text : Bytes) (len : UInt16) : Ikcp.Endpoint :=
  sendTun e now (packData text len)

/-- There are 100 ms between the two readings of the clock. -/
def sendClose (e : Ikcp.Endpoint) (now later : UInt32) : Ikcp.Endpoint := kcpPump (sendTun e now packClose) later

/-- The first half of a round of `wait_reply`, up to the look at the clock. -/
def listen (e : Ikcp.Endpoint) (now : UInt32) : Option Bytes × Ikcp.Endpoint :=
  let e := kcpPump e now
  let got := Ikcp.ikcpRecv e.kcp 65535
  (if 0 < got.1 then some got.2.1 else none, e.call (.recv 65535))

/-- The second half, when `recvfrom` has returned a datagram. -/
def hear (e : Ikcp.Endpoint) (bytes : Bytes) (now : UInt32) : Ikcp.Endpoint := kcpPump (e.input bytes) now

/-- What a round of `wait_reply` reads off the clock, whether its time is over
then, and what comes before the end of `select`. -/
structure Round where
  now : UInt32
  expired : Bool
  datagram : Option Bytes
  later : UInt32

/-- `waiting` is a call that has not returned yet. -/
inductive Wait
  | waiting
  | expired
  | reply (out : Bytes)

def waitReply : List Round → Ikcp.Endpoint → Wait × Ikcp.Endpoint
  | [], e => (.waiting, e)
  | r :: rounds, e =>
      match listen e r.now with
      | (some out, e) => (.reply out, e)
      | (none, e) =>
          if r.expired then (.expired, e)
          else
            match r.datagram with
            | none => waitReply rounds e
            | some bytes => waitReply rounds (hear e bytes r.later)

def Wait.replies : Wait → List Bytes
  | .reply out => [out]
  | _ => []

variable {c : UInt32} {kcp : Ikcp.Ikcpcb} {e : Ikcp.Endpoint}

theorem past_connect (c : UInt32) : Past c (connect c).kcp (connect c) :=
  (past_create c).call (.nodelay 1 10 2 1) ⟨rfl, trivial, trivial⟩

theorem past_kcpPump (h : Past c e.kcp e) (now : UInt32) : Past c (kcpPump e now).kcp (kcpPump e now) :=
  (h.call (.update now) ⟨rfl, trivial, trivial⟩).call .flush ⟨rfl, trivial, trivial⟩

theorem past_sendTun (h : Past c e.kcp e) (now : UInt32) (pkt : Bytes) : Past c (sendTun e now pkt).kcp (sendTun e now pkt) :=
  ((h.call (.update now) ⟨rfl, trivial, trivial⟩).call (.send pkt) ⟨rfl, trivial, trivial⟩).call .flush ⟨rfl, trivial, trivial⟩

theorem past_listen (h : Past c e.kcp e) (now : UInt32) : Past c (listen e now).2.kcp (listen e now).2 :=
  (past_kcpPump h now).call (.recv 65535) ⟨rfl, trivial, trivial⟩

theorem past_hear (h : Past c e.kcp e) (bytes : Bytes) (now : UInt32) : Past c (hear e bytes now).kcp (hear e bytes now) :=
  past_kcpPump (h.input bytes) now

/-- A message that is not too long is not refused. -/
theorem sent_sendTun (h : Past c e.kcp e) (now : UInt32) {pkt : Bytes} (hpkt : pkt.length ≤ blockSize) :
    (sendTun e now pkt).sent = e.sent ++ [pkt] := by
  have hpast := h.call (.update now) ⟨rfl, trivial, trivial⟩
  exact if_neg (Int.not_lt.mpr (hpast.send_nonneg hpkt))

/-- What is taken and not returned is empty. -/
theorem got_listen (e : Ikcp.Endpoint) (now : UInt32) :
    (listen e now).2.got.filter (fun m => m ≠ []) = e.got.filter (fun m => m ≠ []) ++ (listen e now).1.toList := by
  have hgot : (listen e now).2.got = e.got ++ Ikcp.Endpoint.recvGot (kcpPump e now).kcp 65535 := rfl
  rw [hgot, List.filter_append, listen, Ikcp.Endpoint.recvGot]
  rcases Ikcp.ikcpRecv_cases (kcpPump e now).kcp 65535 with ⟨hneg, -⟩ | ⟨-, -, _, _, -, heq⟩
  · have hnot : ¬0 < (Ikcp.ikcpRecv (kcpPump e now).kcp 65535).1 := by omega
    rw [if_pos (.inl hneg), if_neg hnot]
    rfl
  · rw [heq, if_neg (by omega)]
    cases hmsg : Ikcp.merged (Ikcp.takeMessage (kcpPump e now).kcp.rcvQueue).1 with
    | nil => rfl
    | cons b msg =>
        have hpos : (0 : Int) < ((b :: msg).length : Int) := Int.natCast_pos.mpr (Nat.succ_pos msg.length)
        dsimp only
        rw [if_pos hpos]
        rfl

end Client

section Session

/-- A client of the gateway, from its registration on: `ms` is what its calls
have sent, and `rs` are the replies that `wait_reply` has returned. In between
the gateway does its work, and datagrams may be lost, repeated, delayed and
reordered. -/
inductive Session (env : Env Ikcp.Ikcpcb) (c : UInt32) (owner : Endpoint) (g₀ : Gateway Ikcp.Ikcpcb) :
    List (Event Ikcp.Ikcpcb) → Gateway Ikcp.Ikcpcb → Ikcp.Endpoint → List Message → List Bytes → Prop
  | connect : Session env c owner g₀ [] g₀ (connect c) [] []
  | gateway {events : List (Event Ikcp.Ikcpcb)} {g g' : Gateway Ikcp.Ikcpcb} {client : Ikcp.Endpoint} {ms : List Message}
      {rs : List Bytes} (h : Session env c owner g₀ events g client ms rs) (e : Event Ikcp.Ikcpcb)
      (harrive : Arriving (fun src pkt => src = owner → pkt ∈ client.wire ∨ Stray c pkt) e) (hstep : step env g e = .ok g') :
      Session env c owner g₀ (events ++ [e]) g' client ms rs
  | openRoute {events : List (Event Ikcp.Ikcpcb)} {g : Gateway Ikcp.Ikcpcb} {client : Ikcp.Endpoint} {ms : List Message}
      {rs : List Bytes} (h : Session env c owner g₀ events g client ms rs) (now : UInt32) (route : CStr)
      (hr : route.bytes.length ≤ routeMax) :
      Session env c owner g₀ events g (openRoute client now route).2 (ms ++ [.connect route.bytes hr]) rs
  | sendData {events : List (Event Ikcp.Ikcpcb)} {g : Gateway Ikcp.Ikcpcb} {client : Ikcp.Endpoint} {ms : List Message}
      {rs : List Bytes} (h : Session env c owner g₀ events g client ms rs) (now : UInt32) (text : Bytes)
      (ht : text.length ≤ maxReply) :
      Session env c owner g₀ events g (sendData client now text (.ofNat text.length)) (ms ++ [.data text ht]) rs
  | sendClose {events : List (Event Ikcp.Ikcpcb)} {g : Gateway Ikcp.Ikcpcb} {client : Ikcp.Endpoint} {ms : List Message}
      {rs : List Bytes} (h : Session env c owner g₀ events g client ms rs) (now later : UInt32) :
      Session env c owner g₀ events g (sendClose client now later) (ms ++ [.close]) rs
  | listen {events : List (Event Ikcp.Ikcpcb)} {g : Gateway Ikcp.Ikcpcb} {client : Ikcp.Endpoint} {ms : List Message}
      {rs : List Bytes} (h : Session env c owner g₀ events g client ms rs) (now : UInt32) :
      Session env c owner g₀ events g (listen client now).2 ms (rs ++ (listen client now).1.toList)
  | hear {events : List (Event Ikcp.Ikcpcb)} {g : Gateway Ikcp.Ikcpcb} {client : Ikcp.Endpoint} {ms : List Message}
      {rs : List Bytes} (h : Session env c owner g₀ events g client ms rs) {bytes : Bytes} (now : UInt32)
      (harrive : (∃ fd, .tunnel fd owner bytes ∈ since g₀ g) ∨ Stray c bytes) :
      Session env c owner g₀ events g (hear client bytes now) ms rs

variable {env : Env Ikcp.Ikcpcb} {c : UInt32} {owner : Endpoint} {g₀ g : Gateway Ikcp.Ikcpcb} {client : Ikcp.Endpoint}
  {events : List (Event Ikcp.Ikcpcb)} {ms : List Message} {rs : List Bytes}

theorem exchange_sendTun (h : Exchange env c owner g₀ events g client) (now : UInt32) (pkt : Bytes) :
    Exchange env c owner g₀ events g (sendTun client now pkt) :=
  ((h.call (.update now) rfl).call (.send pkt) rfl).call .flush rfl

theorem exchange_kcpPump (h : Exchange env c owner g₀ events g client) (now : UInt32) :
    Exchange env c owner g₀ events g (kcpPump client now) :=
  (h.call (.update now) rfl).call .flush rfl

theorem openRoute_eq {route : CStr} (hr : route.bytes.length ≤ routeMax) (now : UInt32) :
    (openRoute client now route).2 = sendTun client now (Message.connect route.bytes hr).encode := by
  rw [openRoute, if_neg (Nat.not_lt.mpr hr)]
  rfl

theorem Session.exchange (h : Session env c owner g₀ events g client ms rs) : Exchange env c owner g₀ events g client := by
  induction h with
  | connect => exact Exchange.start.call (.nodelay 1 10 2 1) rfl
  | gateway _ e harrive hstep ih => exact ih.gateway e harrive hstep
  | openRoute _ now route hr ih =>
      rw [openRoute_eq hr]
      exact exchange_sendTun ih now _
  | sendData _ now text ht ih => exact exchange_sendTun ih now _
  | sendClose _ now later ih => exact exchange_kcpPump (exchange_sendTun ih now _) later
  | listen _ now ih => exact (exchange_kcpPump ih now).call (.recv 65535) rfl
  | hear _ now harrive ih => exact exchange_kcpPump (ih.input harrive) now

/-- What the calls have done to the client's end. -/
structure Served (c : UInt32) (client : Ikcp.Endpoint) (ms : List Message) (rs : List Bytes) : Prop where
  past : Past c client.kcp client
  sent : client.sent = ms.map Message.encode
  got : client.got.filter (fun m => m ≠ []) = rs

theorem Served.sendTun (h : Served c client ms rs) (now : UInt32) (m : Message) :
    Served c (sendTun client now m.encode) (ms ++ [m]) rs := by
  refine ⟨past_sendTun h.past now _, ?_, h.got⟩
  rw [sent_sendTun h.past now (encode_le m), h.sent, List.map_append]
  rfl

theorem Session.served (h : Session env c owner g₀ events g client ms rs) : Served c client ms rs := by
  induction h with
  | connect => exact ⟨past_connect c, rfl, rfl⟩
  | gateway _ _ _ _ ih => exact ih
  | openRoute _ now route hr ih =>
      rw [openRoute_eq hr]
      exact ih.sendTun now _
  | sendData _ now text ht ih => exact ih.sendTun now (.data text ht)
  | sendClose _ now later ih =>
      have hclose := ih.sendTun now .close
      exact ⟨past_kcpPump hclose.past later, hclose.sent, hclose.got⟩
  | listen _ now ih => exact ⟨past_listen ih.past now, ih.sent, (got_listen _ now).trans (by rw [ih.got])⟩
  | hear _ now _ ih => exact ⟨past_hear ih.past _ now, ih.sent, ih.got⟩

/-- A whole call of `wait_reply`, while the gateway does nothing. -/
theorem Session.waitReply (h : Session env c owner g₀ events g client ms rs) {rounds : List Round}
    (harrive : ∀ r ∈ rounds, ∀ bytes ∈ r.datagram, ∃ fd, .tunnel fd owner bytes ∈ since g₀ g) :
    Session env c owner g₀ events g (waitReply rounds client).2 ms (rs ++ (waitReply rounds client).1.replies) := by
  induction rounds generalizing client rs with
  | nil =>
      change Session env c owner g₀ events g client ms (rs ++ [])
      rwa [List.append_nil]
  | cons r rounds ih =>
      obtain ⟨hr, hrounds⟩ := List.forall_mem_cons.mp harrive
      have hlisten := h.listen r.now
      rw [ClientSession.waitReply]
      cases hl : ClientSession.listen client r.now with
      | mk out e =>
          rw [hl] at hlisten
          cases out with
          | some out => exact hlisten
          | none =>
              rw [Option.toList_none, List.append_nil] at hlisten
              cases hexpired : r.expired with
              | true =>
                  dsimp only
                  rw [if_pos rfl, Wait.replies, List.append_nil]
                  · exact hlisten
                  · intro out hout
                    cases hout
              | false =>
                  dsimp only
                  rw [if_neg Bool.false_ne_true]
                  cases hd : r.datagram with
                  | none => exact ih hlisten hrounds
                  | some bytes => exact ih (hlisten.hear r.later (.inl (hr bytes hd))) hrounds

/-- No message of a client's calls is refused, what they send reaches the target
of its route, and `wait_reply` returns what the target answers, in the order of
the answers and each of them once. -/
theorem session_reaches_target (env : Env Ikcp.Ikcpcb) (kv : Bytes → Option Bytes) (c : UInt32) (owner : Endpoint)
    (g₀ g : Gateway Ikcp.Ikcpcb) (events : List (Event Ikcp.Ikcpcb)) (client : Ikcp.Endpoint) (ms : List Message)
    (rs : List Bytes) (hK : env.kcp = library) (hreach : ReachableByCalls env g₀)
    (hnew : g₀.sessions.find c = some (newSession env.kcp env.clientFd c owner))
    (h : Session env c owner g₀ events g client ms rs) (hregs : (registrations g.log).length < UInt32.size)
    (hfew : ms.length < 16777216) (hsends : (sendsOf c (since g₀ g)).length < 16777216) (hlives : lives env c g₀ events)
    (hsteady : ∀ e ∈ events, SteadyEvent kv e) (hreap : ∀ t, .reaped c t ∉ since g₀ g) :
    client.sent = ms.map Message.encode ∧ ∃ s ms', g.sessions.find c = some s ∧ ms' <+: ms ∧
      (ikcpWaitsnd client.kcp = 0 → ms' = ms) ∧
      relaysOf c (since g₀ g) = (relayed (GatewayLoop.resolve env kv) ms').map (fun x => (s.targetFd, x.1, x.2)) ∧
      rs <+: (arrivals env c g₀ events).map replyMessage := by
  obtain ⟨-, hsent, hgot⟩ := h.served
  have hclient : client.sent.length < 16777216 := by
    rw [hsent, List.length_map]
    exact hfew
  have htalk : Talk env c owner g₀ events g client := ⟨hK, hreach, hnew, h.exchange, hregs, hclient, hsends⟩
  obtain ⟨ms', hprefix, hall, hcompletes⟩ := htalk.exists_handled hsent
  obtain ⟨s, hs, hrelays, hanswers⟩ := htalk.reaches hlives hsteady hreap hcompletes
  have hprefix' : client.got <+: (arrivals env c g₀ events).map replyMessage := by
    rw [← hanswers]
    exact (List.prefix_append _ _).trans htalk.got_prefix
  -- No answer is empty, so `wait_reply` has returned everything it has taken.
  have hwhole : client.got.filter (fun m => m ≠ []) = client.got := by
    apply List.filter_eq_self.mpr
    intro m hm
    obtain ⟨reply, -, rfl⟩ := List.mem_map.mp (hprefix'.subset hm)
    rfl
  rw [← hgot, hwhole]
  exact ⟨hsent, s, ms', hs, hprefix, hall, hrelays, hprefix'⟩

end Session

section Sample

theorem lobby_noNul : (0 : UInt8) ∉ ascii "lobby" := by decide

theorem hi_le : (ascii "hi").length ≤ maxReply := by decide

def lobby : CStr := ⟨ascii "lobby", lobby_noNul⟩

theorem lobby_le : lobby.bytes.length ≤ routeMax := by decide

def talk : List Message := [.connect lobby.bytes lobby_le, .data (ascii "hi") hi_le]

/-- The client has asked for a route and sent a text. -/
def talking : Ikcp.Endpoint := sendData (openRoute (connect 1000) 0 lobby).2 0 (ascii "hi") 2

def talkTurns : List (Event Ikcp.Ikcpcb) := turnsOf talking

def replying : Gateway Ikcp.Ikcpcb := talkTurns.foldl next registered

/-- A round for every datagram, and one more to return. -/
def talkRounds : List Round :=
  ((since registered replying).filterMap (datagramTo ⟨1, 1⟩)).map (fun bytes => ⟨10, false, some bytes, 20⟩) ++
    [⟨30, false, none, 30⟩]

def replied : Ikcp.Endpoint := (waitReply talkRounds talking).2

theorem session_talking : Session tunnelEnv 1000 ⟨1, 1⟩ registered [] registered talking talk [] :=
  (Session.connect.openRoute 0 lobby lobby_le).sendData 0 (ascii "hi") hi_le

theorem session_replying : Session tunnelEnv 1000 ⟨1, 1⟩ registered talkTurns replying talking talk [] := by
  have h₁ := session_talking.gateway (sentBy talking) (arriving_sentBy (by decide +kernel)) (step_next (by decide +kernel))
  have h₂ := h₁.gateway (.target 7 [ascii "yo"]) trivial (step_next (by decide +kernel))
  exact h₂.gateway .update trivial (step_next (by decide +kernel))

theorem session_replied :
    Session tunnelEnv 1000 ⟨1, 1⟩ registered talkTurns replying replied talk [replyMessage (ascii "yo")] := by
  have harrive : ∀ r ∈ talkRounds, ∀ bytes ∈ r.datagram, ∃ fd, .tunnel fd ⟨1, 1⟩ bytes ∈ since registered replying := by
    intro r hr bytes hbytes
    rcases List.mem_append.mp hr with hr | hr
    · obtain ⟨bytes', hmem, rfl⟩ := List.mem_map.mp hr
      cases hbytes
      exact mem_of_datagramTo hmem
    · cases List.mem_singleton.mp hr
      cases hbytes
  have hreplies : (waitReply talkRounds talking).1.replies = [replyMessage (ascii "yo")] := by decide +kernel
  have h := session_replying.waitReply harrive
  rwa [hreplies] at h

theorem session_reaches_target_of_talk :
    replied.sent = talk.map Message.encode ∧ ∃ s, replying.sessions.find 1000 = some s ∧
      relaysOf 1000 (since registered replying) = [(s.targetFd, ⟨16777343, 9000⟩, ascii "hi")] ∧
      [replyMessage (ascii "yo")] <+: (arrivals tunnelEnv 1000 registered talkTurns).map replyMessage := by
  have hreach : ReachableByCalls tunnelEnv registered := .step .init _ (step_next (by decide +kernel))
  obtain ⟨hsent, s, ms, hs, -, hms, hrelays, hreplies⟩ := session_reaches_target tunnelEnv tunnelOutcome.kvGet 1000 ⟨1, 1⟩ registered
    replying talkTurns replied talk [replyMessage (ascii "yo")] rfl hreach rfl session_replied (by decide +kernel) (by decide)
    (by decide +kernel) (by decide +kernel) (steady_turnsOf talking) (not_reaped_of_all (by decide +kernel))
  rw [hms (by decide +kernel)] at hrelays
  exact ⟨hsent, s, hs, hrelays, hreplies⟩

end Sample

end GameAccelerator.ClientSession
