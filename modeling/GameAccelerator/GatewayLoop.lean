import GameAccelerator.LosslessKcp
import GameAccelerator.SessionManager

namespace GameAccelerator.GatewayLoop

open CString Platform Tables NetUtils TunnelProtocol Kcp LosslessKcp SessionManager

variable {ρ : Type}

/-- The name that the route buffer of a CONNECT spells. -/
def routeKey (buf : Bytes) : Bytes := ascii "route:" ++ (cstrAt (readConnectRoute buf (routeMax + 1)) 0).bytes

def resolve (env : Env ρ) (kvGet : Bytes → Option Bytes) (buf : Bytes) : Option Endpoint :=
  match kvGet (routeKey buf) with
  | none => none
  | some node => nodeToAddr env.inetPton node

/-- `true` says that the session is gone for the caller. -/
def handleTunnelMsg (env : Env ρ) (o : Outcome ρ) (c : UInt32) (s : Session ρ) (g : Gateway ρ) (buf : Bytes) :
    Bool × Session ρ × Gateway ρ :=
  match parse buf with
  | none => (false, s, g)
  | some p =>
      if p.type = packetConnect then
        if s.targetFd ≥ 0 then (false, s, g)
        else
          match resolve env o.kvGet buf with
          | none => (true, markDying s g)
          | some addr =>
              let s := { s with targetAddr := addr, lastActive := env.clock g.ticks }
              let r := openTarget o c s g.tick
              (!r.1, r.2)
      else if p.type = packetData then
        if s.targetFd < 0 then (false, s, g)
        else
          let s := { s with lastActive := env.clock g.ticks }
          let payload := (buf.drop (p.data.getD 0)).take p.len.toNat
          (false, s, g.tick.emit [.relay s.conv s.targetFd s.targetAddr payload])
      else if p.type = packetClose then (true, markDying s g)
      else (false, s, g)

/-- The loop that hands the complete messages of a session on, for at most
`fuel` rounds. -/
def drain (env : Env ρ) (o : Outcome ρ) (c : UInt32) :
    Nat → Session ρ → Gateway ρ → Except Fault (Bool × Session ρ × Gateway ρ)
  | 0, _, _ => .error .diverges
  | fuel + 1, s, g =>
      let r := ikcpRecv env.kcp s.kcp.kcp blockSize
      let s := { s with kcp := { s.kcp with kcp := r.2.2 } }
      if r.1 ≤ 0 then .ok (false, s, g)
      else
        let m := handleTunnelMsg env o c s g r.2.1
        if m.1 then .ok m else drain env o c fuel m.2.1 m.2.2

/-- A call of the library on the session's control block; its packets leave
through the output callback. -/
def kcpCall (s : Session ρ) (g : Gateway ρ) (r : Ikcpcb ρ × List Bytes) : Session ρ × Gateway ρ :=
  ({ s with kcp := { s.kcp with kcp := r.1 } }, g.emit (kcpOutput s.kcp r.2))

@[simp] theorem kcpCall_fst (s : Session ρ) (g : Gateway ρ) (r : Ikcpcb ρ × List Bytes) :
    (kcpCall s g r).1 = { s with kcp := { s.kcp with kcp := r.1 } } := rfl

@[simp] theorem kcpCall_snd (s : Session ρ) (g : Gateway ρ) (r : Ikcpcb ρ × List Bytes) :
    (kcpCall s g r).2 = g.emit (kcpOutput s.kcp r.2) := rfl

/-- `ikcp_input`, `ikcp_update` and `ikcp_flush` for a datagram of the owner. -/
def feed (env : Env ρ) (s : Session ρ) (g : Gateway ρ) (pkt : Bytes) : Session ρ × Gateway ρ :=
  let now := env.clock g.ticks
  let s := { s with lastActive := now }
  let g := g.tick.emit (.accepted s.conv now :: (completed env.kcp s.kcp.kcp pkt).map (.complete s.conv))
  let r := kcpCall s g (ikcpInput env.kcp s.kcp.kcp pkt)
  let r := kcpCall r.1 r.2.tick (ikcpUpdate env.kcp r.1.kcp.kcp (env.clock r.2.ticks).toUInt32)
  kcpCall r.1 r.2 (ikcpFlush env.kcp r.1.kcp.kcp)

structure Datagram (ρ : Type) where
  src : Endpoint
  bytes : Bytes
  outcome : Outcome ρ

/-- A datagram of a registered session, in the buffer `block` of the pool;
`false` stops the reading for now. -/
def handleSegment (env : Env ρ) (o : Outcome ρ) (g : Gateway ρ) (block : Nat) (c : UInt32) (s : Session ρ)
    (pkt : Bytes) : Except Fault (Bool × Gateway ρ) :=
  let f := feed env s g pkt
  let g := { f.2 with pool := block :: f.2.pool }
  match g.pool with
  | [] => .ok (false, g.put c f.1)
  | tmsg :: pool =>
      match drain env o c (f.1.kcp.kcp.rcvQueue.length + 1) f.1 { g with pool := pool } with
      | .error e => .error e
      | .ok (gone, s, g) =>
          let g := { g with pool := tmsg :: g.pool }
          if gone then .ok (true, g.put c s)
          else .ok (true, g.tick.put c { s with lastActive := env.clock g.ticks })

/-- One round of the loop of `handle_tunnel_datagram`. -/
def handleDatagram (env : Env ρ) (g : Gateway ρ) (d : Datagram ρ) : Except Fault (Bool × Gateway ρ) :=
  match g.pool with
  | [] => .ok (false, g)
  | block :: pool =>
      let pkt := d.bytes.take blockSize
      if pkt.length = 1 ∧ byteAt pkt 0 = packetRegister then
        match registerClient env d.outcome.arrange { g with pool := pool } d.src with
        | .error e => .error e
        | .ok g => .ok (true, { g with pool := block :: g.pool })
      else if pkt.length < 24 then .ok (true, g)
      else
        match lookup g d.src pkt with
        | none => .ok (true, g)
        | some (c, s) =>
            if s.dying then .ok (true, g) else handleSegment env d.outcome { g with pool := pool } block c s pkt

/-- The datagrams that `recvfrom` yields before it fails. -/
def handleTunnelDatagram (env : Env ρ) : Gateway ρ → List (Datagram ρ) → Except Fault (Gateway ρ)
  | g, [] => .ok g
  | g, d :: ds =>
      match handleDatagram env g d with
      | .error e => .error e
      | .ok (false, g) => .ok g
      | .ok (true, g) => handleTunnelDatagram env g ds

def maxReply : Nat := blockSize - dataHeadLen

/-- One reply of the game server, with two blocks of the pool at hand. -/
def forward (env : Env ρ) (s : Session ρ) (g : Gateway ρ) (reply : Bytes) : Session ρ × Gateway ρ :=
  let now := env.clock g.ticks
  let s := { s with lastActive := now }
  let g := g.tick.emit [.replied s.conv now]
  let msg := packData reply (.ofNat reply.length)
  let r := kcpCall s g.tick (ikcpUpdate env.kcp s.kcp.kcp (env.clock g.ticks).toUInt32)
  let s := { r.1 with kcp := { r.1.kcp with kcp := ikcpSend env.kcp r.1.kcp.kcp msg } }
  kcpCall s (r.2.emit [.ikcpSend s.conv msg]) (ikcpFlush env.kcp s.kcp.kcp)

def forwardAll (env : Env ρ) : Session ρ → Gateway ρ → List Bytes → Session ρ × Gateway ρ
  | s, g, [] => (s, g)
  | s, g, reply :: replies =>
      match g.pool with
      | [] => (s, g)
      | [_] => ({ s with lastActive := env.clock g.ticks }, g.tick.emit [.replied s.conv (env.clock g.ticks)])
      | _ :: _ :: _ =>
          let r := forward env s g (reply.take maxReply)
          forwardAll env r.1 r.2 replies

def handleTargetReply (env : Env ρ) (g : Gateway ρ) (c : UInt32) (replies : List Bytes) :
    Except Fault (Gateway ρ) :=
  match g.sessions.find c with
  | none => .error .useAfterFree
  | some s =>
      if s.dying then .ok g
      else
        let r := forwardAll env s g replies
        .ok (r.2.put c r.1)

def updateActive (env : Env ρ) (g : Gateway ρ) : Gateway ρ :=
  let cur := (env.clock g.ticks).toUInt32
  let outputs := g.sessions.entries.flatMap fun e =>
    if e.2.dying then [] else kcpOutput e.2.kcp (ikcpUpdate env.kcp e.2.kcp.kcp cur).2
  let update (s : Session ρ) : Session ρ :=
    if s.dying then s else { s with kcp := { s.kcp with kcp := (ikcpUpdate env.kcp s.kcp.kcp cur).1 } }
  { g.tick.emit outputs with sessions := g.sessions.mapVals update }

/-- The calls that the event loop makes, in any order. -/
inductive Event (ρ : Type)
  | register (src : Endpoint) (arrange : Arrangement UInt32 (Session ρ))
  | tunnel (datagrams : List (Datagram ρ))
  | target (fd : Int) (replies : List Bytes)
  | update
  | sweep
  | flush

def step (env : Env ρ) (g : Gateway ρ) : Event ρ → Except Fault (Gateway ρ)
  | .register src arrange => registerClient env arrange g src
  | .tunnel datagrams => handleTunnelDatagram env g datagrams
  | .target fd replies =>
      match g.fdToSession fd with
      | none => .ok g
      | some c => handleTargetReply env g c replies
  | .update => .ok (updateActive env g)
  | .sweep => .ok (sweepIdle env (env.clock g.ticks) g.tick)
  | .flush => .ok (flushTeardown g)

def runEvents (env : Env ρ) : Gateway ρ → List (Event ρ) → Except Fault (Gateway ρ)
  | g, [] => .ok g
  | g, e :: es =>
      match step env g e with
      | .error f => .error f
      | .ok g => runEvents env g es

theorem runEvents_singleton (env : Env ρ) (g : Gateway ρ) (e : Event ρ) : runEvents env g [e] = step env g e := by
  rw [runEvents]
  cases step env g e <;> rfl

theorem runEvents_append {env : Env ρ} {g g₁ : Gateway ρ} {l₁ : List (Event ρ)} (h : runEvents env g l₁ = .ok g₁)
    (l₂ : List (Event ρ)) : runEvents env g (l₁ ++ l₂) = runEvents env g₁ l₂ := by
  induction l₁ generalizing g with
  | nil =>
      cases h
      rfl
  | cons e l₁ ih =>
      rw [List.cons_append, runEvents]
      rw [runEvents] at h
      split at h
      next => cases h
      next g₂ h₂ => exact ih h

theorem runEvents_append_error {env : Env ρ} {g : Gateway ρ} {f : Fault} {l₁ : List (Event ρ)}
    (h : runEvents env g l₁ = .error f) (l₂ : List (Event ρ)) : runEvents env g (l₁ ++ l₂) = .error f := by
  induction l₁ generalizing g with
  | nil => cases h
  | cons e l₁ ih =>
      rw [List.cons_append, runEvents]
      rw [runEvents] at h
      split at h
      next => exact h
      next g₂ h₂ => exact ih h

section Loops

variable {env : Env ρ} {g g' : Gateway ρ}

/-- The loops over messages, datagrams and replies keep what each round keeps. -/
theorem drain_keep {P : Gateway ρ → Prop} {o : Outcome ρ} {c : UInt32}
    (hmsg : ∀ s g buf, P g → P (handleTunnelMsg env o c s g buf).2.2) {fuel : Nat} {s : Session ρ}
    {r : Bool × Session ρ × Gateway ρ} (h : drain env o c fuel s g = .ok r) (hp : P g) : P r.2.2 := by
  induction fuel generalizing s g with
  | zero => cases h
  | succ fuel ih =>
      simp only [drain] at h
      split_ifs at h
      · cases h
        exact hp
      · cases h
        exact hmsg _ g _ hp
      · exact ih h (hmsg _ g _ hp)

theorem handleTunnelDatagram_rounds {P : Gateway ρ → Prop}
    (hround : ∀ {g d more g'}, handleDatagram env g d = .ok (more, g') → P g → P g') {ds : List (Datagram ρ)}
    (h : handleTunnelDatagram env g ds = .ok g') (hp : P g) : P g' := by
  induction ds generalizing g with
  | nil =>
      cases h
      exact hp
  | cons d ds ih =>
      rw [handleTunnelDatagram] at h
      split at h
      next => cases h
      next g₁ h₁ =>
        cases h
        exact hround h₁ hp
      next g₁ h₁ => exact ih h (hround h₁ hp)

theorem forwardAll_keep {P : Session ρ → Gateway ρ → Prop}
    (hforward : ∀ {s g}, P s g → ∀ reply, P (forward env s g reply).1 (forward env s g reply).2)
    (hread : ∀ {s g}, P s g → P { s with lastActive := env.clock g.ticks }
      (g.tick.emit [.replied s.conv (env.clock g.ticks)]))
    {s : Session ρ} (hp : P s g) (replies : List Bytes) :
    P (forwardAll env s g replies).1 (forwardAll env s g replies).2 := by
  induction replies generalizing s g with
  | nil => exact hp
  | cons reply replies ih =>
      simp only [forwardAll]
      split
      next => exact hp
      next => exact hread hp
      next => exact ih (hforward hp _)

end Loops

section Sample

def sampleEnv (clock : Nat → UInt64) : Env Link where
  kcp := lossless
  clientFd := 3
  openFds := [0, 1, 2, 3]
  clientOpen := by decide
  idleMs := 30000
  clock := clock
  inetPton _ := some 16777343

def sampleOutcome : Outcome ρ where
  kvGet _ := some (ascii "127.0.0.1:9000")
  socket fds := if 4 ∈ fds then -1 else 4
  socket_fresh fds := by
    split_ifs with h
    · exact nofun
    · exact fun _ => h
  arrange l := ⟨l, .refl l⟩

/-- The segment `sn` of the session `conv`, with `frg` more to follow. -/
def sampleDatagram (src : Endpoint) (conv : UInt32) (sn : UInt32) (frg : UInt8) (data : Bytes) : Datagram Link :=
  ⟨src, encodeSeg conv cmdPush frg 128 0 sn 0 data, sampleOutcome⟩

end Sample

end GameAccelerator.GatewayLoop
