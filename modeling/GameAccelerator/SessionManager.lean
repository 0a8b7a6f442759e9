import GameAccelerator.Kcp
import GameAccelerator.NetUtils
import GameAccelerator.Platform
import GameAccelerator.Tables
import GameAccelerator.TunnelProtocol
import GameAccelerator.WhileLoop

namespace GameAccelerator.SessionManager

open CString Platform Tables NetUtils TunnelProtocol Kcp WhileLoop

variable {ρ : Type}

structure KcpSession (ρ : Type) where
  kcp : Ikcpcb ρ
  peer : Endpoint
  clientFd : Int

structure Session (ρ : Type) where
  conv : UInt32
  kcp : KcpSession ρ
  clientAddr : Endpoint
  targetAddr : Endpoint
  targetFd : Int
  dying : Bool
  lastActive : UInt64

/-- What an observer sees. Beside the calls to the system there are marks of
what has just happened to a session: a message that KCP has completed, its
creation, traffic and reaping with the time on the clock. -/
inductive Effect
  | tunnel (fd : Int) (dst : Endpoint) (bytes : Bytes)
  | relay (conv : UInt32) (fd : Int) (dst : Endpoint) (bytes : Bytes)
  | ikcpSend (conv : UInt32) (msg : Bytes)
  | complete (conv : UInt32) (msg : Bytes)
  | created (conv : UInt32) (owner : Endpoint) (time : UInt64)
  | accepted (conv : UInt32) (time : UInt64)
  | replied (conv : UInt32) (time : UInt64)
  | reaped (conv : UInt32) (time : UInt64)
  | epollAdd (fd : Int)
  | epollDel (fd : Int)
  | close (fd : Int)
  | timer (periodMs : Nat)

/-- What does not change while the gateway runs. `clock` lists the readings of
`now_ms`, one for each call. -/
structure Env (ρ : Type) where
  kcp : Library ρ
  clientFd : Int
  openFds : List Int
  clientOpen : clientFd ∈ openFds
  idleMs : UInt64
  clock : Nat → UInt64
  inetPton : CStr → Option UInt32

/-- How the world answers while one datagram is handled. A descriptor that
`socket` returns is not in use. -/
structure Outcome (ρ : Type) where
  kvGet : Bytes → Option Bytes
  socket : List Int → Int
  socket_fresh : ∀ fds, 0 ≤ socket fds → socket fds ∉ fds
  arrange : Arrangement UInt32 (Session ρ)

/-- The state of `Gateway` and `SessionManager`, with the descriptors that are
open, the number of clock readings and the effects so far. A `Session *` is
the key of the entry of `sessions` that it points to. -/
structure Gateway (ρ : Type) where
  sessions : Table UInt32 (Session ρ)
  fdToSession : Int → Option UInt32
  toErase : List UInt32
  nextConv : UInt32
  lastIdleSweep : UInt64
  pool : List Nat
  openFds : List Int
  ticks : Nat
  log : List Effect

def blockSize : Nat := 2048

def poolCap : Nat := 4096

/-- The free list of a new pool, which is filled from the first block on. -/
def freshPool : Nat → List Nat
  | 0 => []
  | n + 1 => n :: freshPool n

def Gateway.init (env : Env ρ) : Gateway ρ :=
  ⟨.empty, fun _ => none, [], 1000, 0, freshPool poolCap, env.openFds, 0, []⟩

def Gateway.emit (g : Gateway ρ) (effects : List Effect) : Gateway ρ := { g with log := g.log ++ effects }

def Gateway.tick (g : Gateway ρ) : Gateway ρ := { g with ticks := g.ticks + 1 }

def Gateway.put (g : Gateway ρ) (c : UInt32) (s : Session ρ) : Gateway ρ :=
  { g with sessions := g.sessions.modify c fun _ => s }

section Fields

variable (g : Gateway ρ) (effects : List Effect)

@[simp] theorem emit_sessions : (g.emit effects).sessions = g.sessions := rfl

@[simp] theorem emit_openFds : (g.emit effects).openFds = g.openFds := rfl

@[simp] theorem emit_pool : (g.emit effects).pool = g.pool := rfl

@[simp] theorem emit_log : (g.emit effects).log = g.log ++ effects := rfl

@[simp] theorem tick_sessions : g.tick.sessions = g.sessions := rfl

@[simp] theorem tick_openFds : g.tick.openFds = g.openFds := rfl

@[simp] theorem tick_pool : g.tick.pool = g.pool := rfl

@[simp] theorem tick_log : g.tick.log = g.log := rfl

end Fields

def kcpOutput (ks : KcpSession ρ) (packets : List Bytes) : List Effect :=
  packets.map (.tunnel ks.clientFd ks.peer)

def kcpSessionInit (K : Library ρ) (conv : UInt32) (peer : Endpoint) (clientFd : Int) : KcpSession ρ :=
  ⟨ikcpCreate K conv, peer, clientFd⟩

def newSession (K : Library ρ) (clientFd : Int) (conv : UInt32) (src : Endpoint) : Session ρ :=
  ⟨conv, kcpSessionInit K conv src clientFd, src, ⟨0, 0⟩, -1, false, 0⟩

def kcpTickMs : Nat := 5

def syncTimer (g : Gateway ρ) : Gateway ρ :=
  g.emit [.timer (if g.sessions.entries.isEmpty then 0 else kcpTickMs)]

/-- `none` if every conv is taken. -/
def allocConv (g : Gateway ρ) : Option (UInt32 × Gateway ρ) :=
  (whileLoop (fun c => (g.sessions.find c).isSome) (· + 1) (g.sessions.entries.length + 1) g.nextConv).map
    fun c => (c, { g with nextConv := c + 1 })

def pendingOf (g : Gateway ρ) (src : Endpoint) : Option (Session ρ) :=
  (g.sessions.entries.find? fun e => !(e.2.dying || e.2.targetFd ≥ 0) && sameAddr e.2.clientAddr src).map Prod.snd

def registerClient (env : Env ρ) (arrange : Arrangement UInt32 (Session ρ)) (g : Gateway ρ) (src : Endpoint) :
    Except Fault (Gateway ρ) :=
  match pendingOf g src with
  | some o => .ok (g.emit [.tunnel env.clientFd src (packRegistered o.conv)])
  | none =>
      match allocConv g with
      | none => .error .diverges
      | some (conv, g) =>
          let s := newSession env.kcp env.clientFd conv src
          let g := { g with sessions := g.sessions.emplace arrange conv s }
          let g := (g.emit [.created conv src (env.clock g.ticks)]).tick
          let g := syncTimer g
          .ok (g.emit [.tunnel env.clientFd src (packRegistered conv)])

def lookup (g : Gateway ρ) (src : Endpoint) (pkt : Bytes) : Option (UInt32 × Session ρ) :=
  let conv := ikcpGetconv pkt
  match g.sessions.find conv with
  | none => none
  | some s => if sameAddr s.clientAddr src then some (conv, s) else none

def emplaceFd (m : Int → Option UInt32) (fd : Int) (c : UInt32) : Int → Option UInt32 :=
  if (m fd).isSome then m else Function.update m fd (some c)

/-- `c` is the entry that `s` was taken from. -/
def openTarget (o : Outcome ρ) (c : UInt32) (s : Session ρ) (g : Gateway ρ) : Bool × Session ρ × Gateway ρ :=
  let fd := o.socket g.openFds
  let s := { s with targetFd := fd }
  if fd < 0 then (false, s, g)
  else
    let g := { g with openFds := fd :: g.openFds }
    let g := g.emit [.epollAdd fd]
    (true, s, { g with fdToSession := emplaceFd g.fdToSession fd c })

def markDying (s : Session ρ) (g : Gateway ρ) : Session ρ × Gateway ρ :=
  ({ s with dying := true }, { g with toErase := g.toErase ++ [s.conv] })

def teardown (g : Gateway ρ) (conv : UInt32) : Gateway ρ :=
  match g.sessions.find conv with
  | none => g
  | some s =>
      let g := if s.targetFd ≥ 0 then
          let g := g.emit [.epollDel s.targetFd]
          let g := { g with fdToSession := Function.update g.fdToSession s.targetFd none }
          { g.emit [.close s.targetFd] with openFds := g.openFds.erase s.targetFd }
        else g
      { g with sessions := g.sessions.erase conv }

def flushTeardown (g : Gateway ρ) : Gateway ρ :=
  syncTimer { g.toErase.foldl teardown g with toErase := [] }

def idle (env : Env ρ) (now : UInt64) (s : Session ρ) : Bool := !s.dying && now - s.lastActive > env.idleMs

def sweepIdle (env : Env ρ) (now : UInt64) (g : Gateway ρ) : Gateway ρ :=
  if now - g.lastIdleSweep < 1000 then g
  else
    let reaped := (g.sessions.entries.map Prod.snd).filter (idle env now)
    { g with
      lastIdleSweep := now
      sessions := g.sessions.mapVals fun s => if idle env now s then { s with dying := true } else s
      toErase := g.toErase ++ reaped.map Session.conv
      log := g.log ++ reaped.map fun s => .reaped s.conv now }

end GameAccelerator.SessionManager
