import GameAccelerator.GatewayLedger
import GameAccelerator.Isolation
import GameAccelerator.SessionFrame
import GameAccelerator.TunnelClient

namespace GameAccelerator.Registration

open CString Platform Tables NetUtils TunnelProtocol TunnelClient Kcp SessionManager GatewayLoop GatewayMoves
  SessionInvariant SessionFrame Isolation ConvLedger GatewayLedger

variable {ρ : Type} {env : Env ρ} {gw e src : Endpoint} {c : UInt32} {s : Session ρ} {g g' : Gateway ρ}

/-- A gateway and its clients, one for each endpoint. What the clients have
sent is in `sent`, what the gateway has sent in its log; all of it may arrive
at any time, any number of times or never. `torn` lists the convs, with their
clients, that the client's own datagrams have put to death. -/
structure System (ρ : Type) where
  gateway : Gateway ρ
  clients : Endpoint → Client
  sent : List (Endpoint × Bytes)
  torn : List (UInt32 × Endpoint)

def System.init (env : Env ρ) : System ρ := ⟨.init env, fun _ => .sending 0, [], []⟩

/-- What the gateway has sent to `e` from its client socket. -/
def inbox (env : Env ρ) (e : Endpoint) (log : List Effect) : List Bytes :=
  log.filterMap fun
    | .tunnel fd dst bytes => if fd = env.clientFd ∧ dst = e then some bytes else none
    | _ => none

/-- Whether `e` can receive this: a datagram from `gw` is one that the gateway
has sent. -/
def arrives (env : Env ρ) (gw e : Endpoint) (log : List Effect) : Reception → Bool
  | .nothing => true
  | .datagram src bytes => src != gw || (inbox env e log).contains bytes

/-- The sessions of `src` that are dying in `g'` and were not in `g`. -/
def tornBy (src : Endpoint) (g g' : Gateway ρ) : List (UInt32 × Endpoint) :=
  (g'.sessions.entries.filter fun x =>
    x.2.clientAddr == src && x.2.dying && (g.sessions.find x.1).map Session.dying != some true).map fun x => (x.1, src)

inductive Action (ρ : Type)
  | send (e : Endpoint)
  | receive (e : Endpoint) (r : Reception)
  | talk (e : Endpoint) (bytes : Bytes)
  | deliver (d : Datagram ρ)
  | target (fd : Int) (replies : List Bytes)
  | update
  | sweep
  | flush

def System.advance (S : System ρ) : Except Fault (Gateway ρ) → Option (System ρ)
  | .error _ => none
  | .ok g => some { S with gateway := g }

/-- `none` if the action is not possible. A client that is registered may send
what it likes, a datagram comes from where it says, and a sweep finds nobody
idle. -/
def System.next (env : Env ρ) (gw : Endpoint) (S : System ρ) : Action ρ → Option (System ρ)
  | .send e =>
      match S.clients e with
      | .sending i =>
          some { S with clients := Function.update S.clients e (.waiting i), sent := (e, packRegister) :: S.sent }
      | _ => none
  | .receive e r =>
      match S.clients e with
      | .waiting i =>
          if arrives env gw e S.gateway.log r then
            some { S with clients := Function.update S.clients e (.received gw i r) }
          else none
      | _ => none
  | .talk e bytes =>
      match S.clients e with
      | .adopted _ => some { S with sent := (e, bytes) :: S.sent }
      | _ => none
  | .deliver d =>
      if (d.src, d.bytes) ∈ S.sent then
        match handleDatagram env S.gateway d with
        | .error _ => none
        | .ok (_, g) => some { S with gateway := g, torn := S.torn ++ tornBy d.src S.gateway g }
      else none
  | .target fd replies => S.advance (step env S.gateway (.target fd replies))
  | .update => S.advance (step env S.gateway .update)
  | .sweep =>
      if reapedConvs env (env.clock S.gateway.ticks) S.gateway = [] then S.advance (step env S.gateway .sweep) else none
  | .flush => S.advance (step env S.gateway .flush)

def System.run (env : Env ρ) (gw : Endpoint) : System ρ → List (Action ρ) → Option (System ρ)
  | S, [] => some S
  | S, a :: actions =>
      match S.next env gw a with
      | none => none
      | some S => System.run env gw S actions

/-- The client `e` has sent nothing but REGISTERs. -/
structure Untouched (env : Env ρ) (e : Endpoint) (g : Gateway ρ) : Prop where
  sessions : ∀ c s, g.sessions.find c = some s → s.clientAddr = e → Fresh env.kcp s.kcp.kcp ∧ s.targetFd < 0
  answers : ∀ bytes, .tunnel env.clientFd e bytes ∈ g.log →
    ∃ c, (c, e) ∈ registrations g.log ∧ bytes = packRegistered c

theorem mem_registrations_mono {p : UInt32 × Endpoint} {log log' : List Effect} (h : log <+: log')
    (hp : p ∈ registrations log) : p ∈ registrations log' := by
  obtain ⟨l, hl⟩ := h
  rw [← hl, registrations_append]
  exact List.mem_append_left _ hp

/-- Nothing of `e` has changed and nothing more has been sent to it. -/
theorem untouched_of_quiet (hu : Untouched env e g)
    (hs : ∀ c s, g'.sessions.find c = some s → s.clientAddr = e → Fresh env.kcp s.kcp.kcp ∧ s.targetFd < 0)
    {effects : List Effect} (hl : g'.log = g.log ++ effects) (hq : ∀ bytes, .tunnel env.clientFd e bytes ∉ effects) :
    Untouched env e g' := by
  refine ⟨hs, fun bytes hm => ?_⟩
  rw [hl] at hm
  rcases List.mem_append.mp hm with hm | hm
  · obtain ⟨c, hc, hb⟩ := hu.answers bytes hm
    exact ⟨c, mem_registrations_mono ⟨effects, hl.symm⟩ hc, hb⟩
  · exact absurd hm (hq bytes)

theorem untouched_acts (hu : Untouched env e g) (h : Acts env src c g g') (hg : Good env g) (hne : e ≠ src) :
    Untouched env e g' := by
  have hi := acts_isolated hg h
  obtain ⟨l, hl, hprivate⟩ := hi.sends
  refine untouched_of_quiet hu (fun c s hs ho => ?_) hl fun bytes hm => ?_
  · exact hu.sessions c s ((hi.sessions c s (ho ▸ hne)).mp hs) ho
  · exact hne ((hprivate _ hm env.clientFd e rfl).1 rfl)

theorem untouched_answer (hu : Untouched env e g) (hc : (c, e) ∈ registrations g.log) :
    Untouched env e (g.emit [.tunnel env.clientFd e (packRegistered c)]) := by
  have hlog := List.prefix_append g.log [.tunnel env.clientFd e (packRegistered c)]
  refine ⟨hu.sessions, fun bytes hm => ?_⟩
  rcases List.mem_append.mp hm with hm | hm
  · obtain ⟨c', hc', hb⟩ := hu.answers bytes hm
    exact ⟨c', mem_registrations_mono hlog hc', hb⟩
  · cases List.mem_singleton.mp hm
    exact ⟨c, mem_registrations_mono hlog hc, rfl⟩

theorem untouched_register {arrange : Arrangement UInt32 (Session ρ)} (hu : Untouched env e g) (hg : Good env g)
    (hheld : ∀ c s, g.sessions.find c = some s → (c, s.clientAddr) ∈ registrations g.log)
    (h : registerClient env arrange g e = .ok g') : Untouched env e g' := by
  rcases registerClient_cases h with ⟨c, s, hs, ho, _, _, rfl⟩ | ⟨conv, _, _, hfree, rfl⟩
  · rw [conv_eq hg hs]
    exact untouched_answer hu (ho ▸ hheld c s hs)
  · have hgiven : registrations (withSession env arrange g e conv).log = registrations g.log ++ [(conv, e)] :=
      congrArg Ledger.given (ledger_withSession env arrange e hfree)
    have hw : Untouched env e (withSession env arrange g e conv) := by
      refine untouched_of_quiet hu (fun c s hs ho => ?_) rfl fun bytes hm => by cases List.mem_singleton.mp hm
      rw [find_withSession hfree] at hs
      split_ifs at hs with hc
      · cases hs
        exact ⟨.create conv, Int.negSucc_lt_zero 0⟩
      · exact hu.sessions c s hs ho
    have ht : Untouched env e (syncTimer (withSession env arrange g e conv)) :=
      untouched_of_quiet hw hw.sessions rfl fun bytes hm => by cases List.mem_singleton.mp hm
    refine untouched_answer ht (mem_registrations_mono (List.prefix_append _ _) ?_)
    rw [hgiven]
    exact List.mem_append_right _ List.mem_cons_self

theorem untouched_update (hu : Untouched env e g) (hg : Good env g) (hK : env.kcp.SilentWhileFresh) :
    Untouched env e (updateActive env g) := by
  refine untouched_of_quiet hu (fun c s hs ho => ?_) rfl fun bytes hm => ?_
  · obtain ⟨s₀, hs₀, rfl⟩ := Option.map_eq_some_iff.mp ((find_mapVals ..).symm.trans hs)
    dsimp only at ho ⊢
    split_ifs at ho ⊢
    · exact hu.sessions c s₀ hs₀ ho
    · obtain ⟨hf, hfd⟩ := hu.sessions c s₀ hs₀ ho
      exact ⟨hf.update _, hfd⟩
  · obtain ⟨x, hx, hm⟩ := List.mem_flatMap.mp hm
    split_ifs at hm
    · exact List.not_mem_nil hm
    -- The packet went to the peer of its session, which is the client.
    have hs := find_eq_some.mpr hx
    obtain ⟨_, _, hpeer, _⟩ := hg.entry (index_of_find hs)
    obtain ⟨m, hm, he⟩ := List.mem_map.mp hm
    have ho : x.2.clientAddr = e := Eq.trans (Eq.symm hpeer) (Effect.tunnel.inj he).2.1
    rw [hK _ _ (hu.sessions x.1 x.2 hs ho).1] at hm
    exact List.not_mem_nil hm

theorem untouched_flush (hu : Untouched env e g) : Untouched env e (flushTeardown g) := by
  obtain ⟨l, hl, hup⟩ := flushTeardown_log g
  refine untouched_of_quiet hu (fun c s hs ho => ?_) hl fun bytes hm => by cases hup _ hm
  rw [find_flushTeardown] at hs
  split_ifs at hs
  exact hu.sessions c s hs ho

end GameAccelerator.Registration
