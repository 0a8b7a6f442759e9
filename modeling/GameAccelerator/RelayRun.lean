import GameAccelerator.Relay

namespace GameAccelerator.RelayRun

open CString Platform Tables NetUtils TunnelProtocol TunnelMessages Kcp SessionManager GatewayLoop GatewayMoves
  SessionInvariant SessionFrame Drain Relay

variable {ρ : Type} {env : Env ρ} {o : Outcome ρ} {src : Endpoint} {c : UInt32} {s s' : Session ρ} {g g' : Gateway ρ}
  {ms : List Message}

/-- A log has grown by what belongs to no message. -/
def Quiet (log log' : List Effect) : Prop := ∃ effects, log' = log ++ effects ∧ ∀ e ∈ effects, messageOf e = none

theorem Quiet.trans {log log₁ log₂ : List Effect} (h₁ : Quiet log log₁) (h₂ : Quiet log₁ log₂) : Quiet log log₂ := by
  obtain ⟨l₁, rfl, he₁⟩ := h₁
  obtain ⟨l₂, rfl, he₂⟩ := h₂
  exact ⟨l₁ ++ l₂, List.append_assoc .., List.forall_mem_append.mpr ⟨he₁, he₂⟩⟩

theorem Quiet.refl (log : List Effect) : Quiet log log := ⟨[], (List.append_nil _).symm, nofun⟩

theorem Quiet.tick {log : List Effect} (h : Quiet log g.log) : Quiet log g.tick.log := h

theorem Quiet.kcpCall {log : List Effect} (h : Quiet log g.log) (s : Session ρ) (r : Ikcpcb ρ × List Bytes) :
    Quiet log (kcpCall s g r).2.log := by
  refine h.trans ⟨kcpOutput s.kcp r.2, rfl, fun e he => ?_⟩
  obtain ⟨m, _, rfl⟩ := List.mem_map.mp he
  rfl

theorem feed_log (env : Env ρ) (s : Session ρ) (g : Gateway ρ) (pkt : Bytes) :
    Quiet (g.log ++ .accepted s.conv (env.clock g.ticks) ::
      (completed env.kcp s.kcp.kcp pkt).map (.complete s.conv)) (feed env s g pkt).2.log := by
  have h := (Quiet.refl (g.tick.emit (.accepted s.conv (env.clock g.ticks) ::
    (completed env.kcp s.kcp.kcp pkt).map (.complete s.conv))).log).kcpCall
      { s with lastActive := env.clock g.ticks } (ikcpInput env.kcp s.kcp.kcp pkt)
  exact (h.tick.kcpCall _ _).kcpCall _ _

section NoRelay

variable {resolve : Bytes → Option Endpoint} {log effects : List Effect} {done heard : List Bytes}

theorem progress_noRelay (hlike : Alike s s') (hc : completesOf c effects = done) (hs : sendsOf c effects = heard.map replyMessage)
    (hr : ∀ c' fd dst bytes, .relay c' fd dst bytes ∉ effects) :
    Progress resolve c s log done [] heard s' (log ++ effects) := by
  have hrelays : relaysOf c effects = [] := by
    apply List.filterMap_eq_nil_iff.mpr
    intro e he
    cases e with
    | relay c' fd dst bytes => exact absurd he (hr c' fd dst bytes)
    | _ => rfl
  refine ⟨fun φ hφ => inPhase_alike hlike hφ, fun _ => ⟨hlike.targetFd, hlike.targetAddr⟩, fun _ _ h => absurd rfl h,
    effects, rfl, hc, fun _ _ => hrelays, hs, fun _ c' dst bytes he => absurd he (hr c' s.targetFd dst bytes)⟩

theorem Quiet.progress {log' : List Effect} (h : Quiet log log') (hlike : Alike s s') :
    Progress resolve c s log [] [] [] s' log' := by
  obtain ⟨effects, rfl, he⟩ := h
  exact progress_quiet hlike fun e h => elsewhere_of_none (he e h)

end NoRelay

theorem completesOf_map (c : UInt32) (l : List Bytes) : completesOf c (l.map (.complete c)) = l := by
  induction l with
  | nil => rfl
  | cons m l ih => simp [completesOf]

theorem sendsOf_map_complete (c c' : UInt32) (l : List Bytes) : sendsOf c (l.map (.complete c')) = [] :=
  List.filterMap_eq_nil_iff.mpr fun e he => by
    obtain ⟨m, _, rfl⟩ := List.mem_map.mp he
    rfl

theorem feed_alike (env : Env ρ) (s : Session ρ) (g : Gateway ρ) (pkt : Bytes) : Alike s (feed env s g pkt).1 :=
  ⟨feed_targetFd .., by simp [feed], feed_dying ..⟩

theorem feed_progress {resolve : Bytes → Option Endpoint} (env : Env ρ) (hconv : s.conv = c) (g : Gateway ρ)
    (pkt : Bytes) :
    Progress resolve c s g.log (completed env.kcp s.kcp.kcp pkt) [] [] (feed env s g pkt).1 (feed env s g pkt).2.log := by
  subst hconv
  have hm : Progress resolve s.conv s g.log (completed env.kcp s.kcp.kcp pkt) [] [] s
      (g.log ++ .accepted s.conv (env.clock g.ticks) :: (completed env.kcp s.kcp.kcp pkt).map (.complete s.conv)) := by
    refine progress_noRelay ⟨rfl, rfl, rfl⟩ (completesOf_map ..) (sendsOf_map_complete ..) fun c' fd dst bytes he => ?_
    rcases List.mem_cons.mp he with he | he
    · cases he
    · obtain ⟨m, _, he⟩ := List.mem_map.mp he
      cases he
  have h := hm.trans ((feed_log env s g pkt).progress (feed_alike env s g pkt))
  rwa [List.append_nil] at h

theorem finish_log (env : Env ρ) (block : Nat) (c : UInt32) (r : Bool × Session ρ × Gateway ρ) :
    (finish env block c r).log = r.2.2.log := by
  rw [finish]
  split_ifs <;> rfl

/-- A segment for the session, whose queue was empty before. -/
theorem handleSegment_progress {block : Nat} {pkt : Bytes} {more : Bool} (hsock : ∀ fds, 0 ≤ o.socket fds)
    (hs : g.sessions.find c = some s) (hconv : s.conv = c) (hd : s.dying = false) (hq : s.kcp.kcp.rcvQueue = [])
    (hms : completed env.kcp s.kcp.kcp pkt = ms.map Message.encode)
    (h : handleSegment env o g block c s pkt = .ok (more, g')) :
    ∃ s', g'.sessions.find c = some s' ∧
      Progress (GatewayLoop.resolve env o.kvGet) c s g.log (ms.map Message.encode) ms [] s' g'.log ∧
      (s'.dying = false → s'.kcp.kcp.rcvQueue = []) := by
  have hqueue : (feed env s g pkt).1.kcp.kcp.rcvQueue = ms.map Message.encode := by
    rw [feed_rcvQueue, ← hms, completed, hq]
    rfl
  have hlen : ms.length < (feed env s g pkt).1.kcp.kcp.rcvQueue.length + 1 := by
    rw [hqueue, List.length_map]
    exact Nat.lt_succ_self _
  have hfeed : (feed env s g pkt).1.conv = c := by simp [feed, hconv]
  obtain ⟨r, hr, hp, hempty⟩ := drain_progress (feed env s g pkt).2 hsock hfeed ((feed_dying ..).trans hd) hqueue hlen
  have hpresent : Present r.2.2 c := by
    rw [Present, drain_sessions hr, feed_sessions]
    exact Option.isSome_iff_exists.mpr ⟨s, hs⟩
  obtain ⟨t, ht⟩ := find_finish env hpresent block
  have hlast : Alike r.2.1 { r.2.1 with lastActive := t } := ⟨rfl, rfl, rfl⟩
  have hall := ((feed_progress env hconv g pkt).trans hp).trans (progress_alike hlast r.2.2.log)
  rw [List.append_nil, List.append_nil, List.nil_append, List.append_nil, hms] at hall
  cases (handleSegment_finish hr).symm.trans h
  exact ⟨_, ht, (finish_log env block c r).symm ▸ hall, hempty⟩

theorem forward_log (env : Env ρ) (s : Session ρ) (g : Gateway ρ) (reply : Bytes) :
    ∃ log, Quiet g.log log ∧
      Quiet (log ++ [.ikcpSend s.conv (packData reply (.ofNat reply.length))]) (forward env s g reply).2.log := by
  have h₁ : Quiet g.log (g.tick.emit [.replied s.conv (env.clock g.ticks)]).log :=
    ⟨_, rfl, List.forall_mem_singleton.mpr rfl⟩
  have h₂ := h₁.tick.kcpCall { s with lastActive := env.clock g.ticks }
    (ikcpUpdate env.kcp s.kcp.kcp (env.clock (g.ticks + 1)).toUInt32)
  exact ⟨_, h₂, (Quiet.refl _).kcpCall _ _⟩

theorem forward_like (env : Env ρ) (s : Session ρ) (g : Gateway ρ) (reply : Bytes) :
    Like s (forward env s g reply).1 := by
  refine ⟨⟨?_, ?_, ?_⟩, ?_⟩ <;> simp [forward, ikcpUpdate, ikcpSend, ikcpFlush]

theorem forward_progress {resolve : Bytes → Option Endpoint} (env : Env ρ) (hconv : s.conv = c) (g : Gateway ρ)
    (reply : Bytes) :
    Progress resolve c s g.log [] [] [reply] (forward env s g (reply.take maxReply)).1
      (forward env s g (reply.take maxReply)).2.log := by
  obtain ⟨log, h₁, h₂⟩ := forward_log env s g (reply.take maxReply)
  have hsend : Progress resolve c s log [] [] [reply] s
      (log ++ [.ikcpSend s.conv (replyMessage reply)]) := by
    refine progress_noRelay ⟨rfl, rfl, rfl⟩ rfl ?_ (by simp)
    simp [sendsOf, hconv]
  have hsame : Alike s s := ⟨rfl, rfl, rfl⟩
  exact ((h₁.progress hsame).trans hsend).trans (h₂.progress (forward_like env s g _).toAlike)

theorem forwardAll_cons (env : Env ρ) (s : Session ρ) (hpool : 2 ≤ g.pool.length) (reply : Bytes) (replies : List Bytes) :
    forwardAll env s g (reply :: replies) =
      forwardAll env (forward env s g (reply.take maxReply)).1 (forward env s g (reply.take maxReply)).2 replies := by
  rw [forwardAll]
  split
  next hp => simp [hp] at hpool
  next hp => simp [hp] at hpool
  next => rfl

theorem forwardAll_progress (resolve : Bytes → Option Endpoint) (env : Env ρ) (replies : List Bytes)
    (hconv : s.conv = c) (hpool : 2 ≤ g.pool.length) :
    Progress resolve c s g.log [] [] replies (forwardAll env s g replies).1 (forwardAll env s g replies).2.log ∧
      Like s (forwardAll env s g replies).1 := by
  induction replies generalizing s g with
  | nil => exact ⟨progress_alike ⟨rfl, rfl, rfl⟩ _, .refl s⟩
  | cons reply replies ih =>
      have hfpool : 2 ≤ (forward env s g (reply.take maxReply)).2.pool.length := by
        simpa [forward] using hpool
      obtain ⟨hprog, hlike⟩ := ih (s := (forward env s g (reply.take maxReply)).1)
        (g := (forward env s g (reply.take maxReply)).2) (by simp [forward, hconv]) hfpool
      rw [forwardAll_cons env s hpool]
      exact ⟨(forward_progress env hconv g reply).trans hprog, (forward_like env s g _).trans hlike⟩

end GameAccelerator.RelayRun
