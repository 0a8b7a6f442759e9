import GameAccelerator.PoolBalance
import GameAccelerator.RelayRun

namespace GameAccelerator.RelaySteps

open CString Platform Tables NetUtils TunnelProtocol TunnelMessages Kcp SessionManager GatewayLoop GatewayMoves
  SessionInvariant SessionFrame Drain PoolBalance Relay RelayRun

variable {ρ : Type} {env : Env ρ} {o : Outcome ρ} {src : Endpoint} {c : UInt32} {s s' : Session ρ} {g g' : Gateway ρ}
  {ms : List Message} {effects : List Effect} {resolve : Bytes → Option Endpoint}

/-- What is known of the session `c` after `ms` have come in. -/
def Reaches (resolve : Bytes → Option Endpoint) (c : UInt32) (s : Session ρ) (g : Gateway ρ) (ms : List Message)
    (heard : List Bytes) (g' : Gateway ρ) : Prop :=
  ∃ s', g'.sessions.find c = some s' ∧
    Progress resolve c s g.log (ms.map Message.encode) ms heard s' g'.log ∧
    (s'.dying = false → s'.kcp.kcp.rcvQueue = [])

theorem frame_reaches (h : Frame c s g g') (hq : s.dying = false → s.kcp.kcp.rcvQueue = [])
    (hl : g'.log = g.log ++ effects) (hms : completesOf c effects = ms.map Message.encode) :
    Reaches resolve c s g ms [] g' := by
  obtain ⟨⟨s', hs', hlike⟩, effects', hl', he⟩ := h
  cases List.append_cancel_left (hl'.symm.trans hl)
  rw [completesOf_eq_nil fun e h => (he e h).1] at hms
  cases List.map_eq_nil_iff.mp hms.symm
  refine ⟨s', hs', ?_, fun hd => hlike.rcvQueue.trans (hq (hlike.dying.symm.trans hd))⟩
  rw [hl]
  exact progress_quiet hlike.toAlike he

theorem handleTunnelMsg_completes (env : Env ρ) (o : Outcome ρ) (c : UInt32) (s : Session ρ) (g : Gateway ρ)
    (m : Bytes) : ∃ effects, (handleTunnelMsg env o c s g m).2.2.log = g.log ++ effects ∧ completesOf c effects = [] := by
  have h0 : g.log = g.log ++ [] := (List.append_nil _).symm
  simp only [handleTunnelMsg, openTarget]
  repeat' split
  all_goals first | exact ⟨[], h0, rfl⟩ | exact ⟨_, rfl, rfl⟩

theorem drain_completes {fuel : Nat} {r : Bool × Session ρ × Gateway ρ} (h : drain env o c fuel s g = .ok r) :
    ∃ effects, r.2.2.log = g.log ++ effects ∧ completesOf c effects = [] := by
  apply drain_keep (P := fun g' => ∃ effects, g'.log = g.log ++ effects ∧ completesOf c effects = [])
    (fun s g' buf hg => ?_) h ⟨[], (List.append_nil _).symm, rfl⟩
  obtain ⟨l₁, hl₁, hc₁⟩ := hg
  obtain ⟨l₂, hl₂, hc₂⟩ := handleTunnelMsg_completes env o c s g' buf
  refine ⟨l₁ ++ l₂, by rw [hl₂, hl₁, List.append_assoc], ?_⟩
  rw [completesOf, List.filterMap_append]
  exact congrArg₂ (· ++ ·) hc₁ hc₂

/-- The messages that a segment completes are those of `ikcp_input`. -/
theorem handleSegment_completes {block : Nat} {pkt : Bytes} {more : Bool} (hconv : s.conv = c)
    (h : handleSegment env o g block c s pkt = .ok (more, g')) (hl : g'.log = g.log ++ effects) :
    completesOf c effects = completed env.kcp s.kcp.kcp pkt := by
  have hlog : ∃ gone s₁ g₁, drain env o c ((feed env s g pkt).1.kcp.kcp.rcvQueue.length + 1) (feed env s g pkt).1
      (feed env s g pkt).2 = .ok (gone, s₁, g₁) ∧ g'.log = g₁.log := by
    simp only [handleSegment] at h
    split at h
    next => cases h
    next gone s₁ g₁ hdrain =>
      refine ⟨gone, s₁, g₁, hdrain, ?_⟩
      split_ifs at h <;> cases h <;> rfl
  obtain ⟨gone, s₁, g₁, hdrain, hg₁⟩ := hlog
  obtain ⟨l₁, hl₁, hc₁⟩ := drain_completes hdrain
  obtain ⟨l₀, hl₀, hq₀⟩ := feed_log env s g pkt
  have heffects : effects = .accepted s.conv (env.clock g.ticks) ::
      (completed env.kcp s.kcp.kcp pkt).map (.complete s.conv) ++ (l₀ ++ l₁) := by
    rw [hg₁, hl₁, hl₀, List.append_assoc, List.append_assoc] at hl
    exact (List.append_cancel_left hl).symm
  rw [heffects, completesOf, List.filterMap_append, List.filterMap_append, hconv]
  have h0 : completesOf c l₀ = [] := completesOf_eq_nil fun e he hm => by cases (hq₀ e he).symm.trans hm
  have hm := completesOf_map c (completed env.kcp s.kcp.kcp pkt)
  simp only [completesOf] at h0 hc₁ hm
  rw [h0, hc₁, List.append_nil, List.append_nil, List.filterMap_cons, hm]

theorem handleDatagram_reaches {d : Datagram ρ} {more : Bool} (hg : Good env g) (hs : g.sessions.find c = some s)
    (hq : s.dying = false → s.kcp.kcp.rcvQueue = []) (hsock : ∀ fds, 0 ≤ d.outcome.socket fds)
    (hl : g'.log = g.log ++ effects) (hms : completesOf c effects = ms.map Message.encode)
    (h : handleDatagram env g d = .ok (more, g')) :
    Reaches (GatewayLoop.resolve env d.outcome.kvGet) c s g ms [] g' := by
  rcases handleDatagram_cases h with rfl | ⟨block, pool, g₁, _, _, hreg, rfl⟩ |
    ⟨block, pool, c', s', _, _, hs', ho, hd, hseg⟩
  · exact frame_reaches (frame_silent hs (.refl s) rfl) hq hl hms
  · obtain ⟨hfind, hlog⟩ := registerClient_frame (g := { g with pool := pool }) hs hreg
    have hf : Frame c s g { g₁ with pool := block :: g₁.pool } := ⟨hfind, hlog⟩
    exact frame_reaches hf hq hl hms
  · by_cases hc : c' = c
    · subst hc
      cases hs.symm.trans hs'
      have hin := handleSegment_completes (g := { g with pool := pool }) (conv_eq hg hs) hseg hl
      exact handleSegment_progress (g := { g with pool := pool }) hsock hs (conv_eq hg hs) hd (hq hd)
        (hin.symm.trans hms) hseg
    · have hin : InHand env d.src c' g s' g := inHand_of_find hs' ho hd
      exact frame_reaches (acts_frame ((hin.pool pool).handleSegment hseg) hc hg hs) hq hl hms

theorem Reaches.trans {heard₁ heard₂ : List Bytes} {ms₁ ms₂ : List Message} {g₁ : Gateway ρ}
    (h₁ : Reaches resolve c s g ms₁ heard₁ g₁)
    (h₂ : ∀ s₁, g₁.sessions.find c = some s₁ → (s₁.dying = false → s₁.kcp.kcp.rcvQueue = []) →
      Reaches resolve c s₁ g₁ ms₂ heard₂ g') :
    Reaches resolve c s g (ms₁ ++ ms₂) (heard₁ ++ heard₂) g' := by
  obtain ⟨s₁, hs₁, hp₁, hq₁⟩ := h₁
  obtain ⟨s₂, hs₂, hp₂, hq₂⟩ := h₂ s₁ hs₁ hq₁
  refine ⟨s₂, hs₂, ?_, hq₂⟩
  rw [List.map_append]
  exact hp₁.trans hp₂

/-- The messages of two stretches of a log. -/
theorem split_messages {l₁ l₂ : List Effect} (h : completesOf c (l₁ ++ l₂) = ms.map Message.encode) :
    ∃ ms₁ ms₂, ms = ms₁ ++ ms₂ ∧ completesOf c l₁ = ms₁.map Message.encode ∧
      completesOf c l₂ = ms₂.map Message.encode := by
  rw [completesOf, List.filterMap_append] at h
  obtain ⟨ms₁, ms₂, rfl, h₁, h₂⟩ := List.map_eq_append_iff.mp h.symm
  exact ⟨ms₁, ms₂, rfl, h₁.symm, h₂.symm⟩

/-- The route map is `kv` and there is always a socket. -/
def Steady (kv : Bytes → Option Bytes) (d : Datagram ρ) : Prop :=
  d.outcome.kvGet = kv ∧ ∀ fds, 0 ≤ d.outcome.socket fds

theorem handleTunnelDatagram_reaches {kv : Bytes → Option Bytes} {ds : List (Datagram ρ)} (hg : Good env g)
    (hs : g.sessions.find c = some s) (hq : s.dying = false → s.kcp.kcp.rcvQueue = []) (hds : ∀ d ∈ ds, Steady kv d)
    (hl : g'.log = g.log ++ effects) (hms : completesOf c effects = ms.map Message.encode)
    (h : handleTunnelDatagram env g ds = .ok g') :
    Reaches (GatewayLoop.resolve env kv) c s g ms [] g' := by
  induction ds generalizing g s ms effects with
  | nil =>
      cases h
      exact frame_reaches (frame_silent hs (.refl s) rfl) hq hl hms
  | cons d ds ih =>
      have hd := hds d List.mem_cons_self
      rw [handleTunnelDatagram] at h
      split at h
      next => cases h
      next g₁ h₁ =>
        cases h
        exact hd.1 ▸ handleDatagram_reaches hg hs hq hd.2 hl hms h₁
      next g₁ h₁ =>
        obtain ⟨c', hacts⟩ := handleDatagram_acts h₁
        have hg₁ := acts_good hacts hg
        obtain ⟨l₁, hl₁⟩ := handleDatagram_log h₁ hg
        obtain ⟨l₂, hl₂⟩ := handleTunnelDatagram_log h hg₁
        rw [← hl₂, ← hl₁, List.append_assoc] at hl
        cases List.append_cancel_left hl
        obtain ⟨ms₁, ms₂, rfl, hm₁, hm₂⟩ := split_messages hms
        have hstep := handleDatagram_reaches hg hs hq hd.2 hl₁.symm hm₁ h₁
        rw [hd.1] at hstep
        exact hstep.trans fun s₁ hs₁ hq₁ =>
          ih hg₁ hs₁ hq₁ (fun d hd => hds d (List.mem_cons_of_mem _ hd)) hl₂.symm hm₂ h

/-- The replies that an event brings to the target of the session `c`. -/
def heard (c : UInt32) (g : Gateway ρ) : Event ρ → List Bytes
  | .target fd replies =>
      match g.sessions.find c with
      | none => []
      | some s => if 0 ≤ fd ∧ s.targetFd = fd ∧ s.dying = false then replies else []
  | _ => []

def SteadyEvent (kv : Bytes → Option Bytes) : Event ρ → Prop
  | .tunnel ds => ∀ d ∈ ds, Steady kv d
  | _ => True

theorem handleTargetReply_reaches {replies : List Bytes} (hg : Good env g) (hs : g.sessions.find c = some s)
    (hd : s.dying = false) (hq : s.kcp.kcp.rcvQueue = []) (hpool : 2 ≤ g.pool.length)
    (hl : g'.log = g.log ++ effects) (hms : completesOf c effects = ms.map Message.encode)
    (h : handleTargetReply env g c replies = .ok g') : Reaches resolve c s g ms replies g' := by
  obtain ⟨hp, hlike⟩ := forwardAll_progress resolve env replies (conv_eq hg hs) hpool
  cases (handleTargetReply_of_alive hs hd replies).symm.trans h
  have hfind : ((forwardAll env s g replies).2.put c (forwardAll env s g replies).1).sessions.find c =
      some (forwardAll env s g replies).1 := by
    refine find_put ?_ _
    rw [Present, forwardAll_sessions]
    exact Option.isSome_iff_exists.mpr ⟨s, hs⟩
  obtain ⟨l, hl', hc, _⟩ := hp.effects
  cases List.append_cancel_left (hl'.symm.trans hl)
  cases List.map_eq_nil_iff.mp (hms.symm.trans hc)
  exact ⟨_, hfind, hp, fun _ => hlike.rcvQueue.trans hq⟩

theorem step_reaches {kv : Bytes → Option Bytes} {e : Event ρ} (hg : Good env g) (hpool : 2 ≤ g.pool.length)
    (hs : g.sessions.find c = some s) (hq : s.dying = false → s.kcp.kcp.rcvQueue = []) (he : SteadyEvent kv e)
    (hpresent : Present g' c) (hreap : ∀ t, .reaped c t ∉ effects) (hl : g'.log = g.log ++ effects)
    (hms : completesOf c effects = ms.map Message.encode) (h : step env g e = .ok g') :
    Reaches (GatewayLoop.resolve env kv) c s g ms (heard c g e) g' := by
  cases e with
  | register src arrange => exact frame_reaches (registerClient_frame hs h) hq hl hms
  | tunnel ds => exact handleTunnelDatagram_reaches hg hs hq he hl hms h
  | target fd replies =>
      have hheard : heard c g (.target fd replies) =
          if 0 ≤ fd ∧ s.targetFd = fd ∧ s.dying = false then replies else [] := by
        simp only [heard, hs]
      have howner : 0 ≤ fd ∧ s.targetFd = fd → g.fdToSession fd = some c := fun hfd =>
        (hg.fds fd c).mpr ⟨hfd.1, core s, index_of_find hs, hfd.2⟩
      rw [hheard]
      simp only [step] at h
      split at h
      next hnone =>
        cases h
        rw [if_neg fun hc => by cases hnone.symm.trans (howner ⟨hc.1, hc.2.1⟩)]
        exact frame_reaches (frame_silent hs (.refl s) rfl) hq hl hms
      next c' hc' =>
        obtain ⟨hnn, k, hk, hkfd⟩ := (hg.fds fd c').mp hc'
        obtain ⟨s', hs', rfl⟩ := Option.map_eq_some_iff.mp hk
        by_cases hc : c' = c
        · subst hc
          cases hs.symm.trans hs'
          cases hd : s.dying with
          | false =>
              rw [if_pos ⟨hnn, hkfd, rfl⟩]
              exact handleTargetReply_reaches hg hs hd (hq hd) hpool hl hms h
          | true =>
              rw [if_neg fun hc => Bool.noConfusion hc.2.2]
              cases (handleTargetReply_of_dying hs hd replies).symm.trans h
              exact frame_reaches (frame_silent hs (.refl s) rfl) hq hl hms
        · rw [if_neg fun hfd => hc (Option.some.inj (hc'.symm.trans (howner ⟨hfd.1, hfd.2.1⟩)))]
          exact frame_reaches (acts_frame (handleTargetReply_acts hs' h) hc hg hs) hq hl hms
  | update =>
      cases h
      exact frame_reaches (updateActive_frame hs) hq hl hms
  | sweep =>
      cases h
      have hnot : .reaped c (env.clock g.ticks) ∉
          (sweepIdle env (env.clock g.ticks) g.tick).log.drop g.tick.log.length := by
        rw [hl]
        exact fun hr => hreap _ (List.drop_left ▸ hr)
      obtain ⟨hfind, hlog⟩ := sweepIdle_frame (g := g.tick) hs hg hnot
      exact frame_reaches ⟨hfind, hlog⟩ hq hl hms
  | flush =>
      cases h
      exact frame_reaches (flushTeardown_frame hs hpresent) hq hl hms

end GameAccelerator.RelaySteps
