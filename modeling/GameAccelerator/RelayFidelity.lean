import GameAccelerator.RelaySteps

namespace GameAccelerator.RelayFidelity

open CString Platform Tables NetUtils TunnelProtocol TunnelMessages Kcp LosslessKcp SessionManager GatewayLoop GatewayMoves
  SessionInvariant SessionFrame PoolBalance Relay RelaySteps

variable {ρ : Type} {env : Env ρ} {c : UInt32} {s : Session ρ} {g g' : Gateway ρ} {ms : List Message}
  {effects : List Effect}

/-- Whether the session `c` stays in the table during the run. -/
def lives (env : Env ρ) (c : UInt32) : Gateway ρ → List (Event ρ) → Bool
  | _, [] => true
  | g, e :: events =>
      match step env g e with
      | .error _ => true
      | .ok g' => (g'.sessions.find c).isSome && lives env c g' events

/-- The replies that a run brings to the target of the session `c`. -/
def arrivals (env : Env ρ) (c : UInt32) : Gateway ρ → List (Event ρ) → List Bytes
  | _, [] => []
  | g, e :: events =>
      heard c g e ++
        match step env g e with
        | .error _ => []
        | .ok g' => arrivals env c g' events

theorem runEvents_log {events : List (Event ρ)} (h : runEvents env g events = .ok g') (hg : Good env g) :
    g.log <+: g'.log := by
  induction events generalizing g with
  | nil =>
      cases h
      exact List.prefix_refl _
  | cons e events ih =>
      rw [runEvents] at h
      split at h
      next => cases h
      next g₁ h₁ => exact (step_log h₁ hg).trans (ih h (step_good h₁ hg))

theorem runEvents_reaches {kv : Bytes → Option Bytes} {events : List (Event ρ)} (hg : Good env g)
    (hpool : 2 ≤ g.pool.length) (hs : g.sessions.find c = some s) (hq : s.dying = false → s.kcp.kcp.rcvQueue = [])
    (he : ∀ e ∈ events, SteadyEvent kv e) (hlives : lives env c g events) (hreap : ∀ t, .reaped c t ∉ effects)
    (hl : g'.log = g.log ++ effects) (hms : completesOf c effects = ms.map Message.encode)
    (h : runEvents env g events = .ok g') :
    Reaches (GatewayLoop.resolve env kv) c s g ms (arrivals env c g events) g' := by
  induction events generalizing g s ms effects with
  | nil =>
      cases h
      exact frame_reaches (frame_silent hs (.refl s) rfl) hq hl hms
  | cons e events ih =>
      rw [runEvents] at h
      split at h
      next => cases h
      next g₁ h₁ =>
        obtain ⟨l₁, hl₁⟩ := step_log h₁ hg
        obtain ⟨l₂, hl₂⟩ := runEvents_log h (step_good h₁ hg)
        rw [← hl₂, ← hl₁, List.append_assoc] at hl
        cases List.append_cancel_left hl
        obtain ⟨ms₁, ms₂, rfl, hm₁, hm₂⟩ := split_messages hms
        simp only [lives, h₁, Bool.and_eq_true] at hlives
        have hstep := step_reaches hg hpool hs hq (he e List.mem_cons_self) hlives.1
          (fun t ht => hreap t (List.mem_append_left _ ht)) hl₁.symm hm₁ h₁
        have harr : arrivals env c g (e :: events) = heard c g e ++ arrivals env c g₁ events := by
          simp only [arrivals, h₁]
        rw [harr]
        exact hstep.trans fun s₁ hs₁ hq₁ => ih (step_good h₁ hg) ((step_pool h₁).symm ▸ hpool) hs₁ hq₁
          (fun e he' => he e (List.mem_cons_of_mem _ he')) hlives.2
          (fun t ht => hreap t (List.mem_append_right _ ht)) hl₂.symm hm₂ h

theorem lives_append {g₁ : Gateway ρ} {events₁ events₂ : List (Event ρ)} (h₁ : runEvents env g events₁ = .ok g₁)
    (h : lives env c g (events₁ ++ events₂)) : lives env c g events₁ ∧ lives env c g₁ events₂ := by
  induction events₁ generalizing g with
  | nil =>
      cases h₁
      exact ⟨rfl, h⟩
  | cons e events₁ ih =>
      rw [runEvents] at h₁
      split at h₁
      next => cases h₁
      next g₂ h₂ =>
        simp only [List.cons_append, lives, h₂, Bool.and_eq_true] at h ⊢
        exact ⟨⟨h.1, (ih h₁ h.2).1⟩, (ih h₁ h.2).2⟩

theorem parse_replyMessage {reply : Bytes} (h : reply.length ≤ maxReply) :
    parse (replyMessage reply) = some ⟨packetData, some dataHeadLen, .ofNat reply.length⟩ ∧
      ((replyMessage reply).drop dataHeadLen).take (UInt16.ofNat reply.length).toNat = reply := by
  rw [replyMessage, List.take_of_length_le h]
  exact ⟨parse_data h, slice_data h⟩

/-- The effects of a run from `g` to `g'`. -/
def since (g g' : Gateway ρ) : List Effect := g'.log.drop g.log.length

theorem log_since (h : g.log <+: g'.log) : g'.log = g.log ++ since g g' := by
  obtain ⟨l, hl⟩ := h
  rw [since, ← hl, List.drop_left]

theorem since_append {g₁ : Gateway ρ} (h₁ : g.log <+: g₁.log) (h₂ : g₁.log <+: g'.log) :
    since g g' = since g g₁ ++ since g₁ g' := by
  refine List.append_cancel_left ((log_since (h₁.trans h₂)).symm.trans ?_)
  rw [log_since h₂, log_since h₁, List.append_assoc]

theorem since_eq (h : g'.log = g.log ++ effects) : since g g' = effects := by
  rw [since, h, List.drop_left]

/-- A session that has its target keeps it, and nobody else sends on its
descriptor. -/
theorem reaches_target {resolve : Bytes → Option Endpoint} {heard : List Bytes} {s' : Session ρ}
    (h : Reaches resolve c s g ms heard g') (hs' : g'.sessions.find c = some s') (hfd : 0 ≤ s.targetFd) :
    s'.targetFd = s.targetFd ∧ s'.targetAddr = s.targetAddr ∧
      ∀ c' dst bytes, .relay c' s.targetFd dst bytes ∈ since g g' → c' = c := by
  obtain ⟨_, hfind, hp, _⟩ := h
  cases hs'.symm.trans hfind
  obtain ⟨l, hl, _, _, _, honly⟩ := hp.effects
  rw [since_eq hl]
  exact ⟨(hp.target hfd).1, (hp.target hfd).2, honly hfd⟩

theorem relay_fidelity (env : Env ρ) (kv : Bytes → Option Bytes) (c : UInt32) (owner : Endpoint) (g₀ g : Gateway ρ)
    (events : List (Event ρ)) (ms : List Message) (hreach : ReachableByCalls env g₀)
    (hnew : g₀.sessions.find c = some (newSession env.kcp env.clientFd c owner))
    (hrun : runEvents env g₀ events = .ok g) (hlives : lives env c g₀ events)
    (hsteady : ∀ e ∈ events, SteadyEvent kv e) (hreap : ∀ t, .reaped c t ∉ since g₀ g)
    (hms : completesOf c (since g₀ g) = ms.map Message.encode) :
    ∃ s, g.sessions.find c = some s ∧
      relaysOf c (since g₀ g) =
        (relayed (GatewayLoop.resolve env kv) ms).map (fun x => (s.targetFd, x.1, x.2)) ∧
      sendsOf c (since g₀ g) = (arrivals env c g₀ events).map replyMessage ∧
      (∀ reply ∈ arrivals env c g₀ events, reply.length ≤ maxReply →
        parse (replyMessage reply) = some ⟨packetData, some dataHeadLen, .ofNat reply.length⟩ ∧
          ((replyMessage reply).drop dataHeadLen).take (UInt16.ofNat reply.length).toNat = reply) ∧
      ∀ events₁ events₂ g₁ s₁, events = events₁ ++ events₂ → runEvents env g₀ events₁ = .ok g₁ →
        g₁.sessions.find c = some s₁ → 0 ≤ s₁.targetFd →
        s.targetFd = s₁.targetFd ∧ s.targetAddr = s₁.targetAddr ∧
          ∀ c' dst bytes, .relay c' s₁.targetFd dst bytes ∈ since g₁ g → c' = c := by
  have hgood := reachableByCalls_good hreach
  have hpool : 2 ≤ g₀.pool.length := by
    rw [pool_of_reachable hreach]
    exact Nat.le_add_left 2 _
  have hlog := runEvents_log hrun hgood
  obtain ⟨s, hs, hp, _⟩ := runEvents_reaches hgood hpool hnew (fun _ => rfl) hsteady hlives hreap (log_since hlog) hms hrun
  obtain ⟨l, hl, _, hrelays, hsends, _⟩ := hp.effects
  have hsince := since_eq hl
  have hpending : InPhase (newSession env.kcp env.clientFd c owner) .pending := ⟨rfl, Int.negSucc_lt_zero 0⟩
  refine ⟨s, hs, ?_, hsince ▸ hsends, fun reply _ h => parse_replyMessage h, ?_⟩
  · rw [hsince, hrelays _ hpending, outputs_pending]
  intro events₁ events₂ g₁ s₁ he hrun₁ hs₁ hfd
  subst he
  -- The rest of the run starts from a session that has its target.
  have hrun₂ : runEvents env g₁ events₂ = .ok g := (runEvents_append hrun₁ events₂).symm.trans hrun
  have hreach₁ := reachableByCalls_of_run hreach hrun₁
  have hgood₁ := reachableByCalls_good hreach₁
  obtain ⟨hlives₁, hlives₂⟩ := lives_append hrun₁ hlives
  have hlog₁ := runEvents_log hrun₁ hgood
  have hlog₂ := runEvents_log hrun₂ hgood₁
  rw [since_append hlog₁ hlog₂] at hms hreap
  obtain ⟨ms₁, ms₂, rfl, hms₁, hms₂⟩ := split_messages hms
  obtain ⟨s₁', hs₁', _, hq₁⟩ := runEvents_reaches hgood hpool hnew (fun _ => rfl)
    (fun e he => hsteady e (List.mem_append_left _ he)) hlives₁ (fun t ht => hreap t (List.mem_append_left _ ht))
    (log_since hlog₁) hms₁ hrun₁
  cases hs₁.symm.trans hs₁'
  refine reaches_target (runEvents_reaches hgood₁ ?_ hs₁ hq₁ (fun e he => hsteady e (List.mem_append_right _ he))
    hlives₂ (fun t ht => hreap t (List.mem_append_right _ ht)) (log_since hlog₂) hms₂ hrun₂) hs hfd
  rwa [pool_of_reachable hreach₁, ← pool_of_reachable hreach]

section Sample

/-- A number above all those in use. -/
def freshFd : List Int → Nat
  | [] => 1
  | fd :: fds => fd.toNat + freshFd fds

theorem lt_freshFd {fd : Int} {fds : List Int} (h : fd ∈ fds) : fd < freshFd fds := by
  induction fds with
  | nil => exact absurd h List.not_mem_nil
  | cons fd' fds ih =>
      simp only [freshFd]
      rcases List.mem_cons.mp h with rfl | h
      · have hpos : 0 < freshFd fds := by
          clear ih h
          induction fds with
          | nil => exact Nat.one_pos
          | cons fd' fds ih => exact Nat.lt_of_lt_of_le ih (Nat.le_add_left _ _)
        omega
      · have hlt := ih h
        omega

def steadyOutcome : Outcome Link where
  kvGet _ := some (ascii "127.0.0.1:9000")
  socket fds := freshFd fds
  socket_fresh _ _ h := Int.lt_irrefl _ (lt_freshFd h)
  arrange l := ⟨l, .refl l⟩

def sampleMessages : List Message :=
  [.connect (ascii "lobby") (by decide), .data (ascii "hi") (by decide), .connect (ascii "arena") (by decide), .close,
    .data (ascii "late") (by decide)]

def sampleRegistered : Gateway Link :=
  ((runEvents (sampleEnv .ofNat) (.init (sampleEnv .ofNat))
    [.register ⟨1, 1⟩ steadyOutcome.arrange]).toOption).getD (.init (sampleEnv .ofNat))

/-- A message, with its place among all of them. -/
def sampleSegment (m : Message × Nat) : Datagram Link :=
  { sampleDatagram ⟨1, 1⟩ 1000 (.ofNat m.2) 0 m.1.encode with outcome := steadyOutcome }

def sampleEvents : List (Event Link) :=
  [.tunnel ((sampleMessages.zipIdx.take 2).map sampleSegment), .target 7 [ascii "yo"], .update,
    .tunnel ((sampleMessages.zipIdx.drop 2).map sampleSegment)]

theorem steadyEvent_sampleSegment (l : List (Message × Nat)) :
    SteadyEvent steadyOutcome.kvGet (.tunnel (l.map sampleSegment)) := by
  intro d hd
  obtain ⟨m, _, rfl⟩ := List.mem_map.mp hd
  exact ⟨rfl, fun fds => Int.natCast_nonneg (freshFd fds)⟩

theorem relay_fidelity_of_sample :
    ∃ g s, runEvents (sampleEnv .ofNat) sampleRegistered sampleEvents = .ok g ∧
      g.sessions.find 1000 = some s ∧
      relaysOf 1000 (since sampleRegistered g) = [(s.targetFd, ⟨16777343, 9000⟩, ascii "hi")] ∧
      sendsOf 1000 (since sampleRegistered g) = [replyMessage (ascii "yo")] := by
  have hrun : ∃ g, runEvents (sampleEnv .ofNat) sampleRegistered sampleEvents = .ok g ∧
      (since sampleRegistered g).all (fun e => match e with | .reaped _ _ => false | _ => true) = true ∧
      completesOf 1000 (since sampleRegistered g) = (sampleMessages.take 4).map Message.encode :=
    ⟨_, rfl, rfl, rfl⟩
  obtain ⟨g, hg, hreap, hms⟩ := hrun
  have hreach : ReachableByCalls (sampleEnv .ofNat) sampleRegistered :=
    .step .init (.register ⟨1, 1⟩ steadyOutcome.arrange) rfl
  have hsteady : ∀ e ∈ sampleEvents, SteadyEvent steadyOutcome.kvGet e := by
    simp only [sampleEvents, List.forall_mem_cons]
    exact ⟨steadyEvent_sampleSegment _, trivial, trivial, steadyEvent_sampleSegment _, nofun⟩
  obtain ⟨s, hs, hrelays, hsends, _⟩ := relay_fidelity (sampleEnv .ofNat) steadyOutcome.kvGet 1000 ⟨1, 1⟩
    sampleRegistered g sampleEvents _ hreach rfl hg (by decide +kernel) hsteady
    (fun t ht => nomatch List.all_eq_true.mp hreap _ ht) hms
  exact ⟨g, s, hg, hs, hrelays, hsends⟩

end Sample

end GameAccelerator.RelayFidelity
