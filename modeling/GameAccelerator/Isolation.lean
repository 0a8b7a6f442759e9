import GameAccelerator.SessionInvariant

namespace GameAccelerator.Isolation

open CString Tables NetUtils TunnelProtocol Kcp LosslessKcp SessionManager GatewayLoop GatewayMoves SessionInvariant Relation

variable {ρ : Type} {env : Env ρ} {src : Endpoint} {g g₁ g₂ : Gateway ρ}

/-- The descriptor and the destination of a `sendto`. -/
def sendto : Effect → Option (Int × Endpoint)
  | .tunnel fd dst _ => some (fd, dst)
  | .relay _ fd dst _ => some (fd, dst)
  | _ => none

/-- Nothing goes over the tunnel to another client than `src`, and nothing to
the target of another client's session. -/
def Private (env : Env ρ) (src : Endpoint) (g : Gateway ρ) (e : Effect) : Prop :=
  ∀ fd dst, sendto e = some (fd, dst) → (fd = env.clientFd → dst = src) ∧
    ∀ c s, g.sessions.find c = some s → s.clientAddr ≠ src → 0 ≤ s.targetFd → fd ≠ s.targetFd

theorem private_of_silent {e : Effect} (h : sendto e = none) : Private env src g e := by
  intro fd dst hsend
  rw [h] at hsend
  cases hsend

structure Isolated (env : Env ρ) (src : Endpoint) (g g' : Gateway ρ) : Prop where
  sessions : ∀ c s, s.clientAddr ≠ src → (g'.sessions.find c = some s ↔ g.sessions.find c = some s)
  fds : ∀ c s, g.sessions.find c = some s → s.clientAddr ≠ src →
    ∀ fd, g'.fdToSession fd = some c ↔ g.fdToSession fd = some c
  sends : ∃ effects, g'.log = g.log ++ effects ∧ ∀ e ∈ effects, Private env src g e

theorem Isolated.trans (h₁ : Isolated env src g g₁) (h₂ : Isolated env src g₁ g₂) : Isolated env src g g₂ := by
  obtain ⟨l₁, hl₁, hs₁⟩ := h₁.sends
  obtain ⟨l₂, hl₂, hs₂⟩ := h₂.sends
  refine ⟨fun c s hne => ?_, fun c s hs hne fd => ?_, l₁ ++ l₂, ?_, fun e he fd dst hsend => ?_⟩
  · exact (h₂.sessions c s hne).trans (h₁.sessions c s hne)
  · exact (h₂.fds c s ((h₁.sessions c s hne).mpr hs) hne fd).trans (h₁.fds c s hs hne fd)
  · rw [hl₂, hl₁, List.append_assoc]
  · rcases List.mem_append.mp he with he | he
    · exact hs₁ e he fd dst hsend
    · obtain ⟨hclient, hother⟩ := hs₂ e he fd dst hsend
      exact ⟨hclient, fun c s hs hne => hother c s ((h₁.sessions c s hne).mpr hs) hne⟩

theorem isolated_emit {g' : Gateway ρ} {effects : List Effect} (hs : g'.sessions = g.sessions)
    (hf : g'.fdToSession = g.fdToSession) (hl : g'.log = g.log ++ effects) (h : ∀ e ∈ effects, Private env src g e) :
    Isolated env src g g' :=
  ⟨fun _ _ _ => by rw [hs], fun _ _ _ _ _ => by rw [hf], effects, hl, h⟩

theorem isolated_silent {g' : Gateway ρ} (hs : g'.sessions = g.sessions) (hf : g'.fdToSession = g.fdToSession)
    (hl : g'.log = g.log) : Isolated env src g g' :=
  isolated_emit hs hf (hl.trans (List.append_nil _).symm) nofun

/-- Another session of `src` stands in the place of one. -/
theorem isolated_put (env : Env ρ) {c : UInt32} {s : Session ρ} (hs : g.sessions.find c = some s) (ho : s.clientAddr = src)
    (s' : Session ρ) (ho' : s'.clientAddr = src) : Isolated env src g (g.put c s') := by
  refine ⟨fun c' s₁ hne => ?_, fun _ _ _ _ _ => Iff.rfl, [], (List.append_nil _).symm, nofun⟩
  by_cases hc : c' = c
  · rw [hc, find_put (Option.isSome_iff_exists.mpr ⟨s, hs⟩) s', hs]
    refine iff_of_false (fun he => hne ?_) fun he => hne ?_
    · rwa [← Option.some.inj he]
    · rwa [← Option.some.inj he]
  · rw [Gateway.put, find_modify_of_ne hc]

section Acts

variable {c : UInt32} {s : Session ρ} (hg : Good env g) (hs : g.sessions.find c = some s)

include hg

theorem private_tunnel (bytes : Bytes) : Private env src g (.tunnel env.clientFd src bytes) := by
  intro fd dst hsend
  cases hsend
  exact ⟨fun _ => rfl, fun c s hs _ hfd => (hg.opened (index_of_find hs) hfd).2.symm⟩

include hs

theorem private_kcpOutput (ho : s.clientAddr = src) (packets : List Bytes) :
    ∀ e ∈ kcpOutput s.kcp packets, Private env src g e := by
  obtain ⟨_, _, hpeer, hfd⟩ := hg.entry (index_of_find hs)
  intro e he
  obtain ⟨m, _, rfl⟩ := List.mem_map.mp he
  rw [show s.kcp.clientFd = env.clientFd from hfd, show s.kcp.peer = s.clientAddr from hpeer, ho]
  exact private_tunnel hg m

theorem private_relay (ho : s.clientAddr = src) (hfd : 0 ≤ s.targetFd) (payload : Bytes) :
    Private env src g (.relay s.conv s.targetFd s.targetAddr payload) := by
  intro fd dst hsend
  cases hsend
  refine ⟨fun he => absurd he (hg.opened (index_of_find hs) hfd).2, fun c' s' hs' hne hfd' he => hne ?_⟩
  cases hg.same_fd (index_of_find hs) (index_of_find hs') hfd he.symm
  cases hs.symm.trans hs'
  exact ho

theorem isolated_connect (ho : s.clientAddr = src) {fd : Int} (hfresh : fd ∉ g.openFds) :
    Isolated env src g { g with openFds := fd :: g.openFds, fdToSession := emplaceFd g.fdToSession fd c } := by
  refine ⟨fun _ _ _ => Iff.rfl, fun c' s' hs' hne fd' => ?_, [], (List.append_nil _).symm, nofun⟩
  have hfree : g.fdToSession fd = none :=
    Option.eq_none_iff_forall_ne_some.mpr fun c₁ hc₁ => hfresh (hg.fd_open hc₁)
  have hcc : c ≠ c' := by
    rintro rfl
    cases hs.symm.trans hs'
    exact hne ho
  simp only [emplaceFd, hfree, Option.isSome_none, Bool.false_eq_true, if_false, Function.update_apply]
  split_ifs with he
  · rw [he, hfree]
    exact iff_of_false (fun h => hcc (Option.some.inj h)) (Option.some_ne_none c').symm
  · rfl

end Acts

theorem act_isolated {c : UInt32} (hg : Good env g) (h : Act env src c g g₁) : Isolated env src g g₁ := by
  have hgood := act_good h hg
  cases h with
  | pool p => exact isolated_silent rfl rfl rfl
  | clock => exact isolated_silent rfl rfl rfl
  | note hs ho hd marks hm =>
      refine isolated_emit rfl rfl rfl fun e he => ?_
      rcases hm e he with ⟨m, rfl⟩ | ⟨m, rfl⟩ <;> exact private_of_silent rfl
  | kcp hs ho hd k hk packets =>
      rename_i s
      have hp := isolated_put env hs ho { s with kcp := { s.kcp with kcp := k } } ho
      refine hp.trans (isolated_emit rfl rfl rfl ?_)
      exact private_kcpOutput hgood (find_put (Option.isSome_iff_exists.mpr ⟨s, hs⟩) _) ho packets
  | active hs ho hd marks hm =>
      rename_i s
      have hp := isolated_put env hs ho { s with lastActive := env.clock g.ticks } ho
      refine hp.trans (isolated_emit rfl rfl rfl fun e he => ?_)
      rcases hm e he with rfl | rfl <;> exact private_of_silent rfl
  | killed hs ho hd =>
      rename_i s
      have hm : Isolated env src g (markDying s g).2 := isolated_silent rfl rfl rfl
      exact hm.trans (isolated_put (g := (markDying s g).2) env hs ho (markDying s g).1 ho)
  | noSocket hs ho => exact isolated_put env hs ho _ ho
  | connected hs ho hd hp addr fd hfd hfresh =>
      rename_i s
      have hput := isolated_put
        (g := { g with openFds := fd :: g.openFds, fdToSession := emplaceFd g.fdToSession fd c }) env hs ho
        { s with targetAddr := addr, targetFd := fd } ho
      exact ((isolated_connect hg hs ho hfresh).trans hput).trans
        (isolated_emit rfl rfl rfl (List.forall_mem_singleton.mpr (private_of_silent rfl)))
  | relayed hs ho hd hp payload =>
      exact isolated_emit rfl rfl rfl (List.forall_mem_singleton.mpr (private_relay hg hs ho hp payload))
  | created hs _ _ arrange =>
      refine ⟨fun c' s hne => ?_, fun _ _ _ _ _ => Iff.rfl, _, rfl, List.forall_mem_singleton.mpr (private_of_silent rfl)⟩
      rw [find_withSession hs]
      split_ifs with hc
      · rw [hc, hs]
        exact iff_of_false (fun he => hne (Option.some.inj he ▸ rfl)) (Option.some_ne_none s).symm
      · rfl
  | timer n => exact isolated_emit rfl rfl rfl (List.forall_mem_singleton.mpr (private_of_silent rfl))
  | answered hs ho hd hp => exact isolated_emit rfl rfl rfl (List.forall_mem_singleton.mpr (private_tunnel hg _))

theorem acts_isolated {c : UInt32} (hg : Good env g) (h : Acts env src c g g₁) : Isolated env src g g₁ := by
  induction h with
  | refl => exact isolated_silent rfl rfl rfl
  | tail hacts hact ih => exact ih.trans (act_isolated (acts_good hacts hg) hact)

theorem other_clients_untouched (env : Env ρ) (g : Gateway ρ) (h : ReachableByCalls env g) (d : Datagram ρ)
    (more : Bool) (g' : Gateway ρ) (hd : handleDatagram env g d = .ok (more, g')) : Isolated env d.src g g' := by
  obtain ⟨c, hacts⟩ := handleDatagram_acts hd
  exact acts_isolated (reachableByCalls_good h) hacts

theorem other_client_untouched_by_connect :
    ∃ g more g', runEvents (sampleEnv .ofNat) (.init (sampleEnv .ofNat))
        [.register ⟨1, 1⟩ sampleOutcome.arrange, .register ⟨2, 2⟩ sampleOutcome.arrange] = .ok g ∧
      handleDatagram (sampleEnv .ofNat) g (sampleDatagram ⟨1, 1⟩ 1000 0 0 (packConnect (ascii "lobby") 5)) =
        .ok (more, g') ∧ Isolated (sampleEnv .ofNat) ⟨1, 1⟩ g g' := by
  have hrun : ∃ g more g', runEvents (sampleEnv .ofNat) (.init (sampleEnv .ofNat))
        [.register ⟨1, 1⟩ sampleOutcome.arrange, .register ⟨2, 2⟩ sampleOutcome.arrange] = .ok g ∧
      handleDatagram (sampleEnv .ofNat) g (sampleDatagram ⟨1, 1⟩ 1000 0 0 (packConnect (ascii "lobby") 5)) =
        .ok (more, g') := ⟨_, _, _, rfl, rfl⟩
  obtain ⟨g, more, g', hg, hd⟩ := hrun
  exact ⟨g, more, g', hg, hd, other_clients_untouched _ g (reachableByCalls_of_run .init hg) _ more g' hd⟩

end GameAccelerator.Isolation
