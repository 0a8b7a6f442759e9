import GameAccelerator.Drain
import GameAccelerator.SessionFrame
import GameAccelerator.TunnelMessages

namespace GameAccelerator.Relay

open CString Platform Tables NetUtils TunnelProtocol TunnelMessages Kcp SessionManager GatewayLoop GatewayMoves
  SessionInvariant SessionFrame Drain

variable {ρ : Type} {env : Env ρ} {resolve : Bytes → Option Endpoint} {c : UInt32} {s s' s₁ s₂ : Session ρ}
  {log log₁ log₂ : List Effect} {ms ms₁ ms₂ : List Message}

/-- The datagrams that went out for the session `c`. -/
def relaysOf (c : UInt32) (effects : List Effect) : List (Int × Endpoint × Bytes) :=
  effects.filterMap fun
    | .relay c' fd dst bytes => if c' = c then some (fd, dst, bytes) else none
    | _ => none

/-- The messages that KCP has completed for `c`. -/
def completesOf (c : UInt32) (effects : List Effect) : List Bytes :=
  effects.filterMap fun
    | .complete c' msg => if c' = c then some msg else none
    | _ => none

/-- The messages that were passed to `ikcp_send` for `c`. -/
def sendsOf (c : UInt32) (effects : List Effect) : List Bytes :=
  effects.filterMap fun
    | .ikcpSend c' msg => if c' = c then some msg else none
    | _ => none

def InPhase (s : Session ρ) : Phase → Prop
  | .pending => s.dying = false ∧ s.targetFd < 0
  | .connected addr => s.dying = false ∧ 0 ≤ s.targetFd ∧ s.targetAddr = addr
  | .closed => s.dying = true

/-- A reply in a DATA message, as far as the buffer holds it. -/
def replyMessage (reply : Bytes) : Bytes :=
  packData (reply.take maxReply) (.ofNat (reply.take maxReply).length)

/-- What the effects added to a log are worth to the session `s` of `c`, which
becomes `s'`: KCP has completed `completed`, the messages `ms` have been
handled and the replies `heard` passed on. -/
structure Progress (resolve : Bytes → Option Endpoint) (c : UInt32) (s : Session ρ) (log : List Effect)
    (completed : List Bytes) (ms : List Message) (heard : List Bytes) (s' : Session ρ) (log' : List Effect) : Prop where
  phase : ∀ φ, InPhase s φ → InPhase s' (φ.after resolve ms)
  target : 0 ≤ s.targetFd → s'.targetFd = s.targetFd ∧ s'.targetAddr = s.targetAddr
  opened : ∀ φ, InPhase s φ → φ.outputs resolve ms ≠ [] → 0 ≤ s'.targetFd
  effects : ∃ effects, log' = log ++ effects ∧ completesOf c effects = completed ∧
    (∀ φ, InPhase s φ → relaysOf c effects = (φ.outputs resolve ms).map fun x => (s'.targetFd, x.1, x.2)) ∧
    sendsOf c effects = heard.map replyMessage ∧
    (0 ≤ s.targetFd → ∀ c' dst bytes, .relay c' s.targetFd dst bytes ∈ effects → c' = c)

theorem Progress.trans {comp₁ comp₂ heard₁ heard₂ : List Bytes}
    (h₁ : Progress resolve c s log comp₁ ms₁ heard₁ s₁ log₁)
    (h₂ : Progress resolve c s₁ log₁ comp₂ ms₂ heard₂ s₂ log₂) :
    Progress resolve c s log (comp₁ ++ comp₂) (ms₁ ++ ms₂) (heard₁ ++ heard₂) s₂ log₂ := by
  obtain ⟨l₁, hl₁, hc₁, hr₁, hs₁, hf₁⟩ := h₁.effects
  obtain ⟨l₂, hl₂, hc₂, hr₂, hs₂, hf₂⟩ := h₂.effects
  refine ⟨fun φ hφ => ?_, fun hfd => ?_, fun φ hφ hne => ?_, l₁ ++ l₂, ?_, ?_, fun φ hφ => ?_, ?_, fun hfd c' dst bytes hm => ?_⟩
  · rw [after_append]
    exact h₂.phase _ (h₁.phase φ hφ)
  · obtain ⟨hfd₁, haddr₁⟩ := h₁.target hfd
    obtain ⟨hfd₂, haddr₂⟩ := h₂.target (hfd₁ ▸ hfd)
    exact ⟨hfd₂.trans hfd₁, haddr₂.trans haddr₁⟩
  · rw [outputs_append] at hne
    by_cases h0 : φ.outputs resolve ms₁ = []
    · rw [h0, List.nil_append] at hne
      exact h₂.opened _ (h₁.phase φ hφ) hne
    · have hfd := h₁.opened φ hφ h0
      rwa [(h₂.target hfd).1]
  · rw [hl₂, hl₁, List.append_assoc]
  · rw [completesOf, List.filterMap_append]
    exact congrArg₂ (· ++ ·) hc₁ hc₂
  · rw [relaysOf, List.filterMap_append, outputs_append, List.map_append]
    refine congrArg₂ (· ++ ·) ?_ (hr₂ _ (h₁.phase φ hφ))
    apply (hr₁ φ hφ).trans
    by_cases h0 : φ.outputs resolve ms₁ = []
    · rw [h0]
      rfl
    · rw [(h₂.target (h₁.opened φ hφ h0)).1]
  · rw [sendsOf, List.filterMap_append, List.map_append]
    exact congrArg₂ (· ++ ·) hs₁ hs₂
  · rcases List.mem_append.mp hm with hm | hm
    · exact hf₁ hfd c' dst bytes hm
    · have hfd₁ := (h₁.target hfd).1
      rw [← hfd₁] at hfd hm
      exact hf₂ hfd c' dst bytes hm

theorem inPhase_alike (h : Alike s s') {φ : Phase} (hφ : InPhase s φ) : InPhase s' φ := by
  cases φ with
  | pending => exact ⟨h.dying.trans hφ.1, h.targetFd ▸ hφ.2⟩
  | connected addr => exact ⟨h.dying.trans hφ.1, h.targetFd ▸ hφ.2.1, h.targetAddr.trans hφ.2.2⟩
  | closed => exact h.dying.trans hφ

section Projections

variable {effects : List Effect}

theorem relaysOf_eq_nil (h : ∀ e ∈ effects, messageOf e ≠ some c) : relaysOf c effects = [] := by
  apply List.filterMap_eq_nil_iff.mpr
  intro e he
  cases e with
  | relay c' => exact if_neg fun hc => h _ he (congrArg some hc)
  | _ => rfl

theorem completesOf_eq_nil (h : ∀ e ∈ effects, messageOf e ≠ some c) : completesOf c effects = [] := by
  apply List.filterMap_eq_nil_iff.mpr
  intro e he
  cases e with
  | complete c' => exact if_neg fun hc => h _ he (congrArg some hc)
  | _ => rfl

theorem sendsOf_eq_nil (h : ∀ e ∈ effects, messageOf e ≠ some c) : sendsOf c effects = [] := by
  apply List.filterMap_eq_nil_iff.mpr
  intro e he
  cases e with
  | ikcpSend c' => exact if_neg fun hc => h _ he (congrArg some hc)
  | _ => rfl

end Projections

theorem progress_quiet {effects : List Effect} (hlike : Alike s s') (h : ∀ e ∈ effects, Elsewhere c s e) :
    Progress resolve c s log [] [] [] s' (log ++ effects) := by
  have hm : ∀ e ∈ effects, messageOf e ≠ some c := fun e he => (h e he).1
  refine ⟨fun φ hφ => inPhase_alike hlike hφ, fun _ => ⟨hlike.targetFd, hlike.targetAddr⟩, fun _ _ hne => absurd rfl hne,
    effects, rfl, completesOf_eq_nil hm, fun _ _ => relaysOf_eq_nil hm, sendsOf_eq_nil hm, fun hfd c' dst bytes he => ?_⟩
  exact absurd rfl ((h _ he).2 hfd c' dst bytes)

theorem progress_alike (hlike : Alike s s') (log : List Effect) : Progress resolve c s log [] [] [] s' log := by
  have h : Progress resolve c s log [] [] [] s' (log ++ []) := progress_quiet hlike nofun
  rwa [List.append_nil] at h

section Messages

variable {o : Outcome ρ} {g : Gateway ρ} {m : Message}

/-- A message that sends nothing in any phase the session can be in. -/
theorem progress_silent {effects : List Effect}
    (hphase : ∀ φ, InPhase s φ → InPhase s' (φ.next resolve m) ∧ φ.output m = [])
    (htarget : 0 ≤ s.targetFd → s'.targetFd = s.targetFd ∧ s'.targetAddr = s.targetAddr)
    (he : ∀ e ∈ effects, messageOf e = none) : Progress resolve c s log [] [m] [] s' (log ++ effects) := by
  have hm : ∀ e ∈ effects, messageOf e ≠ some c := fun e h hc => nomatch (he e h).symm.trans hc
  have hout : ∀ φ, InPhase s φ → φ.outputs resolve [m] = [] := by
    intro φ hφ
    rw [Phase.outputs, (hphase φ hφ).2]
    rfl
  refine ⟨fun φ hφ => (hphase φ hφ).1, htarget, fun φ hφ hne => absurd (hout φ hφ) hne, effects, rfl,
    completesOf_eq_nil hm, fun φ hφ => ?_, sendsOf_eq_nil hm, fun _ c' dst bytes h => ?_⟩
  · rw [hout φ hφ]
    exact relaysOf_eq_nil hm
  · cases he _ h

theorem progress_ignored (hphase : ∀ φ, InPhase s φ → φ.next resolve m = φ ∧ φ.output m = []) :
    Progress resolve c s log [] [m] [] s log := by
  have h : Progress resolve c s log [] [m] [] s (log ++ []) := by
    refine progress_silent (fun φ hφ => ?_) (fun _ => ⟨rfl, rfl⟩) nofun
    rw [(hphase φ hφ).1]
    exact ⟨hφ, (hphase φ hφ).2⟩
  rwa [List.append_nil] at h

theorem progress_killed (hphase : ∀ φ, InPhase s φ → φ.next resolve m = .closed ∧ φ.output m = []) :
    Progress resolve c s log [] [m] [] { s with dying := true } log := by
  have h : Progress resolve c s log [] [m] [] { s with dying := true } (log ++ []) := by
    refine progress_silent (fun φ hφ => ?_) (fun _ => ⟨rfl, rfl⟩) nofun
    rw [(hphase φ hφ).1]
    exact ⟨rfl, (hphase φ hφ).2⟩
  rwa [List.append_nil] at h

theorem pending_of_neg (hd : s.dying = false) (hfd : s.targetFd < 0) {φ : Phase} (hφ : InPhase s φ) : φ = .pending := by
  cases φ with
  | pending => rfl
  | connected addr => exact absurd hφ.2.1 (Int.not_le.mpr hfd)
  | closed => cases hd.symm.trans hφ

theorem closed_of_dying (hd : s.dying = true) {φ : Phase} (hφ : InPhase s φ) : φ = .closed := by
  cases φ with
  | closed => rfl
  | pending => cases hd.symm.trans hφ.1
  | connected addr => cases hd.symm.trans hφ.1

/-- What comes to a dying session changes nothing. -/
theorem progress_closed (hd : s.dying = true) (ms : List Message) (log : List Effect) :
    Progress resolve c s log [] ms [] s log := by
  refine ⟨fun φ hφ => ?_, fun _ => ⟨rfl, rfl⟩, fun φ hφ hne => absurd ?_ hne, [], (List.append_nil _).symm, rfl,
    fun φ hφ => ?_, rfl, nofun⟩
  · rw [closed_of_dying hd hφ, after_closed]
    exact hd
  · rw [closed_of_dying hd hφ, outputs_closed]
  · rw [closed_of_dying hd hφ, outputs_closed]
    rfl

theorem connected_of_nonneg (hd : s.dying = false) (hfd : 0 ≤ s.targetFd) {φ : Phase} (hφ : InPhase s φ) :
    φ = .connected s.targetAddr := by
  cases φ with
  | pending => exact absurd hfd (Int.not_le.mpr hφ.2)
  | connected addr => rw [hφ.2.2]
  | closed => cases hd.symm.trans hφ

theorem progress_relayed {payload : Bytes} (h : payload.length ≤ maxReply) (hconv : s.conv = c)
    (hd : s.dying = false) (hfd : 0 ≤ s.targetFd) {t : UInt64} :
    Progress resolve c s log [] [.data payload h] [] { s with lastActive := t }
      (log ++ [.relay s.conv s.targetFd s.targetAddr (((Message.data payload h).encode.drop dataHeadLen).take
        (UInt16.ofNat payload.length).toNat)]) := by
  rw [slice_data h]
  refine ⟨fun φ hφ => ?_, fun _ => ⟨rfl, rfl⟩, fun _ _ _ => hfd, _, rfl, rfl, fun φ hφ => ?_, rfl,
    fun _ c' dst bytes he => ?_⟩
  · rw [connected_of_nonneg hd hfd hφ]
    exact ⟨hd, hfd, rfl⟩
  · rw [connected_of_nonneg hd hfd hφ]
    simp [relaysOf, hconv, Phase.outputs, Phase.output]
  · rw [(Effect.relay.inj (List.mem_singleton.mp he)).1, hconv]

/-- One message in the loop, with a socket at hand. -/
theorem handleTunnelMsg_progress (env : Env ρ) (c : UInt32) (g : Gateway ρ) (m : Message) (hsock : ∀ fds, 0 ≤ o.socket fds)
    (hconv : s.conv = c) (hd : s.dying = false) :
    let r := handleTunnelMsg env o c s g m.encode
    Progress (GatewayLoop.resolve env o.kvGet) c s g.log [] [m] [] r.2.1 r.2.2.log ∧
      r.2.1.kcp = s.kcp ∧ r.2.1.conv = c ∧ r.1 = r.2.1.dying := by
  cases m with
  | connect route h =>
      by_cases hfd : 0 ≤ s.targetFd
      · rw [handleTunnelMsg_again (parse_connect h) rfl hfd]
        refine ⟨progress_ignored fun φ hφ => ?_, rfl, hconv, hd.symm⟩
        rw [connected_of_nonneg hd hfd hφ]
        exact ⟨rfl, rfl⟩
      · have hneg := Int.not_le.mp hfd
        cases hr : GatewayLoop.resolve env o.kvGet (Message.connect route h).encode with
        | none =>
            rw [handleTunnelMsg_unresolved (parse_connect h) rfl hneg hr]
            refine ⟨progress_killed fun φ hφ => ?_, rfl, hconv, rfl⟩
            rw [pending_of_neg hd hneg hφ, Phase.next, hr]
            exact ⟨rfl, rfl⟩
        | some addr =>
            rw [handleTunnelMsg_connected (parse_connect h) rfl hneg hr (hsock g.openFds)]
            refine ⟨progress_silent (fun φ hφ => ?_)
              (fun h0 => absurd h0 hfd) (List.forall_mem_singleton.mpr rfl), rfl, hconv, hd.symm⟩
            rw [pending_of_neg hd hneg hφ, Phase.next, hr]
            exact ⟨⟨hd, hsock g.openFds, rfl⟩, rfl⟩
  | data payload h =>
      by_cases hfd : 0 ≤ s.targetFd
      · rw [handleTunnelMsg_data (parse_data h) rfl hfd]
        refine ⟨progress_relayed h hconv hd hfd, rfl, hconv, hd.symm⟩
      · have hneg := Int.not_le.mp hfd
        rw [handleTunnelMsg_early (parse_data h) rfl hneg]
        refine ⟨progress_ignored fun φ hφ => ?_, rfl, hconv, hd.symm⟩
        rw [pending_of_neg hd hneg hφ]
        exact ⟨rfl, rfl⟩
  | close =>
      rw [handleTunnelMsg_close parse_close rfl]
      refine ⟨progress_killed fun φ hφ => ?_, rfl, hconv, rfl⟩
      cases φ with
      | closed => cases hd.symm.trans hφ
      | _ => exact ⟨rfl, rfl⟩

theorem alike_popped (env : Env ρ) (s : Session ρ) (q : List Bytes) : Alike s (popped env s q) := ⟨rfl, rfl, rfl⟩

theorem drain_progress {fuel : Nat} (g : Gateway ρ) (hsock : ∀ fds, 0 ≤ o.socket fds) (hconv : s.conv = c)
    (hd : s.dying = false) (hq : s.kcp.kcp.rcvQueue = ms.map Message.encode) (hf : ms.length < fuel) :
    ∃ r, drain env o c fuel s g = .ok r ∧
      Progress (GatewayLoop.resolve env o.kvGet) c s g.log [] ms [] r.2.1 r.2.2.log ∧
      (r.2.1.dying = false → r.2.1.kcp.kcp.rcvQueue = []) := by
  induction fuel generalizing s g ms with
  | zero => exact absurd hf (Nat.not_lt_zero _)
  | succ fuel ih =>
      cases ms with
      | nil => exact ⟨_, drain_nil hq, progress_alike ⟨rfl, rfl, rfl⟩ _, fun _ => hq⟩
      | cons m ms =>
          obtain ⟨hm, hkcp, hc, hgone⟩ :=
            handleTunnelMsg_progress (s := popped env s (ms.map Message.encode)) env c g m hsock hconv hd
          have hp := (progress_alike (alike_popped env s _) g.log).trans hm
          rw [drain_cons hq (encode_pos m) (encode_le m)]
          by_cases hdying : (handleTunnelMsg env o c (popped env s (ms.map Message.encode)) g m.encode).1 = true
          · have hclosed := hgone.symm.trans hdying
            exact ⟨_, if_pos hdying, hp.trans (progress_closed hclosed ms _), fun hd' => nomatch hclosed.symm.trans hd'⟩
          · rw [if_neg hdying]
            have hqueue : (handleTunnelMsg env o c (popped env s (ms.map Message.encode)) g m.encode).2.1.kcp.kcp.rcvQueue =
                ms.map Message.encode := by
              rw [hkcp]
              rfl
            obtain ⟨r, hr, hpr, hempty⟩ := ih (handleTunnelMsg env o c (popped env s (ms.map Message.encode)) g m.encode).2.2
              hc (hgone.symm.trans (Bool.eq_false_iff.mpr hdying)) hqueue (Nat.lt_of_succ_lt_succ hf)
            exact ⟨r, hr, hp.trans hpr, hempty⟩

end Messages

end GameAccelerator.Relay
