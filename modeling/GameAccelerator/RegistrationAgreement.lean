import GameAccelerator.Registration

namespace GameAccelerator.RegistrationAgreement

open CString Platform Tables NetUtils TunnelProtocol TunnelClient Kcp LosslessKcp SessionManager GatewayLoop GatewayMoves
  SessionInvariant SessionFrame Isolation ConvLedger GatewayLedger Registration

variable {ρ : Type} {env : Env ρ} {gw e : Endpoint} {c : UInt32} {s : Session ρ} {g g' : Gateway ρ} {S S' : System ρ}

/-- What is true of a system at all times. -/
structure Agreed (env : Env ρ) (S : System ρ) : Prop where
  good : Good env S.gateway
  kept : Kept (· ∈ S.torn) (ledger S.gateway)
  dying : ∀ c s, S.gateway.sessions.find c = some s → s.dying = true → (c, s.clientAddr) ∈ S.torn
  sent : ∀ e bytes, (e, bytes) ∈ S.sent → bytes = packRegister ∨ ∃ c, S.clients e = .adopted c
  untouched : ∀ e, (∀ c, S.clients e ≠ .adopted c) → Untouched env e S.gateway
  adopted : ∀ e c, S.clients e = .adopted c → (c, e) ∈ registrations S.gateway.log

theorem init_agreed (env : Env ρ) : Agreed env (.init env) where
  good := init_good env
  kept := ⟨rfl, rfl, nofun, nofun⟩
  dying := nofun
  sent := nofun
  untouched _ _ := ⟨nofun, nofun⟩
  adopted := nofun

theorem Agreed.held (h : Agreed env S) (c : UInt32) (s : Session ρ) (hs : S.gateway.sessions.find c = some s) :
    (c, s.clientAddr) ∈ registrations S.gateway.log :=
  h.kept.held c s.clientAddr (congrArg (Option.map Session.clientAddr) hs)

/-- A client that is not registered yet takes a step. -/
theorem Agreed.client (h : Agreed env S) (hold : ∀ c, S.clients e ≠ .adopted c) {client : Client}
    (hnew : ∀ c, client = .adopted c → (c, e) ∈ registrations S.gateway.log) {sent : List (Endpoint × Bytes)}
    (hsent : ∀ p ∈ sent, p ∈ S.sent ∨ p = (e, packRegister)) :
    Agreed env { S with clients := Function.update S.clients e client, sent := sent } := by
  refine ⟨h.good, h.kept, h.dying, fun e' bytes hm => ?_, fun e' he' => ?_, fun e' c he' => ?_⟩
  · rcases hsent _ hm with hm | hm
    · refine (h.sent e' bytes hm).imp_right fun ⟨c, hc⟩ => ⟨c, ?_⟩
      have hne : e' ≠ e := fun he => hold c (he ▸ hc)
      exact (Function.update_of_ne hne ..).trans hc
    · exact .inl (Prod.mk.inj hm).2
  · by_cases hee : e' = e
    · exact h.untouched e' (hee ▸ hold)
    · exact h.untouched e' fun c hc => he' c ((Function.update_of_ne hee ..).trans hc)
  · by_cases hee : e' = e
    · subst hee
      exact hnew c ((Function.update_self ..).symm.trans he')
    · exact h.adopted e' c ((Function.update_of_ne hee ..).symm.trans he')

theorem Agreed.talk (h : Agreed env S) (he : S.clients e = .adopted c) (bytes : Bytes) :
    Agreed env { S with sent := (e, bytes) :: S.sent } := by
  refine ⟨h.good, h.kept, h.dying, fun e' bytes' hm => ?_, h.untouched, h.adopted⟩
  rcases List.mem_cons.mp hm with hm | hm
  · cases hm
    exact .inr ⟨c, he⟩
  · exact h.sent e' bytes' hm

/-- The gateway takes a step. -/
theorem Agreed.gateway (h : Agreed env S) {torn : List (UInt32 × Endpoint)} (hgood : Good env g')
    (hkept : Kept (· ∈ torn) (ledger g'))
    (hdying : ∀ c s, g'.sessions.find c = some s → s.dying = true → (c, s.clientAddr) ∈ torn)
    (hlog : S.gateway.log <+: g'.log)
    (huntouched : ∀ e, (∀ c, S.clients e ≠ .adopted c) → Untouched env e S.gateway → Untouched env e g') :
    Agreed env { S with gateway := g', torn := torn } :=
  ⟨hgood, hkept, hdying, h.sent, fun e he => huntouched e he (h.untouched e he), fun e c he =>
    mem_registrations_mono hlog (h.adopted e c he)⟩

theorem few_of_grown {log log' : List Effect} (h : log <+: log') (hfew : (registrations log').length < UInt32.size) :
    (registrations log).length < UInt32.size := by
  obtain ⟨l, hl⟩ := h
  rw [← hl, registrations_append, List.length_append] at hfew
  exact Nat.lt_of_le_of_lt (Nat.le_add_right _ _) hfew

/-- A client whose datagrams are not all REGISTERs is registered. -/
theorem handleDatagram_untouched {d : Datagram ρ} {more : Bool} (h : Agreed env S) (hsent : (d.src, d.bytes) ∈ S.sent)
    (hd : handleDatagram env S.gateway d = .ok (more, g')) (he : ∀ c, S.clients e ≠ .adopted c)
    (hu : Untouched env e S.gateway) : Untouched env e g' := by
  by_cases hsrc : e = d.src
  · subst hsrc
    rcases handleDatagram_cases hd with rfl | ⟨block, pool, g₁, _, _, hreg, rfl⟩ | ⟨block, pool, c, s, _, hlen, _⟩
    · exact hu
    · obtain ⟨hs, ha⟩ := untouched_register (g := { S.gateway with pool := pool }) ⟨hu.sessions, hu.answers⟩ h.good
        h.held hreg
      exact ⟨hs, ha⟩
    · rcases h.sent _ _ hsent with hb | ⟨c, hc⟩
      · rw [hb] at hlen
        exact absurd hlen (by decide)
      · exact absurd hc (he c)
  · obtain ⟨c, hacts⟩ := handleDatagram_acts hd
    exact untouched_acts hu hacts h.good hsrc

theorem mem_tornBy {src : Endpoint} (hs : g'.sessions.find c = some s) (ho : s.clientAddr = src) (hd : s.dying = true)
    (hold : ∀ s₀, g.sessions.find c = some s₀ → s₀.dying = false) : (c, src) ∈ tornBy src g g' := by
  refine List.mem_map.mpr ⟨(c, s), List.mem_filter.mpr ⟨find_eq_some.mp hs, ?_⟩, rfl⟩
  have hne : (g.sessions.find c).map Session.dying ≠ some true := by
    intro hm
    obtain ⟨s₀, hs₀, hd₀⟩ := Option.map_eq_some_iff.mp hm
    exact absurd hd₀ (by rw [hold s₀ hs₀]; exact Bool.false_ne_true)
  simp [ho, hd, hne]

theorem Agreed.deliver {d : Datagram ρ} {more : Bool} (h : Agreed env S) (hsent : (d.src, d.bytes) ∈ S.sent)
    (hd : handleDatagram env S.gateway d = .ok (more, g')) (hfew : (registrations g'.log).length < UInt32.size) :
    Agreed env { S with gateway := g', torn := S.torn ++ tornBy d.src S.gateway g' } := by
  obtain ⟨c₀, hacts⟩ := handleDatagram_acts hd
  have hi := acts_isolated h.good hacts
  have hkept := acts_keep (fun h _ => act_kept h) hacts h.good (fun _ => h.kept) hfew
  refine h.gateway (acts_good hacts h.good) ?_ (fun c s hs hdy => ?_) (handleDatagram_log hd h.good)
    fun e he hu => handleDatagram_untouched h hsent hd he hu
  · exact hkept.lose (fun _ => List.mem_append_left _) (fun _ _ => id) fun _ _ => .inr
  · by_cases ho : s.clientAddr = d.src
    · by_cases hold : ∃ s₀, S.gateway.sessions.find c = some s₀ ∧ s₀.dying = true
      · obtain ⟨s₀, hs₀, hd₀⟩ := hold
        have ho₀ : s₀.clientAddr = d.src := by
          by_contra hne
          cases ((hi.sessions c s₀ hne).mpr hs₀).symm.trans hs
          exact hne ho
        exact List.mem_append_left _ (ho ▸ ho₀ ▸ h.dying c s₀ hs₀ hd₀)
      · refine List.mem_append_right _ (ho ▸ mem_tornBy hs rfl hdy fun s₀ hs₀ => ?_)
        exact Bool.eq_false_iff.mpr fun hd₀ => hold ⟨s₀, hs₀, hd₀⟩
    · exact List.mem_append_left _ (h.dying c s ((hi.sessions c s ho).mp hs) hdy)

theorem handleTargetReply_dying {replies : List Bytes} {c₀ : UInt32} {s₀ : Session ρ}
    (hs₀ : g.sessions.find c₀ = some s₀) (h : handleTargetReply env g c₀ replies = .ok g')
    (hs : g'.sessions.find c = some s) (hd : s.dying = true) : g.sessions.find c = some s := by
  obtain ⟨_, hs₁, rfl | ⟨hd₀, rfl⟩⟩ := handleTargetReply_cases h
  · exact hs
  · cases hs₀.symm.trans hs₁
    have hin : InHand env s₀.clientAddr c₀ g s₀ g := inHand_of_find hs₀ rfl hd₀
    have hsess := forwardAll_sessions env s₀ g replies
    rcases put_eq_some ((congrArg (·.find c₀) hsess).trans hs₀) hs with ⟨_, rfl⟩ | ⟨_, hs⟩
    · cases hd.symm.trans (hin.forwardAll replies).alive
    · exact (congrArg (·.find c) hsess).symm.trans hs

theorem Agreed.target {fd : Int} {replies : List Bytes} (h : Agreed env S)
    (hstep : step env S.gateway (.target fd replies) = .ok g') (hfew : (registrations g'.log).length < UInt32.size) :
    Agreed env { S with gateway := g' } := by
  have hlog := step_log hstep h.good
  simp only [step] at hstep
  split at hstep
  next =>
    cases hstep
    exact h
  next c₀ hc₀ =>
    obtain ⟨hfd, k, hk, hkfd⟩ := (h.good.fds fd c₀).mp hc₀
    obtain ⟨s₀, hs₀, rfl⟩ := Option.map_eq_some_iff.mp hk
    have hacts := handleTargetReply_acts hs₀ hstep
    refine h.gateway (acts_good hacts h.good) ?_ (fun c s hs hd => ?_) hlog fun e _ hu => ?_
    · exact acts_keep (fun h _ => act_kept h) hacts h.good (fun _ => h.kept) hfew
    · exact h.dying c s (handleTargetReply_dying hs₀ hstep hs hd) hd
    · apply untouched_acts hu hacts h.good
      intro he
      have hneg := (hu.sessions c₀ s₀ hs₀ he.symm).2
      exact absurd hfd (Int.not_le.mpr (hkfd ▸ hneg))

theorem Agreed.update (h : Agreed env S) (hK : env.kcp.SilentWhileFresh) :
    Agreed env { S with gateway := updateActive env S.gateway } := by
  refine h.gateway (updateActive_good h.good) ?_ (fun c s hs hd => ?_) (List.prefix_append _ _)
    fun e _ hu => untouched_update hu h.good hK
  · rw [updateActive_ledger]
    exact h.kept
  · obtain ⟨s₀, hs₀, rfl⟩ := Option.map_eq_some_iff.mp ((find_mapVals ..).symm.trans hs)
    dsimp only at hd ⊢
    split_ifs at hd ⊢
    · exact h.dying c s₀ hs₀ hd
    · exact h.dying c s₀ hs₀ hd

/-- A sweep that reaps nobody. -/
theorem sweepIdle_of_nobody {now : UInt64} (hg : Good env g) (hnobody : reapedConvs env now g = []) :
    (∀ c, (sweepIdle env now g.tick).sessions.find c = g.sessions.find c) ∧
      (sweepIdle env now g.tick).log = g.log ∧ (sweepIdle env now g.tick).nextConv = g.nextConv := by
  have hlog : ((g.sessions.entries.map Prod.snd).filter (idle env now)).map (fun s => Effect.reaped s.conv now) = [] := by
    rw [List.map_eq_nil_iff.mp hnobody]
    rfl
  rw [sweepIdle]
  split_ifs
  · exact ⟨fun _ => rfl, rfl, rfl⟩
  · refine ⟨fun c => (find_mapVals ..).trans ?_, (congrArg (g.log ++ ·) hlog).trans (List.append_nil _), rfl⟩
    cases hs : g.sessions.find c with
    | none => exact congrArg _ hs
    | some s =>
        have hidle : idle env now s = false := by
          apply Bool.eq_false_iff.mpr
          intro hi
          have hc := (mem_reapedConvs hg).mpr ⟨s, hs, hi⟩
          rw [hnobody] at hc
          exact List.not_mem_nil hc
        apply (congrArg _ hs).trans
        rw [Option.map_some, hidle]
        rfl

theorem Agreed.sweep (h : Agreed env S)
    (hnobody : reapedConvs env (env.clock S.gateway.ticks) S.gateway = []) :
    Agreed env { S with gateway := sweepIdle env (env.clock S.gateway.ticks) S.gateway.tick } := by
  obtain ⟨hfind, hlog, hnext⟩ := sweepIdle_of_nobody h.good hnobody
  refine h.gateway (sweepIdle_good (g := S.gateway.tick) _ h.good) ?_ (fun c s hs => h.dying c s ((hfind c).symm.trans hs))
    (hlog ▸ List.prefix_refl _) fun e _ hu => ?_
  · have hledger : ledger (sweepIdle env (env.clock S.gateway.ticks) S.gateway.tick) = ledger S.gateway := by
      simp only [ledger, hfind, hlog, hnext]
    rw [hledger]
    exact h.kept
  · exact untouched_of_quiet hu (fun c s hs => hu.sessions c s ((hfind c).symm.trans hs))
      (hlog.trans (List.append_nil _).symm) fun _ => List.not_mem_nil

theorem Agreed.flush (h : Agreed env S) (hfew : (registrations (flushTeardown S.gateway).log).length < UInt32.size) :
    Agreed env { S with gateway := flushTeardown S.gateway } := by
  obtain ⟨l, hl, _⟩ := flushTeardown_log S.gateway
  refine h.gateway (flushTeardown_good h.good) ?_ (fun c s hs hd => ?_) (hl ▸ List.prefix_append _ _)
    fun e _ hu => untouched_flush hu
  · refine flushTeardown_kept (fun c s hc hs => ?_) (fun _ => h.kept) hfew
    exact h.dying c s hs ((h.good.dying (index_of_find hs)).mpr hc)
  · rw [find_flushTeardown] at hs
    split_ifs at hs
    exact h.dying c s hs hd

theorem mem_inbox {bytes : Bytes} {log : List Effect} (h : bytes ∈ inbox env e log) :
    .tunnel env.clientFd e bytes ∈ log := by
  obtain ⟨x, hx, he⟩ := List.mem_filterMap.mp h
  cases x with
  | tunnel fd dst bytes' =>
      simp only [Option.ite_none_right_eq_some, Option.some.injEq] at he
      obtain ⟨⟨rfl, rfl⟩, rfl⟩ := he
      exact hx
  | _ => cases he

theorem Agreed.receive {i : Nat} {r : Reception} (h : Agreed env S) (hw : S.clients e = .waiting i)
    (hr : arrives env gw e S.gateway.log r = true) :
    Agreed env { S with clients := Function.update S.clients e (.received gw i r) } := by
  have hold : ∀ c, S.clients e ≠ .adopted c := fun c hc => nomatch hw.symm.trans hc
  refine h.client hold (fun c hc => ?_) fun p hp => .inl hp
  have hconv : r.conv gw = some c := by
    simp only [Client.received] at hc
    split at hc
    next c' hc' =>
      cases hc
      exact hc'
    next => split_ifs at hc
  cases r with
  | nothing => cases hconv
  | datagram src bytes =>
      simp only [Reception.conv, Option.ite_none_right_eq_some] at hconv
      simp only [arrives, hconv.1, bne_self_eq_false, Bool.false_or, List.contains_iff_mem] at hr
      obtain ⟨c', hc', rfl⟩ := (h.untouched e hold).answers bytes (mem_inbox hr)
      have hread := (readRegistered_packRegistered c' []).symm.trans hconv.2
      cases hread
      exact hc'

theorem next_gateway {a : Action ρ} (h : S.next env gw a = some S') :
    S'.gateway = S.gateway ∨ (∃ d more, handleDatagram env S.gateway d = .ok (more, S'.gateway)) ∨
      ∃ event, step env S.gateway event = .ok S'.gateway := by
  have hadvance : ∀ event, S.advance (step env S.gateway event) = some S' →
      ∃ event, step env S.gateway event = .ok S'.gateway := by
    intro event hs
    cases hstep : step env S.gateway event with
    | error f => cases (congrArg S.advance hstep).symm.trans hs
    | ok g =>
        cases (congrArg S.advance hstep).symm.trans hs
        exact ⟨event, hstep⟩
  cases a with
  | send e | receive e | talk e =>
      simp only [System.next] at h
      repeat' split at h
      all_goals cases h
      all_goals exact .inl rfl
  | deliver d =>
      simp only [System.next] at h
      split_ifs at h
      split at h
      next => cases h
      next more g hd =>
        cases h
        exact .inr (.inl ⟨d, more, hd⟩)
  | target fd replies => exact .inr (.inr (hadvance (.target fd replies) h))
  | update => exact .inr (.inr (hadvance .update h))
  | flush => exact .inr (.inr (hadvance .flush h))
  | sweep =>
      simp only [System.next] at h
      split_ifs at h
      exact .inr (.inr (hadvance _ h))

theorem agreed_next {a : Action ρ} (h : Agreed env S) (hK : env.kcp.SilentWhileFresh)
    (hfew : (registrations S'.gateway.log).length < UInt32.size) (ha : S.next env gw a = some S') : Agreed env S' := by
  cases a with
  | send e =>
      simp only [System.next] at ha
      split at ha
      next i hi =>
        cases ha
        refine h.client (fun c hc => nomatch hi.symm.trans hc) (fun c hc => ?_) fun p hp => ?_
        · cases hc
        · exact (List.mem_cons.mp hp).symm
      next => cases ha
  | receive e r =>
      simp only [System.next] at ha
      split at ha
      next i hi =>
        split_ifs at ha with hr
        cases ha
        exact h.receive hi hr
      next => cases ha
  | talk e bytes =>
      simp only [System.next] at ha
      split at ha
      next c hc =>
        cases ha
        exact h.talk hc bytes
      next => cases ha
  | deliver d =>
      simp only [System.next] at ha
      split_ifs at ha with hsent
      split at ha
      next => cases ha
      next more g hd =>
        cases ha
        exact h.deliver hsent hd hfew
  | target fd replies =>
      simp only [System.next] at ha
      cases hstep : step env S.gateway (.target fd replies) with
      | error f =>
          rw [hstep] at ha
          cases ha
      | ok g =>
          rw [hstep] at ha
          cases ha
          exact h.target hstep hfew
  | update =>
      cases ha
      exact h.update hK
  | sweep =>
      simp only [System.next] at ha
      split_ifs at ha with hnobody
      cases ha
      exact h.sweep hnobody
  | flush =>
      cases ha
      exact h.flush hfew

theorem next_good {a : Action ρ} (hg : Good env S.gateway) (h : S.next env gw a = some S') :
    Good env S'.gateway ∧ S.gateway.log <+: S'.gateway.log := by
  rcases next_gateway h with he | ⟨d, more, hd⟩ | ⟨event, hs⟩
  · rw [he]
    exact ⟨hg, List.prefix_refl _⟩
  · obtain ⟨c, hacts⟩ := handleDatagram_acts hd
    exact ⟨acts_good hacts hg, handleDatagram_log hd hg⟩
  · exact ⟨step_good hs hg, step_log hs hg⟩

theorem run_good {actions : List (Action ρ)} (hg : Good env S.gateway) (h : S.run env gw actions = some S') :
    S.gateway.log <+: S'.gateway.log := by
  induction actions generalizing S with
  | nil =>
      cases h
      exact List.prefix_refl _
  | cons a actions ih =>
      rw [System.run] at h
      split at h
      next => cases h
      next S₁ h₁ =>
        obtain ⟨hg₁, hlog⟩ := next_good hg h₁
        exact hlog.trans (ih hg₁ h)

theorem agreed_run {actions : List (Action ρ)} (h : Agreed env S) (hK : env.kcp.SilentWhileFresh)
    (hfew : (registrations S'.gateway.log).length < UInt32.size) (hrun : S.run env gw actions = some S') : Agreed env S' := by
  induction actions generalizing S with
  | nil =>
      cases hrun
      exact h
  | cons a actions ih =>
      rw [System.run] at hrun
      split at hrun
      next => cases hrun
      next S₁ h₁ =>
        obtain ⟨hg₁, _⟩ := next_good h.good h₁
        exact ih (agreed_next h hK (few_of_grown (run_good hg₁ hrun) hfew) h₁) hrun

theorem registration_agreement (env : Env ρ) (gw : Endpoint) (actions : List (Action ρ)) (S : System ρ)
    (hK : env.kcp.SilentWhileFresh) (hrun : (System.init env).run env gw actions = some S)
    (hfew : (registrations S.gateway.log).length < UInt32.size) :
    (∀ e c, S.clients e = .adopted c → (c, e) ∉ S.torn →
      ∃ s, S.gateway.sessions.find c = some s ∧ s.clientAddr = e) ∧
    ∀ e e' c, S.clients e = .adopted c → S.clients e' = .adopted c → e = e' := by
  have h := agreed_run (init_agreed env) hK hfew hrun
  refine ⟨fun e c he hc => ?_, fun e e' c he he' => ?_⟩
  · exact Option.map_eq_some_iff.mp ((h.kept.kept c e (h.adopted e c he)).resolve_left hc)
  · exact h.kept.same_holder hfew (h.adopted e c he) (h.adopted e' c he')

def sampleConnect : Datagram Link := sampleDatagram ⟨1, 1⟩ 1000 0 0 (packConnect (ascii "lobby") 5)

/-- Two clients register; the first connects, and after that a REGISTER of it
is delivered once more. -/
def lateRegister : List (Action Link) :=
  [.send ⟨1, 1⟩, .send ⟨2, 2⟩, .deliver ⟨⟨1, 1⟩, packRegister, sampleOutcome⟩,
    .deliver ⟨⟨2, 2⟩, packRegister, sampleOutcome⟩, .receive ⟨1, 1⟩ .nothing, .send ⟨1, 1⟩,
    .receive ⟨2, 2⟩ (.datagram ⟨9, 9⟩ (packRegistered 1001)), .receive ⟨1, 1⟩ (.datagram ⟨9, 9⟩ (packRegistered 1000)),
    .talk ⟨1, 1⟩ sampleConnect.bytes, .deliver sampleConnect, .deliver ⟨⟨1, 1⟩, packRegister, sampleOutcome⟩, .update,
    .flush]

theorem agreement_of_late_register :
    ∃ S s, (System.init (sampleEnv .ofNat)).run (sampleEnv .ofNat) ⟨9, 9⟩ lateRegister = some S ∧
      S.clients ⟨1, 1⟩ = .adopted 1000 ∧ S.gateway.sessions.find 1000 = some s ∧ s.clientAddr = ⟨1, 1⟩ := by
  have hrun : ((System.init (sampleEnv .ofNat)).run (sampleEnv .ofNat) ⟨9, 9⟩ lateRegister).map
      (fun S => (S.clients ⟨1, 1⟩, S.torn, registrations S.gateway.log)) =
      some (.adopted 1000, [], [(1000, ⟨1, 1⟩), (1001, ⟨2, 2⟩), (1002, ⟨1, 1⟩)]) := by
    decide +kernel
  obtain ⟨S, hS, hp⟩ := Option.map_eq_some_iff.mp hrun
  simp only [Prod.mk.injEq] at hp
  obtain ⟨he, ht, hr⟩ := hp
  obtain ⟨hheld, _⟩ := registration_agreement _ _ _ S lossless_silentWhileFresh hS (by rw [hr]; decide)
  obtain ⟨s, hs, ho⟩ := hheld _ _ he (by simp [ht])
  exact ⟨S, s, hS, he, hs, ho⟩

end GameAccelerator.RegistrationAgreement
