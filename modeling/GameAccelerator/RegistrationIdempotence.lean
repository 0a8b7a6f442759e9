import GameAccelerator.GatewayLedger
import GameAccelerator.PoolBalance
import GameAccelerator.SessionFrame

namespace GameAccelerator.RegistrationIdempotence

open CString Platform Tables NetUtils TunnelProtocol Kcp SessionManager GatewayLoop GatewayMoves SessionInvariant
  SessionFrame ConvLedger GatewayLedger PoolBalance Relation

variable {ρ : Type} {env : Env ρ} {src e : Endpoint} {c c' : UInt32} {s s' : Session ρ} {g g₁ g' : Gateway ρ}

/-- Neither dying nor connected. -/
def IsPending (s : Session ρ) : Prop := s.dying = false ∧ s.targetFd < 0

/-- The session `c` of `e` is pending. -/
def Awaits (g : Gateway ρ) (e : Endpoint) (c : UInt32) : Prop :=
  ∃ s, g.sessions.find c = some s ∧ s.clientAddr = e ∧ IsPending s

/-- No client has two pending sessions. -/
def Single (g : Gateway ρ) : Prop := ∀ e c c', Awaits g e c → Awaits g e c' → c' = c

theorem not_awaits_of_none (h : pendingOf g e = none) (c : UInt32) : ¬ Awaits g e c := by
  rintro ⟨s, hs, ho, hd, hfd⟩
  have hnone := List.find?_eq_none.mp (Option.map_eq_none_iff.mp h) (c, s) (find_eq_some.mp hs)
  apply hnone
  simp [hd, hfd, sameAddr_iff.mpr ho]

theorem awaits_put {c₁ : UInt32} (hw : Awaits g₁ e c₁) (hs : g.sessions.find c = some s)
    (hg : g₁.sessions = (g.put c s').sessions) (ho : s'.clientAddr = s.clientAddr)
    (hp : IsPending s' → IsPending s) : Awaits g e c₁ := by
  obtain ⟨s₁, hs₁, ho₁, hp₁⟩ := hw
  rw [hg] at hs₁
  rcases put_eq_some hs hs₁ with ⟨rfl, rfl⟩ | ⟨_, hs₁⟩
  · exact ⟨s, hs, ho.symm.trans ho₁, hp hp₁⟩
  · exact ⟨s₁, hs₁, ho₁, hp₁⟩

theorem awaits_map {f : Session ρ → Session ρ} (hw : Awaits g' e c)
    (hg : g'.sessions.find c = (g.sessions.find c).map f)
    (ho : ∀ s, (f s).clientAddr = s.clientAddr) (hp : ∀ s, IsPending (f s) → IsPending s) : Awaits g e c := by
  obtain ⟨s₁, hs₁, ho₁, hp₁⟩ := hw
  rw [hg] at hs₁
  obtain ⟨s, hs, rfl⟩ := Option.map_eq_some_iff.mp hs₁
  exact ⟨s, hs, (ho s).symm.trans ho₁, hp s hp₁⟩

/-- A session that is pending after an act was pending before it, but for the
one that the act has created, and then its client had none. -/
theorem act_awaits (h : Act env src c g g₁) {c₁ : UInt32} (hw : Awaits g₁ e c₁) :
    Awaits g e c₁ ∨ c₁ = c ∧ e = src ∧ pendingOf g src = none := by
  cases h with
  | pool | clock | note | relayed | timer | answered => exact .inl hw
  | kcp hs | active hs => exact .inl (awaits_put hw hs rfl rfl fun hp => hp)
  | killed hs => exact .inl (awaits_put hw hs rfl rfl fun hp => Bool.noConfusion hp.1)
  | noSocket hs ho hd hp => exact .inl (awaits_put hw hs rfl rfl fun _ => ⟨hd, hp⟩)
  | connected hs ho hd hp => exact .inl (awaits_put hw hs rfl rfl fun _ => ⟨hd, hp⟩)
  | created hfree hp ha arrange =>
      obtain ⟨s₁, hs₁, ho₁, hp₁⟩ := hw
      rw [find_withSession hfree] at hs₁
      split_ifs at hs₁ with hc
      · cases hs₁
        exact .inr ⟨hc, ho₁.symm, hp⟩
      · exact .inl ⟨s₁, hs₁, ho₁, hp₁⟩

theorem act_single (h : Act env src c g g₁) (hg : Single g) : Single g₁ := by
  intro e c₁ c₂ hw₁ hw₂
  rcases act_awaits h hw₁ with hw₁ | ⟨hc₁, rfl, hnone⟩
  · rcases act_awaits h hw₂ with hw₂ | ⟨_, rfl, hnone⟩
    · exact hg e c₁ c₂ hw₁ hw₂
    · exact absurd hw₁ (not_awaits_of_none hnone c₁)
  · rcases act_awaits h hw₂ with hw₂ | ⟨hc₂, _, _⟩
    · exact absurd hw₂ (not_awaits_of_none hnone c₂)
    · exact hc₂.trans hc₁.symm

theorem Single.of_awaits (hg : Single g) (h : ∀ e c, Awaits g' e c → Awaits g e c) : Single g' := by
  intro e c c' hw hw'
  exact hg e c c' (h e c hw) (h e c' hw')

theorem updateActive_single (hg : Single g) : Single (updateActive env g) := by
  apply hg.of_awaits
  intro e c hw
  apply awaits_map hw (find_mapVals ..)
  · intro s
    dsimp only
    split_ifs <;> rfl
  · intro s hp
    dsimp only at hp
    split_ifs at hp <;> exact hp

theorem sweepIdle_single (now : UInt64) (hg : Single g) : Single (sweepIdle env now g) := by
  rw [sweepIdle]
  split_ifs
  · exact hg
  · apply hg.of_awaits
    intro e c hw
    apply awaits_map hw (find_mapVals ..)
    · intro s
      split_ifs <;> rfl
    · intro s hp
      split_ifs at hp
      · exact Bool.noConfusion hp.1
      · exact hp

theorem flushTeardown_single (hg : Single g) : Single (flushTeardown g) := by
  apply hg.of_awaits
  rintro e c ⟨s, hs, how⟩
  rw [find_flushTeardown] at hs
  split_ifs at hs
  exact ⟨s, hs, how⟩

theorem reachable_single (h : ReachableByCalls env g) : Single g := by
  induction h with
  | init =>
      rintro e c c' ⟨s, hs, _⟩
      cases hs
  | step hr e he ih =>
      exact step_keep (fun h _ => act_single h) updateActive_single (fun _ hs => sweepIdle_single _ hs)
        (fun _ => flushTeardown_single) he (reachableByCalls_good hr) ih
  | message hr hs hd o buf ih =>
      exact acts_keep (fun h _ => act_single h) ((inHand_of_find hs rfl hd).handleTunnelMsg o buf).1
        (reachableByCalls_good hr) ih

/-- The sessions that have been created for `e`. -/
def givenTo (e : Endpoint) (g : Gateway ρ) : List (UInt32 × Endpoint) := (registrations g.log).filter fun r => r.2 = e

/-- From `g` to `g'` the session `c` of `e` has stayed pending and no other one
has been created for `e`. -/
structure Undisturbed (e : Endpoint) (c : UInt32) (g g' : Gateway ρ) : Prop where
  awaits : Awaits g' e c
  given : givenTo e g' = givenTo e g

theorem givenTo_of_ledger (hl : ledger g' = ledger g) : givenTo e g' = givenTo e g :=
  congrArg (List.filter fun r : UInt32 × Endpoint => r.2 = e) (congrArg Ledger.given hl)

theorem Undisturbed.trans (h₁ : Undisturbed e c g g₁) (h₂ : Undisturbed e c g₁ g') : Undisturbed e c g g' :=
  ⟨h₂.awaits, h₂.given.trans h₁.given⟩

theorem Undisturbed.emit {effects : List Effect} (h : Undisturbed e c g g') (he : registrations effects = []) :
    Undisturbed e c g (g'.emit effects) :=
  ⟨h.awaits, (givenTo_of_ledger (ledger_emit he)).trans h.given⟩

/-- A frame for the session that leaves its owner. -/
theorem awaits_of_frame (hw : Awaits g e c) (hf : ∀ s, g.sessions.find c = some s → Frame c s g g')
    (ho : (ledger g').holder c = (ledger g).holder c) : Awaits g' e c := by
  obtain ⟨s, hs, hown, hd, hfd⟩ := hw
  obtain ⟨⟨s', hs', hlike⟩, _⟩ := hf s hs
  have howner : some s'.clientAddr = some s.clientAddr := by
    simpa only [ledger, hs, hs', Option.map_some] using ho
  exact ⟨s', hs', (Option.some.inj howner).trans hown, hlike.dying.trans hd, hlike.targetFd ▸ hfd⟩

theorem undisturbed_of_frame (hw : Awaits g e c) (hf : ∀ s, g.sessions.find c = some s → Frame c s g g')
    (hl : ledger g' = ledger g) : Undisturbed e c g g' :=
  ⟨awaits_of_frame hw hf (by rw [hl]), givenTo_of_ledger hl⟩

theorem act_undisturbed (h : Act env src c' g g₁) (hc : c' ≠ c) (hg : Good env g) (hw : Awaits g e c) :
    Undisturbed e c g g₁ := by
  have hf : ∀ s, g.sessions.find c = some s → Frame c s g g₁ := fun s => act_frame h hc hg
  rcases act_ledger h with hl | ⟨hnone, _, _, hl⟩
  · exact undisturbed_of_frame hw hf hl
  · have hne : src ≠ e := by
      intro he
      exact not_awaits_of_none hnone c (he ▸ hw)
    constructor
    · apply awaits_of_frame hw hf
      rw [hl, Ledger.give]
      exact Function.update_of_ne hc.symm ..
    · have hreg : registrations g₁.log = registrations g.log ++ [(c', src)] := congrArg Ledger.given hl
      rw [givenTo, hreg, List.filter_append, List.filter_singleton]
      simp [hne, givenTo]

theorem acts_undisturbed (h : Acts env src c' g g₁) (hc : c' ≠ c) (hg : Good env g) (hw : Awaits g e c) :
    Undisturbed e c g g₁ := by
  induction h with
  | refl => exact ⟨hw, rfl⟩
  | tail hacts h ih => exact ih.trans (act_undisturbed h hc (acts_good hacts hg) ih.awaits)

/-- What is done for a session that is there creates none. -/
theorem acts_ledger (h : Acts env src c g g₁) (hp : Present g c) : ledger g₁ = ledger g := by
  induction h with
  | refl => rfl
  | tail hacts h ih =>
      rcases act_ledger h with hl | ⟨_, hfree, _⟩
      · exact hl.trans ih
      · have hheld := congrFun (congrArg Ledger.holder ih) c
        obtain ⟨s, hs⟩ := Option.isSome_iff_exists.mp hp
        simp only [ledger, hfree, hs, Option.map_none, Option.map_some] at hheld
        exact absurd hheld (Option.some_ne_none _).symm

theorem registerClient_undisturbed {arrange : Arrangement UInt32 (Session ρ)}
    (h : registerClient env arrange g src = .ok g') (hg : Good env g) (hw : Awaits g e c) : Undisturbed e c g g' := by
  rcases registerClient_cases h with ⟨_, _, _, _, _, _, rfl⟩ | ⟨conv, hnone, halloc, hfree, rfl⟩
  · exact Undisturbed.emit ⟨hw, rfl⟩ rfl
  · have hc : conv ≠ c := by
      rintro rfl
      obtain ⟨s, hs, _⟩ := hw
      cases hfree.symm.trans hs
    have hmade := act_undisturbed (.created hfree hnone halloc arrange) hc hg hw
    exact (hmade.emit rfl).emit rfl

theorem handleDatagram_undisturbed {d : Datagram ρ} {more : Bool} (h : handleDatagram env g d = .ok (more, g'))
    (hg : Good env g) (hw : Awaits g e c)
    (hown : d.src = e → d.bytes.take blockSize = packRegister ∨ Awaits g' e c) : Undisturbed e c g g' := by
  rcases handleDatagram_cases h with rfl | ⟨block, pool, g₁, _, _, h₁, rfl⟩ |
    ⟨block, pool, c₁, s₁, _, hlong, hs₁, ho₁, hd₁, hseg⟩
  · exact ⟨hw, rfl⟩
  · have hu := registerClient_undisturbed (g := { g with pool := pool }) h₁ hg hw
    exact ⟨hu.awaits, hu.given⟩
  · have hacts := ((inHand_of_find hs₁ ho₁ hd₁).pool pool).handleSegment hseg
    by_cases hc : c₁ = c
    · subst hc
      obtain ⟨s, hs, ho, _⟩ := hw
      cases hs₁.symm.trans hs
      rcases hown (ho₁.symm.trans ho) with hreg | hw'
      · rw [hreg] at hlong
        exact absurd hlong (by decide)
      · exact ⟨hw', givenTo_of_ledger (acts_ledger hacts (Option.isSome_iff_exists.mpr ⟨s₁, hs₁⟩))⟩
    · exact acts_undisturbed hacts hc hg hw

theorem handleTunnelDatagram_undisturbed {ds : List (Datagram ρ)} (h : handleTunnelDatagram env g ds = .ok g')
    (hg : Good env g) (hw : Awaits g e c) (hown : ∀ d ∈ ds, d.src = e → d.bytes.take blockSize = packRegister) :
    Undisturbed e c g g' := by
  induction ds generalizing g with
  | nil =>
      cases h
      exact ⟨hw, rfl⟩
  | cons d ds ih =>
      obtain ⟨hd, hds⟩ := List.forall_mem_cons.mp hown
      rw [handleTunnelDatagram] at h
      split at h
      next => cases h
      next g₁ h₁ =>
        cases h
        exact handleDatagram_undisturbed h₁ hg hw fun he => .inl (hd he)
      next g₁ h₁ =>
        have hu := handleDatagram_undisturbed h₁ hg hw fun he => .inl (hd he)
        obtain ⟨c₁, hacts⟩ := handleDatagram_acts h₁
        exact hu.trans (ih h (acts_good hacts hg) hu.awaits hds)

/-- The datagrams of `e` in a batch are REGISTERs, and a sweep does not reap its
session `c`. -/
def Spares (env : Env ρ) (e : Endpoint) (c : UInt32) (g : Gateway ρ) : Event ρ → Prop
  | .tunnel ds => ∀ d ∈ ds, d.src = e → d.bytes.take blockSize = packRegister
  | .sweep => .reaped c (env.clock g.ticks) ∉ (sweepIdle env (env.clock g.ticks) g.tick).log.drop g.log.length
  | _ => True

/-- A socket of a target is one of a connected session. -/
theorem target_of_other {fd : Int} {c₁ : UInt32} (hg : Good env g) (hw : Awaits g e c)
    (hfd : g.fdToSession fd = some c₁) : ∃ s, g.sessions.find c₁ = some s ∧ c₁ ≠ c := by
  obtain ⟨hopen, k, hk, hkfd⟩ := (hg.fds fd c₁).mp hfd
  obtain ⟨s₁, hs₁, rfl⟩ := Option.map_eq_some_iff.mp hk
  refine ⟨s₁, hs₁, ?_⟩
  rintro rfl
  obtain ⟨s, hs, _, _, hneg⟩ := hw
  cases hs₁.symm.trans hs
  exact absurd hopen (Int.not_le.mpr (hkfd ▸ hneg))

theorem flushTeardown_undisturbed (hg : Good env g) (hw : Awaits g e c) : Undisturbed e c g (flushTeardown g) := by
  obtain ⟨s, hs, ho, hd, hfd⟩ := hw
  have hc : c ∉ g.toErase := by
    intro hc
    exact absurd ((hg.dying (index_of_find hs)).mpr hc) (Bool.eq_false_iff.mp hd)
  have hfind : (flushTeardown g).sessions.find c = some s := by rw [find_flushTeardown, if_neg hc, hs]
  refine ⟨⟨s, hfind, ho, hd, hfd⟩, ?_⟩
  rw [givenTo, givenTo, show registrations (flushTeardown g).log = registrations g.log from
    congrArg Ledger.given (flushTeardown_ledger g)]

theorem step_undisturbed {ev : Event ρ} (h : step env g ev = .ok g') (hev : Spares env e c g ev) (hg : Good env g)
    (hw : Awaits g e c) : Undisturbed e c g g' := by
  cases ev with
  | register src arrange => exact registerClient_undisturbed h hg hw
  | tunnel ds => exact handleTunnelDatagram_undisturbed h hg hw hev
  | target fd replies =>
      simp only [step] at h
      split at h
      next =>
        cases h
        exact ⟨hw, rfl⟩
      next c₁ hc₁ =>
        obtain ⟨s₁, hs₁, hc⟩ := target_of_other hg hw hc₁
        exact acts_undisturbed (handleTargetReply_acts hs₁ h) hc hg hw
  | update =>
      cases h
      exact undisturbed_of_frame hw (fun s => updateActive_frame) (updateActive_ledger env g)
  | sweep =>
      cases h
      apply undisturbed_of_frame hw
      · intro s hs
        obtain ⟨hfind, hlog⟩ := sweepIdle_frame (g := g.tick) hs hg hev
        exact ⟨hfind, hlog⟩
      · exact sweepIdle_ledger env _ g.tick
  | flush =>
      cases h
      exact flushTeardown_undisturbed hg hw

/-- What may happen while the session `c` of `e` is pending: any call that
spares it, and any datagram that is not a CONNECT or CLOSE for it, that is,
that leaves it pending if it comes from `e`. -/
inductive Between (env : Env ρ) (e : Endpoint) (c : UInt32) : Gateway ρ → Gateway ρ → Prop
  | event {g g' : Gateway ρ} (ev : Event ρ) (hev : Spares env e c g ev) (h : step env g ev = .ok g') :
      Between env e c g g'
  | datagram {g g' : Gateway ρ} (d : Datagram ρ) (more : Bool) (hown : d.src = e → Awaits g' e c)
      (h : handleDatagram env g d = .ok (more, g')) : Between env e c g g'

theorem step_datagram {d : Datagram ρ} {more : Bool} (h : handleDatagram env g d = .ok (more, g')) :
    step env g (.tunnel [d]) = .ok g' := by
  rw [step, handleTunnelDatagram, h]
  cases more <;> rfl

theorem between_reachable (h : ReflTransGen (Between env e c) g g') (hg : ReachableByCalls env g) :
    ReachableByCalls env g' := by
  induction h with
  | refl => exact hg
  | tail _ h ih =>
      cases h with
      | event ev hev h => exact ih.step ev h
      | datagram d more hown h => exact ih.step (.tunnel [d]) (step_datagram h)

theorem between_undisturbed (h : ReflTransGen (Between env e c) g g') (hg : ReachableByCalls env g)
    (hw : Awaits g e c) : Undisturbed e c g g' := by
  induction h with
  | refl => exact ⟨hw, rfl⟩
  | tail hrun h ih =>
      have hgood := reachableByCalls_good (between_reachable hrun hg)
      apply ih.trans
      cases h with
      | event ev hev h => exact step_undisturbed h hev hgood ih.awaits
      | datagram d more hown h => exact handleDatagram_undisturbed h hgood ih.awaits fun he => .inr (hown he)

/-- The scan finds the one pending session whatever the order of the table. -/
theorem registerClient_of_awaits (hg : Good env g) (hsingle : Single g) (hw : Awaits g e c)
    (arrange : Arrangement UInt32 (Session ρ)) :
    registerClient env arrange g e = .ok (g.emit [.tunnel env.clientFd e (packRegistered c)]) := by
  rw [registerClient]
  split
  next o ho =>
    obtain ⟨c', hs, hown, hp⟩ := pendingOf_eq_some ho
    cases hsingle e c c' hw ⟨o, hs, hown, hp⟩
    rw [conv_eq hg hs]
  next hnone => exact absurd hw (not_awaits_of_none hnone c)

theorem handleDatagram_of_awaits (hg : ReachableByCalls env g) (hw : Awaits g e c) {d : Datagram ρ} (he : d.src = e)
    (hd : d.bytes.take blockSize = packRegister) :
    handleDatagram env g d = .ok (true, g.emit [.tunnel env.clientFd e (packRegistered c)]) := by
  rw [handleDatagram]
  split
  next hnil => cases hnil.symm.trans (pool_of_reachable hg)
  next block pool hpool =>
    have hgood : Good env g := reachableByCalls_good hg
    have hsingle : Single g := reachable_single hg
    have hanswer := registerClient_of_awaits (g := { g with pool := pool }) hgood hsingle hw d.outcome.arrange
    rw [hd, if_pos (by decide), he, hanswer]
    dsimp only [Gateway.emit]
    rw [← hpool]

theorem registration_idempotent (env : Env ρ) (g : Gateway ρ) (hg : ReachableByCalls env g) :
    (∀ e c c', Awaits g e c → Awaits g e c' → c' = c) ∧
    ∀ e c, Awaits g e c → ∀ g', ReflTransGen (Between env e c) g g' →
      givenTo e g' = givenTo e g ∧
      (∀ arrange, registerClient env arrange g' e = .ok (g'.emit [.tunnel env.clientFd e (packRegistered c)])) ∧
      ∀ d, d.src = e → d.bytes.take blockSize = packRegister →
        handleDatagram env g' d = .ok (true, g'.emit [.tunnel env.clientFd e (packRegistered c)]) := by
  refine ⟨reachable_single hg, fun e c hw g' hrun => ?_⟩
  have hu := between_undisturbed hrun hg hw
  have hg' := between_reachable hrun hg
  refine ⟨hu.given, ?_, fun d => handleDatagram_of_awaits hg' hu.awaits⟩
  exact registerClient_of_awaits (reachableByCalls_good hg') (reachable_single hg') hu.awaits

/-- The second client registers in between. -/
theorem first_client_registers_again :
    ∃ g g', runEvents (sampleEnv .ofNat) (.init (sampleEnv .ofNat)) [.register ⟨1, 1⟩ sampleOutcome.arrange] = .ok g ∧
      step (sampleEnv .ofNat) g (.register ⟨2, 2⟩ sampleOutcome.arrange) = .ok g' ∧
      registerClient (sampleEnv .ofNat) sampleOutcome.arrange g' ⟨1, 1⟩ =
        .ok (g'.emit [.tunnel (sampleEnv .ofNat).clientFd ⟨1, 1⟩ (packRegistered 1000)]) := by
  have hrun : ∃ g g', runEvents (sampleEnv .ofNat) (.init (sampleEnv .ofNat))
        [.register ⟨1, 1⟩ sampleOutcome.arrange] = .ok g ∧
      step (sampleEnv .ofNat) g (.register ⟨2, 2⟩ sampleOutcome.arrange) = .ok g' ∧
      ∃ s, g.sessions.find 1000 = some s ∧ s.clientAddr = ⟨1, 1⟩ ∧ s.dying = false ∧ s.targetFd = -1 :=
    ⟨_, _, rfl, rfl, _, rfl, rfl, rfl, rfl⟩
  obtain ⟨g, g', hg, hstep, s, hs, ho, hd, hfd⟩ := hrun
  have hw : Awaits g ⟨1, 1⟩ 1000 := ⟨s, hs, ho, hd, hfd ▸ Int.negSucc_lt_zero 0⟩
  have hbetween : Between (sampleEnv .ofNat) ⟨1, 1⟩ 1000 g g' :=
    .event (.register ⟨2, 2⟩ sampleOutcome.arrange) trivial hstep
  have hidem := (registration_idempotent _ g (reachableByCalls_of_run .init hg)).2 ⟨1, 1⟩ 1000 hw g' (.single hbetween)
  exact ⟨g, g', hg, hstep, hidem.2.1 _⟩

end GameAccelerator.RegistrationIdempotence
