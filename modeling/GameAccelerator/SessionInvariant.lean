import GameAccelerator.GatewayMoves
import GameAccelerator.SessionIndex

namespace GameAccelerator.SessionInvariant

open CString Platform Tables NetUtils TunnelProtocol Kcp LosslessKcp SessionManager GatewayLoop GatewayMoves SessionIndex Relation

variable {ρ : Type} {env : Env ρ} {src : Endpoint} {c : UInt32} {s : Session ρ} {g g' : Gateway ρ}

def core (s : Session ρ) : Core :=
  ⟨s.conv, s.kcp.kcp.conv, s.kcp.peer, s.clientAddr, s.kcp.clientFd, s.targetFd, s.dying⟩

def index (g : Gateway ρ) : Index :=
  ⟨fun c => (g.sessions.find c).map core, g.fdToSession, g.toErase, g.openFds⟩

abbrev Good (env : Env ρ) (g : Gateway ρ) : Prop := Valid env.clientFd (index g)

theorem good_of_eq {x : Index} (he : index g = x) (hx : Valid env.clientFd x) : Good env g := by
  rwa [Good, he]

theorem index_of_find (hs : g.sessions.find c = some s) : (index g).sessions c = some (core s) :=
  congrArg (Option.map core) hs

theorem conv_eq (hg : Good env g) (hs : g.sessions.find c = some s) : s.conv = c :=
  (hg.entry (index_of_find hs)).1

theorem index_put (hs : g.sessions.find c = some s) (s' : Session ρ) :
    index (g.put c s') = (index g).set c (core s') := by
  simp only [index, Index.set, Gateway.put, Index.mk.injEq, and_self, and_true]
  funext c'
  by_cases hc : c' = c
  · subst hc
    rw [find_modify_self, hs, Function.update_self]
    rfl
  · rw [find_modify_of_ne hc, Function.update_of_ne hc]

theorem good_put (hg : Good env g) (hs : g.sessions.find c = some s) {s' : Session ρ} (h : core s' = core s) :
    Good env (g.put c s') := by
  rwa [Good, index_put hs, h, Index.set, Function.update_eq_self_iff.mpr (index_of_find hs).symm]

theorem index_killed (hs : g.sessions.find c = some s) (hc : s.conv = c) :
    index ((markDying s g).2.put c (markDying s g).1) = (index g).kill [c] := by
  rw [index_put (g := (markDying s g).2) hs]
  simp only [markDying, index, Index.set, Index.kill, hc, Index.mk.injEq, and_self, and_true]
  funext c'
  by_cases he : c' = c
  · simp [he, hs, core, hc]
  · simp [he, Function.comp_def]

theorem index_created {conv : UInt32} (hs : g.sessions.find conv = none) (arrange : Arrangement UInt32 (Session ρ))
    (s : Session ρ) :
    index { g with sessions := g.sessions.emplace arrange conv s } = (index g).set conv (core s) := by
  simp only [index, Index.set, Index.mk.injEq, and_self, and_true]
  funext c'
  rw [find_emplace hs]
  by_cases hc : c' = conv
  · rw [if_pos hc, hc, Function.update_self, Option.map_some]
  · rw [if_neg hc, Function.update_of_ne hc]

theorem act_good (h : Act env src c g g') (hg : Good env g) : Good env g' := by
  cases h with
  | pool => exact hg
  | clock => exact hg
  | note => exact hg
  | kcp hs _ _ k hk => exact good_put hg hs (by simp only [core, hk])
  | active hs => exact good_put hg hs rfl
  | killed hs ho hd =>
      rw [Good, index_killed hs (conv_eq hg hs)]
      apply hg.kill (List.nodup_singleton c)
      intro c' hc'
      rw [List.mem_singleton.mp hc']
      exact ⟨_, index_of_find hs, hd⟩
  | noSocket hs ho hd hp addr fd hfd =>
      have hk := index_of_find hs
      have hentry := hg.entry hk
      have hdying := hg.dying hk
      rw [Good, index_put hs]
      refine hg.set hentry hdying (fun k hk' => ?_) hfd
      cases hk.symm.trans hk'
      exact hp
  | connected hs ho hd hp addr fd hfd hfresh =>
      rename_i s
      have hv := hg.connect (index_of_find hs) hp hfd hfresh
      have he := index_put (g := { g with openFds := fd :: g.openFds, fdToSession := emplaceFd g.fdToSession fd c }) hs
        { s with targetAddr := addr, targetFd := fd }
      exact good_of_eq he hv
  | relayed => exact hg
  | created hs _ _ arrange =>
      have hk : (index g).sessions c = none := congrArg (Option.map core) hs
      apply good_of_eq (index_created hs arrange (newSession env.kcp env.clientFd c src))
      refine hg.set ⟨rfl, rfl, rfl, rfl⟩ (iff_of_false nofun fun hmem => ?_) (fun k hk' => ?_) (Int.negSucc_lt_zero 0)
      · obtain ⟨k, hk'⟩ := hg.listed c hmem
        cases hk.symm.trans hk'
      · cases hk.symm.trans hk'
  | timer => exact hg
  | answered => exact hg

theorem acts_good (h : Acts env src c g g') (hg : Good env g) : Good env g' := by
  induction h with
  | refl => exact hg
  | tail _ hact ih => exact act_good hact ih

theorem updateActive_good (hg : Good env g) : Good env (updateActive env g) := by
  have he : index (updateActive env g) = index g := by
    simp only [updateActive, index, Gateway.tick, Gateway.emit, Index.mk.injEq, and_self, and_true]
    funext c
    rw [find_mapVals, Option.map_map]
    congr 1
    funext s
    simp only [Function.comp_apply]
    split_ifs <;> rfl
  exact good_of_eq he hg

/-- The convs that a sweep puts on the list. -/
def reapedConvs (env : Env ρ) (now : UInt64) (g : Gateway ρ) : List UInt32 :=
  ((g.sessions.entries.map Prod.snd).filter (idle env now)).map Session.conv

theorem mem_reapedConvs (hg : Good env g) {now : UInt64} :
    c ∈ reapedConvs env now g ↔ ∃ s, g.sessions.find c = some s ∧ idle env now s = true := by
  simp only [reapedConvs, List.mem_map, List.mem_filter]
  constructor
  · rintro ⟨s, ⟨⟨e, he, rfl⟩, hi⟩, rfl⟩
    have hs : g.sessions.find e.1 = some e.2 := find_eq_some.mpr he
    rw [conv_eq hg hs]
    exact ⟨e.2, hs, hi⟩
  · rintro ⟨s, hs, hi⟩
    exact ⟨s, ⟨⟨(c, s), find_eq_some.mp hs, rfl⟩, hi⟩, conv_eq hg hs⟩

theorem nodup_reapedConvs (hg : Good env g) (now : UInt64) : (reapedConvs env now g).Nodup := by
  have hkeys : (g.sessions.entries.map Prod.snd).map Session.conv = g.sessions.entries.map Prod.fst := by
    rw [List.map_map]
    exact List.map_congr_left fun e he => conv_eq hg (find_eq_some.mpr he)
  exact (hkeys ▸ g.sessions.nodup).sublist (List.filter_sublist.map _)

theorem sweepIdle_good (now : UInt64) (hg : Good env g) : Good env (sweepIdle env now g) := by
  rw [sweepIdle]
  split_ifs
  · exact hg
  · refine good_of_eq (x := (index g).kill (reapedConvs env now g)) (Index.ext ?_ rfl rfl rfl)
      (hg.kill (nodup_reapedConvs hg now) fun c hc => ?_)
    · funext c
      simp only [index, Index.kill, find_mapVals]
      cases hs : g.sessions.find c with
      | none => rfl
      | some s =>
          have hm : c ∈ reapedConvs env now g ↔ idle env now s = true := by
            rw [mem_reapedConvs hg, hs]
            refine ⟨?_, fun hi => ⟨s, rfl, hi⟩⟩
            rintro ⟨_, h, hi⟩
            exact Option.some.inj h ▸ hi
          simp only [Option.map_some, hm]
          split_ifs <;> rfl
    · obtain ⟨s, hs, hi⟩ := (mem_reapedConvs hg).mp hc
      refine ⟨_, index_of_find hs, ?_⟩
      simp only [idle, Bool.and_eq_true, Bool.not_eq_true'] at hi
      exact hi.1

theorem teardown_eq (hs : g.sessions.find c = some s) :
    teardown g c = { g with
      sessions := g.sessions.erase c
      fdToSession := if s.targetFd ≥ 0 then Function.update g.fdToSession s.targetFd none else g.fdToSession
      openFds := if s.targetFd ≥ 0 then g.openFds.erase s.targetFd else g.openFds
      log := if s.targetFd ≥ 0 then g.log ++ [.epollDel s.targetFd, .close s.targetFd] else g.log } := by
  rw [teardown, hs]
  by_cases hfd : s.targetFd ≥ 0 <;> simp [hfd, Gateway.emit]

def upkeep : Effect → Bool
  | .epollDel _ | .close _ | .timer _ => true
  | _ => false

theorem teardown_log (g : Gateway ρ) (c : UInt32) :
    ∃ effects, (teardown g c).log = g.log ++ effects ∧ ∀ e ∈ effects, upkeep e := by
  cases hs : g.sessions.find c with
  | none =>
      rw [teardown, hs]
      exact ⟨[], (List.append_nil _).symm, nofun⟩
  | some s =>
      rw [teardown_eq hs]
      dsimp only
      split_ifs
      · exact ⟨_, rfl, by simp [upkeep]⟩
      · exact ⟨[], (List.append_nil _).symm, nofun⟩

theorem foldl_teardown_rest (l : List UInt32) (g : Gateway ρ) :
    (l.foldl teardown g).pool = g.pool ∧ (l.foldl teardown g).nextConv = g.nextConv := by
  induction l generalizing g with
  | nil => exact ⟨rfl, rfl⟩
  | cons c l ih =>
      rw [List.foldl_cons, (ih _).1, (ih _).2, teardown]
      split
      next => exact ⟨rfl, rfl⟩
      next => split_ifs <;> exact ⟨rfl, rfl⟩

theorem foldl_teardown_log (l : List UInt32) (g : Gateway ρ) :
    ∃ effects, (l.foldl teardown g).log = g.log ++ effects ∧ ∀ e ∈ effects, upkeep e := by
  induction l generalizing g with
  | nil => exact ⟨[], (List.append_nil _).symm, nofun⟩
  | cons c l ih =>
      obtain ⟨l₁, hl₁, h₁⟩ := teardown_log g c
      obtain ⟨l₂, hl₂, h₂⟩ := ih (teardown g c)
      refine ⟨l₁ ++ l₂, ?_, List.forall_mem_append.mpr ⟨h₁, h₂⟩⟩
      rw [List.foldl_cons, hl₂, hl₁, List.append_assoc]

theorem flushTeardown_log (g : Gateway ρ) :
    ∃ effects, (flushTeardown g).log = g.log ++ effects ∧ ∀ e ∈ effects, upkeep e := by
  obtain ⟨l, hl, h⟩ := foldl_teardown_log g.toErase g
  rw [flushTeardown, syncTimer, emit_log, hl, List.append_assoc]
  exact ⟨_, rfl, List.forall_mem_append.mpr ⟨h, List.forall_mem_singleton.mpr rfl⟩⟩

theorem find_teardown (g : Gateway ρ) (c c' : UInt32) :
    (teardown g c').sessions.find c = if c = c' then none else g.sessions.find c := by
  cases hs : g.sessions.find c' with
  | none =>
      rw [teardown, hs]
      split_ifs with hc
      · rw [hc, hs]
      · rfl
  | some s => rw [teardown_eq hs, find_erase]

theorem find_foldl_teardown (l : List UInt32) (g : Gateway ρ) (c : UInt32) :
    (l.foldl teardown g).sessions.find c = if c ∈ l then none else g.sessions.find c := by
  induction l generalizing g with
  | nil => rfl
  | cons c' l ih =>
      rw [List.foldl_cons, ih, find_teardown]
      by_cases hc : c = c' <;> by_cases hl : c ∈ l <;> simp [hc, hl]

theorem find_flushTeardown (g : Gateway ρ) (c : UInt32) :
    (flushTeardown g).sessions.find c = if c ∈ g.toErase then none else g.sessions.find c :=
  find_foldl_teardown g.toErase g c

theorem teardown_good {l : List UInt32} (hg : Valid env.clientFd { index g with toErase := c :: l }) :
    Valid env.clientFd { index (teardown g c) with toErase := l } := by
  obtain ⟨k, hk⟩ := hg.listed c List.mem_cons_self
  obtain ⟨s, hs, rfl⟩ := Option.map_eq_some_iff.mp hk
  have he : { index (teardown g c) with toErase := l } = Index.drop { index g with toErase := c :: l } c (core s) := by
    rw [teardown_eq hs]
    refine Index.ext ?_ rfl rfl rfl
    funext c'
    simp only [index, Index.drop, find_erase, Function.update_apply]
    split_ifs <;> rfl
  rw [he]
  exact hg.drop rfl hk

theorem foldl_teardown_good (l : List UInt32) (hg : Valid env.clientFd { index g with toErase := l }) :
    Valid env.clientFd { index (l.foldl teardown g) with toErase := [] } := by
  induction l generalizing g with
  | nil => exact hg
  | cons c l ih => exact ih (teardown_good hg)

theorem flushTeardown_good (hg : Good env g) : Good env (flushTeardown g) :=
  foldl_teardown_good g.toErase hg

theorem init_good (env : Env ρ) : Good env (.init env) where
  entry := nofun
  fds _ _ := iff_of_false nofun nofun
  dying := nofun
  listed := nofun
  nodup := List.nodup_nil
  opened := nofun
  client := env.clientOpen

section Keep

variable {P : Gateway ρ → Prop} (hact : ∀ {src c g g'}, Act env src c g g' → Good env g → P g → P g')

include hact

theorem acts_keep (h : Acts env src c g g') (hg : Good env g) (hp : P g) : P g' := by
  induction h with
  | refl => exact hp
  | tail hacts h ih => exact hact h (acts_good hacts hg) ih

theorem handleTunnelDatagram_keep {ds : List (Datagram ρ)} (h : handleTunnelDatagram env g ds = .ok g')
    (hg : Good env g) (hp : P g) : P g' := by
  have hboth : Good env g' ∧ P g' := by
    apply handleTunnelDatagram_rounds (P := fun g => Good env g ∧ P g) (fun h₁ hg => ?_) h ⟨hg, hp⟩
    obtain ⟨c, hacts⟩ := handleDatagram_acts h₁
    exact ⟨acts_good hacts hg.1, acts_keep hact hacts hg.1 hg.2⟩
  exact hboth.2

/-- A property that every act keeps is left to prove for the three calls that
are for no client. -/
theorem step_keep {e : Event ρ} (hupdate : P g → P (updateActive env g))
    (hsweep : e = .sweep → P g → P (sweepIdle env (env.clock g.ticks) g.tick))
    (hflush : e = .flush → P g → P (flushTeardown g)) (h : step env g e = .ok g') (hg : Good env g)
    (hp : P g) : P g' := by
  cases e with
  | register src arrange =>
      obtain ⟨c, hacts⟩ := registerClient_acts h
      exact acts_keep hact hacts hg hp
  | tunnel ds => exact handleTunnelDatagram_keep hact h hg hp
  | target fd replies =>
      simp only [step] at h
      split at h
      next =>
        cases h
        exact hp
      next c hc =>
        obtain ⟨_, k, hk, _⟩ := (hg.fds fd c).mp hc
        obtain ⟨s, hs, _⟩ := Option.map_eq_some_iff.mp hk
        exact acts_keep hact (handleTargetReply_acts hs h) hg hp
  | update =>
      cases h
      exact hupdate hp
  | sweep =>
      cases h
      exact hsweep rfl hp
  | flush =>
      cases h
      exact hflush rfl hp

end Keep

theorem step_good {e : Event ρ} (h : step env g e = .ok g') (hg : Good env g) : Good env g' :=
  step_keep (fun h hg _ => act_good h hg) updateActive_good (fun _ => sweepIdle_good (g := g.tick) _)
    (fun _ => flushTeardown_good) h hg hg

/-- What any sequence of calls reaches; a single message may come to a session
that is not dying, as in the loop that receives them. -/
inductive ReachableByCalls (env : Env ρ) : Gateway ρ → Prop
  | init : ReachableByCalls env (.init env)
  | step {g g' : Gateway ρ} (h : ReachableByCalls env g) (e : Event ρ) (he : step env g e = .ok g') :
      ReachableByCalls env g'
  | message {g : Gateway ρ} (h : ReachableByCalls env g) {c : UInt32} {s : Session ρ}
      (hs : g.sessions.find c = some s) (hd : s.dying = false) (o : Outcome ρ) (buf : Bytes) :
      ReachableByCalls env ((handleTunnelMsg env o c s g buf).2.2.put c (handleTunnelMsg env o c s g buf).2.1)

theorem reachableByCalls_of_run {events : List (Event ρ)} (hg : ReachableByCalls env g)
    (h : runEvents env g events = .ok g') : ReachableByCalls env g' := by
  induction events generalizing g with
  | nil =>
      cases h
      exact hg
  | cons e events ih =>
      rw [runEvents] at h
      split at h
      next => cases h
      next g₁ h₁ => exact ih (hg.step e h₁) h

theorem reachableByCalls_good (h : ReachableByCalls env g) : Good env g := by
  induction h with
  | init => exact init_good env
  | step _ e he ih => exact step_good he ih
  | message _ hs hd o buf ih => exact acts_good ((inHand_of_find hs rfl hd).handleTunnelMsg o buf).1 ih

structure TableInvariant (g : Gateway ρ) : Prop where
  entry : ∀ c s, g.sessions.find c = some s → s.conv = c ∧ s.kcp.peer = s.clientAddr ∧ s.kcp.kcp.conv = c
  fdIndex : ∀ fd c, g.fdToSession fd = some c ↔ 0 ≤ fd ∧ ∃ s, g.sessions.find c = some s ∧ s.targetFd = fd
  fdUnshared : ∀ c s c' s', g.sessions.find c = some s → g.sessions.find c' = some s' → 0 ≤ s.targetFd →
    s'.targetFd = s.targetFd → c' = c
  dying : ∀ c s, g.sessions.find c = some s → (s.dying = true ↔ c ∈ g.toErase)
  listed : ∀ c ∈ g.toErase, g.toErase.count c = 1 ∧ ∃ s, g.sessions.find c = some s

theorem table_invariant_of_reachable (env : Env ρ) (g : Gateway ρ) (h : ReachableByCalls env g) :
    TableInvariant g := by
  have hg := reachableByCalls_good h
  refine ⟨fun c s hs => ?_, fun fd c => ?_, fun c s c' s' hs hs' hfd he => ?_, fun c s hs => ?_, fun c hc => ?_⟩
  · obtain ⟨hconv, hkcp, hpeer, _⟩ := hg.entry (index_of_find hs)
    exact ⟨hconv, hpeer, hkcp⟩
  · refine (hg.fds fd c).trans (and_congr_right fun _ => ⟨?_, ?_⟩)
    · rintro ⟨k, hk, he⟩
      obtain ⟨s, hs, rfl⟩ := Option.map_eq_some_iff.mp hk
      exact ⟨s, hs, he⟩
    · rintro ⟨s, hs, he⟩
      exact ⟨core s, index_of_find hs, he⟩
  · exact hg.same_fd (index_of_find hs) (index_of_find hs') hfd he
  · exact hg.dying (index_of_find hs)
  · obtain ⟨k, hk⟩ := hg.listed c hc
    obtain ⟨s, hs, _⟩ := Option.map_eq_some_iff.mp hk
    exact ⟨List.count_eq_one_of_mem hg.nodup hc, s, hs⟩

def connectAndClose : List (Event Link) :=
  [.register ⟨1, 1⟩ sampleOutcome.arrange, .register ⟨2, 2⟩ sampleOutcome.arrange,
    .tunnel [sampleDatagram ⟨1, 1⟩ 1000 0 0 (packConnect (ascii "lobby") 5), sampleDatagram ⟨2, 2⟩ 1001 0 0 packClose]]

theorem table_invariant_of_connect_and_close :
    ∃ g, runEvents (sampleEnv .ofNat) (.init (sampleEnv .ofNat)) connectAndClose = .ok g ∧
      g.fdToSession 4 = some 1000 ∧ g.toErase = [1001] ∧ TableInvariant g := by
  have hrun : ∃ g, runEvents (sampleEnv .ofNat) (.init (sampleEnv .ofNat)) connectAndClose = .ok g ∧
      g.fdToSession 4 = some 1000 ∧ g.toErase = [1001] := ⟨_, rfl, rfl, rfl⟩
  obtain ⟨g, hg, hfd, herase⟩ := hrun
  exact ⟨g, hg, hfd, herase, table_invariant_of_reachable _ g (reachableByCalls_of_run .init hg)⟩

end GameAccelerator.SessionInvariant
