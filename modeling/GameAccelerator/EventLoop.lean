import GameAccelerator.PoolBalance

namespace GameAccelerator.EventLoop

open CString Platform Tables NetUtils TunnelProtocol Kcp LosslessKcp SessionManager GatewayLoop GatewayMoves
  SessionIndex SessionInvariant PoolBalance Relation

variable {ρ : Type} {env : Env ρ} {timerFd : Int} {src : Endpoint} {c : UInt32} {s : Session ρ}
  {g g₁ g₂ g' : Gateway ρ}

/-- A descriptor that `epoll_wait` returns, with what there is to be read from
it: datagrams of clients or replies of a game server. -/
structure Ready (ρ : Type) where
  fd : Int
  datagrams : List (Datagram ρ)
  replies : List Bytes

def watch (fds : List Int) : Effect → List Int
  | .epollAdd fd => fd :: fds
  | .epollDel fd => fds.filter (· ≠ fd)
  | _ => fds

/-- The descriptors that `epoll_wait` can return, by the calls of `epoll_ctl`
so far. -/
def interest (env : Env ρ) (timerFd : Int) (log : List Effect) : List Int :=
  log.foldl watch [env.clientFd, timerFd]

def dispatch (env : Env ρ) (timerFd : Int) (g : Gateway ρ) (r : Ready ρ) : Except Fault (Gateway ρ) :=
  if r.fd = env.clientFd then handleTunnelDatagram env g r.datagrams
  else if r.fd = timerFd then
    let g := updateActive env g
    .ok (sweepIdle env (env.clock g.ticks) g.tick)
  else
    match g.fdToSession r.fd with
    | none => .ok g
    | some c => handleTargetReply env g c r.replies

def dispatchAll (env : Env ρ) (timerFd : Int) : Gateway ρ → List (Ready ρ) → Except Fault (Gateway ρ)
  | g, [] => .ok g
  | g, r :: rs =>
      match dispatch env timerFd g r with
      | .error f => .error f
      | .ok g => dispatchAll env timerFd g rs

def teardownPending (g : Gateway ρ) : Bool := !g.toErase.isEmpty

/-- One round of `EventLoop::run`. -/
def runBatch (env : Env ρ) (timerFd : Int) (g : Gateway ρ) (batch : List (Ready ρ)) : Except Fault (Gateway ρ) :=
  match dispatchAll env timerFd g batch with
  | .error f => .error f
  | .ok g => .ok (if teardownPending g then flushTeardown g else g)

/-- The calls that the dispatch of a descriptor comes to, one for each
datagram. -/
def turns (env : Env ρ) (timerFd : Int) (r : Ready ρ) : List (Event ρ) :=
  if r.fd = env.clientFd then r.datagrams.map fun d => .tunnel [d]
  else if r.fd = timerFd then [.update, .sweep]
  else [.target r.fd r.replies]

def batchTurns (env : Env ρ) (timerFd : Int) (batch : List (Ready ρ)) : List (Event ρ) :=
  batch.flatMap (turns env timerFd)

section Faults

variable {f : Fault} {o : Outcome ρ}

theorem drain_error {fuel : Nat} (h : drain env o c fuel s g = .error f) : f = .diverges := by
  induction fuel generalizing s g with
  | zero =>
      cases h
      rfl
  | succ fuel ih =>
      simp only [drain] at h
      split_ifs at h
      exact ih h

theorem handleDatagram_error {d : Datagram ρ} (h : handleDatagram env g d = .error f) : f = .diverges := by
  simp only [handleDatagram] at h
  split at h
  next => cases h
  next =>
    split_ifs at h
    · split at h
      next hreg =>
        cases h
        simp only [registerClient] at hreg
        split at hreg
        next => cases hreg
        next =>
          split at hreg
          next =>
            cases hreg
            rfl
          next => cases hreg
      next => cases h
    · split at h
      next => cases h
      next =>
        split_ifs at h
        simp only [handleSegment] at h
        split at h
        next hdrain =>
          cases h
          exact drain_error hdrain
        next => split_ifs at h

theorem handleTunnelDatagram_error {ds : List (Datagram ρ)} (h : handleTunnelDatagram env g ds = .error f) :
    f = .diverges := by
  induction ds generalizing g with
  | nil => cases h
  | cons d ds ih =>
      rw [handleTunnelDatagram] at h
      split at h
      next hd =>
        cases h
        exact handleDatagram_error hd
      next => cases h
      next => exact ih h

theorem find_of_fd (hg : Good env g) {fd : Int} (h : g.fdToSession fd = some c) :
    ∃ s, g.sessions.find c = some s ∧ s.targetFd = fd := by
  obtain ⟨_, k, hk, hfd⟩ := (hg.fds fd c).mp h
  obtain ⟨s, hs, rfl⟩ := Option.map_eq_some_iff.mp hk
  exact ⟨s, hs, hfd⟩

theorem handleTargetReply_ok (hs : g.sessions.find c = some s) (replies : List Bytes) :
    ∃ g', handleTargetReply env g c replies = .ok g' := by
  cases hd : s.dying with
  | true => exact ⟨_, handleTargetReply_of_dying hs hd replies⟩
  | false => exact ⟨_, handleTargetReply_of_alive hs hd replies⟩

/-- No session is used after it has been erased. -/
theorem dispatch_error {r : Ready ρ} (hg : Good env g) (h : dispatch env timerFd g r = .error f) : f = .diverges := by
  simp only [dispatch] at h
  split_ifs at h
  · exact handleTunnelDatagram_error h
  · split at h
    next => cases h
    next c hc =>
      obtain ⟨s, hs, _⟩ := find_of_fd hg hc
      obtain ⟨g', hg'⟩ : ∃ g', handleTargetReply env g c r.replies = .ok g' := handleTargetReply_ok hs r.replies
      cases hg'.symm.trans h

end Faults

section Turns

theorem handleDatagram_more {d : Datagram ρ} {more : Bool} (hp : g.pool ≠ [])
    (h : handleDatagram env g d = .ok (more, g')) : more = true := by
  simp only [handleDatagram] at h
  split at h
  next hnil => exact absurd hnil hp
  next =>
    split_ifs at h
    · split at h
      next => cases h
      next =>
        cases h
        rfl
    · cases h
      rfl
    · split at h
      next =>
        cases h
        rfl
      next =>
        split_ifs at h
        · cases h
          rfl
        · simp only [handleSegment] at h
          split at h
          next => cases h
          next =>
            split_ifs at h <;> cases h <;> rfl

theorem handleTunnelDatagram_turns (hg : ReachableByCalls env g) (ds : List (Datagram ρ)) :
    handleTunnelDatagram env g ds = runEvents env g (ds.map fun d => .tunnel [d]) := by
  induction ds generalizing g with
  | nil => rfl
  | cons d ds ih =>
      have hpool : g.pool ≠ [] := by
        rw [pool_of_reachable hg]
        exact List.cons_ne_nil _ _
      rw [List.map_cons, runEvents, handleTunnelDatagram, step, handleTunnelDatagram]
      cases hd : handleDatagram env g d with
      | error f => rfl
      | ok r =>
          obtain ⟨more, g₁⟩ := r
          cases handleDatagram_more hpool hd
          have hstep : step env g (.tunnel [d]) = .ok g₁ := by
            rw [step, handleTunnelDatagram, hd]
            rfl
          exact ih (hg.step _ hstep)

theorem dispatch_turns (hg : ReachableByCalls env g) (timerFd : Int) (r : Ready ρ) :
    dispatch env timerFd g r = runEvents env g (turns env timerFd r) := by
  rw [dispatch, turns]
  split_ifs
  · exact handleTunnelDatagram_turns hg r.datagrams
  · rfl
  · exact (runEvents_singleton env g (.target r.fd r.replies)).symm

/-- A batch is the run of its turns. -/
theorem dispatchAll_turns (hg : ReachableByCalls env g) (timerFd : Int) (batch : List (Ready ρ)) :
    dispatchAll env timerFd g batch = runEvents env g (batchTurns env timerFd batch) := by
  induction batch generalizing g with
  | nil => rfl
  | cons r batch ih =>
      rw [dispatchAll, dispatch_turns hg, batchTurns, List.flatMap_cons]
      cases hr : runEvents env g (turns env timerFd r) with
      | error f => exact (runEvents_append_error hr _).symm
      | ok g₁ =>
          rw [runEvents_append hr]
          exact ih (reachableByCalls_of_run hg hr)

end Turns

/-- What has to do with the session `s` of the entry `c`: its traffic in either
direction. -/
def Concerns (c : UInt32) (s : Session ρ) : Effect → Prop
  | .relay c' fd _ _ => c' = c ∨ fd = s.targetFd
  | .ikcpSend c' _ | .complete c' _ | .accepted c' _ | .replied c' _ | .reaped c' _ => c' = c
  | _ => False

/-- What may happen from `g` to `g'` before the flush. -/
structure Allowed (g g' : Gateway ρ) (e : Effect) : Prop where
  dying : ∀ c s, g.sessions.find c = some s → s.dying = true → ¬ Concerns c s e
  add : ∀ fd, e = .epollAdd fd → (g'.fdToSession fd).isSome
  del : ∀ fd, e ≠ .epollDel fd
  close : ∀ fd, e ≠ .close fd

/-- Neither a call of epoll nor a close. -/
def Plain : Effect → Prop
  | .epollAdd _ | .epollDel _ | .close _ => False
  | _ => True

theorem allowed_of_plain {e : Effect} (hp : Plain e)
    (hd : ∀ c s, g.sessions.find c = some s → s.dying = true → ¬ Concerns c s e) : Allowed g g' e := by
  refine ⟨hd, ?_, ?_, ?_⟩
  all_goals
    rintro fd rfl
    exact hp.elim

/-- From `g` to `g'` nothing has been torn down and no dying session touched. -/
structure Within (g g' : Gateway ρ) : Prop where
  mapped : ∀ fd c, g.fdToSession fd = some c → g'.fdToSession fd = some c
  kept : ∀ c s, g.sessions.find c = some s →
    ∃ s', g'.sessions.find c = some s' ∧ s'.clientAddr = s.clientAddr ∧ (s.dying = true → s' = s)
  log : ∃ effects, g'.log = g.log ++ effects ∧ ∀ e ∈ effects, Allowed g g' e

theorem Within.refl (g : Gateway ρ) : Within g g :=
  ⟨fun _ _ h => h, fun _ s hs => ⟨s, hs, rfl, fun _ => rfl⟩, [], (List.append_nil _).symm, List.forall_mem_nil _⟩

theorem Within.trans (h₁ : Within g g₁) (h₂ : Within g₁ g₂) : Within g g₂ := by
  refine ⟨fun fd c h => h₂.mapped fd c (h₁.mapped fd c h), fun c s hs => ?_, ?_⟩
  · obtain ⟨s₁, hs₁, ho₁, hd₁⟩ := h₁.kept c s hs
    obtain ⟨s₂, hs₂, ho₂, hd₂⟩ := h₂.kept c s₁ hs₁
    refine ⟨s₂, hs₂, ho₂.trans ho₁, fun hd => ?_⟩
    have he := hd₁ hd
    rw [hd₂ (he ▸ hd), he]
  · obtain ⟨l₁, hl₁, ha₁⟩ := h₁.log
    obtain ⟨l₂, hl₂, ha₂⟩ := h₂.log
    refine ⟨l₁ ++ l₂, by rw [hl₂, hl₁, List.append_assoc], fun e he => ?_⟩
    rcases List.mem_append.mp he with he | he
    · have ha := ha₁ e he
      refine ⟨ha.dying, fun fd hfd => ?_, ha.del, ha.close⟩
      obtain ⟨c, hc⟩ := Option.isSome_iff_exists.mp (ha.add fd hfd)
      exact Option.isSome_iff_exists.mpr ⟨c, h₂.mapped fd c hc⟩
    · have ha := ha₂ e he
      refine ⟨fun c s hs hd => ?_, ha.add, ha.del, ha.close⟩
      obtain ⟨s₁, hs₁, _, hd₁⟩ := h₁.kept c s hs
      exact ha.dying c s (hd₁ hd ▸ hs₁) hd

/-- A step that leaves the indexes alone and writes the entry `c` only, a
session that is not dying. -/
theorem within_put {s' : Session ρ} {effects : List Effect} (hs : g.sessions.find c = some s) (hd : s.dying = false)
    (hfind : g'.sessions = (g.put c s').sessions) (ho : s'.clientAddr = s.clientAddr)
    (hmap : ∀ fd c, g.fdToSession fd = some c → g'.fdToSession fd = some c)
    (hlog : g'.log = g.log ++ effects) (h : ∀ e ∈ effects, Allowed g g' e) : Within g g' := by
  refine ⟨hmap, fun c₁ s₁ hs₁ => ?_, effects, hlog, h⟩
  rw [hfind]
  by_cases hc : c₁ = c
  · subst hc
    cases hs.symm.trans hs₁
    exact ⟨s', find_put (Option.isSome_iff_exists.mpr ⟨s, hs⟩) s', ho, fun hdy => absurd hdy (Bool.eq_false_iff.mp hd)⟩
  · exact ⟨s₁, (find_modify_of_ne hc ..).trans hs₁, rfl, fun _ => rfl⟩

theorem within_emit {effects : List Effect} (hfind : g'.sessions = g.sessions) (hmap : g'.fdToSession = g.fdToSession)
    (hlog : g'.log = g.log ++ effects) (h : ∀ e ∈ effects, Allowed g g' e) : Within g g' := by
  refine ⟨fun fd c hc => hmap ▸ hc, fun c s hs => ⟨s, hfind ▸ hs, rfl, fun _ => rfl⟩, effects, hlog, h⟩

/-- The traffic of a session that is not dying. -/
theorem allowed_of_alive {e : Effect} (hg : Good env g) (hs : g.sessions.find c = some s) (hd : s.dying = false)
    (he : (∃ fd dst bytes, e = .tunnel fd dst bytes) ∨ (∃ m, e = .complete s.conv m) ∨
      (∃ m, e = .ikcpSend s.conv m) ∨ (∃ t, e = .accepted s.conv t) ∨ (∃ t, e = .replied s.conv t)) :
    Allowed g g' e := by
  have hne : ∀ c₁ s₁, g.sessions.find c₁ = some s₁ → s₁.dying = true → s.conv ≠ c₁ := by
    rintro c₁ s₁ hs₁ hd₁ rfl
    rw [conv_eq hg hs, hs] at hs₁
    cases hs₁
    exact absurd hd₁ (Bool.eq_false_iff.mp hd)
  rcases he with ⟨fd, dst, bytes, rfl⟩ | ⟨m, rfl⟩ | ⟨m, rfl⟩ | ⟨t, rfl⟩ | ⟨t, rfl⟩
  · exact allowed_of_plain trivial fun _ _ _ _ => id
  all_goals exact allowed_of_plain trivial hne

theorem act_within (h : Act env src c g g') (hg : Good env g) : Within g g' := by
  cases h with
  | pool => exact within_emit rfl rfl (List.append_nil _).symm (List.forall_mem_nil _)
  | clock => exact within_emit rfl rfl (List.append_nil _).symm (List.forall_mem_nil _)
  | note hs ho hd marks hm =>
      refine within_emit rfl rfl rfl fun e he => allowed_of_alive hg hs hd ?_
      rcases hm e he with h | h
      · exact .inr (.inl h)
      · exact .inr (.inr (.inl h))
  | kcp hs ho hd k hk packets =>
      refine within_put hs hd rfl rfl (fun _ _ h => h) rfl fun e he => allowed_of_alive hg hs hd (.inl ?_)
      obtain ⟨m, _, rfl⟩ := List.mem_map.mp he
      exact ⟨_, _, _, rfl⟩
  | active hs ho hd marks hm =>
      refine within_put hs hd rfl rfl (fun _ _ h => h) rfl fun e he => allowed_of_alive hg hs hd ?_
      rcases hm e he with h | h
      · exact .inr (.inr (.inr (.inl ⟨_, h⟩)))
      · exact .inr (.inr (.inr (.inr ⟨_, h⟩)))
  | killed hs ho hd => exact within_put hs hd rfl rfl (fun _ _ h => h) (List.append_nil _).symm (List.forall_mem_nil _)
  | noSocket hs ho hd => exact within_put hs hd rfl rfl (fun _ _ h => h) (List.append_nil _).symm (List.forall_mem_nil _)
  | connected hs ho hd hp addr fd hfd hfresh =>
      have hfree : g.fdToSession fd = none :=
        Option.eq_none_iff_forall_ne_some.mpr fun c' hc' => hfresh (hg.fd_open hc')
      have hmap : emplaceFd g.fdToSession fd c = Function.update g.fdToSession fd (some c) := by simp [emplaceFd, hfree]
      refine within_put hs hd rfl rfl (fun fd' c' hc' => ?_) rfl (List.forall_mem_singleton.mpr ?_)
      · refine (congrFun hmap fd').trans ((Function.update_of_ne ?_ ..).trans hc')
        rintro rfl
        cases hfree.symm.trans hc'
      · refine ⟨fun _ _ _ _ => id, fun fd' he => ?_, fun _ he => ?_, fun _ he => ?_⟩ <;> cases he
        exact (congrArg Option.isSome (congrFun hmap fd)).trans (by rw [Function.update_self]; rfl)
  | relayed hs ho hd hp payload =>
      refine within_emit rfl rfl rfl (List.forall_mem_singleton.mpr (allowed_of_plain trivial ?_))
      rintro c₁ s₁ hs₁ hd₁ hcon
      have hc : c₁ = c := by
        rcases hcon with hc | hfd
        · exact hc.symm.trans (conv_eq hg hs)
        · exact hg.same_fd (index_of_find hs) (index_of_find hs₁) hp hfd.symm
      subst hc
      cases hs.symm.trans hs₁
      exact absurd hd₁ (Bool.eq_false_iff.mp hd)
  | created hfree _ _ arrange =>
      refine ⟨fun _ _ h => h, fun c₁ s₁ hs₁ => ⟨s₁, ?_, rfl, fun _ => rfl⟩, _, rfl,
        List.forall_mem_singleton.mpr (allowed_of_plain trivial fun _ _ _ _ => id)⟩
      have hc : c₁ ≠ c := by
        rintro rfl
        cases hfree.symm.trans hs₁
      exact (find_withSession hfree arrange).trans ((if_neg hc).trans hs₁)
  | timer => exact within_emit rfl rfl rfl (List.forall_mem_singleton.mpr (allowed_of_plain trivial fun _ _ _ _ => id))
  | answered => exact within_emit rfl rfl rfl (List.forall_mem_singleton.mpr (allowed_of_plain trivial fun _ _ _ _ => id))

theorem updateActive_within (env : Env ρ) (g : Gateway ρ) : Within g (updateActive env g) := by
  refine ⟨fun _ _ h => h, fun c s hs => ⟨_, (find_mapVals ..).trans (congrArg _ hs), ?_, fun hd => if_pos hd⟩, _, rfl,
    fun e he => ?_⟩
  · dsimp only
    split_ifs <;> rfl
  · obtain ⟨x, _, he⟩ := List.mem_flatMap.mp he
    split_ifs at he
    · exact absurd he List.not_mem_nil
    · obtain ⟨m, _, rfl⟩ := List.mem_map.mp he
      exact allowed_of_plain trivial fun _ _ _ _ => id

theorem sweepIdle_within (now : UInt64) (hg : Good env g) : Within g (sweepIdle env now g) := by
  have hdying : ∀ s : Session ρ, s.dying = true → idle env now s = false := by
    intro s hd
    rw [idle, hd]
    rfl
  rw [sweepIdle]
  split_ifs
  · exact .refl g
  · refine ⟨fun _ _ h => h, fun c s hs => ⟨_, (find_mapVals ..).trans (congrArg _ hs), ?_, fun hd => ?_⟩, _, rfl,
      fun e he => ?_⟩
    · dsimp only
      split_ifs <;> rfl
    · exact if_neg (Bool.eq_false_iff.mp (hdying s hd))
    · obtain ⟨s, hs, rfl⟩ := List.mem_map.mp he
      obtain ⟨hmem, hidle⟩ := List.mem_filter.mp hs
      obtain ⟨⟨c, s⟩, hcs, rfl⟩ := List.mem_map.mp hmem
      have hfind : g.sessions.find c = some s := find_eq_some.mpr hcs
      refine allowed_of_plain trivial fun c₁ s₁ hs₁ hd₁ hc => ?_
      cases (conv_eq hg hfind).symm.trans hc
      cases hfind.symm.trans hs₁
      exact absurd hidle (Bool.eq_false_iff.mp (hdying s hd₁))

theorem step_within {e : Event ρ} (he : e ≠ .flush) (h : step env g e = .ok g') (hg : Good env g) : Within g g' := by
  refine step_keep (P := Within g) (fun ha hg hw => hw.trans (act_within ha hg)) (fun _ => updateActive_within env g)
    (fun _ _ => ?_) (fun hf => absurd hf he) h hg (.refl g)
  have htick : Within g g.tick := within_emit rfl rfl (List.append_nil _).symm (List.forall_mem_nil _)
  exact htick.trans (sweepIdle_within (g := g.tick) _ hg)

theorem runEvents_within {events : List (Event ρ)} (he : .flush ∉ events) (h : runEvents env g events = .ok g')
    (hg : Good env g) : Within g g' := by
  induction events generalizing g with
  | nil =>
      cases h
      exact .refl _
  | cons e events ih =>
      rw [runEvents] at h
      split at h
      next => cases h
      next g₁ h₁ =>
        have hw := step_within (fun hf => he (hf ▸ List.mem_cons_self)) h₁ hg
        exact hw.trans (ih (fun hf => he (List.mem_cons_of_mem _ hf)) h (step_good h₁ hg))

theorem flush_notMem_batchTurns (env : Env ρ) (timerFd : Int) (batch : List (Ready ρ)) :
    .flush ∉ batchTurns env timerFd batch := by
  intro h
  obtain ⟨r, _, hr⟩ := List.mem_flatMap.mp h
  rw [turns] at hr
  split_ifs at hr
  · obtain ⟨d, _, hd⟩ := List.mem_map.mp hr
    cases hd
  · simp at hr
  · simp at hr

section Interest

theorem mem_foldl_watch {fd : Int} (effects : List Effect) (fds : List Int) (h : fd ∈ effects.foldl watch fds) :
    fd ∈ fds ∨ .epollAdd fd ∈ effects := by
  induction effects generalizing fds with
  | nil => exact .inl h
  | cons e effects ih =>
      rcases ih _ h with h | h
      · cases e with
        | epollAdd fd' =>
            rcases List.mem_cons.mp h with rfl | h
            · exact .inr List.mem_cons_self
            · exact .inl h
        | epollDel fd' => exact .inl (List.mem_of_mem_filter h)
        | _ => exact .inl h
      · exact .inr (List.mem_cons_of_mem _ h)

/-- Besides the two descriptors of the loop only targets are watched. -/
def Watched (env : Env ρ) (timerFd : Int) (g : Gateway ρ) : Prop :=
  ∀ fd ∈ interest env timerFd g.log, fd = env.clientFd ∨ fd = timerFd ∨ (g.fdToSession fd).isSome

theorem within_watched (h : Within g g') (hw : Watched env timerFd g) : Watched env timerFd g' := by
  obtain ⟨effects, hlog, ha⟩ := h.log
  intro fd hfd
  rw [hlog, interest, List.foldl_append] at hfd
  rcases mem_foldl_watch effects _ hfd with hfd | hfd
  · refine (hw fd hfd).imp_right (Or.imp_right fun hc => ?_)
    obtain ⟨c, hc⟩ := Option.isSome_iff_exists.mp hc
    exact Option.isSome_iff_exists.mpr ⟨c, h.mapped fd c hc⟩
  · exact .inr (.inr ((ha _ hfd).add fd rfl))

theorem teardown_watched (c : UInt32) (hw : Watched env timerFd g) : Watched env timerFd (teardown g c) := by
  cases hs : g.sessions.find c with
  | none => rwa [teardown, hs]
  | some s =>
      rw [teardown_eq hs]
      intro fd hfd
      dsimp only at hfd ⊢
      split_ifs at hfd ⊢
      · rw [interest, List.foldl_append] at hfd
        obtain ⟨hmem, hne⟩ := List.mem_filter.mp hfd
        rw [Function.update_of_ne (of_decide_eq_true hne)]
        exact hw fd hmem
      · exact hw fd hfd

theorem foldl_teardown_watched (l : List UInt32) (hw : Watched env timerFd g) :
    Watched env timerFd (l.foldl teardown g) := by
  induction l generalizing g with
  | nil => exact hw
  | cons c l ih => exact ih (teardown_watched c hw)

theorem flushTeardown_watched (hw : Watched env timerFd g) : Watched env timerFd (flushTeardown g) := by
  intro fd hfd
  rw [flushTeardown, syncTimer, emit_log, interest, List.foldl_append] at hfd
  exact foldl_teardown_watched g.toErase hw fd hfd

theorem reachable_watched (timerFd : Int) (h : ReachableByCalls env g) : Watched env timerFd g := by
  induction h with
  | init =>
      intro fd hfd
      rcases List.mem_cons.mp hfd with rfl | hfd
      · exact .inl rfl
      · exact .inr (.inl (List.mem_singleton.mp hfd))
  | @step g₁ g₂ hg e he ih =>
      by_cases hf : e = .flush
      · subst hf
        cases he
        exact flushTeardown_watched ih
      · exact within_watched (step_within hf he (reachableByCalls_good hg)) ih
  | message hg hs hd o buf ih =>
      have hin : InHand env _ _ _ _ _ := inHand_of_find hs rfl hd
      have hw := acts_keep (P := Within _) (fun ha hg hw => hw.trans (act_within ha hg)) (hin.handleTunnelMsg o buf).1
        (reachableByCalls_good hg) (.refl _)
      exact within_watched hw ih

end Interest

section Flush

def closes (fd : Int) : Effect → Bool
  | .close fd' => fd' = fd
  | _ => false

/-- The calls that the teardown of `c` makes. -/
def teardownCalls (g : Gateway ρ) (c : UInt32) : List Effect :=
  match g.sessions.find c with
  | none => []
  | some s => if s.targetFd ≥ 0 then [.epollDel s.targetFd, .close s.targetFd] else []

theorem teardown_calls (g : Gateway ρ) (c : UInt32) : (teardown g c).log = g.log ++ teardownCalls g c := by
  rw [teardownCalls]
  cases hs : g.sessions.find c with
  | none =>
      rw [teardown, hs]
      exact (List.append_nil _).symm
  | some s =>
      rw [teardown_eq hs]
      dsimp only
      split_ifs
      · rfl
      · exact (List.append_nil _).symm

theorem foldl_teardown_calls (l : List UInt32) (g : Gateway ρ) (hl : l.Nodup) :
    (l.foldl teardown g).log = g.log ++ l.flatMap (teardownCalls g) := by
  induction l generalizing g with
  | nil => exact (List.append_nil _).symm
  | cons c l ih =>
      obtain ⟨hc, hl⟩ := List.nodup_cons.mp hl
      have hrest : l.flatMap (teardownCalls (teardown g c)) = l.flatMap (teardownCalls g) := by
        apply List.flatMap_congr
        intro c' hc'
        rw [teardownCalls, find_teardown, if_neg (ne_of_mem_of_not_mem hc' hc), teardownCalls]
      rw [List.foldl_cons, ih _ hl, hrest, teardown_calls, List.append_assoc, List.flatMap_cons]

/-- Among the calls for a list of sessions its descriptor is closed by the one
that has it. -/
theorem countP_closes (hg : Good env g) (hs : g.sessions.find c = some s) (hfd : 0 ≤ s.targetFd) {l : List UInt32}
    (hl : l.Nodup) (hc : c ∈ l) : (l.flatMap (teardownCalls g)).countP (closes s.targetFd) = 1 := by
  have hother : ∀ l' : List UInt32, c ∉ l' → (l'.flatMap (teardownCalls g)).countP (closes s.targetFd) = 0 := by
    intro l' hl'
    apply List.countP_eq_zero.mpr
    intro e he hclose
    obtain ⟨c', hc', he⟩ := List.mem_flatMap.mp he
    rw [teardownCalls] at he
    split at he
    next => exact absurd he List.not_mem_nil
    next s' hs' =>
      split_ifs at he
      · rcases List.mem_cons.mp he with rfl | he
        · cases hclose
        · rw [List.mem_singleton.mp he] at hclose
          have hsame := hg.same_fd (index_of_find hs) (index_of_find hs') hfd (of_decide_eq_true hclose)
          exact hl' (hsame ▸ hc')
      · exact absurd he List.not_mem_nil
  obtain ⟨l₁, l₂, rfl⟩ := List.append_of_mem hc
  obtain ⟨_, hl₂, hdisj⟩ := List.nodup_append'.mp hl
  have hown : (teardownCalls g c).countP (closes s.targetFd) = 1 := by
    simp [teardownCalls, hs, hfd, closes]
  rw [List.flatMap_append, List.flatMap_cons, List.countP_append, List.countP_append, hown,
    hother l₁ fun h => hdisj h List.mem_cons_self, hother l₂ (List.nodup_cons.mp hl₂).1]

theorem flush_closes (hg : Good env g) (hs : g.sessions.find c = some s) (hc : c ∈ g.toErase) (hfd : 0 ≤ s.targetFd) :
    ∃ effects, (flushTeardown g).log = g.log ++ effects ∧ effects.countP (closes s.targetFd) = 1 := by
  have hnodup : g.toErase.Nodup := hg.nodup
  rw [flushTeardown, syncTimer, emit_log, foldl_teardown_calls _ _ hnodup, List.append_assoc]
  refine ⟨_, rfl, ?_⟩
  rw [List.countP_append, countP_closes hg hs hfd hnodup hc]
  rfl

theorem fdToSession_flush (hg : Good env g) (hs : g.sessions.find c = some s) (hc : c ∈ g.toErase)
    (hfd : 0 ≤ s.targetFd) : (flushTeardown g).fdToSession s.targetFd = none := by
  apply Option.eq_none_iff_forall_ne_some.mpr
  intro c' hc'
  obtain ⟨s', hs', he⟩ := find_of_fd (flushTeardown_good hg) hc'
  rw [find_flushTeardown] at hs'
  split_ifs at hs' with hmem
  have hsame := hg.same_fd (index_of_find hs) (index_of_find hs') hfd he
  exact hmem (hsame ▸ hc)

end Flush

section Closing

/-- The session after `ikcp_recv` has taken a message from it. -/
def taken (env : Env ρ) (s : Session ρ) : Session ρ :=
  { s with kcp := { s.kcp with kcp := (ikcpRecv env.kcp s.kcp.kcp blockSize).2.2 } }

theorem handleTunnelMsg_dying (o : Outcome ρ) (g : Gateway ρ) (buf : Bytes) (hd : s.dying = false)
    (h : (handleTunnelMsg env o c s g buf).2.1.dying = true) : (handleTunnelMsg env o c s g buf).1 = true := by
  have hlive := Bool.eq_false_iff.mp hd
  revert h
  simp only [handleTunnelMsg, openTarget, markDying]
  repeat' split
  all_goals first | exact fun _ => rfl | exact fun h => absurd h hlive

end Closing

structure SafeBatch (env : Env ρ) (timerFd : Int) (g : Gateway ρ) (batch : List (Ready ρ)) : Prop where
  fault : ∀ f, runBatch env timerFd g batch = .error f → f = .diverges
  target : ∀ before fd replies after g₁, batchTurns env timerFd batch = before ++ .target fd replies :: after →
    runEvents env g before = .ok g₁ →
    ∃ c s s₁, g.fdToSession fd = some c ∧ g.sessions.find c = some s ∧ s.targetFd = fd ∧
      step env g₁ (.target fd replies) = handleTargetReply env g₁ c replies ∧
      g₁.sessions.find c = some s₁ ∧ s₁.targetFd = fd ∧ s₁.clientAddr = s.clientAddr
  dying : ∀ before after g₁ g₂, batchTurns env timerFd batch = before ++ after → runEvents env g before = .ok g₁ →
    runEvents env g₁ after = .ok g₂ → ∀ c s, g₁.sessions.find c = some s → s.dying = true →
    g₂.sessions.find c = some s ∧ ∃ effects, g₂.log = g₁.log ++ effects ∧ ∀ e ∈ effects, ¬ Concerns c s e
  closing : ∀ o c fuel s g, s.dying = false → 0 < (ikcpRecv env.kcp s.kcp.kcp blockSize).1 →
    (handleTunnelMsg env o c (taken env s) g (ikcpRecv env.kcp s.kcp.kcp blockSize).2.1).2.1.dying = true →
    drain env o c (fuel + 1) s g =
      .ok (handleTunnelMsg env o c (taken env s) g (ikcpRecv env.kcp s.kcp.kcp blockSize).2.1)
  flushed : ∀ g₁ g', dispatchAll env timerFd g batch = .ok g₁ → runBatch env timerFd g batch = .ok g' →
    g'.toErase = [] ∧ (∀ c s, g'.sessions.find c = some s → s.dying = false) ∧
    ∀ c s, g₁.sessions.find c = some s → g'.sessions.find c = none → 0 ≤ s.targetFd →
      g'.fdToSession s.targetFd = none ∧
      ∃ effects, g'.log = g.log ++ effects ∧ effects.countP (closes s.targetFd) = 1

theorem dispatchAll_error {f : Fault} {batch : List (Ready ρ)} (hg : ReachableByCalls env g)
    (h : dispatchAll env timerFd g batch = .error f) : f = .diverges := by
  induction batch generalizing g with
  | nil => cases h
  | cons r batch ih =>
      rw [dispatchAll] at h
      split at h
      next hr =>
        cases h
        exact dispatch_error (reachableByCalls_good hg) hr
      next g₁ hr => exact ih (reachableByCalls_of_run hg ((dispatch_turns hg timerFd r).symm.trans hr)) h

/-- A call for a target comes from a descriptor that was ready. -/
theorem target_mem_batchTurns {batch : List (Ready ρ)} {fd : Int} {replies : List Bytes}
    (h : .target fd replies ∈ batchTurns env timerFd batch) :
    ∃ r ∈ batch, r.fd = fd ∧ fd ≠ env.clientFd ∧ fd ≠ timerFd := by
  obtain ⟨r, hr, hmem⟩ := List.mem_flatMap.mp h
  rw [turns] at hmem
  split_ifs at hmem with hc ht
  · obtain ⟨d, _, hd⟩ := List.mem_map.mp hmem
    cases hd
  · simp at hmem
  · cases List.mem_singleton.mp hmem
    exact ⟨r, hr, rfl, hc, ht⟩

theorem flushed_of_good {batch : List (Ready ρ)} (hw : Within g g₁) (hg : Good env g₁)
    (h : dispatchAll env timerFd g batch = .ok g₁) (h' : runBatch env timerFd g batch = .ok g') :
    g'.toErase = [] ∧ (∀ c s, g'.sessions.find c = some s → s.dying = false) ∧
    ∀ c s, g₁.sessions.find c = some s → g'.sessions.find c = none → 0 ≤ s.targetFd →
      g'.fdToSession s.targetFd = none ∧
      ∃ effects, g'.log = g.log ++ effects ∧ effects.countP (closes s.targetFd) = 1 := by
  have hend : g'.toErase = [] ∧ Good env g' := by
    rw [runBatch, h] at h'
    cases h'
    split_ifs with hp
    · exact ⟨rfl, flushTeardown_good hg⟩
    · exact ⟨by simpa [teardownPending] using hp, hg⟩
  refine ⟨hend.1, fun c s hs => ?_, fun c s hs hnone hfd => ?_⟩
  · apply Bool.eq_false_iff.mpr
    intro hd
    have hmem := (hend.2.dying (index_of_find hs)).mp hd
    rw [show (index g').toErase = [] from hend.1] at hmem
    exact absurd hmem List.not_mem_nil
  · rw [runBatch, h] at h'
    cases h'
    split_ifs at hnone ⊢ with hp
    · have hc : c ∈ g₁.toErase := by
        by_contra hc
        rw [find_flushTeardown, if_neg hc, hs] at hnone
        cases hnone
      refine ⟨fdToSession_flush hg hs hc hfd, ?_⟩
      obtain ⟨effects, hlog, ha⟩ := hw.log
      have hbefore : effects.countP (closes s.targetFd) = 0 := by
        apply List.countP_eq_zero.mpr
        intro e he hclose
        cases e with
        | close fd => exact (ha _ he).close fd rfl
        | _ => cases hclose
      obtain ⟨calls, hcalls, hcount⟩ := flush_closes hg hs hc hfd
      refine ⟨effects ++ calls, by rw [hcalls, hlog, List.append_assoc], ?_⟩
      rw [List.countP_append, hbefore, hcount]
    · cases hs.symm.trans hnone

theorem deferred_teardown_safe (env : Env ρ) (timerFd : Int) (g : Gateway ρ) (hg : ReachableByCalls env g)
    (batch : List (Ready ρ)) (hready : ∀ r ∈ batch, r.fd ∈ interest env timerFd g.log) :
    SafeBatch env timerFd g batch := by
  have hgood := reachableByCalls_good hg
  have hflush := flush_notMem_batchTurns env timerFd batch
  refine ⟨fun f hf => ?_, fun before fd replies after g₁ hsplit h₁ => ?_, fun before after g₁ g₂ hsplit h₁ h₂ c s hs hd => ?_,
    fun o c fuel s g hd hpos hdy => ?_, fun g₁ g' h₁ h' => ?_⟩
  · rw [runBatch] at hf
    split at hf
    next herr =>
      cases hf
      exact dispatchAll_error hg herr
    next => cases hf
  · obtain ⟨r, hr, rfl, hclient, htimer⟩ := target_mem_batchTurns (hsplit ▸ List.mem_append_right before List.mem_cons_self)
    -- The descriptor was watched when the batch was fetched, so it had a session.
    obtain ⟨c, hc⟩ : ∃ c, g.fdToSession r.fd = some c := by
      rcases reachable_watched timerFd hg r.fd (hready r hr) with h | h | h
      · exact absurd h hclient
      · exact absurd h htimer
      · exact Option.isSome_iff_exists.mp h
    have hw := runEvents_within (fun h => hflush (hsplit ▸ List.mem_append_left _ h)) h₁ hgood
    have hc₁ := hw.mapped r.fd c hc
    obtain ⟨s, hs, hfd⟩ := find_of_fd hgood hc
    obtain ⟨s₁, hs₁, ho, _⟩ := hw.kept c s hs
    obtain ⟨s₂, hs₂, hfd₂⟩ := find_of_fd (reachableByCalls_good (reachableByCalls_of_run hg h₁)) hc₁
    cases hs₁.symm.trans hs₂
    refine ⟨c, s, s₁, hc, hs, hfd, ?_, hs₁, hfd₂, ho⟩
    rw [step, hc₁]
  · have hw := runEvents_within (fun h => hflush (hsplit ▸ List.mem_append_right _ h)) h₂
      (reachableByCalls_good (reachableByCalls_of_run hg h₁))
    obtain ⟨s', hs', _, he⟩ := hw.kept c s hs
    obtain ⟨effects, hlog, ha⟩ := hw.log
    exact ⟨he hd ▸ hs', effects, hlog, fun e hmem => (ha e hmem).dying c s hs hd⟩
  · have hgone := handleTunnelMsg_dying (s := taken env s) o g _ hd hdy
    rw [drain]
    exact (if_neg (Int.not_le.mpr hpos)).trans (if_pos hgone)
  · have hrun := (dispatchAll_turns hg timerFd batch).symm.trans h₁
    exact flushed_of_good (runEvents_within hflush hrun hgood) (reachableByCalls_good (reachableByCalls_of_run hg hrun)) h₁ h'

/-- A client connects, and a CLOSE of it, a reply of its game server and a tick
come in one batch. -/
def closeAndReply : List (Ready Link) :=
  [⟨3, [sampleDatagram ⟨1, 1⟩ 1000 1 0 packClose], []⟩, ⟨4, [], [[7]]⟩, ⟨5, [], []⟩]

def connectOne : List (Event Link) :=
  [.register ⟨1, 1⟩ sampleOutcome.arrange, .tunnel [sampleDatagram ⟨1, 1⟩ 1000 0 0 (packConnect (ascii "lobby") 5)]]

theorem safe_close_and_reply :
    ∃ g, runEvents (sampleEnv .ofNat) (.init (sampleEnv .ofNat)) connectOne = .ok g ∧
      (∀ r ∈ closeAndReply, r.fd ∈ interest (sampleEnv .ofNat) 5 g.log) ∧
      SafeBatch (sampleEnv .ofNat) 5 g closeAndReply := by
  have hrun : ∃ g, runEvents (sampleEnv .ofNat) (.init (sampleEnv .ofNat)) connectOne = .ok g ∧
      interest (sampleEnv .ofNat) 5 g.log = [4, 3, 5] := ⟨_, rfl, rfl⟩
  obtain ⟨g, hg, hfds⟩ := hrun
  have hready : ∀ r ∈ closeAndReply, r.fd ∈ interest (sampleEnv .ofNat) 5 g.log := by
    rw [hfds]
    simp [closeAndReply]
  exact ⟨g, hg, hready, deferred_teardown_safe _ 5 g (reachableByCalls_of_run .init hg) closeAndReply hready⟩

end GameAccelerator.EventLoop
