import GameAccelerator.SessionInvariant

namespace GameAccelerator.SessionFrame

open CString Platform Tables NetUtils TunnelProtocol Kcp SessionManager GatewayLoop GatewayMoves SessionInvariant
  Relation

variable {ρ : Type} {env : Env ρ} {src : Endpoint} {c c' : UInt32} {s s' : Session ρ} {g g₁ g₂ : Gateway ρ}

/-- The session to whose messages an effect belongs. -/
def messageOf : Effect → Option UInt32
  | .relay c _ _ _ => some c
  | .ikcpSend c _ => some c
  | .complete c _ => some c
  | _ => none

/-- The same target and the same fate. -/
structure Alike (s s' : Session ρ) : Prop where
  targetFd : s'.targetFd = s.targetFd
  targetAddr : s'.targetAddr = s.targetAddr
  dying : s'.dying = s.dying

/-- The same session but for its clock and the state of KCP behind the queue. -/
structure Like (s s' : Session ρ) : Prop extends Alike s s' where
  rcvQueue : s'.kcp.kcp.rcvQueue = s.kcp.kcp.rcvQueue

theorem Like.refl (s : Session ρ) : Like s s := ⟨⟨rfl, rfl, rfl⟩, rfl⟩

theorem Like.trans {s₁ s₂ s₃ : Session ρ} (h₁ : Like s₁ s₂) (h₂ : Like s₂ s₃) : Like s₁ s₃ :=
  ⟨⟨h₂.targetFd.trans h₁.targetFd, h₂.targetAddr.trans h₁.targetAddr, h₂.dying.trans h₁.dying⟩,
    h₂.rcvQueue.trans h₁.rcvQueue⟩

/-- An effect that has nothing to do with the session `s` of the entry `c`. -/
def Elsewhere (c : UInt32) (s : Session ρ) (e : Effect) : Prop :=
  messageOf e ≠ some c ∧ (0 ≤ s.targetFd → ∀ c' dst bytes, e ≠ .relay c' s.targetFd dst bytes)

theorem elsewhere_of_none {e : Effect} (h : messageOf e = none) : Elsewhere c s e := by
  refine ⟨fun he => ?_, fun _ c' dst bytes he => ?_⟩
  · cases h.symm.trans he
  · rw [he] at h
    cases h

/-- On the way from `g` to `g'` no message of the session `s` of `c` has been
looked at. -/
structure Frame (c : UInt32) (s : Session ρ) (g g' : Gateway ρ) : Prop where
  find : ∃ s', g'.sessions.find c = some s' ∧ Like s s'
  log : ∃ effects, g'.log = g.log ++ effects ∧ ∀ e ∈ effects, Elsewhere c s e

theorem frame_emit {effects : List Effect} {g' : Gateway ρ} (hs : g'.sessions.find c = some s')
    (hlike : Like s s') (hl : g'.log = g.log ++ effects) (h : ∀ e ∈ effects, Elsewhere c s e) : Frame c s g g' :=
  ⟨⟨s', hs, hlike⟩, effects, hl, h⟩

theorem frame_silent {g' : Gateway ρ} (hs : g'.sessions.find c = some s') (hlike : Like s s')
    (hl : g'.log = g.log) : Frame c s g g' :=
  frame_emit hs hlike (hl.trans (List.append_nil _).symm) nofun

theorem Frame.trans (h₁ : Frame c s g g₁) (h₂ : ∀ s₁, g₁.sessions.find c = some s₁ → Frame c s₁ g₁ g₂) :
    Frame c s g g₂ := by
  obtain ⟨⟨s₁, hs₁, hlike₁⟩, l₁, hl₁, he₁⟩ := h₁
  obtain ⟨⟨s₂, hs₂, hlike₂⟩, l₂, hl₂, he₂⟩ := h₂ s₁ hs₁
  apply frame_emit hs₂ (hlike₁.trans hlike₂) (by rw [hl₂, hl₁, List.append_assoc])
  intro e he
  rcases List.mem_append.mp he with he | he
  · exact he₁ e he
  · have h := he₂ e he
    rwa [Elsewhere, hlike₁.targetFd] at h

theorem find_put_of_ne (hc : c' ≠ c) (g : Gateway ρ) (s' : Session ρ) :
    (g.put c' s').sessions.find c = g.sessions.find c :=
  find_modify_of_ne hc.symm ..

theorem act_frame (h : Act env src c' g g₁) (hc : c' ≠ c) (hg : Good env g) (hs : g.sessions.find c = some s) :
    Frame c s g g₁ := by
  have hne : ∀ s', g.sessions.find c' = some s' → some s'.conv ≠ some c := by
    intro s' hs' he
    rw [conv_eq hg hs'] at he
    exact hc (Option.some.inj he)
  have hput : ∀ s', (g.put c' s').sessions.find c = some s := fun s' => (find_put_of_ne hc g s').trans hs
  cases h with
  | pool => exact frame_silent hs (.refl s) rfl
  | clock => exact frame_silent hs (.refl s) rfl
  | note hs' ho hd marks hm =>
      refine frame_emit hs (.refl s) rfl fun e he => ?_
      rcases hm e he with ⟨m, rfl⟩ | ⟨m, rfl⟩ <;> exact ⟨hne _ hs', fun _ => nofun⟩
  | kcp hs' ho hd k hk packets =>
      refine frame_emit (hput _) (.refl s) rfl fun e he => ?_
      obtain ⟨m, _, rfl⟩ := List.mem_map.mp he
      exact elsewhere_of_none rfl
  | active hs' ho hd marks hm =>
      refine frame_emit (hput _) (.refl s) rfl fun e he => ?_
      rcases hm e he with rfl | rfl <;> exact elsewhere_of_none rfl
  | killed hs' => exact frame_silent (hput _) (.refl s) rfl
  | noSocket hs' => exact frame_silent (hput _) (.refl s) rfl
  | connected hs' =>
      exact frame_emit (hput _) (.refl s) rfl (List.forall_mem_singleton.mpr (elsewhere_of_none rfl))
  | relayed hs' ho hd hp payload =>
      refine frame_emit hs (.refl s) rfl (List.forall_mem_singleton.mpr ⟨hne _ hs', fun hfd c₁ dst bytes he => hc ?_⟩)
      exact hg.same_fd (index_of_find hs) (index_of_find hs') hfd (Effect.relay.inj he).2.1
  | created hfree _ _ arrange =>
      refine frame_emit ?_ (.refl s) rfl (List.forall_mem_singleton.mpr (elsewhere_of_none rfl))
      exact (find_emplace hfree arrange _ c).trans ((if_neg hc.symm).trans hs)
  | timer => exact frame_emit hs (.refl s) rfl (List.forall_mem_singleton.mpr (elsewhere_of_none rfl))
  | answered => exact frame_emit hs (.refl s) rfl (List.forall_mem_singleton.mpr (elsewhere_of_none rfl))

theorem acts_frame (h : Acts env src c' g g₁) (hc : c' ≠ c) (hg : Good env g) (hs : g.sessions.find c = some s) :
    Frame c s g g₁ := by
  induction h with
  | refl => exact frame_silent hs (.refl s) rfl
  | tail hacts hact ih => exact ih.trans fun s₁ hs₁ => act_frame hact hc (acts_good hacts hg) hs₁

theorem registerClient_frame {arrange : Arrangement UInt32 (Session ρ)} (hs : g.sessions.find c = some s)
    (h : registerClient env arrange g src = .ok g₁) : Frame c s g g₁ := by
  rcases registerClient_cases h with ⟨_, _, _, _, _, _, rfl⟩ | ⟨conv, _, _, hfree, rfl⟩
  · exact frame_emit hs (.refl s) rfl (List.forall_mem_singleton.mpr (elsewhere_of_none rfl))
  · have hc : c ≠ conv := by
      rintro rfl
      cases hfree.symm.trans hs
    have hw : Frame c s g (withSession env arrange g src conv) := by
      refine frame_emit ?_ (.refl s) rfl (List.forall_mem_singleton.mpr (elsewhere_of_none rfl))
      exact (find_withSession hfree arrange).trans ((if_neg hc).trans hs)
    apply hw.trans
    intro s₁ hs₁
    have ht : Frame c s₁ (withSession env arrange g src conv) (syncTimer (withSession env arrange g src conv)) :=
      frame_emit hs₁ (.refl s₁) rfl (List.forall_mem_singleton.mpr (elsewhere_of_none rfl))
    exact ht.trans fun s₂ hs₂ =>
      frame_emit hs₂ (.refl s₂) rfl (List.forall_mem_singleton.mpr (elsewhere_of_none rfl))

theorem updateActive_frame (hs : g.sessions.find c = some s) : Frame c s g (updateActive env g) := by
  refine frame_emit ((find_mapVals ..).trans (congrArg _ hs)) ?_ rfl fun e he => ?_
  · dsimp only
    split_ifs
    · exact .refl s
    · exact ⟨⟨rfl, rfl, rfl⟩, rfl⟩
  · obtain ⟨x, _, he⟩ := List.mem_flatMap.mp he
    split_ifs at he
    · exact absurd he List.not_mem_nil
    · obtain ⟨m, _, rfl⟩ := List.mem_map.mp he
      exact elsewhere_of_none rfl

/-- A sweep that does not reap `c`. -/
theorem sweepIdle_frame {now : UInt64} (hs : g.sessions.find c = some s) (hg : Good env g)
    (hr : .reaped c now ∉ (sweepIdle env now g).log.drop g.log.length) : Frame c s g (sweepIdle env now g) := by
  rw [sweepIdle] at hr ⊢
  split_ifs at hr ⊢
  · exact frame_silent hs (.refl s) rfl
  · have hidle : idle env now s = false := by
      refine Bool.eq_false_iff.mpr fun hi => hr ?_
      rw [List.drop_left]
      refine List.mem_map.mpr ⟨s, List.mem_filter.mpr ⟨?_, hi⟩, by rw [conv_eq hg hs]⟩
      exact List.mem_map.mpr ⟨(c, s), find_eq_some.mp hs, rfl⟩
    refine frame_emit (?_ : _ = some s) (.refl s) rfl fun e he => ?_
    · apply (find_mapVals ..).trans
      rw [hs, Option.map_some, hidle]
      rfl
    · obtain ⟨_, _, rfl⟩ := List.mem_map.mp he
      exact elsewhere_of_none rfl

theorem teardown_frame (hs : g.sessions.find c = some s) (hc : c ≠ c') : Frame c s g (teardown g c') := by
  cases hs' : g.sessions.find c' with
  | none =>
      rw [teardown, hs']
      exact frame_silent hs (.refl s) rfl
  | some s' =>
      have hfind : (teardown g c').sessions.find c = some s := by rw [find_teardown, if_neg hc, hs]
      rw [teardown_eq hs'] at hfind ⊢
      by_cases hfd : s'.targetFd ≥ 0
      · refine frame_emit hfind (.refl s) (if_pos hfd) fun e he => elsewhere_of_none ?_
        rcases List.mem_cons.mp he with rfl | he
        · rfl
        · rw [List.mem_singleton.mp he]
          rfl
      · exact frame_silent hfind (.refl s) (if_neg hfd)

theorem foldl_teardown_frame (l : List UInt32) (hs : g.sessions.find c = some s) (hc : c ∉ l) :
    Frame c s g (l.foldl teardown g) := by
  induction l generalizing g s with
  | nil => exact frame_silent hs (.refl s) rfl
  | cons c' l ih =>
      apply (teardown_frame hs (List.ne_of_not_mem_cons hc)).trans
      intro s₁ hs₁
      exact ih hs₁ (List.not_mem_of_not_mem_cons hc)

theorem flushTeardown_frame (hs : g.sessions.find c = some s) (hp : Present (flushTeardown g) c) :
    Frame c s g (flushTeardown g) := by
  have hc : c ∉ g.toErase := by
    intro hc
    have hnone := find_foldl_teardown g.toErase g c
    rw [if_pos hc] at hnone
    exact absurd hp (by rw [Present, flushTeardown, syncTimer, emit_sessions, hnone]; exact Bool.false_ne_true)
  apply (foldl_teardown_frame g.toErase hs hc).trans
  intro s₁ hs₁
  exact frame_emit hs₁ (.refl s₁) rfl (List.forall_mem_singleton.mpr (elsewhere_of_none rfl))

section Log

variable {g' : Gateway ρ}

theorem act_log (h : Act env src c g g') : g.log <+: g'.log := by
  cases h <;> first | exact List.prefix_refl _ | exact List.prefix_append _ _

theorem step_log {e : Event ρ} (h : step env g e = .ok g') (hg : Good env g) : g.log <+: g'.log := by
  refine step_keep (P := fun g₁ => g.log <+: g₁.log) (fun h _ hp => hp.trans (act_log h)) (fun _ => ?_) (fun _ _ => ?_)
    (fun _ _ => ?_) h hg (List.prefix_refl _)
  · exact List.prefix_append _ _
  · rw [sweepIdle]
    split_ifs
    · exact List.prefix_refl _
    · exact List.prefix_append _ _
  · obtain ⟨l, hl, _⟩ := flushTeardown_log g
    exact hl ▸ List.prefix_append _ _

theorem handleDatagram_log {d : Datagram ρ} {more : Bool} (h : handleDatagram env g d = .ok (more, g')) (hg : Good env g) :
    g.log <+: g'.log := by
  obtain ⟨c, hacts⟩ := handleDatagram_acts h
  exact acts_keep (P := fun g₁ => g.log <+: g₁.log) (fun h _ hp => hp.trans (act_log h)) hacts hg (List.prefix_refl _)

theorem handleTunnelDatagram_log {ds : List (Datagram ρ)} (h : handleTunnelDatagram env g ds = .ok g')
    (hg : Good env g) : g.log <+: g'.log :=
  handleTunnelDatagram_keep (P := fun g₁ => g.log <+: g₁.log) (fun h _ hp => hp.trans (act_log h)) h hg
    (List.prefix_refl _)

end Log

end GameAccelerator.SessionFrame
