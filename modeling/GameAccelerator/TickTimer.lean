import GameAccelerator.Drain
import GameAccelerator.IntervalTimer
import GameAccelerator.SessionInvariant

namespace GameAccelerator.TickTimer

open CString Platform Tables NetUtils TunnelProtocol Kcp LosslessKcp SessionManager GatewayLoop GatewayMoves
open SessionInvariant Drain IntervalTimer

variable {ρ : Type} {env : Env ρ} {c : UInt32} {s : Session ρ} {g g' : Gateway ρ}

/-- The periods of the calls of `timerfd_settime`, in milliseconds. -/
def settimes (log : List Effect) : List Nat :=
  log.filterMap fun
    | .timer periodMs => some periodMs
    | _ => none

/-- A call at the instant `now`, in nanoseconds. -/
def timerSetPeriod (now periodMs : Nat) : Option Running :=
  if h : periodMs > 0 then some ⟨now, periodMs * 1000000, Nat.mul_pos h (Nat.succ_pos _)⟩ else none

/-- When the calls of `timerfd_settime` are made, one after the other. -/
structure Schedule where
  instant : Nat → Nat
  ordered : ∀ {i j}, i ≤ j → instant i ≤ instant j

/-- The timer after the calls in the log; it is created disarmed. -/
def tickTimer (sched : Schedule) (log : List Effect) : Option Running :=
  (settimes log).getLast?.bind (timerSetPeriod (sched.instant ((settimes log).length - 1)))

@[simp] theorem settimes_append (log effects : List Effect) : settimes (log ++ effects) = settimes log ++ settimes effects :=
  List.filterMap_append

theorem settimes_eq_nil {effects : List Effect} (h : ∀ e ∈ effects, ∀ periodMs, e ≠ .timer periodMs) :
    settimes effects = [] := by
  refine List.filterMap_eq_nil_iff.mpr fun e he => ?_
  cases e with
  | timer periodMs => exact absurd rfl (h _ he periodMs)
  | _ => rfl

theorem settimes_quiet {effects : List Effect} (h : ∀ e ∈ effects, ∀ periodMs, e ≠ .timer periodMs) (log : List Effect) :
    settimes (log ++ effects) = settimes log := by
  rw [settimes_append, settimes_eq_nil h, List.append_nil]

section Handlers

theorem settimes_kcpOutput (ks : KcpSession ρ) (packets : List Bytes) : settimes (kcpOutput ks packets) = [] := by
  refine settimes_eq_nil fun e he => ?_
  obtain ⟨m, _, rfl⟩ := List.mem_map.mp he
  exact fun _ => Effect.noConfusion

theorem kcpCall_settimes (s : Session ρ) (g : Gateway ρ) (r : Ikcpcb ρ × List Bytes) :
    settimes (kcpCall s g r).2.log = settimes g.log := by
  rw [kcpCall_snd, emit_log, settimes_append, settimes_kcpOutput, List.append_nil]

theorem feed_settimes (pkt : Bytes) : settimes (feed env s g pkt).2.log = settimes g.log := by
  have hmarks : ∀ now, settimes (.accepted s.conv now ::
      (completed env.kcp s.kcp.kcp pkt).map (.complete s.conv)) = [] := by
    intro now
    refine settimes_eq_nil fun e he => ?_
    rcases List.mem_cons.mp he with rfl | he
    · exact fun _ => Effect.noConfusion
    · obtain ⟨m, _, rfl⟩ := List.mem_map.mp he
      exact fun _ => Effect.noConfusion
  simp only [feed, kcpCall_settimes, tick_log, emit_log, settimes_append, hmarks, List.append_nil]

theorem handleTunnelMsg_settimes (o : Outcome ρ) (buf : Bytes) :
    settimes (handleTunnelMsg env o c s g buf).2.2.log = settimes g.log := by
  unfold handleTunnelMsg
  split
  next => rfl
  next =>
    split_ifs
    · rfl
    · split
      next => rfl
      next =>
        simp only [openTarget]
        split_ifs
        · rfl
        · exact (settimes_append _ _).trans (List.append_nil _)
    · rfl
    · exact (settimes_append _ _).trans (List.append_nil _)
    · rfl
    · rfl

theorem drain_settimes {o : Outcome ρ} {fuel : Nat} {r : Bool × Session ρ × Gateway ρ}
    (h : drain env o c fuel s g = .ok r) : settimes r.2.2.log = settimes g.log := by
  apply drain_keep (P := fun g' => settimes g'.log = settimes g.log) (fun s g' buf hg => ?_) h rfl
  exact (handleTunnelMsg_settimes o buf).trans hg

theorem forward_settimes (reply : Bytes) : settimes (forward env s g reply).2.log = settimes g.log := by
  simp only [forward, kcpCall_settimes, tick_log, emit_log, settimes_append]
  exact (List.append_nil _).trans (List.append_nil _)

theorem forwardAll_settimes (replies : List Bytes) : settimes (forwardAll env s g replies).2.log = settimes g.log := by
  apply forwardAll_keep (P := fun _ g' => settimes g'.log = settimes g.log) (fun hg reply => ?_) (fun hg => ?_) rfl
  · exact (forward_settimes reply).trans hg
  · exact ((settimes_append _ _).trans (List.append_nil _)).trans hg

end Handlers

/-- The period that the table asks for. -/
def tickPeriod (g : Gateway ρ) : Nat := if g.sessions.entries.isEmpty then 0 else kcpTickMs

/-- The timer was last set to the period that the table asks for. -/
def InSync (g : Gateway ρ) : Prop := (settimes g.log).getLast?.getD 0 = tickPeriod g

/-- No timer is set, and the table is as empty as before. -/
structure Still (g g' : Gateway ρ) : Prop where
  settimes : settimes g'.log = settimes g.log
  isEmpty : g'.sessions.entries.isEmpty = g.sessions.entries.isEmpty

theorem Still.inSync (h : Still g g') (hg : InSync g) : InSync g' := by
  rw [InSync, tickPeriod, h.settimes, h.isEmpty]
  exact hg

theorem put_isEmpty (g : Gateway ρ) (c : UInt32) (s : Session ρ) :
    (g.put c s).sessions.entries.isEmpty = g.sessions.entries.isEmpty :=
  List.isEmpty_map

theorem still_put (hlog : settimes g'.log = settimes g.log) (hsessions : g'.sessions = g.sessions) (c : UInt32)
    (s : Session ρ) : Still g (g'.put c s) :=
  ⟨hlog, (put_isEmpty g' c s).trans (congrArg (fun t => t.entries.isEmpty) hsessions)⟩

theorem syncTimer_settimes (g : Gateway ρ) : settimes (syncTimer g).log = settimes g.log ++ [tickPeriod g] :=
  settimes_append _ _

theorem syncTimer_inSync (g : Gateway ρ) : InSync (syncTimer g) := by
  rw [InSync, syncTimer_settimes, List.getLast?_concat]
  rfl

theorem handleSegment_still {o : Outcome ρ} {block : Nat} {pkt : Bytes} {more : Bool}
    (h : handleSegment env o g block c s pkt = .ok (more, g')) : Still g g' := by
  simp only [handleSegment] at h
  split at h
  next => cases h
  next gone s' g₁ hdrain =>
    have hlog : settimes g₁.log = settimes g.log := by
      rw [drain_settimes hdrain]
      simp only [feed_settimes]
    have hempty : g₁.sessions.entries.isEmpty = g.sessions.entries.isEmpty := by
      rw [drain_sessions hdrain, feed_sessions]
    split_ifs at h
    · cases h
      exact ⟨hlog, (put_isEmpty _ c _).trans hempty⟩
    · cases h
      exact ⟨hlog, (put_isEmpty _ c _).trans hempty⟩

theorem registerClient_inSync {arrange : Arrangement UInt32 (Session ρ)} {src : Endpoint}
    (h : registerClient env arrange g src = .ok g') (hg : InSync g) : InSync g' := by
  have hanswer : ∀ (g : Gateway ρ) bytes, Still g (g.emit [.tunnel env.clientFd src bytes]) := fun g bytes =>
    ⟨(settimes_append _ _).trans (List.append_nil _), rfl⟩
  rcases registerClient_cases h with ⟨c, s, -, -, -, -, rfl⟩ | ⟨conv, -, -, -, rfl⟩
  · exact (hanswer g _).inSync hg
  · exact (hanswer _ _).inSync (syncTimer_inSync _)

theorem handleDatagram_inSync {d : Datagram ρ} {more : Bool} (h : handleDatagram env g d = .ok (more, g'))
    (hg : InSync g) : InSync g' := by
  rcases handleDatagram_cases h with rfl | ⟨block, pool, g₁, -, -, h₁, rfl⟩ | ⟨block, pool, c, s, -, -, -, -, -, hseg⟩
  · exact hg
  · have h₁' : InSync g₁ := registerClient_inSync h₁ hg
    exact h₁'
  · exact (handleSegment_still hseg).inSync hg

theorem handleTunnelDatagram_inSync {ds : List (Datagram ρ)} (h : handleTunnelDatagram env g ds = .ok g')
    (hg : InSync g) : InSync g' := by
  exact handleTunnelDatagram_rounds handleDatagram_inSync h hg

theorem handleTargetReply_still {replies : List Bytes} (h : handleTargetReply env g c replies = .ok g') :
    Still g g' := by
  obtain ⟨s, _, rfl | ⟨_, rfl⟩⟩ := handleTargetReply_cases h
  · exact ⟨rfl, rfl⟩
  · exact still_put (forwardAll_settimes replies) (forwardAll_sessions env s g replies) c _

theorem updateActive_still (env : Env ρ) (g : Gateway ρ) : Still g (updateActive env g) := by
  refine ⟨?_, List.isEmpty_map⟩
  simp only [updateActive, emit_log, tick_log]
  refine settimes_quiet (fun e he => ?_) g.log
  obtain ⟨x, _, he⟩ := List.mem_flatMap.mp he
  split_ifs at he
  · cases he
  · obtain ⟨m, _, rfl⟩ := List.mem_map.mp he
    exact fun _ => Effect.noConfusion

theorem sweepIdle_still (now : UInt64) (g : Gateway ρ) : Still g (sweepIdle env now g) := by
  rw [sweepIdle]
  split_ifs
  · exact ⟨rfl, rfl⟩
  · refine ⟨settimes_quiet (fun e he => ?_) g.log, List.isEmpty_map⟩
    obtain ⟨s, _, rfl⟩ := List.mem_map.mp he
    exact fun _ => Effect.noConfusion

theorem step_inSync {e : Event ρ} (h : step env g e = .ok g') (hg : InSync g) : InSync g' := by
  cases e with
  | register src arrange => exact registerClient_inSync h hg
  | tunnel ds => exact handleTunnelDatagram_inSync h hg
  | target fd replies =>
      simp only [step] at h
      split at h
      next =>
        cases h
        exact hg
      next => exact (handleTargetReply_still h).inSync hg
  | update =>
      cases h
      exact (updateActive_still env g).inSync hg
  | sweep =>
      cases h
      exact (sweepIdle_still (env.clock g.ticks) g.tick).inSync hg
  | flush =>
      cases h
      exact syncTimer_inSync _

theorem reachable_inSync (h : ReachableByCalls env g) : InSync g := by
  induction h with
  | init => rfl
  | step _ e he ih => exact step_inSync he ih
  | message _ hs hd o buf ih =>
      exact (still_put (handleTunnelMsg_settimes o buf) (handleTunnelMsg_sessions ..) _ _).inSync ih

section Timer

variable {sched : Schedule} {t : Running}

theorem tickTimer_append (sched : Schedule) {log log' : List Effect} {periodMs : Nat}
    (h : settimes log' = settimes log ++ [periodMs]) :
    tickTimer sched log' = timerSetPeriod (sched.instant (settimes log).length) periodMs := by
  rw [tickTimer, h, List.getLast?_concat, List.length_append, List.length_singleton, Nat.add_sub_cancel]
  rfl

theorem timerSetPeriod_isSome {now periodMs : Nat} : (timerSetPeriod now periodMs).isSome ↔ 0 < periodMs := by
  rw [timerSetPeriod]
  split_ifs with h <;> simp [h]

theorem timerSetPeriod_eq_some {now periodMs : Nat} (h : timerSetPeriod now periodMs = some t) :
    t.since = now ∧ t.period = periodMs * 1000000 := by
  rw [timerSetPeriod] at h
  split_ifs at h
  cases h
  exact ⟨rfl, rfl⟩

theorem tickPeriod_pos : 0 < tickPeriod g ↔ g.sessions.entries ≠ [] := by
  rw [tickPeriod]
  cases g.sessions.entries with
  | nil => simp
  | cons => simp [kcpTickMs]

theorem tickTimer_isSome (h : InSync g) (sched : Schedule) :
    (tickTimer sched g.log).isSome ↔ g.sessions.entries ≠ [] := by
  rw [← tickPeriod_pos, ← h, tickTimer]
  cases (settimes g.log).getLast? with
  | none => simp
  | some periodMs => exact timerSetPeriod_isSome

theorem tickPeriod_eq (h : g.sessions.entries ≠ []) : tickPeriod g = kcpTickMs :=
  if_neg (by simpa using h)

/-- The timer runs since the last call. -/
theorem tickTimer_eq_some (h : InSync g) (ht : tickTimer sched g.log = some t) :
    t.since ≤ sched.instant (settimes g.log).length ∧ t.period = kcpTickMs * 1000000 := by
  have hsome := (tickTimer_isSome h sched).mp (Option.isSome_iff_exists.mpr ⟨t, ht⟩)
  obtain ⟨periodMs, hlast, ht⟩ := Option.bind_eq_some_iff.mp ht
  obtain ⟨hsince, hperiod⟩ := timerSetPeriod_eq_some ht
  rw [InSync, hlast, tickPeriod_eq hsome] at h
  have hp : periodMs = kcpTickMs := h
  rw [hsince, hperiod, hp]
  exact ⟨sched.ordered (Nat.sub_le _ _), rfl⟩

/-- A call that follows the one before in less than a tick finds that the timer
has not expired in between. -/
theorem not_expired_of_soon (h : InSync g) (ht : tickTimer sched g.log = some t)
    (hsoon : sched.instant (settimes g.log).length < t.since + kcpTickMs * 1000000) {instant : Nat}
    (he : t.Expires instant) : sched.instant (settimes g.log).length < instant := by
  have hle := le_of_expires he
  rw [(tickTimer_eq_some h ht).2] at hle
  exact hsoon.trans_le hle

end Timer

/-- The calls that change the table: does this one set the timer? A REGISTER that
is only answered again does not. -/
def Restarts (g : Gateway ρ) : Event ρ → Prop
  | .register src _ => pendingOf g src = none
  | .flush => True
  | _ => False

def ChangesTable : Event ρ → Prop
  | .register _ _ | .flush => True
  | _ => False

theorem teardown_settimes (g : Gateway ρ) (conv : UInt32) : settimes (teardown g conv).log = settimes g.log := by
  rw [teardown]
  split
  next => rfl
  next s hs =>
    split_ifs
    · refine (settimes_append (g.log ++ [.epollDel s.targetFd]) [.close s.targetFd]).trans ?_
      rw [settimes_append]
      exact (List.append_nil _).trans (List.append_nil _)
    · rfl

theorem foldl_teardown_settimes (l : List UInt32) (g : Gateway ρ) :
    settimes (l.foldl teardown g).log = settimes g.log := by
  induction l generalizing g with
  | nil => rfl
  | cons conv l ih => exact (ih _).trans (teardown_settimes g conv)

theorem call_settimes {e : Event ρ} (he : ChangesTable e) (h : step env g e = .ok g') :
    (¬ Restarts g e ∧ settimes g'.log = settimes g.log) ∨
      Restarts g e ∧ settimes g'.log = settimes g.log ++ [tickPeriod g'] := by
  have hanswer : ∀ (g : Gateway ρ) src bytes,
      settimes (g.emit [.tunnel env.clientFd src bytes]).log = settimes g.log := fun g src bytes =>
    (settimes_append _ _).trans (List.append_nil _)
  cases e with
  | register src arrange =>
      simp only [step, registerClient] at h
      split at h
      next o hp =>
        cases h
        refine .inl ⟨fun hr => ?_, hanswer g src _⟩
        cases hp.symm.trans hr
      next hp =>
        split at h
        next => cases h
        next conv g₁ halloc =>
          obtain ⟨-, rfl⟩ := allocConv_eq_some halloc
          cases h
          refine .inr ⟨hp, (hanswer _ src _).trans ((syncTimer_settimes _).trans ?_)⟩
          exact congrArg (· ++ [_]) ((settimes_append _ _).trans (List.append_nil _))
  | flush =>
      cases h
      refine .inr ⟨trivial, (syncTimer_settimes _).trans ?_⟩
      rw [foldl_teardown_settimes]
      rfl
  | tunnel | target | update | sweep => exact absurd he id

/-- The timer runs while there are sessions. A call that sets it puts the next
tick off, unless it comes at the very instant of a tick. -/
theorem tick_not_put_off_iff (env : Env ρ) (sched : Schedule) (g : Gateway ρ) (h : ReachableByCalls env g) :
    ((tickTimer sched g.log).isSome ↔ g.sessions.entries ≠ []) ∧
      ∀ e g' t, ChangesTable e → step env g e = .ok g' → g'.sessions.entries ≠ [] →
        tickTimer sched g.log = some t → ∃ t', tickTimer sched g'.log = some t' ∧
          (t'.next (sched.instant (settimes g.log).length) ≤ t.next (sched.instant (settimes g.log).length) ↔
            ¬ Restarts g e ∨ t.period ∣ sched.instant (settimes g.log).length - t.since) := by
  have hsync := reachable_inSync h
  refine ⟨tickTimer_isSome hsync sched, fun e g' t he hstep hleft ht => ?_⟩
  obtain ⟨hsince, hperiod⟩ := tickTimer_eq_some hsync ht
  rcases call_settimes he hstep with ⟨hno, hsame⟩ | ⟨hyes, hset⟩
  · refine ⟨t, ?_, iff_of_true (le_refl _) (.inl hno)⟩
    rw [tickTimer, hsame]
    exact ht
  · obtain ⟨t', ht'⟩ := Option.isSome_iff_exists.mp ((tickTimer_isSome (step_inSync hstep hsync) sched).mpr hleft)
    refine ⟨t', ht', ?_⟩
    rw [tickTimer_append sched hset] at ht'
    obtain ⟨hs', hp'⟩ := timerSetPeriod_eq_some ht'
    have hrestart : t' = t.restart (sched.instant (settimes g.log).length) := by
      apply Running.ext
      · exact hs'
      · exact hp'.trans ((congrArg (· * 1000000) (tickPeriod_eq hleft)).trans hperiod.symm)
    rw [hrestart, next_restart_le_iff hsince]
    exact ⟨.inr, fun hor => hor.resolve_left (not_not.mpr hyes)⟩

section Sample

def spaced (gap : Nat) : Schedule := ⟨fun k => k * gap, fun h => Nat.mul_le_mul_right gap h⟩

def joins (host : UInt32) : Event Link := .register ⟨host, 1⟩ sampleOutcome.arrange

theorem two_join : ∃ g g', runEvents (sampleEnv .ofNat) (.init (sampleEnv .ofNat)) [joins 1] = .ok g ∧
    step (sampleEnv .ofNat) g (joins 2) = .ok g' ∧ settimes g.log = [5] ∧ settimes g'.log = [5, 5] ∧
    g'.sessions.entries ≠ [] :=
  ⟨_, _, rfl, rfl, rfl, rfl, List.cons_ne_nil _ _⟩

theorem tick_not_put_off_at_a_tick :
    ∃ g g' t t', step (sampleEnv .ofNat) g (joins 2) = .ok g' ∧ tickTimer (spaced 5000000) g.log = some t ∧
      tickTimer (spaced 5000000) g'.log = some t' ∧ t'.next 5000000 ≤ t.next 5000000 := by
  obtain ⟨g, g', hrun, hstep, hlog, -, hleft⟩ := two_join
  have ht : tickTimer (spaced 5000000) g.log = some ⟨0, 5000000, by decide⟩ := by
    rw [tickTimer, hlog]
    rfl
  have hreach := reachableByCalls_of_run .init hrun
  obtain ⟨t', ht', hiff⟩ := (tick_not_put_off_iff (sampleEnv .ofNat) (spaced 5000000) g hreach).2 (joins 2) g' _
    trivial hstep hleft ht
  rw [hlog] at hiff
  exact ⟨g, g', _, t', hstep, ht, ht', hiff.mpr (.inr ⟨1, rfl⟩)⟩

/-- The second client registers three milliseconds after the first one, and the
first tick comes three milliseconds late. -/
theorem tick_put_off :
    ∃ g g' t t', ReachableByCalls (sampleEnv .ofNat) g ∧ step (sampleEnv .ofNat) g (joins 2) = .ok g' ∧
      g'.sessions.entries ≠ [] ∧ tickTimer (spaced 3000000) g.log = some t ∧ t.next 3000000 = 5000000 ∧
      tickTimer (spaced 3000000) g'.log = some t' ∧ t'.next 3000000 = 8000000 := by
  obtain ⟨g, g', hrun, hstep, hlog, hlog', hleft⟩ := two_join
  refine ⟨g, g', ⟨0, 5000000, by decide⟩, ⟨3000000, 5000000, by decide⟩, reachableByCalls_of_run .init hrun, hstep,
    hleft, ?_, by decide, ?_, by decide⟩
  · rw [tickTimer, hlog]
    rfl
  · rw [tickTimer, hlog']
    rfl

end Sample

end GameAccelerator.TickTimer
