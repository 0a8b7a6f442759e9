import GameAccelerator.Drain
import GameAccelerator.SessionInvariant

namespace GameAccelerator.PoolBalance

open CString Platform Tables NetUtils TunnelProtocol Kcp SessionManager GatewayLoop GatewayMoves
  SessionInvariant Drain

variable {ρ : Type} {env : Env ρ} {o : Outcome ρ} {src : Endpoint} {c : UInt32} {s : Session ρ} {g g' : Gateway ρ}

theorem handleTunnelMsg_pool (env : Env ρ) (o : Outcome ρ) (c : UInt32) (s : Session ρ) (g : Gateway ρ)
    (m : Bytes) : (handleTunnelMsg env o c s g m).2.2.pool = g.pool := by
  simp only [handleTunnelMsg, openTarget]
  repeat' split
  all_goals rfl

theorem drain_pool {fuel : Nat} {r : Bool × Session ρ × Gateway ρ} (h : drain env o c fuel s g = .ok r) :
    r.2.2.pool = g.pool := by
  apply drain_keep (P := fun g' => g'.pool = g.pool) (fun s g' buf hg => ?_) h rfl
  exact (handleTunnelMsg_pool env o c s g' buf).trans hg

/-- The block that held the datagram is back on the free list, where it was. -/
theorem handleSegment_pool {block : Nat} {pkt : Bytes} {more : Bool}
    (h : handleSegment env o g block c s pkt = .ok (more, g')) : g'.pool = block :: g.pool := by
  have hfeed : (feed env s g pkt).2.pool = g.pool := by simp [feed]
  simp only [handleSegment] at h
  split at h
  next => cases h
  next gone s' g₁ hdrain =>
    have hpool : g₁.pool = g.pool := (drain_pool hdrain).trans hfeed
    split_ifs at h <;> cases h <;> exact congrArg (block :: ·) hpool

theorem registerClient_pool {arrange : Arrangement UInt32 (Session ρ)}
    (h : registerClient env arrange g src = .ok g') : g'.pool = g.pool := by
  rcases registerClient_cases h with ⟨_, _, _, _, _, _, rfl⟩ | ⟨_, _, _, _, rfl⟩ <;> rfl

theorem handleDatagram_pool {d : Datagram ρ} {more : Bool} (h : handleDatagram env g d = .ok (more, g')) :
    g'.pool = g.pool := by
  rcases handleDatagram_cases h with rfl | ⟨block, pool, g₁, hp, _, hreg, rfl⟩ | ⟨block, pool, _, _, hp, _, _, _, _, hseg⟩
  · rfl
  · rw [hp]
    exact congrArg (block :: ·) (registerClient_pool hreg)
  · rw [hp]
    exact handleSegment_pool hseg

theorem handleTunnelDatagram_pool {ds : List (Datagram ρ)} (h : handleTunnelDatagram env g ds = .ok g') :
    g'.pool = g.pool := by
  apply handleTunnelDatagram_rounds (P := fun g' => g'.pool = g.pool) (fun h₁ hg => ?_) h rfl
  exact (handleDatagram_pool h₁).trans hg

theorem forwardAll_pool (env : Env ρ) (s : Session ρ) (g : Gateway ρ) (replies : List Bytes) :
    (forwardAll env s g replies).2.pool = g.pool := by
  apply forwardAll_keep (P := fun _ g' => g'.pool = g.pool) (fun hg reply => ?_) id rfl
  simpa [forward] using hg

/-- Every call gives back what it took. -/
theorem step_pool {e : Event ρ} (h : step env g e = .ok g') : g'.pool = g.pool := by
  cases e with
  | register src arrange => exact registerClient_pool h
  | tunnel ds => exact handleTunnelDatagram_pool h
  | target fd replies =>
      simp only [step] at h
      split at h
      next =>
        cases h
        rfl
      next c _ =>
        obtain ⟨s, _, rfl | ⟨_, rfl⟩⟩ := handleTargetReply_cases h
        · rfl
        · exact forwardAll_pool ..
  | update =>
      cases h
      rfl
  | sweep =>
      cases h
      simp only [sweepIdle]
      split_ifs <;> rfl
  | flush =>
      cases h
      exact (foldl_teardown_rest g.toErase g).1

/-- Between two calls the pool is full. -/
theorem pool_of_reachable (h : ReachableByCalls env g) : g.pool = freshPool poolCap := by
  induction h with
  | init => rfl
  | step _ e he ih => exact (step_pool he).trans ih
  | message _ hs hd o buf ih => exact (handleTunnelMsg_pool ..).trans ih

end GameAccelerator.PoolBalance
