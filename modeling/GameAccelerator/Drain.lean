import GameAccelerator.GatewayMoves

namespace GameAccelerator.Drain

open CString Platform Tables NetUtils TunnelProtocol Kcp LosslessKcp SessionManager GatewayLoop GatewayMoves

variable {ρ : Type} {env : Env ρ} {o : Outcome ρ} {c : UInt32} {s : Session ρ} {g : Gateway ρ} {m : Bytes}
  {q : List Bytes} {fuel : Nat}

/-- The session after `ikcp_recv` has taken the message before the queue `q`. -/
def popped (env : Env ρ) (s : Session ρ) (q : List Bytes) : Session ρ :=
  { s with kcp := { s.kcp with kcp := { s.kcp.kcp with rcvQueue := q, rest := env.kcp.recv s.kcp.kcp } } }

theorem drain_nil (h : s.kcp.kcp.rcvQueue = []) : drain env o c (fuel + 1) s g = .ok (false, s, g) := by
  simp [drain, ikcpRecv, h]

theorem drain_oversize (h : s.kcp.kcp.rcvQueue = m :: q) (hm : blockSize < m.length) :
    drain env o c (fuel + 1) s g = .ok (false, s, g) := by
  simp [drain, ikcpRecv, h, hm]

theorem drain_empty (h : s.kcp.kcp.rcvQueue = [] :: q) :
    drain env o c (fuel + 1) s g = .ok (false, popped env s q, g) := by
  simp [drain, ikcpRecv, h, popped]

theorem drain_cons (h : s.kcp.kcp.rcvQueue = m :: q) (hpos : 0 < m.length) (hle : m.length ≤ blockSize) :
    drain env o c (fuel + 1) s g =
      if (handleTunnelMsg env o c (popped env s q) g m).1 then .ok (handleTunnelMsg env o c (popped env s q) g m)
      else drain env o c fuel (handleTunnelMsg env o c (popped env s q) g m).2.1
        (handleTunnelMsg env o c (popped env s q) g m).2.2 := by
  have hrecv : ikcpRecv env.kcp s.kcp.kcp blockSize =
      ((m.length : Int), m, { s.kcp.kcp with rcvQueue := q, rest := env.kcp.recv s.kcp.kcp }) := by
    simp only [ikcpRecv, h]
    exact if_neg (Nat.not_lt.mpr hle)
  simp only [drain, hrecv]
  exact if_neg (by omega)

section Messages

variable {p : Parsed}

theorem handleTunnelMsg_malformed (hp : parse m = none) : handleTunnelMsg env o c s g m = (false, s, g) := by
  simp [handleTunnelMsg, hp]

theorem handleTunnelMsg_again (hp : parse m = some p) (ht : p.type = packetConnect) (hfd : 0 ≤ s.targetFd) :
    handleTunnelMsg env o c s g m = (false, s, g) := by
  simp [handleTunnelMsg, hp, ht, hfd]

theorem handleTunnelMsg_unresolved (hp : parse m = some p) (ht : p.type = packetConnect) (hfd : s.targetFd < 0)
    (hr : resolve env o.kvGet m = none) : handleTunnelMsg env o c s g m = (true, markDying s g) := by
  simp [handleTunnelMsg, hp, ht, Int.not_le.mpr hfd, hr]

theorem handleTunnelMsg_refused {addr : Endpoint} (hp : parse m = some p) (ht : p.type = packetConnect)
    (hfd : s.targetFd < 0) (hr : resolve env o.kvGet m = some addr) (hneg : o.socket g.openFds < 0) :
    handleTunnelMsg env o c s g m =
      (true, { s with targetAddr := addr, lastActive := env.clock g.ticks, targetFd := o.socket g.openFds },
        g.tick) := by
  simp [handleTunnelMsg, hp, ht, Int.not_le.mpr hfd, hr, openTarget, Gateway.tick, hneg]

theorem handleTunnelMsg_connected {addr : Endpoint} (hp : parse m = some p) (ht : p.type = packetConnect)
    (hfd : s.targetFd < 0) (hr : resolve env o.kvGet m = some addr) (hnn : 0 ≤ o.socket g.openFds) :
    handleTunnelMsg env o c s g m =
      (false, { s with targetAddr := addr, lastActive := env.clock g.ticks, targetFd := o.socket g.openFds },
        { g.tick.emit [.epollAdd (o.socket g.openFds)] with
          openFds := o.socket g.openFds :: g.openFds
          fdToSession := emplaceFd g.fdToSession (o.socket g.openFds) c }) := by
  simp [handleTunnelMsg, hp, ht, Int.not_le.mpr hfd, hr, openTarget, Gateway.tick, Gateway.emit, Int.not_lt.mpr hnn]

theorem handleTunnelMsg_early (hp : parse m = some p) (ht : p.type = packetData) (hfd : s.targetFd < 0) :
    handleTunnelMsg env o c s g m = (false, s, g) := by
  have hc : packetData ≠ packetConnect := by decide
  simp [handleTunnelMsg, hp, ht, hfd, hc]

theorem handleTunnelMsg_data (hp : parse m = some p) (ht : p.type = packetData) (hfd : 0 ≤ s.targetFd) :
    handleTunnelMsg env o c s g m =
      (false, { s with lastActive := env.clock g.ticks },
        g.tick.emit [.relay s.conv s.targetFd s.targetAddr ((m.drop (p.data.getD 0)).take p.len.toNat)]) := by
  have hc : packetData ≠ packetConnect := by decide
  simp [handleTunnelMsg, hp, ht, Int.not_lt.mpr hfd, hc]

theorem handleTunnelMsg_close (hp : parse m = some p) (ht : p.type = packetClose) :
    handleTunnelMsg env o c s g m = (true, markDying s g) := by
  have hc : packetClose ≠ packetConnect := by decide
  have hd : packetClose ≠ packetData := by decide
  simp [handleTunnelMsg, hp, ht, hc, hd]

theorem handleTunnelMsg_unknown (hp : parse m = some p) (hc : p.type ≠ packetConnect) (hd : p.type ≠ packetData)
    (hcl : p.type ≠ packetClose) : handleTunnelMsg env o c s g m = (false, s, g) := by
  simp [handleTunnelMsg, hp, hc, hd, hcl]

end Messages

/-- Whether the loop hands every message of the queue on, or the session dies
on the way. -/
def clears (env : Env ρ) (o : Outcome ρ) (fds : List Int) : Bool → List Bytes → Bool
  | _, [] => true
  | connected, m :: q =>
      if m.length = 0 then q.isEmpty
      else if m.length > blockSize then false
      else
        match parse m with
        | none => clears env o fds connected q
        | some p =>
            if p.type = packetClose then true
            else if p.type = packetConnect ∧ connected = false then
              match resolve env o.kvGet m with
              | none => true
              | some _ => if o.socket fds < 0 then q.isEmpty else clears env o fds true q
            else clears env o fds connected q

theorem clears_connected (fds fds' : List Int) (q : List Bytes) :
    clears env o fds true q = clears env o fds' true q := by
  induction q with
  | nil => rfl
  | cons m q ih => simp only [clears, ih, Bool.true_eq_false, and_false, if_false]

/-- What one message does to the queue `q` behind it. -/
theorem handleTunnelMsg_clears (env : Env ρ) (o : Outcome ρ) (c : UInt32) (g : Gateway ρ) (hd : s.dying = false)
    (hpos : 0 < m.length) (hle : m.length ≤ blockSize) (q : List Bytes) :
    let r := handleTunnelMsg env o c s g m
    r.2.1.kcp = s.kcp ∧ (r.1 = false → r.2.1.dying = false) ∧
      clears env o g.openFds (decide (0 ≤ s.targetFd)) (m :: q) =
        if r.1 then r.2.1.dying || q.isEmpty else clears env o r.2.2.openFds (decide (0 ≤ r.2.1.targetFd)) q := by
  have h0 : m.length ≠ 0 := hpos.ne'
  have h1 : ¬ m.length > blockSize := Nat.not_lt.mpr hle
  simp only [clears, if_neg h0, if_neg h1]
  cases hp : parse m with
  | none =>
      rw [handleTunnelMsg_malformed hp]
      exact ⟨rfl, fun _ => hd, rfl⟩
  | some p =>
      dsimp only
      by_cases hcl : p.type = packetClose
      · rw [handleTunnelMsg_close hp hcl, if_pos hcl]
        exact ⟨rfl, nofun, rfl⟩
      rw [if_neg hcl]
      by_cases hc : p.type = packetConnect
      · by_cases hfd : 0 ≤ s.targetFd
        · rw [handleTunnelMsg_again hp hc hfd]
          exact ⟨rfl, fun _ => hd, by simp [hfd]⟩
        · have hneg := Int.not_le.mp hfd
          cases hr : resolve env o.kvGet m with
          | none =>
              rw [handleTunnelMsg_unresolved hp hc hneg hr]
              exact ⟨rfl, nofun, by simp [hc, hfd, markDying]⟩
          | some addr =>
              by_cases hs : o.socket g.openFds < 0
              · rw [handleTunnelMsg_refused hp hc hneg hr hs]
                exact ⟨rfl, nofun, by simp [hc, hfd, hs, hd]⟩
              · rw [handleTunnelMsg_connected hp hc hneg hr (Int.not_lt.mp hs)]
                refine ⟨rfl, fun _ => hd, ?_⟩
                simp [hc, hfd, hs, Int.not_lt.mp hs, clears_connected (o.socket g.openFds :: g.openFds) g.openFds]
      · rw [if_neg fun h => hc h.1]
        by_cases hdata : p.type = packetData
        · by_cases hfd : s.targetFd < 0
          · rw [handleTunnelMsg_early hp hdata hfd]
            exact ⟨rfl, fun _ => hd, rfl⟩
          · rw [handleTunnelMsg_data hp hdata (Int.not_lt.mp hfd)]
            exact ⟨rfl, fun _ => hd, rfl⟩
        · rw [handleTunnelMsg_unknown hp hc hdata hcl]
          exact ⟨rfl, fun _ => hd, rfl⟩

theorem drain_clears (env : Env ρ) (o : Outcome ρ) (c : UInt32) (g : Gateway ρ) (hd : s.dying = false)
    (hf : s.kcp.kcp.rcvQueue.length < fuel) :
    ∃ r, drain env o c fuel s g = .ok r ∧ (r.2.1.dying = true ∨ r.2.1.kcp.kcp.rcvQueue = [] ↔
      clears env o g.openFds (decide (0 ≤ s.targetFd)) s.kcp.kcp.rcvQueue = true) := by
  induction fuel generalizing s g with
  | zero => exact absurd hf (Nat.not_lt_zero _)
  | succ fuel ih =>
      cases hq : s.kcp.kcp.rcvQueue with
      | nil => exact ⟨_, drain_nil hq, iff_of_true (.inr hq) rfl⟩
      | cons m q =>
          rw [hq, List.length_cons] at hf
          by_cases hle : m.length ≤ blockSize
          · by_cases hpos : 0 < m.length
            · obtain ⟨hkcp, halive, hclears⟩ :=
                handleTunnelMsg_clears (s := popped env s q) env o c g hd hpos hle q
              have hstep : clears env o g.openFds (decide (0 ≤ s.targetFd)) (m :: q) = _ := hclears
              rw [drain_cons hq hpos hle, hstep]
              by_cases hgone : (handleTunnelMsg env o c (popped env s q) g m).1 = true
              · refine ⟨_, if_pos hgone, ?_⟩
                rw [hkcp, if_pos hgone, Bool.or_eq_true, List.isEmpty_iff]
                rfl
              · rw [if_neg hgone, if_neg hgone]
                have hqueue : (handleTunnelMsg env o c (popped env s q) g m).2.1.kcp.kcp.rcvQueue = q := by
                  rw [hkcp]
                  rfl
                have hlen : (handleTunnelMsg env o c (popped env s q) g m).2.1.kcp.kcp.rcvQueue.length < fuel := by
                  rw [hqueue]
                  omega
                have hr := ih (handleTunnelMsg env o c (popped env s q) g m).2.2 (halive (Bool.eq_false_iff.mpr hgone)) hlen
                rwa [hqueue] at hr
            · cases List.length_eq_zero_iff.mp (Nat.eq_zero_of_not_pos hpos)
              refine ⟨_, drain_empty hq, ?_⟩
              simp [popped, hd, clears]
          · have hlt := Nat.not_le.mp hle
            refine ⟨_, drain_oversize hq hlt, iff_of_false ?_ ?_⟩
            · simp [hd, hq]
            · have h0 : m.length ≠ 0 := (Nat.zero_lt_of_lt hlt).ne'
              rw [clears, if_neg h0, if_pos hlt]
              exact nofun

theorem handleTunnelMsg_sessions (env : Env ρ) (o : Outcome ρ) (c : UInt32) (s : Session ρ) (g : Gateway ρ)
    (m : Bytes) : (handleTunnelMsg env o c s g m).2.2.sessions = g.sessions := by
  simp only [handleTunnelMsg, openTarget]
  repeat' split
  all_goals rfl

theorem drain_sessions {r : Bool × Session ρ × Gateway ρ} (h : drain env o c fuel s g = .ok r) :
    r.2.2.sessions = g.sessions := by
  apply drain_keep (P := fun g' => g'.sessions = g.sessions) (fun s g' buf hg => ?_) h rfl
  exact (handleTunnelMsg_sessions env o c s g' buf).trans hg

theorem handleDatagram_segment {d : Datagram ρ} {block : Nat} {pool : List Nat} (hpool : g.pool = block :: pool)
    (hlen : 24 ≤ (d.bytes.take blockSize).length) (hl : lookup g d.src (d.bytes.take blockSize) = some (c, s))
    (hd : s.dying = false) :
    handleDatagram env g d =
      handleSegment env d.outcome { g with pool := pool } block c s (d.bytes.take blockSize) := by
  have h1 : ¬ ((d.bytes.take blockSize).length = 1 ∧ byteAt (d.bytes.take blockSize) 0 = packetRegister) := by
    omega
  simp only [handleDatagram, hpool, if_neg h1, if_neg (Nat.not_lt.mpr hlen), hl, hd, Bool.false_eq_true, if_false]

/-- The gateway at the end of a round, with the session written back. -/
def finish (env : Env ρ) (block : Nat) (c : UInt32) (r : Bool × Session ρ × Gateway ρ) : Gateway ρ :=
  let g := { r.2.2 with pool := block :: r.2.2.pool }
  if r.1 then g.put c r.2.1 else g.tick.put c { r.2.1 with lastActive := env.clock g.ticks }

theorem handleSegment_finish {block : Nat} {pkt : Bytes} {r : Bool × Session ρ × Gateway ρ}
    (h : drain env o c ((feed env s g pkt).1.kcp.kcp.rcvQueue.length + 1) (feed env s g pkt).1 (feed env s g pkt).2 =
      .ok r) : handleSegment env o g block c s pkt = .ok (true, finish env block c r) := by
  obtain ⟨gone, s', g'⟩ := r
  simp only [handleSegment]
  rw [h]
  cases gone <;> rfl

theorem find_finish (env : Env ρ) {r : Bool × Session ρ × Gateway ρ} (h : Present r.2.2 c) (block : Nat) :
    ∃ t, (finish env block c r).sessions.find c = some { r.2.1 with lastActive := t } := by
  obtain ⟨gone, s', g'⟩ := r
  cases gone with
  | true => exact ⟨s'.lastActive, find_put h s'⟩
  | false => exact ⟨_, find_put h _⟩

section Feed

variable (env : Env ρ) (s : Session ρ) (g : Gateway ρ) (pkt : Bytes)

theorem feed_dying : (feed env s g pkt).1.dying = s.dying := by
  simp [feed]

theorem feed_targetFd : (feed env s g pkt).1.targetFd = s.targetFd := by
  simp [feed]

theorem feed_rcvQueue :
    (feed env s g pkt).1.kcp.kcp.rcvQueue = (env.kcp.input s.kcp.kcp pkt).1 := by
  simp [feed, ikcpInput, ikcpUpdate, ikcpFlush]

theorem feed_sessions : (feed env s g pkt).2.sessions = g.sessions := by
  simp [feed]

theorem feed_openFds : (feed env s g pkt).2.openFds = g.openFds := by
  simp [feed]

end Feed

theorem queue_emptied_iff (env : Env ρ) (g : Gateway ρ) (d : Datagram ρ) (c : UInt32) (s : Session ρ)
    (hpool : g.pool ≠ []) (hlen : 24 ≤ (d.bytes.take blockSize).length)
    (hl : lookup g d.src (d.bytes.take blockSize) = some (c, s)) (hd : s.dying = false) :
    ∃ g' s', handleDatagram env g d = .ok (true, g') ∧ g'.sessions.find c = some s' ∧
      (s'.dying = true ∨ s'.kcp.kcp.rcvQueue = [] ↔
        clears env d.outcome g.openFds (decide (0 ≤ s.targetFd))
          (env.kcp.input s.kcp.kcp (d.bytes.take blockSize)).1 = true) := by
  obtain ⟨block, pool, hp⟩ := List.exists_cons_of_ne_nil hpool
  obtain ⟨hs, _⟩ := lookup_eq_some hl
  rw [handleDatagram_segment hp hlen hl hd]
  generalize d.bytes.take blockSize = pkt
  obtain ⟨r, hr, hiff⟩ := drain_clears (s := (feed env s { g with pool := pool } pkt).1) env d.outcome c
    (feed env s { g with pool := pool } pkt).2 ((feed_dying ..).trans hd) (Nat.lt_succ_self _)
  rw [feed_openFds, feed_targetFd, feed_rcvQueue] at hiff
  have hpresent : Present r.2.2 c := by
    rw [Present, drain_sessions hr, feed_sessions]
    exact Option.isSome_iff_exists.mpr ⟨s, hs⟩
  obtain ⟨t, ht⟩ := find_finish env hpresent block
  exact ⟨_, _, handleSegment_finish hr, ht, hiff⟩

theorem queue_emptied_by_connect :
    ∃ g s g' s', runEvents (sampleEnv .ofNat) (.init (sampleEnv .ofNat))
        [.register ⟨1, 1⟩ sampleOutcome.arrange] = .ok g ∧ g.sessions.find 1000 = some s ∧
      handleDatagram (sampleEnv .ofNat) g (sampleDatagram ⟨1, 1⟩ 1000 0 0 (packConnect (ascii "lobby") 5)) =
        .ok (true, g') ∧ g'.sessions.find 1000 = some s' ∧ (s'.dying = true ∨ s'.kcp.kcp.rcvQueue = []) := by
  have hrun : ∃ g s, runEvents (sampleEnv .ofNat) (.init (sampleEnv .ofNat))
        [.register ⟨1, 1⟩ sampleOutcome.arrange] = .ok g ∧ g.pool ≠ [] ∧ g.openFds = [0, 1, 2, 3] ∧
      lookup g ⟨1, 1⟩ (htonl 1000).reverse = some (1000, s) ∧ s = newSession lossless 3 1000 ⟨1, 1⟩ :=
    ⟨_, _, rfl, nofun, rfl, rfl, rfl⟩
  obtain ⟨g, s, hg, hpool, hfds, hl, rfl⟩ := hrun
  obtain ⟨g', s', hh, hs', hiff⟩ := queue_emptied_iff (sampleEnv .ofNat) g
    (sampleDatagram ⟨1, 1⟩ 1000 0 0 (packConnect (ascii "lobby") 5)) 1000 _ hpool (by decide) hl rfl
  refine ⟨g, _, g', s', hg, (lookup_eq_some hl).1, hh, hs', hiff.mpr ?_⟩
  rw [hfds]
  decide

/-- A message of 2049 bytes in two fragments, and a CLOSE behind it. -/
def oversizeThenClose : List (Event Link) :=
  [.register ⟨1, 1⟩ sampleOutcome.arrange,
    .tunnel [sampleDatagram ⟨1, 1⟩ 1000 0 1 (List.replicate 1376 0),
      sampleDatagram ⟨1, 1⟩ 1000 1 0 (List.replicate 673 0), sampleDatagram ⟨1, 1⟩ 1000 2 0 packClose]]

theorem oversize_message_stays :
    ((runEvents (sampleEnv .ofNat) (.init (sampleEnv .ofNat)) oversizeThenClose).toOption.bind
        fun g => g.sessions.find 1000).map (fun s => (s.dying, s.kcp.kcp.rcvQueue)) =
      some (false, [List.replicate 2049 0, packClose]) := by
  decide +kernel

end GameAccelerator.Drain
