import GameAccelerator.EventLoop
import GameAccelerator.PoolBalance
import GameAccelerator.RelayRun

namespace GameAccelerator.ReplySource

open CString Platform Tables NetUtils TunnelProtocol TunnelMessages Kcp LosslessKcp SessionManager GatewayLoop
  GatewayMoves SessionInvariant Relay RelayRun PoolBalance EventLoop

variable {ρ : Type} {env : Env ρ} {c : UInt32} {s : Session ρ} {g g' g₁ g₂ : Gateway ρ}

/-- What arrives at the gateway. A datagram at a target descriptor comes from
somewhere, which `recvfrom` is not asked for. -/
inductive Arrival (ρ : Type)
  | register (src : Endpoint) (arrange : Arrangement UInt32 (Session ρ))
  | tunnel (datagrams : List (Datagram ρ))
  | target (fd : Int) (src : Endpoint) (reply : Bytes)
  | update
  | sweep
  | flush

def Arrival.event : Arrival ρ → Event ρ
  | .register src arrange => .register src arrange
  | .tunnel datagrams => .tunnel datagrams
  | .target fd _ reply => .target fd [reply]
  | .update => .update
  | .sweep => .sweep
  | .flush => .flush

/-- An arrival with the readings of the clock while it is handled. -/
structure Input (ρ : Type) where
  arrival : Arrival ρ
  now : Nat → UInt64

def reading (env : Env ρ) (now : Nat → UInt64) (ticks : Nat) : Env ρ := { env with clock := fun i => now (i - ticks) }

def handle (env : Env ρ) (g : Gateway ρ) (i : Input ρ) : Except Fault (Gateway ρ) :=
  step (reading env i.now g.ticks) g i.arrival.event

def run (env : Env ρ) : Gateway ρ → List (Input ρ) → Except Fault (Gateway ρ)
  | g, [] => .ok g
  | g, i :: inputs => do
      let g ← handle env g i
      run env g inputs

/-- A datagram at the descriptor of the session `c` that does not come from its
game server. -/
def Foreign (c : UInt32) (g : Gateway ρ) (i : Input ρ) : Prop :=
  ∃ s src reply, g.sessions.find c = some s ∧ 0 ≤ s.targetFd ∧ i.arrival = .target s.targetFd src reply ∧
    src ≠ s.targetAddr

/-- Two runs side by side: both take an input, or one of them takes a foreign
datagram. -/
inductive Move (ρ : Type)
  | both (i : Input ρ)
  | first (i : Input ρ)
  | second (i : Input ρ)

inductive Pair (env : Env ρ) (c : UInt32) : List (Move ρ) → Gateway ρ → Gateway ρ → Prop
  | start : Pair env c [] (.init env) (.init env)
  | both {moves : List (Move ρ)} {g₁ g₂ g₁' g₂' : Gateway ρ} {i : Input ρ} (h : Pair env c moves g₁ g₂)
      (h₁ : handle env g₁ i = .ok g₁') (h₂ : handle env g₂ i = .ok g₂') : Pair env c (moves ++ [.both i]) g₁' g₂'
  | first {moves : List (Move ρ)} {g₁ g₂ g₁' : Gateway ρ} {i : Input ρ} (h : Pair env c moves g₁ g₂)
      (hf : Foreign c g₁ i) (h₁ : handle env g₁ i = .ok g₁') : Pair env c (moves ++ [.first i]) g₁' g₂
  | second {moves : List (Move ρ)} {g₁ g₂ g₂' : Gateway ρ} {i : Input ρ} (h : Pair env c moves g₁ g₂)
      (hf : Foreign c g₂ i) (h₂ : handle env g₂ i = .ok g₂') : Pair env c (moves ++ [.second i]) g₁ g₂'

/-- The inputs of either run. -/
def firstInputs (moves : List (Move ρ)) : List (Input ρ) :=
  moves.filterMap fun
    | .both i | .first i => some i
    | .second _ => none

def secondInputs (moves : List (Move ρ)) : List (Input ρ) :=
  moves.filterMap fun
    | .both i | .second i => some i
    | .first _ => none

theorem run_concat {inputs : List (Input ρ)} {i : Input ρ} (h : run env g inputs = .ok g₁)
    (hi : handle env g₁ i = .ok g') : run env g (inputs ++ [i]) = .ok g' := by
  induction inputs generalizing g with
  | nil =>
      cases h
      rw [List.nil_append, run, hi]
      rfl
  | cons j inputs ih =>
      rw [run] at h
      rw [List.cons_append, run]
      cases hj : handle env g j with
      | error f =>
          rw [hj] at h
          cases h
      | ok g₂ =>
          rw [hj] at h
          exact ih h

theorem pair_runs {moves : List (Move ρ)} (h : Pair env c moves g₁ g₂) :
    run env (.init env) (firstInputs moves) = .ok g₁ ∧ run env (.init env) (secondInputs moves) = .ok g₂ := by
  induction h with
  | start => exact ⟨rfl, rfl⟩
  | both _ h₁ h₂ ih =>
      rw [firstInputs, secondInputs, List.filterMap_append, List.filterMap_append]
      exact ⟨run_concat ih.1 h₁, run_concat ih.2 h₂⟩
  | first _ _ h₁ ih =>
      rw [firstInputs, secondInputs, List.filterMap_append, List.filterMap_append]
      exact ⟨run_concat ih.1 h₁, (List.append_nil (secondInputs _)).symm ▸ ih.2⟩
  | second _ _ h₂ ih =>
      rw [firstInputs, secondInputs, List.filterMap_append, List.filterMap_append]
      exact ⟨(List.append_nil (firstInputs _)).symm ▸ ih.1, run_concat ih.2 h₂⟩

/-- The times at which traffic has brought `last_active` up to date. -/
def updatesOf (c : UInt32) (log : List Effect) : List UInt64 :=
  log.filterMap fun
    | .accepted c' t | .replied c' t => if c' = c then some t else none
    | _ => none

/-- What the client gets to hear of its session, and what the idle sweep reads. -/
def observed (c : UInt32) (g : Gateway ρ) : List Bytes × List UInt64 × Option UInt64 :=
  (sendsOf c g.log, updatesOf c g.log, (g.sessions.find c).map Session.lastActive)

/-- The session takes what comes to its descriptor. -/
def Open (c : UInt32) (g : Gateway ρ) : Prop := ∃ s, g.sessions.find c = some s ∧ s.dying = false ∧ 0 ≤ s.targetFd

theorem two_le_pool (hpool : g.pool = freshPool poolCap) : 2 ≤ g.pool.length := by
  rw [hpool, poolCap, freshPool, freshPool, List.length_cons, List.length_cons]
  exact Nat.le_add_left 2 _

theorem reply_sends (hg : Good env g) (hpool : g.pool = freshPool poolCap) (hs : g.sessions.find c = some s)
    (hd : s.dying = false) (reply : Bytes) :
    ∃ g', handleTargetReply env g c [reply] = .ok g' ∧ sendsOf c g'.log = sendsOf c g.log ++ [replyMessage reply] := by
  obtain ⟨hprog, _⟩ := forwardAll_progress (fun _ => none) env [reply] (conv_eq hg hs) (two_le_pool hpool)
  obtain ⟨effects, hlog, _, _, hsends, _⟩ := hprog.effects
  refine ⟨_, handleTargetReply_of_alive hs hd [reply], ?_⟩
  have happend : sendsOf c (g.log ++ effects) = sendsOf c g.log ++ sendsOf c effects := List.filterMap_append ..
  change sendsOf c (forwardAll env s g [reply]).2.log = _
  rw [hlog, happend, hsends, List.map_singleton]

/-- A foreign datagram is not read at all, or is passed on as a reply is. -/
theorem foreign_cases {i : Input ρ} (hg : Good env g) (hpool : g.pool = freshPool poolCap) (hf : Foreign c g i) :
    (handle env g i = .ok g ∧ ¬ Open c g) ∨
      Open c g ∧ ∃ g' msg, handle env g i = .ok g' ∧ sendsOf c g'.log = sendsOf c g.log ++ [msg] := by
  obtain ⟨s, src, reply, hs, hfd, harrival, _⟩ := hf
  have hmap : g.fdToSession s.targetFd = some c := (hg.fds s.targetFd c).mpr ⟨hfd, core s, index_of_find hs, rfl⟩
  have hhandle : handle env g i = handleTargetReply (reading env i.now g.ticks) g c [reply] := by
    rw [handle, harrival, Arrival.event, step, hmap]
  cases hd : s.dying with
  | true =>
      refine .inl ⟨hhandle.trans (handleTargetReply_of_dying hs hd [reply]), ?_⟩
      rintro ⟨s', hs', hd', _⟩
      cases hs.symm.trans hs'
      cases hd.symm.trans hd'
  | false =>
      have hread : Good (reading env i.now g.ticks) g := hg
      obtain ⟨g', hg', hsends⟩ := reply_sends hread hpool hs hd reply
      exact .inr ⟨⟨s, hs, hd, hfd⟩, g', _, hhandle.trans hg', hsends⟩

/-- What both runs keep. -/
def Sound (env : Env ρ) (g : Gateway ρ) : Prop := Good env g ∧ g.pool = freshPool poolCap

theorem handle_sound {i : Input ρ} (h : handle env g i = .ok g') (hg : Sound env g) : Sound env g' := by
  have hread : Good (reading env i.now g.ticks) g' := step_good h hg.1
  exact ⟨hread, (step_pool h).trans hg.2⟩

theorem pair_sound {moves : List (Move ρ)} (h : Pair env c moves g₁ g₂) : Sound env g₁ ∧ Sound env g₂ := by
  induction h with
  | start => exact ⟨⟨init_good env, rfl⟩, init_good env, rfl⟩
  | both _ h₁ h₂ ih => exact ⟨handle_sound h₁ ih.1, handle_sound h₂ ih.2⟩
  | first _ _ h₁ ih => exact ⟨handle_sound h₁ ih.1, ih.2⟩
  | second _ _ h₂ ih => exact ⟨ih.1, handle_sound h₂ ih.2⟩

section Turns

theorem forwardAll_put (env : Env ρ) (s t : Session ρ) (g : Gateway ρ) (replies : List Bytes) :
    forwardAll env s (g.put c t) replies =
      ((forwardAll env s g replies).1, (forwardAll env s g replies).2.put c t) := by
  induction replies generalizing s g with
  | nil => rfl
  | cons reply replies ih =>
      have hforward : forward env s (g.put c t) (reply.take maxReply) =
          ((forward env s g (reply.take maxReply)).1, (forward env s g (reply.take maxReply)).2.put c t) := rfl
      have hpool : (g.put c t).pool = g.pool := rfl
      rw [forwardAll, forwardAll, hpool]
      split
      next => rfl
      next => rfl
      next => rw [hforward, ih]

theorem handleTargetReply_cons (hs : g.sessions.find c = some s) (hpool : 2 ≤ g.pool.length) (reply : Bytes)
    (replies : List Bytes) :
    ∃ g₁, handleTargetReply env g c [reply] = .ok g₁ ∧ g₁.fdToSession = g.fdToSession ∧
      handleTargetReply env g c (reply :: replies) = handleTargetReply env g₁ c replies := by
  cases hd : s.dying with
  | true =>
      refine ⟨g, handleTargetReply_of_dying hs hd _, rfl, ?_⟩
      rw [handleTargetReply_of_dying hs hd, handleTargetReply_of_dying hs hd]
  | false =>
      obtain ⟨s₁, g₁, hforward⟩ : ∃ s₁ g₁, forward env s g (reply.take maxReply) = (s₁, g₁) := ⟨_, _, rfl⟩
      have hd₁ : s₁.dying = false := by
        have hlike := forward_like env s g (reply.take maxReply)
        rw [hforward] at hlike
        exact hlike.dying.trans hd
      have hsame : (forward env s g (reply.take maxReply)).2.sessions = g.sessions ∧
          (forward env s g (reply.take maxReply)).2.fdToSession = g.fdToSession := by
        constructor <;> simp only [forward, kcpCall, Gateway.tick, Gateway.emit]
      rw [hforward] at hsame
      have hs₁ : (g₁.put c s₁).sessions.find c = some s₁ := by
        apply find_put
        rw [Present, hsame.1, hs]
        rfl
      refine ⟨g₁.put c s₁, ?_, hsame.2, ?_⟩
      · rw [handleTargetReply_of_alive hs hd, forwardAll_cons env s hpool, hforward]
        rfl
      · rw [handleTargetReply_of_alive hs hd, forwardAll_cons env s hpool, hforward, handleTargetReply_of_alive hs₁ hd₁,
          forwardAll_put, put_put]

theorem step_target_cons (hg : Sound env g) (fd : Int) (reply : Bytes) (replies : List Bytes) :
    ∃ g₁, step env g (.target fd [reply]) = .ok g₁ ∧
      step env g (.target fd (reply :: replies)) = step env g₁ (.target fd replies) := by
  cases hc : g.fdToSession fd with
  | none =>
      have hnone (l : List Bytes) : step env g (.target fd l) = .ok g := by rw [step, hc]
      exact ⟨g, hnone _, (hnone _).trans (hnone _).symm⟩
  | some c =>
      obtain ⟨s, hs, _⟩ := find_of_fd hg.1 hc
      obtain ⟨g₁, hone, hfds, hrest⟩ := handleTargetReply_cons hs (two_le_pool hg.2) reply replies
      refine ⟨g₁, ?_, ?_⟩
      · rw [step, hc]
        exact hone
      · rw [step, step, hfds, hc]
        exact hrest

/-- The replies that one call reads can as well come one at a time. -/
theorem target_turns (hg : Sound env g) (fd : Int) (replies : List Bytes) :
    step env g (.target fd replies) = runEvents env g (replies.map fun reply => .target fd [reply]) := by
  induction replies generalizing g with
  | nil =>
      rw [List.map_nil, runEvents, step]
      split
      next => rfl
      next c hc =>
        obtain ⟨s, hs, _⟩ := find_of_fd hg.1 hc
        cases hd : s.dying with
        | true => exact handleTargetReply_of_dying hs hd []
        | false => rw [handleTargetReply_of_alive hs hd, forwardAll, put_self hs]
  | cons reply replies ih =>
      obtain ⟨g₁, hone, hrest⟩ := step_target_cons hg fd reply replies
      have hg₁ : Sound env g₁ := ⟨step_good hone hg.1, (step_pool hone).trans hg.2⟩
      rw [hrest, ih hg₁]
      exact (runEvents_append ((runEvents_singleton env g _).trans hone) _).symm

end Turns

theorem handle_foreign {i : Input ρ} (hg : Sound env g) (hf : Foreign c g i) (hclosed : ¬ Open c g)
    (h : handle env g i = .ok g') : g' = g := by
  rcases foreign_cases hg.1 hg.2 hf with ⟨hsame, _⟩ | ⟨hopen, _⟩
  · exact Except.ok.inj (h.symm.trans hsame)
  · exact absurd hopen hclosed

/-- A foreign datagram that is read shows. -/
theorem foreign_observed {i : Input ρ} (hg : Sound env g) (hf : Foreign c g i) (hopen : Open c g) :
    ∃ g', handle env g i = .ok g' ∧ observed c g' ≠ observed c g := by
  rcases foreign_cases hg.1 hg.2 hf with ⟨_, hclosed⟩ | ⟨_, g', msg, hg', hsends⟩
  · exact absurd hopen hclosed
  · refine ⟨g', hg', fun he => ?_⟩
    have hlength := congrArg List.length (hsends.symm.trans (congrArg Prod.fst he))
    rw [List.length_append, List.length_singleton] at hlength
    exact Nat.succ_ne_self _ hlength

/-- No foreign datagram of the moves is read. -/
def Unread (env : Env ρ) (c : UInt32) (moves : List (Move ρ)) : Prop :=
  ∀ done g₁ g₂ i, Pair env c done g₁ g₂ →
    (done ++ [.first i] <+: moves → Foreign c g₁ i → ¬ Open c g₁) ∧
      (done ++ [.second i] <+: moves → Foreign c g₂ i → ¬ Open c g₂)

theorem pair_eq {moves done : List (Move ρ)} (hunread : Unread env c moves) (hdone : done <+: moves)
    (h : Pair env c done g₁ g₂) : g₁ = g₂ := by
  induction h with
  | start => rfl
  | both _ h₁ h₂ ih =>
      cases ih ((List.prefix_append _ _).trans hdone)
      exact Except.ok.inj (h₁.symm.trans h₂)
  | first hpair hf h₁ ih =>
      have hclosed := (hunread _ _ _ _ hpair).1 hdone hf
      rw [handle_foreign (pair_sound hpair).1 hf hclosed h₁]
      exact ih ((List.prefix_append _ _).trans hdone)
  | second hpair hf h₂ ih =>
      have hclosed := (hunread _ _ _ _ hpair).2 hdone hf
      rw [handle_foreign (pair_sound hpair).2 hf hclosed h₂]
      exact ih ((List.prefix_append _ _).trans hdone)

theorem foreign_unheard_iff (env : Env ρ) (c : UInt32) (moves : List (Move ρ)) :
    (∀ done g₁ g₂, done <+: moves → Pair env c done g₁ g₂ → observed c g₁ = observed c g₂) ↔ Unread env c moves := by
  refine ⟨fun hsame done g₁ g₂ i hpair => ⟨fun hdone hf hopen => ?_, fun hdone hf hopen => ?_⟩, ?_⟩
  · have hbefore := hsame done g₁ g₂ ((List.prefix_append _ _).trans hdone) hpair
    obtain ⟨g', hg', hne⟩ := foreign_observed (pair_sound hpair).1 hf hopen
    exact hne ((hsame _ _ _ hdone (hpair.first hf hg')).trans hbefore.symm)
  · have hbefore := hsame done g₁ g₂ ((List.prefix_append _ _).trans hdone) hpair
    obtain ⟨g', hg', hne⟩ := foreign_observed (pair_sound hpair).2 hf hopen
    exact hne ((hsame _ _ _ hdone (hpair.second hf hg')).symm.trans hbefore)
  · intro hunread done g₁ g₂ hdone hpair
    rw [pair_eq hunread hdone hpair]

section Sample

def joinLobby : List (Input Link) :=
  [⟨.register ⟨1, 1⟩ sampleOutcome.arrange, fun _ => 0⟩,
    ⟨.tunnel [sampleDatagram ⟨1, 1⟩ 1000 0 0 (packConnect (ascii "lobby") 5)], fun _ => 0⟩]

def stray : Input Link := ⟨.target 4 ⟨8, 8⟩ [7], fun _ => 9⟩

/-- The client of the session 1000 is connected to 127.0.0.1:9000, and gets to
hear what anyone else sends to the descriptor. -/
theorem stray_is_passed_on :
    ∃ g₁ g₂, Pair (sampleEnv .ofNat) 1000 (joinLobby.map .both ++ [.second stray]) g₁ g₂ ∧
      observed 1000 g₁ = ([], [0], some 0) ∧ observed 1000 g₂ = ([packData [7] 1], [0, 9], some 9) := by
  have hruns : ∃ g g₁ g₂ s, handle (sampleEnv .ofNat) (.init (sampleEnv .ofNat)) joinLobby[0] = .ok g ∧
      handle (sampleEnv .ofNat) g joinLobby[1] = .ok g₁ ∧ handle (sampleEnv .ofNat) g₁ stray = .ok g₂ ∧
      g₁.sessions.find 1000 = some s ∧ s.targetFd = 4 ∧ s.targetAddr = ⟨16777343, 9000⟩ ∧
      observed 1000 g₁ = ([], [0], some 0) ∧ observed 1000 g₂ = ([packData [7] 1], [0, 9], some 9) :=
    ⟨_, _, _, _, rfl, rfl, rfl, rfl, rfl, rfl, rfl, rfl⟩
  obtain ⟨g, g₁, g₂, s, h₀, h₁, h₂, hs, hfd, haddr, hsees₁, hsees₂⟩ := hruns
  have hforeign : Foreign 1000 g₁ stray := by
    refine ⟨s, ⟨8, 8⟩, [7], hs, ?_, ?_, ?_⟩
    · rw [hfd]
      decide
    · rw [hfd]
      rfl
    · rw [haddr]
      decide
  exact ⟨g₁, g₂, (((Pair.start.both h₀ h₀).both h₁ h₁).second hforeign h₂), hsees₁, hsees₂⟩

end Sample

end GameAccelerator.ReplySource
