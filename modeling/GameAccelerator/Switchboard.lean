import GameAccelerator.Drain
import GameAccelerator.SessionInvariant

namespace GameAccelerator.Switchboard

open CString Platform Tables NetUtils TunnelProtocol Kcp SessionManager GatewayLoop GatewayMoves SessionInvariant Drain
  Relation

variable {ρ : Type}

/-- The gateway as one that only looks after control blocks. -/
structure View (ρ : Type) where
  blocks : UInt32 → Option (KcpSession ρ)
  log : List Effect

def view (g : Gateway ρ) : View ρ := ⟨fun c => (g.sessions.find c).map Session.kcp, g.log⟩

/-- An effect that is no message, no datagram of KCP and no creation. -/
def Plain : Effect → Prop
  | .complete _ _ | .ikcpSend _ _ | .created _ _ _ => False
  | .tunnel _ _ bytes => bytes.length < 24
  | _ => True

/-- The calls of the library for one control block: which messages they
complete, which ones they are given and which packets they send. -/
inductive Serve (K : Library ρ) (arrives : Bytes → Prop) (k : Ikcpcb ρ) : Ikcpcb ρ → List Bytes → List Bytes → List Bytes → Prop
  | input (pkt : Bytes) (h : arrives pkt) : Serve K arrives k (ikcpInput K k pkt).1 (completed K k pkt) [] (ikcpInput K k pkt).2
  | update (now : UInt32) : Serve K arrives k (ikcpUpdate K k now).1 [] [] (ikcpUpdate K k now).2
  | flush : Serve K arrives k (ikcpFlush K k).1 [] [] (ikcpFlush K k).2
  | send (msg : Bytes) (h : msg.length ≤ blockSize) : Serve K arrives k (ikcpSend K k msg) [] [msg] []
  | recv : Serve K arrives k (ikcpRecv K k blockSize).2.2 [] [] []

/-- What such a gateway does, when `arrives src pkt` says which datagrams come
from where. -/
inductive Move (env : Env ρ) (arrives : Endpoint → Bytes → Prop) : View ρ → View ρ → Prop
  | note (v : View ρ) (effects : List Effect) (h : ∀ e ∈ effects, Plain e) :
      Move env arrives v { v with log := v.log ++ effects }
  | serve {v : View ρ} {c : UInt32} {ks : KcpSession ρ} {k : Ikcpcb ρ} {completed sent packets : List Bytes}
      (hks : v.blocks c = some ks) (h : Serve env.kcp (arrives ks.peer) ks.kcp k completed sent packets) :
      Move env arrives v ⟨Function.update v.blocks c (some { ks with kcp := k }),
        v.log ++ (completed.map (.complete c) ++ sent.map (.ikcpSend c) ++ kcpOutput ks packets)⟩
  | created {v : View ρ} {c : UInt32} (hfree : v.blocks c = none) (src : Endpoint) (time : UInt64) :
      Move env arrives v ⟨Function.update v.blocks c (some (kcpSessionInit env.kcp c src env.clientFd)),
        v.log ++ [.created c src time]⟩
  | gone (v : View ρ) (c : UInt32) : Move env arrives v { v with blocks := Function.update v.blocks c none }

def Moves (env : Env ρ) (arrives : Endpoint → Bytes → Prop) : View ρ → View ρ → Prop := ReflTransGen (Move env arrives)

variable {env : Env ρ} {arrives : Endpoint → Bytes → Prop} {c : UInt32} {s s' : Session ρ} {g g' : Gateway ρ} {v : View ρ}

/-- What holds of all control blocks is left to check for the one that changes. -/
theorem forall_update {P : UInt32 → KcpSession ρ → Prop} {blocks : UInt32 → Option (KcpSession ρ)} {o : Option (KcpSession ρ)}
    (h : ∀ c ks, blocks c = some ks → P c ks) (ho : ∀ ks ∈ o, P c ks) :
    ∀ c' ks, Function.update blocks c o c' = some ks → P c' ks := by
  intro c' ks hks
  by_cases hc : c' = c
  · subst hc
    rw [Function.update_self] at hks
    exact ho ks hks
  · rw [Function.update_of_ne hc] at hks
    exact h c' ks hks

/-- The gateway with another control block in the entry `c`. -/
def View.with (v : View ρ) (c : UInt32) (ks : KcpSession ρ) : View ρ := { v with blocks := Function.update v.blocks c (some ks) }

theorem view_put (h : Present g c) (s : Session ρ) : view (g.put c s) = (view g).with c s.kcp := by
  simp only [view, View.with, View.mk.injEq]
  refine ⟨?_, rfl⟩
  funext c'
  by_cases hc : c' = c
  · rw [hc, find_put h, Function.update_self]
    rfl
  · rw [Gateway.put, find_modify_of_ne hc, Function.update_of_ne hc]

theorem view_with (h : g.sessions.find c = some s) : (view g).with c s.kcp = view g := by
  rw [← view_put (Option.isSome_iff_exists.mpr ⟨s, h⟩), put_self h]

/-- The session `s` of the entry `c` is in hand, and its control block is still
to be written back. -/
structure Held (env : Env ρ) (arrives : Endpoint → Bytes → Prop) (v : View ρ) (c : UInt32) (s : Session ρ) (g : Gateway ρ) :
    Prop where
  moves : Moves env arrives v ((view g).with c s.kcp)
  present : Present g c
  conv : s.conv = c

theorem held_of_find (hs : g.sessions.find c = some s) (hconv : s.conv = c) : Held env arrives (view g) c s g := by
  refine ⟨?_, Option.isSome_iff_exists.mpr ⟨s, hs⟩, hconv⟩
  rw [view_with hs]
  exact .refl

namespace Held

variable (h : Held env arrives v c s g)

include h

theorem put : Moves env arrives v (view (g.put c s)) := by
  rw [view_put h.present]
  exact h.moves

theorem note {effects : List Effect} (he : ∀ e ∈ effects, Plain e) (hkcp : s'.kcp = s.kcp) (hconv : s'.conv = s.conv)
    (hsessions : g'.sessions = g.sessions) (hlog : g'.log = g.log ++ effects) : Held env arrives v c s' g' := by
  have hmoves := h.moves.tail (.note _ effects he)
  refine ⟨?_, by rw [Present, hsessions]; exact h.present, hconv.trans h.conv⟩
  simp only [view, View.with, hkcp, hsessions, hlog] at hmoves ⊢
  exact hmoves

theorem mark (e : Effect) (he : Plain e) (hkcp : s'.kcp = s.kcp) (hconv : s'.conv = s.conv)
    (hsessions : g'.sessions = g.sessions) (hlog : g'.log = g.log ++ [e]) : Held env arrives v c s' g' :=
  h.note (List.forall_mem_singleton.mpr he) hkcp hconv hsessions hlog

/-- Only the control block, the table and the log count. -/
theorem congr (hkcp : s'.kcp = s.kcp) (hconv : s'.conv = s.conv) (hsessions : g'.sessions = g.sessions) (hlog : g'.log = g.log) :
    Held env arrives v c s' g' :=
  h.note (List.forall_mem_nil _) hkcp hconv hsessions (by rw [hlog, List.append_nil])

theorem serve {k : Ikcpcb ρ} {completed sent packets : List Bytes}
    (hk : Serve env.kcp (arrives s.kcp.peer) s.kcp.kcp k completed sent packets) (hkcp : s'.kcp = { s.kcp with kcp := k })
    (hconv : s'.conv = s.conv) (hsessions : g'.sessions = g.sessions)
    (hlog : g'.log = g.log ++ (completed.map (.complete c) ++ sent.map (.ikcpSend c) ++ kcpOutput s.kcp packets)) :
    Held env arrives v c s' g' := by
  have hmoves := h.moves.tail (.serve (Function.update_self ..) hk)
  refine ⟨?_, by rw [Present, hsessions]; exact h.present, hconv.trans h.conv⟩
  simp only [view, View.with, hkcp, hsessions, hlog, Function.update_idem] at hmoves ⊢
  exact hmoves

/-- A call whose packets go out. -/
theorem kcpCall {r : Ikcpcb ρ × List Bytes} (hk : Serve env.kcp (arrives s.kcp.peer) s.kcp.kcp r.1 [] [] r.2) :
    Held env arrives v c (kcpCall s g r).1 (kcpCall s g r).2 := h.serve hk rfl rfl rfl rfl

theorem tick : Held env arrives v c s g.tick := h.congr rfl rfl rfl rfl

theorem feed {pkt : Bytes} (ha : arrives s.kcp.peer pkt) : Held env arrives v c (feed env s g pkt).1 (feed env s g pkt).2 := by
  have haccept : Held env arrives v c s (g.emit [.accepted s.conv (env.clock g.ticks)]) :=
    h.mark (.accepted _ _) trivial rfl rfl rfl rfl
  have hin : Held env arrives v c { s with lastActive := env.clock g.ticks, kcp.kcp := (ikcpInput env.kcp s.kcp.kcp pkt).1 }
      ((g.tick.emit (.accepted s.conv (env.clock g.ticks) :: (completed env.kcp s.kcp.kcp pkt).map (.complete s.conv))).emit
        (kcpOutput s.kcp (ikcpInput env.kcp s.kcp.kcp pkt).2)) :=
    haccept.serve (.input pkt ha) rfl rfl rfl (by simp [h.conv])
  exact (hin.tick.kcpCall (.update _)).kcpCall .flush

theorem send {msg : Bytes} (hm : msg.length ≤ blockSize) :
    Held env arrives v c { s with kcp.kcp := ikcpSend env.kcp s.kcp.kcp msg } (g.emit [.ikcpSend s.conv msg]) :=
  h.serve (.send msg hm) rfl rfl rfl (by simp [kcpOutput, h.conv])

theorem forward {reply : Bytes} (hr : reply.length ≤ maxReply) :
    Held env arrives v c (forward env s g reply).1 (forward env s g reply).2 := by
  have hmsg : (packData reply (.ofNat reply.length)).length ≤ blockSize := by
    simp only [maxReply, blockSize, dataHeadLen] at hr
    simp [packData, htons, blockSize]
    omega
  have hread : Held env arrives v c { s with lastActive := env.clock g.ticks } (g.tick.emit [.replied s.conv (env.clock g.ticks)]) :=
    h.mark (.replied _ _) trivial rfl rfl rfl rfl
  exact ((hread.tick.kcpCall (.update (env.clock (g.ticks + 1)).toUInt32)).send hmsg).kcpCall .flush

theorem openTarget (o : Outcome ρ) : Held env arrives v c (openTarget o c s g).2.1 (openTarget o c s g).2.2 := by
  simp only [SessionManager.openTarget]
  split
  · exact h.congr rfl rfl rfl rfl
  · exact h.mark (.epollAdd _) trivial rfl rfl rfl rfl

theorem handleTunnelMsg (o : Outcome ρ) (buf : Bytes) :
    Held env arrives v c (handleTunnelMsg env o c s g buf).2.1 (handleTunnelMsg env o c s g buf).2.2 := by
  simp only [GatewayLoop.handleTunnelMsg]
  split
  · exact h
  · split_ifs
    · exact h
    · split
      · exact h.congr rfl rfl rfl rfl
      · next addr _ =>
        have hactive : Held env arrives v c { s with targetAddr := addr, lastActive := env.clock g.ticks } g.tick :=
          h.congr rfl rfl rfl rfl
        exact hactive.openTarget o
    · exact h
    · exact h.mark (.relay _ _ _ _) trivial rfl rfl rfl rfl
    · exact h.congr rfl rfl rfl rfl
    · exact h

theorem drain {o : Outcome ρ} {fuel : Nat} {r : Bool × Session ρ × Gateway ρ} (hr : drain env o c fuel s g = .ok r) :
    Held env arrives v c r.2.1 r.2.2 := by
  induction fuel generalizing s g with
  | zero => cases hr
  | succ fuel ih =>
      have hrecv : Held env arrives v c { s with kcp.kcp := (ikcpRecv env.kcp s.kcp.kcp blockSize).2.2 } g :=
        h.serve .recv rfl rfl rfl (by simp [kcpOutput])
      have hmsg := hrecv.handleTunnelMsg o (ikcpRecv env.kcp s.kcp.kcp blockSize).2.1
      simp only [GatewayLoop.drain] at hr
      split_ifs at hr
      · cases hr
        exact hrecv
      · cases hr
        exact hmsg
      · exact ih hmsg hr

theorem handleSegment {o : Outcome ρ} {block : Nat} {pkt : Bytes} {r : Bool × Gateway ρ} (ha : arrives s.kcp.peer pkt)
    (hr : handleSegment env o g block c s pkt = .ok r) : Moves env arrives v (view r.2) := by
  simp only [GatewayLoop.handleSegment] at hr
  split at hr
  next => cases hr
  next gone s' g' hdrain =>
    have hheld := (h.feed ha).drain hdrain
    split_ifs at hr <;> cases hr
    · have hput : Held env arrives v c s' { g' with pool := block :: g'.pool } := hheld.congr rfl rfl rfl rfl
      exact hput.put
    · have hput : Held env arrives v c { s' with lastActive := env.clock g'.ticks } { g' with pool := block :: g'.pool }.tick :=
        hheld.congr rfl rfl rfl rfl
      exact hput.put

theorem forwardAll (replies : List Bytes) :
    Held env arrives v c (forwardAll env s g replies).1 (forwardAll env s g replies).2 := by
  induction replies generalizing s g with
  | nil => exact h
  | cons reply replies ih =>
      simp only [GatewayLoop.forwardAll]
      split
      · exact h
      · exact h.mark (.replied _ _) trivial rfl rfl rfl rfl
      · exact ih (h.forward (List.length_take_le _ _))

end Held

theorem plain_registered (fd : Int) (dst : Endpoint) (conv : UInt32) : Plain (.tunnel fd dst (packRegistered conv)) :=
  (by decide : 5 < 24)

theorem registerClient_moves {arrange : Arrangement UInt32 (Session ρ)} {src : Endpoint}
    (h : registerClient env arrange g src = .ok g') : Moves env arrives (view g) (view g') := by
  rcases registerClient_cases h with ⟨_, s, _, _, _, _, rfl⟩ | ⟨conv, _, _, hfree, rfl⟩
  · exact .single (.note _ _ (List.forall_mem_singleton.mpr (plain_registered _ _ _)))
  · have hblocks : (view (withSession env arrange g src conv)).blocks =
        Function.update (view g).blocks conv (some (kcpSessionInit env.kcp conv src env.clientFd)) := by
      funext c
      simp only [view, find_withSession hfree]
      by_cases hc : c = conv
      · rw [if_pos hc, hc, Function.update_self]
        rfl
      · rw [if_neg hc, Function.update_of_ne hc]
    have hnone : (view g).blocks conv = none := congrArg (Option.map Session.kcp) hfree
    have hcreate : Move env arrives (view g) (view (withSession env arrange g src conv)) := by
      have hmove : Move env arrives (view g) _ := .created hnone src (env.clock g.ticks)
      rw [← hblocks] at hmove
      exact hmove
    exact ((ReflTransGen.single hcreate).tail (.note _ [.timer _] (List.forall_mem_singleton.mpr trivial))).tail
      (.note _ _ (List.forall_mem_singleton.mpr (plain_registered _ _ _)))

theorem handleDatagram_moves {d : Datagram ρ} {more : Bool} (hg : Good env g)
    (ha : arrives d.src (d.bytes.take blockSize)) (h : handleDatagram env g d = .ok (more, g')) :
    Moves env arrives (view g) (view g') := by
  rcases handleDatagram_cases h with rfl | ⟨block, pool, g₁, _, _, hreg, rfl⟩ |
    ⟨block, pool, c, s, _, _, hs, ho, _, hseg⟩
  · exact .refl
  · have hmoves : Moves env arrives (view { g with pool := pool }) (view g₁) := registerClient_moves hreg
    exact hmoves
  · obtain ⟨hconv, _, hpeer, _⟩ := hg.entry (index_of_find hs)
    have hheld : Held env arrives (view g) c s { g with pool := pool } := (held_of_find hs hconv).congr rfl rfl rfl rfl
    have harrives : arrives s.kcp.peer (d.bytes.take blockSize) := by
      rw [show s.kcp.peer = d.src from hpeer.trans ho]
      exact ha
    exact hheld.handleSegment harrives hseg

theorem handleTunnelDatagram_moves {ds : List (Datagram ρ)} (hg : Good env g)
    (ha : ∀ d ∈ ds, arrives d.src (d.bytes.take blockSize)) (h : handleTunnelDatagram env g ds = .ok g') :
    Moves env arrives (view g) (view g') := by
  induction ds generalizing g with
  | nil =>
      cases h
      exact .refl
  | cons d ds ih =>
      rw [handleTunnelDatagram] at h
      split at h
      next => cases h
      next g₁ h₁ =>
        cases h
        exact handleDatagram_moves hg (ha d List.mem_cons_self) h₁
      next g₁ h₁ =>
        obtain ⟨c, hacts⟩ := handleDatagram_acts h₁
        have hrest := ih (acts_good hacts hg) (fun d' hd' => ha d' (List.mem_cons_of_mem d hd')) h
        exact (handleDatagram_moves hg (ha d List.mem_cons_self) h₁).trans hrest

section Tick

/-- The session after an update, unless it is dying. -/
def updated (env : Env ρ) (cur : UInt32) (s : Session ρ) : Session ρ :=
  if s.dying then s else { s with kcp := { s.kcp with kcp := (ikcpUpdate env.kcp s.kcp.kcp cur).1 } }

def updateOutput (env : Env ρ) (cur : UInt32) (s : Session ρ) : List Effect :=
  if s.dying then [] else kcpOutput s.kcp (ikcpUpdate env.kcp s.kcp.kcp cur).2

/-- One session after the other, as the loop walks the table. -/
theorem update_moves (env : Env ρ) (arrives : Endpoint → Bytes → Prop) (cur : UInt32) {l : List (UInt32 × Session ρ)}
    (hl : (l.map Prod.fst).Nodup) (hv : ∀ e ∈ l, v.blocks e.1 = some e.2.kcp) :
    ∃ v', Moves env arrives v v' ∧ v'.log = v.log ++ l.flatMap (fun e => updateOutput env cur e.2) ∧
      (∀ e ∈ l, v'.blocks e.1 = some (updated env cur e.2).kcp) ∧
      ∀ c, c ∉ l.map Prod.fst → v'.blocks c = v.blocks c := by
  induction l generalizing v with
  | nil => exact ⟨v, .refl, (List.append_nil _).symm, List.forall_mem_nil _, fun _ _ => rfl⟩
  | cons e l ih =>
      rw [List.map_cons, List.nodup_cons] at hl
      have hne {e' : UInt32 × Session ρ} (he' : e' ∈ l) : e'.1 ≠ e.1 := fun heq => hl.1 (heq ▸ List.mem_map_of_mem he')
      have hfirst : ∃ v₁, Moves env arrives v v₁ ∧ v₁.log = v.log ++ updateOutput env cur e.2 ∧
          v₁.blocks = Function.update v.blocks e.1 (some (updated env cur e.2).kcp) := by
        have hblock := hv e List.mem_cons_self
        rw [updateOutput, updated]
        split
        · rw [← hblock, Function.update_eq_self]
          exact ⟨v, .refl, (List.append_nil _).symm, rfl⟩
        · exact ⟨_, .single (.serve hblock (.update cur)), rfl, rfl⟩
      obtain ⟨v₁, hmove, hlog, hblocks⟩ := hfirst
      obtain ⟨v', hmoves, hlog', hin, hout⟩ := @ih v₁ hl.2 fun e' he' => by
        rw [hblocks, Function.update_of_ne (hne he')]
        exact hv e' (List.mem_cons_of_mem e he')
      refine ⟨v', hmove.trans hmoves, ?_, ?_, fun c hc => ?_⟩
      · rw [hlog', hlog, List.flatMap_cons, List.append_assoc]
      · rw [List.forall_mem_cons]
        refine ⟨?_, hin⟩
        rw [hout e.1 hl.1, hblocks, Function.update_self]
      · rw [List.map_cons, List.mem_cons, not_or] at hc
        rw [hout c hc.2, hblocks, Function.update_of_ne hc.1]

theorem updateActive_moves (g : Gateway ρ) : Moves env arrives (view g) (view (updateActive env g)) := by
  have hv : ∀ e ∈ g.sessions.entries, (view g).blocks e.1 = some e.2.kcp := by
    intro e he
    have hfind : g.sessions.find e.1 = some e.2 := find_eq_some.mpr he
    simp only [view, hfind, Option.map_some]
  obtain ⟨⟨blocks, log⟩, hmoves, hlog, hin, hout⟩ :=
    update_moves env arrives (env.clock g.ticks).toUInt32 g.sessions.nodup hv
  have hblocks : blocks = (view (updateActive env g)).blocks := by
    funext c
    have hfind : (updateActive env g).sessions.find c =
        (g.sessions.find c).map (updated env (env.clock g.ticks).toUInt32) := find_mapVals ..
    simp only [view, hfind]
    cases hs : g.sessions.find c with
    | none =>
        refine (hout c (find_eq_none.mp hs)).trans ?_
        simp only [view, hs, Option.map_none]
    | some s => exact hin (c, s) (find_eq_some.mp hs)
  have hview : view (updateActive env g) = ⟨blocks, log⟩ := by
    rw [hblocks, show log = _ from hlog]
    rfl
  rw [hview]
  exact hmoves

end Tick

theorem sweepIdle_moves (now : UInt64) (g : Gateway ρ) : Moves env arrives (view g) (view (sweepIdle env now g)) := by
  rw [sweepIdle]
  split
  · exact .refl
  · have hblocks : (fun c => ((g.sessions.mapVals fun s => if idle env now s then { s with dying := true } else s).find c).map
        Session.kcp) = (view g).blocks := by
      funext c
      rw [find_mapVals, Option.map_map]
      congr 1
      funext s
      simp only [Function.comp_apply]
      split <;> rfl
    have hplain : ∀ e ∈ ((g.sessions.entries.map Prod.snd).filter (idle env now)).map fun s => Effect.reaped s.conv now,
        Plain e := by
      intro e he
      obtain ⟨s, _, rfl⟩ := List.mem_map.mp he
      trivial
    have hmove : Move env arrives (view g) _ := .note (view g) _ hplain
    simp only [view] at hmove hblocks ⊢
    rw [hblocks]
    exact .single hmove

theorem plain_of_upkeep {e : Effect} (h : upkeep e) : Plain e := by
  cases e <;> trivial

theorem teardown_moves (g : Gateway ρ) (c : UInt32) : Moves env arrives (view g) (view (teardown g c)) := by
  obtain ⟨effects, hlog, hup⟩ := teardown_log g c
  have hblocks : (view (teardown g c)).blocks = Function.update (view g).blocks c none := by
    funext c'
    simp only [view, find_teardown]
    by_cases hc : c' = c
    · rw [if_pos hc, hc, Function.update_self]
      rfl
    · rw [if_neg hc, Function.update_of_ne hc]
  have hview : view (teardown g c) = ⟨Function.update (view g).blocks c none, g.log ++ effects⟩ := by
    rw [← hblocks, ← hlog]
    rfl
  rw [hview]
  exact (ReflTransGen.single (.gone (view g) c)).tail (.note _ effects fun e he => plain_of_upkeep (hup e he))

theorem flushTeardown_moves (g : Gateway ρ) : Moves env arrives (view g) (view (flushTeardown g)) := by
  have hfold (l : List UInt32) (g : Gateway ρ) : Moves env arrives (view g) (view (l.foldl teardown g)) := by
    induction l generalizing g with
    | nil => exact .refl
    | cons c l ih => exact (teardown_moves g c).trans (ih (teardown g c))
  exact (hfold g.toErase g).tail (.note _ [.timer _] (List.forall_mem_singleton.mpr trivial))

/-- What an event brings from the clients. -/
def Arriving (arrives : Endpoint → Bytes → Prop) : Event ρ → Prop
  | .tunnel ds => ∀ d ∈ ds, arrives d.src (d.bytes.take blockSize)
  | _ => True

/-- Whatever the gateway does, to its control blocks and to the log it is a
sequence of such moves. -/
theorem step_moves {e : Event ρ} (hg : Good env g) (ha : Arriving arrives e) (h : step env g e = .ok g') :
    Moves env arrives (view g) (view g') := by
  cases e with
  | register src arrange => exact registerClient_moves h
  | tunnel ds => exact handleTunnelDatagram_moves hg ha h
  | target fd replies =>
      simp only [step] at h
      split at h
      next =>
        cases h
        exact .refl
      next c hc =>
        obtain ⟨s, hs, rfl | ⟨_, rfl⟩⟩ := handleTargetReply_cases h
        · exact .refl
        · exact ((held_of_find hs (conv_eq hg hs)).forwardAll replies).put
  | update =>
      cases h
      exact updateActive_moves g
  | sweep =>
      cases h
      exact sweepIdle_moves _ g.tick
  | flush =>
      cases h
      exact flushTeardown_moves g

theorem reachable_moves (h : ReachableByCalls env g) : Moves env (fun _ _ => True) (view (.init env)) (view g) := by
  induction h with
  | init => exact .refl
  | step hreach e he ih =>
      refine ih.trans (step_moves (reachableByCalls_good hreach) ?_ he)
      cases e <;> simp [Arriving]
  | message hreach hs _ o buf ih =>
      exact ih.trans ((held_of_find hs (conv_eq (reachableByCalls_good hreach) hs)).handleTunnelMsg o buf).put

end GameAccelerator.Switchboard
