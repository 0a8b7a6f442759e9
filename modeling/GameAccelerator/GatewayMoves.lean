import GameAccelerator.GatewayLoop
import Mathlib.Logic.Relation

namespace GameAccelerator.GatewayMoves

open CString Platform Tables NetUtils TunnelProtocol Kcp SessionManager GatewayLoop WhileLoop Relation

variable {ρ : Type} {env : Env ρ} {src : Endpoint} {c : UInt32} {s : Session ρ} {g g' g₀ : Gateway ρ}

/-- The gateway that has created the session `conv` for `src`. -/
def withSession (env : Env ρ) (arrange : Arrangement UInt32 (Session ρ)) (g : Gateway ρ) (src : Endpoint)
    (conv : UInt32) : Gateway ρ :=
  ({ g with
    sessions := g.sessions.emplace arrange conv (newSession env.kcp env.clientFd conv src)
    nextConv := conv + 1 }.emit [.created conv src (env.clock g.ticks)]).tick

/-- What the gateway can do while it works for the session `c` of the client
`src`: every handler is a sequence of such acts. -/
inductive Act (env : Env ρ) (src : Endpoint) (c : UInt32) : Gateway ρ → Gateway ρ → Prop
  | pool (g : Gateway ρ) (p : List Nat) : Act env src c g { g with pool := p }
  | clock (g : Gateway ρ) : Act env src c g g.tick
  | note {g : Gateway ρ} {s : Session ρ} (hs : g.sessions.find c = some s)
      (ho : s.clientAddr = src) (hd : s.dying = false) (marks : List Effect)
      (hm : ∀ e ∈ marks, (∃ m, e = .complete s.conv m) ∨ ∃ m, e = .ikcpSend s.conv m) :
      Act env src c g (g.emit marks)
  | kcp {g : Gateway ρ} {s : Session ρ} (hs : g.sessions.find c = some s) (ho : s.clientAddr = src)
      (hd : s.dying = false) (k : Ikcpcb ρ) (hk : k.conv = s.kcp.kcp.conv) (packets : List Bytes) :
      Act env src c g ((g.put c { s with kcp := { s.kcp with kcp := k } }).emit (kcpOutput s.kcp packets))
  | active {g : Gateway ρ} {s : Session ρ} (hs : g.sessions.find c = some s)
      (ho : s.clientAddr = src) (hd : s.dying = false) (marks : List Effect)
      (hm : ∀ e ∈ marks, e = .accepted s.conv (env.clock g.ticks) ∨ e = .replied s.conv (env.clock g.ticks)) :
      Act env src c g ((g.put c { s with lastActive := env.clock g.ticks }).tick.emit marks)
  | killed {g : Gateway ρ} {s : Session ρ} (hs : g.sessions.find c = some s)
      (ho : s.clientAddr = src) (hd : s.dying = false) :
      Act env src c g ((markDying s g).2.put c (markDying s g).1)
  | noSocket {g : Gateway ρ} {s : Session ρ} (hs : g.sessions.find c = some s)
      (ho : s.clientAddr = src) (hd : s.dying = false) (hp : s.targetFd < 0) (addr : Endpoint) (fd : Int)
      (hfd : fd < 0) : Act env src c g (g.put c { s with targetAddr := addr, targetFd := fd })
  | connected {g : Gateway ρ} {s : Session ρ} (hs : g.sessions.find c = some s)
      (ho : s.clientAddr = src) (hd : s.dying = false) (hp : s.targetFd < 0) (addr : Endpoint) (fd : Int)
      (hfd : 0 ≤ fd) (hfresh : fd ∉ g.openFds) :
      Act env src c g (({ g with openFds := fd :: g.openFds, fdToSession := emplaceFd g.fdToSession fd c }.put c
        { s with targetAddr := addr, targetFd := fd }).emit [.epollAdd fd])
  | relayed {g : Gateway ρ} {s : Session ρ} (hs : g.sessions.find c = some s)
      (ho : s.clientAddr = src) (hd : s.dying = false) (hp : 0 ≤ s.targetFd) (payload : Bytes) :
      Act env src c g (g.emit [.relay s.conv s.targetFd s.targetAddr payload])
  | created {g : Gateway ρ} (hs : g.sessions.find c = none) (hp : pendingOf g src = none)
      (ha : allocConv g = some (c, { g with nextConv := c + 1 })) (arrange : Arrangement UInt32 (Session ρ)) :
      Act env src c g (withSession env arrange g src c)
  | timer (g : Gateway ρ) (n : Nat) : Act env src c g (g.emit [.timer n])
  | answered {g : Gateway ρ} {s : Session ρ} (hs : g.sessions.find c = some s)
      (ho : s.clientAddr = src) (hd : s.dying = false) (hp : s.targetFd < 0) :
      Act env src c g (g.emit [.tunnel env.clientFd src (packRegistered s.conv)])

def Acts (env : Env ρ) (src : Endpoint) (c : UInt32) : Gateway ρ → Gateway ρ → Prop := ReflTransGen (Act env src c)

theorem put_put (g : Gateway ρ) (c : UInt32) (s s' : Session ρ) : (g.put c s).put c s' = g.put c s' := by
  simp [Gateway.put, modify_modify_const]

theorem put_self (h : g.sessions.find c = some s) : g.put c s = g := by
  simp [Gateway.put, modify_const_self h]

/-- The entry `c` is in the table, whatever stands in it. -/
def Present (g : Gateway ρ) (c : UInt32) : Prop := (g.sessions.find c).isSome

theorem find_put (h : Present g c) (s : Session ρ) : (g.put c s).sessions.find c = some s := by
  obtain ⟨s₀, hs⟩ := Option.isSome_iff_exists.mp h
  simp [Gateway.put, hs]

theorem put_eq_some {s' s₁ : Session ρ} {c₁ : UInt32} (hs : g.sessions.find c = some s)
    (h : (g.put c s').sessions.find c₁ = some s₁) : c₁ = c ∧ s' = s₁ ∨ c₁ ≠ c ∧ g.sessions.find c₁ = some s₁ := by
  by_cases hc : c₁ = c
  · subst hc
    rw [find_put (Option.isSome_iff_exists.mpr ⟨s, hs⟩)] at h
    exact .inl ⟨rfl, Option.some.inj h⟩
  · rw [Gateway.put, find_modify_of_ne hc] at h
    exact .inr ⟨hc, h⟩

theorem emit_nil (g : Gateway ρ) : g.emit [] = g := by
  simp [Gateway.emit]

theorem emit_emit (g : Gateway ρ) (l₁ l₂ : List Effect) : (g.emit l₁).emit l₂ = g.emit (l₁ ++ l₂) := by
  simp [Gateway.emit]

theorem ikcpRecv_conv (K : Library ρ) (k : Ikcpcb ρ) (len : Nat) : (ikcpRecv K k len).2.2.conv = k.conv := by
  rw [ikcpRecv]
  split
  next => rfl
  next => split_ifs <;> rfl

/-- A handler that began in `g₀` has the live session `s` of `src` in hand,
which is still to be seen in the entry `c` of `g`. -/
structure InHand (env : Env ρ) (src : Endpoint) (c : UInt32) (g₀ : Gateway ρ) (s : Session ρ) (g : Gateway ρ) :
    Prop where
  acts : Acts env src c g₀ (g.put c s)
  present : Present g c
  owner : s.clientAddr = src
  alive : s.dying = false

theorem inHand_of_find (hs : g.sessions.find c = some s) (ho : s.clientAddr = src) (hd : s.dying = false) :
    InHand env src c g s g := by
  refine ⟨?_, ?_, ho, hd⟩
  · rw [put_self hs]
    exact .refl
  · rw [Present, hs]
    rfl

namespace InHand

variable (h : InHand env src c g₀ s g)

include h

theorem find : (g.put c s).sessions.find c = some s := find_put h.present s

theorem pool (p : List Nat) : InHand env src c g₀ s { g with pool := p } :=
  ⟨h.acts.tail (.pool _ p), h.present, h.owner, h.alive⟩

theorem tick : InHand env src c g₀ s g.tick := ⟨h.acts.tail (.clock _), h.present, h.owner, h.alive⟩

theorem note (marks : List Effect)
    (hm : ∀ e ∈ marks, (∃ m, e = .complete s.conv m) ∨ ∃ m, e = .ikcpSend s.conv m) :
    InHand env src c g₀ s (g.emit marks) :=
  ⟨h.acts.tail (.note h.find h.owner h.alive marks hm), h.present, h.owner, h.alive⟩

theorem relayed (hfd : 0 ≤ s.targetFd) (payload : Bytes) :
    InHand env src c g₀ s (g.emit [.relay s.conv s.targetFd s.targetAddr payload]) :=
  ⟨h.acts.tail (.relayed h.find h.owner h.alive hfd payload), h.present, h.owner, h.alive⟩

theorem mark (marks : List Effect)
    (hm : ∀ e ∈ marks, e = .accepted s.conv (env.clock g.ticks) ∨ e = .replied s.conv (env.clock g.ticks)) :
    InHand env src c g₀ { s with lastActive := env.clock g.ticks } (g.tick.emit marks) := by
  have ha : Act env src c (g.put c s) _ := .active h.find h.owner h.alive marks hm
  rw [put_put] at ha
  exact ⟨h.acts.tail ha, h.present, h.owner, h.alive⟩

theorem active : InHand env src c g₀ { s with lastActive := env.clock g.ticks } g.tick := by
  have hm := h.mark [] nofun
  rwa [emit_nil] at hm

theorem kcpCall (r : Ikcpcb ρ × List Bytes) (hr : r.1.conv = s.kcp.kcp.conv) :
    InHand env src c g₀ (kcpCall s g r).1 (kcpCall s g r).2 := by
  have ha : Act env src c (g.put c s) _ := .kcp h.find h.owner h.alive r.1 hr r.2
  rw [put_put] at ha
  exact ⟨h.acts.tail ha, h.present, h.owner, h.alive⟩

theorem control (k : Ikcpcb ρ) (hk : k.conv = s.kcp.kcp.conv) :
    InHand env src c g₀ { s with kcp := { s.kcp with kcp := k } } g := by
  have hc := h.kcpCall (k, []) hk
  rwa [GatewayLoop.kcpCall, kcpOutput, List.map_nil, emit_nil] at hc

theorem killed : Acts env src c g₀ ((markDying s g).2.put c (markDying s g).1) := by
  have ha : Act env src c (g.put c s) _ := .killed h.find h.owner h.alive
  rw [show (markDying s (g.put c s)).2 = (markDying s g).2.put c s from rfl, put_put] at ha
  exact h.acts.tail ha

theorem openTarget (o : Outcome ρ) (hfd : s.targetFd < 0) (addr : Endpoint) :
    let r := openTarget o c { s with targetAddr := addr } g
    InHand env src c g₀ r.2.1 r.2.2 := by
  intro r
  by_cases hneg : o.socket g.openFds < 0
  · have ha : Act env src c (g.put c s) _ := .noSocket h.find h.owner h.alive hfd addr _ hneg
    rw [put_put] at ha
    have hr : r = (false, { s with targetAddr := addr, targetFd := o.socket g.openFds }, g) := if_pos hneg
    rw [hr]
    exact ⟨h.acts.tail ha, h.present, h.owner, h.alive⟩
  · have hnn : 0 ≤ o.socket g.openFds := Int.not_lt.mp hneg
    have ha : Act env src c (g.put c s) _ :=
      .connected h.find h.owner h.alive hfd addr _ hnn (o.socket_fresh g.openFds hnn)
    have hr : r = _ := if_neg hneg
    rw [hr]
    refine ⟨h.acts.tail ?_, h.present, h.owner, h.alive⟩
    simpa only [Gateway.put, Gateway.emit, modify_modify_const] using ha

theorem handleTunnelMsg (o : Outcome ρ) (buf : Bytes) :
    let r := handleTunnelMsg env o c s g buf
    Acts env src c g₀ (r.2.2.put c r.2.1) ∧ (r.1 = false → InHand env src c g₀ r.2.1 r.2.2) := by
  simp only [GatewayLoop.handleTunnelMsg]
  split
  next => exact ⟨h.acts, fun _ => h⟩
  next p _ =>
    split_ifs with hc h1 h2 h3 h4
    · exact ⟨h.acts, fun _ => h⟩
    · split
      next => exact ⟨h.killed, nofun⟩
      next addr _ =>
        have ht := h.active.openTarget o (Int.not_le.mp h1) addr
        exact ⟨ht.acts, fun _ => ht⟩
    · exact ⟨h.acts, fun _ => h⟩
    · have ht := h.active.relayed (Int.not_lt.mp h3) ((buf.drop (p.data.getD 0)).take p.len.toNat)
      exact ⟨ht.acts, fun _ => ht⟩
    · exact ⟨h.killed, nofun⟩
    · exact ⟨h.acts, fun _ => h⟩

theorem drain {o : Outcome ρ} {fuel : Nat} {r : Bool × Session ρ × Gateway ρ}
    (hr : drain env o c fuel s g = .ok r) :
    Acts env src c g₀ (r.2.2.put c r.2.1) ∧ (r.1 = false → InHand env src c g₀ r.2.1 r.2.2) := by
  induction fuel generalizing s g with
  | zero => cases hr
  | succ fuel ih =>
      have hk := h.control _ (ikcpRecv_conv env.kcp s.kcp.kcp blockSize)
      have hm := hk.handleTunnelMsg o (ikcpRecv env.kcp s.kcp.kcp blockSize).2.1
      simp only [GatewayLoop.drain] at hr
      split_ifs at hr with h0 hgone
      · cases hr
        exact ⟨hk.acts, fun _ => hk⟩
      · cases hr
        exact hm
      · exact ih (hm.2 (Bool.eq_false_iff.mpr hgone)) hr

theorem update (now : UInt32) :
    let r := GatewayLoop.kcpCall s g (ikcpUpdate env.kcp s.kcp.kcp now)
    InHand env src c g₀ r.1 r.2 :=
  h.kcpCall _ rfl

theorem flush :
    let r := GatewayLoop.kcpCall s g (ikcpFlush env.kcp s.kcp.kcp)
    InHand env src c g₀ r.1 r.2 :=
  h.kcpCall _ rfl

theorem send (msg : Bytes) :
    InHand env src c g₀ { s with kcp := { s.kcp with kcp := ikcpSend env.kcp s.kcp.kcp msg } }
      (g.emit [.ikcpSend s.conv msg]) :=
  (h.control (ikcpSend env.kcp s.kcp.kcp msg) rfl).note _ (by simp)

theorem feed (pkt : Bytes) : InHand env src c g₀ (feed env s g pkt).1 (feed env s g pkt).2 := by
  have hf := (h.mark [.accepted s.conv (env.clock g.ticks)] (by simp)).note
    ((completed env.kcp s.kcp.kcp pkt).map (.complete s.conv)) (by simp)
  rw [emit_emit] at hf
  exact ((hf.kcpCall (ikcpInput env.kcp s.kcp.kcp pkt) rfl).tick.update _).flush

theorem forward (reply : Bytes) : InHand env src c g₀ (forward env s g reply).1 (forward env s g reply).2 :=
  (((h.mark [.replied s.conv (env.clock g.ticks)] (by simp)).tick.update _).send _).flush

theorem forwardAll (replies : List Bytes) :
    InHand env src c g₀ (forwardAll env s g replies).1 (forwardAll env s g replies).2 := by
  apply forwardAll_keep (fun h reply => h.forward reply) (fun h => ?_) h
  exact h.mark _ (by simp)

theorem handleSegment {o : Outcome ρ} {block : Nat} {pkt : Bytes} {r : Bool × Gateway ρ}
    (hr : handleSegment env o g block c s pkt = .ok r) : Acts env src c g₀ r.2 := by
  simp only [GatewayLoop.handleSegment] at hr
  split at hr
  next => cases hr
  next gone s' g' hdrain =>
    obtain ⟨hacts, halive⟩ := ((h.feed pkt).pool _).drain hdrain
    split_ifs at hr with hgone
    · cases hr
      exact hacts.tail (.pool _ _)
    · cases hr
      exact ((halive (Bool.eq_false_iff.mpr hgone)).pool (block :: g'.pool)).active.acts

end InHand

theorem pendingOf_eq_some {o : Session ρ} (h : pendingOf g src = some o) :
    ∃ c, g.sessions.find c = some o ∧ o.clientAddr = src ∧ o.dying = false ∧ o.targetFd < 0 := by
  obtain ⟨e, he, rfl⟩ := Option.map_eq_some_iff.mp h
  have hp := List.find?_some he
  simp only [Bool.and_eq_true, Bool.not_eq_true', Bool.or_eq_false_iff, decide_eq_false_iff_not,
    sameAddr_iff] at hp
  exact ⟨e.1, find_eq_some.mpr (List.mem_of_find?_eq_some he), hp.2, hp.1.1, Int.not_le.mp hp.1.2⟩

theorem allocConv_eq_some {conv : UInt32} (h : allocConv g = some (conv, g')) :
    g.sessions.find conv = none ∧ g' = { g with nextConv := conv + 1 } := by
  obtain ⟨c, hc, he⟩ := Option.map_eq_some_iff.mp h
  cases he
  have hfree := whileLoop_exit hc
  exact ⟨by simpa using hfree, rfl⟩

theorem registerClient_cases {arrange : Arrangement UInt32 (Session ρ)}
    (h : registerClient env arrange g src = .ok g') :
    (∃ c s, g.sessions.find c = some s ∧ s.clientAddr = src ∧ s.dying = false ∧ s.targetFd < 0 ∧
      g' = g.emit [.tunnel env.clientFd src (packRegistered s.conv)]) ∨
    ∃ conv, pendingOf g src = none ∧ allocConv g = some (conv, { g with nextConv := conv + 1 }) ∧
      g.sessions.find conv = none ∧
      g' = (syncTimer (withSession env arrange g src conv)).emit
        [.tunnel env.clientFd src (packRegistered conv)] := by
  simp only [registerClient] at h
  split at h
  next s hs =>
    obtain ⟨c, hs, ho, hd, hfd⟩ := pendingOf_eq_some hs
    cases h
    exact .inl ⟨c, s, hs, ho, hd, hfd, rfl⟩
  next hnone =>
    split at h
    next => cases h
    next conv g₁ halloc =>
      obtain ⟨hfree, rfl⟩ := allocConv_eq_some halloc
      cases h
      exact .inr ⟨conv, hnone, halloc, hfree, rfl⟩

theorem find_withSession {conv : UInt32} (hfree : g.sessions.find conv = none)
    (arrange : Arrangement UInt32 (Session ρ)) :
    (withSession env arrange g src conv).sessions.find c =
      if c = conv then some (newSession env.kcp env.clientFd conv src) else g.sessions.find c :=
  find_emplace hfree arrange _ c

theorem registerClient_acts {arrange : Arrangement UInt32 (Session ρ)}
    (h : registerClient env arrange g src = .ok g') : ∃ c, Acts env src c g g' := by
  rcases registerClient_cases h with ⟨c, s, hs, ho, hd, hfd, rfl⟩ | ⟨conv, hpending, halloc, hfree, rfl⟩
  · exact ⟨c, .single (.answered hs ho hd hfd)⟩
  · have h₁ : Acts env src conv g (withSession env arrange g src conv) := 
      .single (.created hfree hpending halloc arrange)
    refine ⟨conv, (h₁.tail (.timer _ _)).tail
      (.answered (s := newSession env.kcp env.clientFd conv src) ?_ rfl rfl (Int.negSucc_lt_zero 0))⟩
    exact (find_withSession hfree arrange).trans (if_pos rfl)

theorem lookup_eq_some {pkt : Bytes} (h : lookup g src pkt = some (c, s)) :
    g.sessions.find c = some s ∧ s.clientAddr = src := by
  simp only [lookup] at h
  split at h
  next => cases h
  next s' hs =>
    split_ifs at h with ho
    cases h
    exact ⟨hs, sameAddr_iff.mp ho⟩

/-- What becomes of a datagram: nothing, a registration or a segment for a
session. -/
theorem handleDatagram_cases {d : Datagram ρ} {more : Bool} (h : handleDatagram env g d = .ok (more, g')) :
    g' = g ∨
    (∃ block pool g₁, g.pool = block :: pool ∧ d.bytes.take blockSize = packRegister ∧
      registerClient env d.outcome.arrange { g with pool := pool } d.src = .ok g₁ ∧
      g' = { g₁ with pool := block :: g₁.pool }) ∨
    ∃ block pool c s, g.pool = block :: pool ∧ 24 ≤ (d.bytes.take blockSize).length ∧
      g.sessions.find c = some s ∧ s.clientAddr = d.src ∧ s.dying = false ∧
      handleSegment env d.outcome { g with pool := pool } block c s (d.bytes.take blockSize) = .ok (more, g') := by
  simp only [handleDatagram] at h
  split at h
  next =>
    cases h
    exact .inl rfl
  next block pool hpool =>
    split_ifs at h with hreg hshort
    · split at h
      next => cases h
      next g₁ h₁ =>
        cases h
        refine .inr (.inl ⟨block, pool, g₁, hpool, ?_, h₁, rfl⟩)
        obtain ⟨b, hb⟩ := List.length_eq_one_iff.mp hreg.1
        have h0 : b = packetRegister := by simpa [hb, byteAt] using hreg.2
        rw [hb, h0, packRegister]
    · cases h
      exact .inl rfl
    · split at h
      next =>
        cases h
        exact .inl rfl
      next c s hl =>
        obtain ⟨hs, ho⟩ := lookup_eq_some hl
        split_ifs at h with hd
        · cases h
          exact .inl rfl
        · exact .inr (.inr ⟨block, pool, c, s, hpool, Nat.not_lt.mp hshort, hs, ho, Bool.eq_false_iff.mpr hd, h⟩)

theorem handleDatagram_acts {d : Datagram ρ} {more : Bool} (h : handleDatagram env g d = .ok (more, g')) :
    ∃ c, Acts env d.src c g g' := by
  rcases handleDatagram_cases h with rfl | ⟨block, pool, g₁, _, _, h₁, rfl⟩ |
    ⟨block, pool, c, s, _, _, hs, ho, hd, hseg⟩
  · exact ⟨0, .refl⟩
  · obtain ⟨c, hacts⟩ := registerClient_acts h₁
    exact ⟨c, ((ReflTransGen.single (.pool g pool)).trans hacts).tail (.pool _ _)⟩
  · exact ⟨c, ((inHand_of_find hs ho hd).pool pool).handleSegment hseg⟩

theorem forwardAll_sessions (env : Env ρ) (s : Session ρ) (g : Gateway ρ) (replies : List Bytes) :
    (forwardAll env s g replies).2.sessions = g.sessions := by
  apply forwardAll_keep (P := fun _ g' => g'.sessions = g.sessions) (fun hg reply => ?_) id rfl
  simpa [forward] using hg

theorem handleTargetReply_of_dying (hs : g.sessions.find c = some s) (hd : s.dying = true) (replies : List Bytes) :
    handleTargetReply env g c replies = .ok g := by
  rw [handleTargetReply, hs]
  exact if_pos hd

theorem handleTargetReply_of_alive (hs : g.sessions.find c = some s) (hd : s.dying = false) (replies : List Bytes) :
    handleTargetReply env g c replies = .ok ((forwardAll env s g replies).2.put c (forwardAll env s g replies).1) := by
  rw [handleTargetReply, hs]
  exact if_neg (Bool.eq_false_iff.mp hd)

theorem handleTargetReply_cases {replies : List Bytes} (h : handleTargetReply env g c replies = .ok g') :
    ∃ s, g.sessions.find c = some s ∧
      (g' = g ∨ s.dying = false ∧ g' = (forwardAll env s g replies).2.put c (forwardAll env s g replies).1) := by
  cases hs : g.sessions.find c with
  | none =>
      rw [handleTargetReply, hs] at h
      cases h
  | some s =>
      cases hd : s.dying with
      | true => exact ⟨s, rfl, .inl (Except.ok.inj (h.symm.trans (handleTargetReply_of_dying hs hd replies)))⟩
      | false => exact ⟨s, rfl, .inr ⟨hd, Except.ok.inj (h.symm.trans (handleTargetReply_of_alive hs hd replies))⟩⟩

theorem handleTargetReply_acts {replies : List Bytes} (hs : g.sessions.find c = some s)
    (h : handleTargetReply env g c replies = .ok g') : Acts env s.clientAddr c g g' := by
  obtain ⟨s', hs', rfl | ⟨hd, rfl⟩⟩ := handleTargetReply_cases h
  · exact .refl
  · cases hs.symm.trans hs'
    exact ((inHand_of_find hs rfl hd).forwardAll replies).acts

end GameAccelerator.GatewayMoves
