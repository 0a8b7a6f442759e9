import GameAccelerator.GatewayLoop
import GameAccelerator.MemPool

namespace GameAccelerator.PoolConservation

open CString Platform Tables NetUtils TunnelProtocol Kcp SessionManager GatewayLoop MemPool

variable {ρ : Type}

section Programs

-- `peek` is how the first word of a buffer with these bytes reads as a link
variable (peek : Bytes → Option Nat) (env : Env ρ)

/-- The loop around `ikcp_recv`, which writes every message to `tmsg`. -/
def drainProg (o : Outcome ρ) (c : UInt32) (tmsg : Nat) :
    Nat → Session ρ → Gateway ρ → Prog (Except Fault (Bool × Session ρ × Gateway ρ))
  | 0, _, _ => .done (.error .diverges)
  | fuel + 1, s, g =>
      let r := ikcpRecv env.kcp s.kcp.kcp blockSize
      let s := { s with kcp := { s.kcp with kcp := r.2.2 } }
      if r.1 ≤ 0 then .done (.ok (false, s, g))
      else
        .write tmsg (peek r.2.1)
          (let m := handleTunnelMsg env o c s g r.2.1
          if m.1 then .done (.ok m) else drainProg o c tmsg fuel m.2.1 m.2.2)

/-- What `handle_tunnel_datagram` does with a datagram of a live session. -/
def segmentProg (o : Outcome ρ) (g : Gateway ρ) (pkt : Nat) (c : UInt32) (s : Session ρ) (bytes : Bytes) :
    Prog (Except Fault (Bool × Gateway ρ)) :=
  let f := feed env s g bytes
  .free pkt <| .alloc fun
    | none => .done (.ok (false, f.2.put c f.1))
    | some tmsg =>
        (drainProg peek env o c tmsg (f.1.kcp.kcp.rcvQueue.length + 1) f.1 f.2).bind fun
          | .error e => .done (.error e)
          | .ok (gone, s, g) =>
              .free tmsg <| .done <| .ok (true,
                if gone then g.put c s else g.tick.put c { s with lastActive := env.clock g.ticks })

/-- One round of the loop of `handle_tunnel_datagram` with its pool operations. -/
def datagramProg (g : Gateway ρ) (d : Datagram ρ) : Prog (Except Fault (Bool × Gateway ρ)) :=
  .alloc fun
    | none => .done (.ok (false, g))
    | some pkt =>
        let bytes := d.bytes.take blockSize
        .write pkt (peek bytes) <|
          if bytes.length = 1 ∧ byteAt bytes 0 = packetRegister then
            match registerClient env d.outcome.arrange g d.src with
            | .error e => .done (.error e)
            | .ok g => .free pkt (.done (.ok (true, g)))
          else if bytes.length < 24 then .free pkt (.done (.ok (true, g)))
          else
            match lookup g d.src bytes with
            | none => .free pkt (.done (.ok (true, g)))
            | some (c, s) =>
                if s.dying then .free pkt (.done (.ok (true, g)))
                else segmentProg peek env d.outcome g pkt c s bytes

/-- The last round takes a block for a `recvfrom` that fails. -/
def tunnelProg : Gateway ρ → List (Datagram ρ) → Prog (Except Fault (Gateway ρ))
  | g, [] => .alloc fun
      | none => .done (.ok g)
      | some pkt => .free pkt (.done (.ok g))
  | g, d :: ds => (datagramProg peek env g d).bind fun
      | .error e => .done (.error e)
      | .ok (false, g) => .done (.ok g)
      | .ok (true, g) => tunnelProg g ds

def replyProg : Session ρ → Gateway ρ → List Bytes → Prog (Session ρ × Gateway ρ)
  | s, g, [] => .alloc fun
      | none => .done (s, g)
      | some rply => .free rply (.done (s, g))
  | s, g, reply :: replies => .alloc fun
      | none => .done (s, g)
      | some rply => .write rply (peek reply) <| .alloc fun
          | none =>
              .free rply <| .done
                ({ s with lastActive := env.clock g.ticks }, g.tick.emit [.replied s.conv (env.clock g.ticks)])
          | some tmsg =>
              let msg := packData (reply.take maxReply) (.ofNat (reply.take maxReply).length)
              let r := forward env s g (reply.take maxReply)
              .write tmsg (peek msg) <| .free tmsg <| .free rply <| replyProg r.1 r.2 replies

def targetProg (g : Gateway ρ) (c : UInt32) (replies : List Bytes) : Prog (Except Fault (Gateway ρ)) :=
  match g.sessions.find c with
  | none => .done (.error .useAfterFree)
  | some s =>
      if s.dying then .done (.ok g)
      else (replyProg peek env s g replies).bind fun r => .done (.ok (r.2.put c r.1))

end Programs

/-- A call that comes back has given back all blocks. -/
def Returned {α : Type} (r : Except Fault α) (held : List Nat) : Prop := r.isOk → held = []

variable {peek : Bytes → Option Nat} {env : Env ρ}

theorem drainProg_meets (o : Outcome ρ) (c : UInt32) (tmsg fuel : Nat) (s : Session ρ) (g : Gateway ρ) :
    (drainProg peek env o c tmsg fuel s g).Meets 2 [tmsg] fun _ held => held = [tmsg] := by
  induction fuel generalizing s g with
  | zero => rfl
  | succ fuel ih =>
      simp only [drainProg]
      split_ifs
      · rfl
      · exact ⟨List.mem_singleton_self tmsg, rfl⟩
      · exact ⟨List.mem_singleton_self tmsg, ih _ _⟩

theorem free_returned {α : Type} (b : Nat) (a : α) :
    (Prog.free b (.done (.ok a)) : Prog (Except Fault α)).Meets 2 [b] Returned :=
  ⟨List.mem_singleton_self b, fun _ => by simp⟩

theorem error_returned {α : Type} (e : Fault) (held : List Nat) :
    (Prog.done (.error e) : Prog (Except Fault α)).Meets 2 held Returned := fun h => by cases h

theorem segmentProg_meets (o : Outcome ρ) (g : Gateway ρ) (pkt : Nat) (c : UInt32) (s : Session ρ) (bytes : Bytes) :
    (segmentProg peek env o g pkt c s bytes).Meets 2 [pkt] Returned := by
  refine ⟨List.mem_singleton_self pkt, ?_⟩
  rw [List.erase_cons_head]
  refine ⟨by decide, fun tmsg _ => Prog.Meets.bind ((drainProg_meets o c tmsg _ _ _).mono ?_)⟩
  rintro r held rfl
  cases r with
  | error e => exact error_returned e _
  | ok r => exact free_returned tmsg _

theorem datagramProg_meets (g : Gateway ρ) (d : Datagram ρ) : (datagramProg peek env g d).Meets 2 [] Returned := by
  refine ⟨by decide, fun pkt _ => ⟨List.mem_singleton_self pkt, ?_⟩⟩
  split
  · split
    · exact error_returned _ _
    · exact free_returned pkt _
  · split
    · exact free_returned pkt _
    · split
      · exact free_returned pkt _
      · split
        · exact free_returned pkt _
        · exact segmentProg_meets ..

theorem tunnelProg_meets (g : Gateway ρ) (ds : List (Datagram ρ)) :
    (tunnelProg peek env g ds).Meets 2 [] Returned := by
  induction ds generalizing g with
  | nil => exact ⟨by decide, fun pkt _ => free_returned pkt g⟩
  | cons d ds ih =>
      refine Prog.Meets.bind ((datagramProg_meets g d).mono fun r held hr => ?_)
      match r with
      | .error e => exact error_returned e held
      | .ok (false, g') => exact fun _ => hr rfl
      | .ok (true, g') =>
          rw [hr rfl]
          exact ih g'

theorem replyProg_meets (s : Session ρ) (g : Gateway ρ) (replies : List Bytes) :
    (replyProg peek env s g replies).Meets 2 [] fun _ held => held = [] := by
  induction replies generalizing s g with
  | nil => exact ⟨by decide, fun rply _ => ⟨List.mem_singleton_self rply, by simp [Prog.Meets]⟩⟩
  | cons reply replies ih =>
      refine ⟨by decide, fun rply _ => ⟨List.mem_singleton_self rply, by simp, fun tmsg htmsg => ?_⟩⟩
      refine ⟨List.mem_cons_self, List.mem_cons_self, ?_⟩
      rw [List.erase_cons_head]
      refine ⟨List.mem_singleton_self rply, ?_⟩
      rw [List.erase_cons_head]
      exact ih _ _

theorem targetProg_meets (g : Gateway ρ) (c : UInt32) (replies : List Bytes) :
    (targetProg peek env g c replies).Meets 2 [] Returned := by
  rw [targetProg]
  split
  · exact error_returned _ _
  · split
    · exact fun _ => rfl
    · exact Prog.Meets.bind ((replyProg_meets ..).mono fun r held hr _ => hr)

/-- The gateway with another free list. -/
def withPool (l : List Nat) (g : Gateway ρ) : Gateway ρ := { g with pool := l }

section Agreement

variable (peek env) (l : List Nat) (o : Outcome ρ) (c : UInt32) (s : Session ρ) (g : Gateway ρ)

theorem registerClient_withPool (arrange : Arrangement UInt32 (Session ρ)) (src : Endpoint) :
    registerClient env arrange (withPool l g) src = (registerClient env arrange g src).map (withPool l) := by
  have halloc : allocConv (withPool l g) = (allocConv g).map fun r => (r.1, withPool l r.2) := by
    rw [allocConv, allocConv, Option.map_map]
    rfl
  have hpending : pendingOf (withPool l g) src = pendingOf g src := rfl
  rw [registerClient, registerClient, halloc, hpending]
  cases pendingOf g src with
  | some p => rfl
  | none => cases allocConv g <;> rfl

theorem openTarget_withPool :
    openTarget o c s (withPool l g) = ((openTarget o c s g).1, (openTarget o c s g).2.1, withPool l (openTarget o c s g).2.2) := by
  have hfds : (withPool l g).openFds = g.openFds := rfl
  simp only [openTarget, hfds]
  split_ifs <;> rfl

theorem handleTunnelMsg_withPool (buf : Bytes) :
    handleTunnelMsg env o c s (withPool l g) buf =
      ((handleTunnelMsg env o c s g buf).1, (handleTunnelMsg env o c s g buf).2.1,
        withPool l (handleTunnelMsg env o c s g buf).2.2) := by
  have htick : (withPool l g).tick = withPool l g.tick := rfl
  have hticks : (withPool l g).ticks = g.ticks := rfl
  simp only [handleTunnelMsg, htick, hticks, openTarget_withPool]
  cases parse buf with
  | none => rfl
  | some p =>
      dsimp only
      split_ifs
      · rfl
      · cases resolve env o.kvGet buf <;> rfl
      · rfl
      · rfl
      · rfl
      · rfl

theorem drain_withPool (fuel : Nat) :
    drain env o c fuel s (withPool l g) = (drain env o c fuel s g).map fun r => (r.1, r.2.1, withPool l r.2.2) := by
  induction fuel generalizing s g with
  | zero => rfl
  | succ fuel ih =>
      simp only [drain, handleTunnelMsg_withPool]
      split_ifs
      · rfl
      · rfl
      · exact ih _ _

theorem drainProg_runList (tmsg fuel : Nat) :
    (drainProg peek env o c tmsg fuel s g).runList l = (drain env o c fuel s g, l) := by
  induction fuel generalizing s g with
  | zero => rfl
  | succ fuel ih =>
      simp only [drainProg, drain]
      split_ifs
      · rfl
      · rfl
      · exact ih _ _

/-- The outcome of a program on a free list, as the gateway model has it. -/
def outcome {α : Type} (r : Except Fault (α × Gateway ρ) × List Nat) : Except Fault (α × Gateway ρ) :=
  r.1.map fun x => (x.1, withPool r.2 x.2)

theorem segmentProg_agrees (pkt : Nat) (bytes : Bytes) :
    outcome ((segmentProg peek env o g pkt c s bytes).runList l) = handleSegment env o (withPool l g) pkt c s bytes := by
  have hfeed : feed env s (withPool l g) bytes = ((feed env s g bytes).1, withPool l (feed env s g bytes).2) := rfl
  have hdrain := drain_withPool env l o c (feed env s g bytes).1 (feed env s g bytes).2
    ((feed env s g bytes).1.kcp.kcp.rcvQueue.length + 1)
  simp only [segmentProg, handleSegment, hfeed, Prog.runList, runList_bind, drainProg_runList]
  change outcome _ = match drain env o c _ _ (withPool l (feed env s g bytes).2) with
    | .error e => _
    | .ok (gone, s, g) => _
  rw [hdrain]
  cases drain env o c _ (feed env s g bytes).1 (feed env s g bytes).2 with
  | error e => rfl
  | ok r =>
      obtain ⟨gone, s', g'⟩ := r
      cases gone <;> rfl

theorem datagramProg_agrees (d : Datagram ρ) :
    outcome ((datagramProg peek env g d).runList l) = handleDatagram env (withPool l g) d := by
  cases l with
  | nil => rfl
  | cons pkt l =>
      have hpool : (withPool (pkt :: l) g).pool = pkt :: l := rfl
      have hlookup : lookup (withPool (pkt :: l) g) d.src = lookup g d.src := rfl
      simp only [datagramProg, handleDatagram, Prog.runList, hpool, hlookup]
      split_ifs with hreg hshort
      · have hregister := registerClient_withPool env l g d.outcome.arrange d.src
        change _ = match registerClient env d.outcome.arrange (withPool l g) d.src with
          | .error e => _
          | .ok g => _
        rw [hregister]
        cases registerClient env d.outcome.arrange g d.src <;> rfl
      · rfl
      · cases hfound : lookup g d.src (d.bytes.take blockSize) with
        | none => rfl
        | some found =>
            obtain ⟨c, s⟩ := found
            dsimp only
            split_ifs
            · rfl
            · exact segmentProg_agrees peek env l d.outcome c s g pkt _

theorem tunnelProg_agrees (ds : List (Datagram ρ)) :
    ((tunnelProg peek env g ds).runList l).1.map (withPool ((tunnelProg peek env g ds).runList l).2) =
      handleTunnelDatagram env (withPool l g) ds := by
  induction ds generalizing g l with
  | nil => cases l <;> rfl
  | cons d ds ih =>
      rw [handleTunnelDatagram, ← datagramProg_agrees peek env l g d, tunnelProg, runList_bind, outcome]
      generalize (datagramProg peek env g d).runList l = r
      obtain ⟨r, l'⟩ := r
      cases r with
      | error e => rfl
      | ok r =>
          obtain ⟨more, g'⟩ := r
          cases more with
          | false => rfl
          | true => exact ih l' g'

theorem replyProg_agrees (replies : List Bytes) :
    (((replyProg peek env s g replies).runList l).1.1,
        withPool ((replyProg peek env s g replies).runList l).2 ((replyProg peek env s g replies).runList l).1.2) =
      forwardAll env s (withPool l g) replies := by
  induction replies generalizing s g with
  | nil => cases l <;> rfl
  | cons reply replies ih =>
      match l with
      | [] => rfl
      | [_] => rfl
      | _ :: _ :: _ => exact ih _ _

theorem targetProg_agrees (replies : List Bytes) :
    ((targetProg peek env g c replies).runList l).1.map (withPool ((targetProg peek env g c replies).runList l).2) =
      handleTargetReply env (withPool l g) c replies := by
  have hfind : (withPool l g).sessions = g.sessions := rfl
  rw [targetProg, handleTargetReply, hfind]
  cases g.sessions.find c with
  | none => rfl
  | some s =>
      dsimp only
      split_ifs
      · rfl
      · rw [runList_bind, ← replyProg_agrees peek env l s g replies]
        rfl

end Agreement

/-- A call of one of the two handlers. What it finds in the gateway and in the
world is not bound to what the call before has left. -/
inductive PoolCall (ρ : Type)
  | tunnel (env : Env ρ) (g : Gateway ρ) (datagrams : List (Datagram ρ))
  | target (env : Env ρ) (g : Gateway ρ) (c : UInt32) (replies : List Bytes)

def PoolCall.prog (peek : Bytes → Option Nat) : PoolCall ρ → Prog (Except Fault (Gateway ρ))
  | .tunnel env g datagrams => tunnelProg peek env g datagrams
  | .target env g c replies => targetProg peek env g c replies

/-- The call in the gateway model, with the free list `l`. -/
def PoolCall.handle (l : List Nat) : PoolCall ρ → Except Fault (Gateway ρ)
  | .tunnel env g datagrams => handleTunnelDatagram env (withPool l g) datagrams
  | .target env g c replies => handleTargetReply env (withPool l g) c replies

theorem prog_meets (call : PoolCall ρ) : (call.prog peek).Meets 2 [] Returned := by
  cases call with
  | tunnel env g datagrams => exact tunnelProg_meets g datagrams
  | target env g c replies => exact targetProg_meets g c replies

theorem prog_sound (peek : Bytes → Option Nat) (call : PoolCall ρ) {u : Use} {l : List Nat} (hheld : u.held = []) (hs : Splits poolCap u l) :
    Sound 2 poolCap (call.prog peek) u l Returned := by
  refine Prog.Meets.sound ?_ (by decide) hs ?_
  · rw [hheld]
    exact prog_meets call
  · rw [hheld]
    exact Nat.zero_le 2

/-- With its pool operations written out, a call does what it does in the
gateway model. -/
theorem run_agrees (call : PoolCall ρ) {u : Use} {l : List Nat} (hheld : u.held = []) (hs : Splits poolCap u l) :
    ((call.prog peek).run u).1.map (withPool ((call.prog peek).runList l).2) = call.handle l := by
  rw [(prog_sound peek call hheld hs).value]
  cases call with
  | tunnel env g datagrams => exact tunnelProg_agrees peek env l g datagrams
  | target env g c replies => exact targetProg_agrees peek env l c g replies

theorem freshPool_eq (n : Nat) : freshPool n = (List.range n).reverse := by
  induction n with
  | zero => rfl
  | succ n ih => rw [freshPool, ih, List.range_succ, List.reverse_append, List.reverse_singleton, List.singleton_append]

/-- The links that the constructor makes spell the list that the gateway model
starts with. -/
theorem create_lists_fresh (n : Nat) (storage : Nat → Option Nat) : (MemoryPool.create n storage).Lists (freshPool n) := by
  rw [freshPool_eq]
  exact create_lists n storage

/-- The pool before and after each call of a run. -/
inductive Reaches (ρ : Type) (peek : Bytes → Option Nat) (storage : Nat → Option Nat) : Use → Prop
  | start : Reaches ρ peek storage ⟨MemoryPool.create poolCap storage, []⟩
  | call {u : Use} (h : Reaches ρ peek storage u) (call : PoolCall ρ) (hret : ((call.prog peek).run u).1.isOk) :
      Reaches ρ peek storage ((call.prog peek).run u).2

/-- All blocks are on the free list, each once. -/
def Full (u : Use) : Prop := u.held = [] ∧ ∃ l, u.pool.Lists l ∧ l.Perm (List.range poolCap)

theorem full_iff {u : Use} : Full u ↔ u.held = [] ∧ ∃ l, Splits poolCap u l := by
  refine and_congr_right fun hheld => exists_congr fun l => ⟨fun h => ⟨h.1, ?_⟩, fun h => ⟨h.lists, ?_⟩⟩
  · rw [hheld, List.append_nil]
    exact h.2
  · have hb := h.blocks
    rwa [hheld, List.append_nil] at hb

theorem run_full (call : PoolCall ρ) {u : Use} (h : Full u) (hret : ((call.prog peek).run u).1.isOk) :
    Full ((call.prog peek).run u).2 := by
  obtain ⟨hheld, l, hs⟩ := full_iff.mp h
  have hsound := prog_sound peek call hheld hs
  exact full_iff.mpr ⟨hsound.final hret, _, hsound.splits⟩

theorem reaches_full {storage : Nat → Option Nat} {u : Use} (h : Reaches ρ peek storage u) : Full u := by
  induction h with
  | start => exact full_iff.mpr ⟨rfl, _, create_splits poolCap storage⟩
  | call _ call hret ih => exact run_full call ih hret

/-- Between calls all blocks are free. Inside a call at most two are not, and
every block is free or held and only once; no `alloc` fails. -/
theorem pool_conserved {storage : Nat → Option Nat} {u : Use} (h : Reaches ρ peek storage u) :
    Full u ∧ ∀ call : PoolCall ρ,
      (∀ p ∈ (call.prog peek).points u, p.held.length ≤ 2 ∧
        ∃ l, p.pool.Lists l ∧ (l ++ p.held).Perm (List.range poolCap) ∧ (l ++ p.held).Nodup) ∧
      (call.prog peek).starves u = false ∧
      (((call.prog peek).run u).1.isOk → Full ((call.prog peek).run u).2) := by
  have hfull := reaches_full h
  refine ⟨hfull, fun call => ?_⟩
  obtain ⟨hheld, l, hs⟩ := full_iff.mp hfull
  have hsound := prog_sound peek call hheld hs
  refine ⟨fun p hp => ?_, hsound.fed, run_full call hfull⟩
  obtain ⟨hlen, l', hs'⟩ := hsound.points p hp
  exact ⟨hlen, l', hs'.lists, hs'.blocks, hs'.nodup⟩

/-- A client registers, and its CONNECT is drained. -/
def connectCall : PoolCall LosslessKcp.Link :=
  .tunnel (sampleEnv fun _ => 0) (Gateway.init (sampleEnv fun _ => 0))
    [⟨⟨1, 1⟩, [packetRegister], sampleOutcome⟩, sampleDatagram ⟨1, 1⟩ 1000 0 0 (packConnect (ascii "lobby") 5)]

def connected : Gateway LosslessKcp.Link :=
  ((connectCall.prog fun _ => none).runList (freshPool poolCap)).1.toOption.getD (.init (sampleEnv fun _ => 0))

/-- Its target answers. -/
def answerCall : PoolCall LosslessKcp.Link := .target (sampleEnv fun _ => 0) connected 1000 [ascii "yo"]

/-- The pool between the two calls. -/
def sampleUse : Use := ((connectCall.prog fun _ => none).run ⟨MemoryPool.create poolCap fun _ => none, []⟩).2

theorem pool_conserved_of_sample :
    Full sampleUse ∧ ((answerCall.prog fun _ => none).points sampleUse).any (fun p => p.held.length = 2) = true ∧
      (∀ p ∈ (answerCall.prog fun _ => none).points sampleUse, p.held.length ≤ 2) ∧
      (answerCall.prog fun _ => none).starves sampleUse = false := by
  have hstart : Reaches LosslessKcp.Link (fun _ => none) (fun _ => none) ⟨MemoryPool.create poolCap fun _ => none, []⟩ :=
    .start
  have hreach : Reaches LosslessKcp.Link (fun _ => none) (fun _ => none) sampleUse :=
    hstart.call connectCall (by decide +kernel)
  obtain ⟨hfull, hcalls⟩ := pool_conserved hreach
  obtain ⟨hpoints, hfed, -⟩ := hcalls answerCall
  exact ⟨hfull, by decide +kernel, fun p hp => (hpoints p hp).1, hfed⟩

end GameAccelerator.PoolConservation
