import GameAccelerator.IkcpLibrary
import GameAccelerator.Switchboard

namespace GameAccelerator.KcpGateway

open CString Platform NetUtils Kcp SessionManager GatewayLoop SessionInvariant Switchboard
open Ikcp (library gatewayView receivable)

/-- What a control block of the session `c` has come through, whatever has been
sent to it. -/
structure Past (c : UInt32) (kcp : Ikcp.Ikcpcb) (e : Ikcp.Endpoint) : Prop where
  kcp_eq : e.kcp = kcp
  intact : e.Intact 128
  windowed : e.Windowed 32
  fitting : e.Fitting c

structure Kept (c : UInt32) (ks : KcpSession Ikcp.Ikcpcb) : Prop where
  view : ks.kcp = gatewayView ks.kcp.rest
  past : ∃ e, Past c ks.kcp.rest e

variable {c : UInt32} {kcp : Ikcp.Ikcpcb} {e : Ikcp.Endpoint} {ks : KcpSession Ikcp.Ikcpcb}

/-- A call that leaves the windows and the MTU as they are. -/
structure Modest (call : Ikcp.Call) : Prop where
  setsMtu : (Ikcp.Act.call call).setsMtu = false
  within : (Ikcp.Act.call call).Within 128
  sendsWithin : (Ikcp.Act.call call).SendsWithin 32

theorem Past.call (h : Past c kcp e) (call : Ikcp.Call) (hc : Modest call) : Past c (e.call call).kcp (e.call call) :=
  ⟨rfl, h.intact.call le_rfl hc.within, h.windowed.call h.intact.tuned.stream hc.sendsWithin,
    h.fitting.call h.intact hc.setsMtu⟩

theorem Past.input (h : Past c kcp e) (pkt : Bytes) : Past c (e.input pkt).kcp (e.input pkt) :=
  ⟨rfl, h.intact.input (by decide) pkt, h.windowed.input pkt, h.fitting.congr (Ikcp.Endpoint.settings_ikcpInput e.kcp pkt)⟩

theorem past_create (c : UInt32) : Past c (Ikcp.ikcpCreate c) (.create c) :=
  ⟨rfl, .create le_rfl c, .create le_rfl c, .create c⟩

theorem kept_init (c : UInt32) (peer : Endpoint) (fd : Int) : Kept c (kcpSessionInit library c peer fd) :=
  ⟨rfl, _, (past_create c).call (.nodelay 1 10 2 1) ⟨rfl, trivial, trivial⟩⟩

/-- Two segments are enough for what the gateway sends. -/
theorem Past.send_nonneg (h : Past c kcp e) {msg : Bytes} (hmsg : msg.length ≤ blockSize) :
    0 ≤ (Ikcp.ikcpSend e.kcp msg).1 := by
  apply Ikcp.ikcpSend_nonneg h.intact.tuned.stream
  have hmss : e.kcp.mss.toNat = 1376 := by rw [h.fitting.mss]; rfl
  have hle : msg.length ≤ 2048 := hmsg
  rw [Ikcp.segmentCount, hmss]
  split <;> omega

/-- What a call sends carries the number of the session and fits into the MTU. -/
theorem Kept.serve {arrives : Bytes → Prop} {k : Ikcpcb Ikcp.Ikcpcb} {completed sent packets : List Bytes} (h : Kept c ks)
    (hs : Serve library arrives ks.kcp k completed sent packets) :
    Kept c { ks with kcp := k } ∧ ∀ d ∈ packets, Ikcp.Endpoint.Datagram c d := by
  obtain ⟨k₀, peer, fd⟩ := ks
  obtain ⟨hview, e, he⟩ := h
  obtain rfl : k₀ = gatewayView e.kcp := by rwa [he.kcp_eq]
  cases hs with
  | input pkt =>
      rw [Ikcp.ikcpInput_library]
      exact ⟨⟨rfl, _, he.input pkt⟩, List.forall_mem_nil _⟩
  | update now =>
      have hpast := he.call (.update now) ⟨rfl, trivial, trivial⟩
      rw [Ikcp.ikcpUpdate_library]
      exact ⟨⟨rfl, _, hpast⟩, fun d hd => hpast.fitting.wire d (List.mem_append_right _ hd)⟩
  | flush =>
      have hpast := he.call .flush ⟨rfl, trivial, trivial⟩
      rw [Ikcp.ikcpFlush_library]
      exact ⟨⟨rfl, _, hpast⟩, fun d hd => hpast.fitting.wire d (List.mem_append_right _ hd)⟩
  | send msg =>
      rw [Ikcp.ikcpSend_library]
      exact ⟨⟨rfl, _, he.call (.send msg) ⟨rfl, trivial, trivial⟩⟩, List.forall_mem_nil _⟩
  | recv =>
      rw [(Ikcp.ikcpRecv_library e.kcp blockSize).1]
      exact ⟨⟨rfl, _, he.call (.recv blockSize) ⟨rfl, trivial, trivial⟩⟩, List.forall_mem_nil _⟩

section Gateway

variable {env : Env Ikcp.Ikcpcb} {arrives : Endpoint → Bytes → Prop} {v v' : View Ikcp.Ikcpcb}

/-- Every control block is one of its session, and no datagram is longer than
the MTU. -/
structure Sane (v : View Ikcp.Ikcpcb) : Prop where
  blocks : ∀ c ks, v.blocks c = some ks → Kept c ks
  log : ∀ fd dst bytes, .tunnel fd dst bytes ∈ v.log → bytes.length ≤ 1400

theorem Sane.move (hK : env.kcp = library) (h : Sane v) (hm : Move env arrives v v') : Sane v' := by
  cases hm with
  | note effects he =>
      refine ⟨h.blocks, fun fd dst bytes hmem => ?_⟩
      rcases List.mem_append.mp hmem with hmem | hmem
      · exact h.log fd dst bytes hmem
      · have hshort : bytes.length < 24 := he _ hmem
        omega
  | @serve c ks k completed sent packets hks hserve =>
      rw [hK] at hserve
      obtain ⟨hkept, hpackets⟩ := (h.blocks c ks hks).serve hserve
      refine ⟨forall_update h.blocks (by rintro _ ⟨⟩; exact hkept), fun fd dst bytes hmem => ?_⟩
      rcases List.mem_append.mp hmem with hmem | hmem
      · exact h.log fd dst bytes hmem
      · rcases List.mem_append.mp hmem with hmem | hmem
        · simp at hmem
        · obtain ⟨d, hd, heq⟩ := List.mem_map.mp hmem
          rw [← (Effect.tunnel.inj heq).2.2]
          exact (hpackets d hd).fits
  | @created c hfree src time =>
      refine ⟨forall_update h.blocks ?_, fun fd dst bytes hmem => ?_⟩
      · rintro _ ⟨⟩
        rw [hK]
        exact kept_init c src env.clientFd
      · rcases List.mem_append.mp hmem with hmem | hmem
        · exact h.log fd dst bytes hmem
        · simp at hmem
  | gone c => exact ⟨forall_update h.blocks (by rintro _ ⟨⟩), h.log⟩

theorem Sane.moves (hK : env.kcp = library) (h : Sane v) (hm : Moves env arrives v v') : Sane v' := by
  induction hm with
  | refl => exact h
  | tail _ hmove ih => exact ih.move hK hmove

theorem sane_of_reachable (hK : env.kcp = library) {g : Gateway Ikcp.Ikcpcb} (h : ReachableByCalls env g) : Sane (view g) := by
  have hinit : Sane (view (.init env)) := by
    refine ⟨fun c ks hks => ?_, fun fd dst bytes hmem => ?_⟩
    · cases hks
    · cases hmem
  exact hinit.moves hK (reachable_moves h)

/-- Whatever clients send, no session's control block leaves its windows, the
messages that the gateway finds are those that `ikcp_recv` returns, and no
datagram of the tunnel is longer than 1400 bytes. -/
theorem gateway_bounded (env : Env Ikcp.Ikcpcb) (hK : env.kcp = library) (g : Gateway Ikcp.Ikcpcb) (h : ReachableByCalls env g) :
    (∀ c s, g.sessions.find c = some s →
      let kcp := s.kcp.kcp.rest
      s.kcp.kcp.conv = c ∧ s.kcp.kcp.rcvQueue = receivable kcp ∧
        kcp.conv = c ∧ kcp.rcvBuf.length ≤ 128 ∧ kcp.rcvQueue.length ≤ 128 ∧ kcp.sndBuf.length ≤ 32 ∧
        kcp.nrcvBuf.toNat = kcp.rcvBuf.length ∧ kcp.nrcvQue.toNat = kcp.rcvQueue.length ∧
        kcp.nsndBuf.toNat = kcp.sndBuf.length ∧ kcp.nsndQue = .ofNat kcp.sndQueue.length ∧
        30 ≤ kcp.rxRto.toNat ∧ kcp.rxRto.toNat ≤ 60000) ∧
      ∀ fd dst bytes, .tunnel fd dst bytes ∈ g.log → bytes.length ≤ 1400 := by
  obtain ⟨hblocks, hlog⟩ := sane_of_reachable hK h
  refine ⟨fun c s hs => ?_, hlog⟩
  obtain ⟨hview, e, hkcp, hintact, hwindowed, hfitting⟩ := hblocks c s.kcp (congrArg (Option.map Session.kcp) hs)
  rw [hview, ← hkcp]
  obtain ⟨hrb, hrq, hsb, hsq, hrbuf, hrque, hsbuf, hlow, hhigh⟩ := hintact.counted (by decide) hwindowed
  exact ⟨hfitting.conv_eq, rfl, hfitting.conv_eq, hrbuf, hrque, hsbuf, hrb, hrq, hsb, hsq, hlow, hhigh⟩

theorem tunnelFd_mem : (3 : Int) ∈ [(0 : Int), 1, 2, 3] := by simp

def tunnelEnv : Env Ikcp.Ikcpcb where
  kcp := library
  clientFd := 3
  openFds := [0, 1, 2, 3]
  clientOpen := tunnelFd_mem
  idleMs := 30000
  clock n := .ofNat (100 * n)
  inetPton _ := some 16777343

def next (g : Gateway Ikcp.Ikcpcb) (e : Event Ikcp.Ikcpcb) : Gateway Ikcp.Ikcpcb := ((step tunnelEnv g e).toOption).getD g

theorem step_next {g : Gateway Ikcp.Ikcpcb} {e : Event Ikcp.Ikcpcb} (h : (step tunnelEnv g e).isOk) : step tunnelEnv g e = .ok (next g e) := by
  rw [next]
  cases hstep : step tunnelEnv g e with
  | error f =>
      rw [hstep] at h
      cases h
  | ok g' => rfl

def registered : Gateway Ikcp.Ikcpcb := next (.init tunnelEnv) (.register ⟨1, 1⟩ sampleOutcome.arrange)

theorem gateway_bounded_of_registered :
    ∃ s, registered.sessions.find 1000 = some s ∧ s.kcp.kcp.rest.conv = 1000 ∧ s.kcp.kcp.rest.sndBuf.length ≤ 32 := by
  have hreach : ReachableByCalls tunnelEnv registered := .step .init _ (step_next (by decide +kernel))
  have hsome : (registered.sessions.find 1000).isSome := by decide +kernel
  obtain ⟨s, hs⟩ := Option.isSome_iff_exists.mp hsome
  obtain ⟨-, -, hconv, -, -, hbuf, -⟩ := (gateway_bounded tunnelEnv rfl registered hreach).1 1000 s hs
  exact ⟨s, hs, hconv, hbuf⟩

end Gateway

end GameAccelerator.KcpGateway
