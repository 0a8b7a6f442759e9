import GameAccelerator.IkcpEndpoint

namespace GameAccelerator.Ikcp

open CString Serial SerialList Countdown
open Kcp (ikcpGetconv)

inductive Side
  | client
  | gateway
deriving DecidableEq

def Side.peer : Side → Side
  | client => gateway
  | gateway => client

/-- Both ends of a conversation. Between them is a network that may lose,
repeat, delay and reorder datagrams. -/
abbrev Channel := Side → Endpoint

inductive Event
  | call (side : Side) (c : Call) (hc : c.setsMtu = false)
  /-- One of the datagrams that the other end has ever sent arrives. -/
  | deliver (side : Side) (i : Nat)
  /-- Something arrives that is no datagram of the conversation. -/
  | stray (side : Side) (data : Bytes)

namespace Channel

def create (conv : UInt32) : Channel := fun _ => .create conv

def step (ch : Channel) : Event → Channel
  | .call side c _ => Function.update ch side ((ch side).call c)
  | .deliver side i => Function.update ch side ((ch side.peer).wire[i]?.elim (ch side) (ch side).input)
  | .stray side data =>
      if ikcpGetconv data = (ch side).kcp.conv ∧ 24 ≤ data.length then ch
      else Function.update ch side ((ch side).input data)

def run (conv : UInt32) (events : List Event) : Channel := events.foldl step (create conv)

/-- Numbers are not used twice. -/
def Small (ch : Channel) : Prop := ∀ side, (ch side).cuts.flatten.length < 2147483648

def Sound (conv : UInt32) (ch : Channel) : Prop := ∀ side, (ch side).Sound conv (ch side.peer)

variable {conv : UInt32} {ch : Channel}

theorem Small.history (h : ch.Small) (side : Side) : (ch side).history.length < 2147483648 := by
  rw [Endpoint.history, length_frames]
  exact h side

theorem peer_peer (side : Side) : side.peer.peer = side := by cases side <;> rfl

theorem peer_ne (side : Side) : side.peer ≠ side := by cases side <;> decide

/-- One end has grown, the other one is as it was. -/
theorem Sound.update (h : ch.Sound conv) {side : Side} {e : Endpoint} (he : e.Sound conv (ch side.peer))
    (hg : (ch side).Grows e) : Sound conv (Function.update ch side e) := by
  have hpeer : (ch side.peer).Sound conv e := by
    have hp := h side.peer
    rw [peer_peer] at hp
    exact hp.mono_peer hg
  intro other
  by_cases hside : other = side
  · subst hside
    rw [Function.update_self, Function.update_of_ne (peer_ne other)]
    exact he
  · have hother : other = side.peer := by cases other <;> cases side <;> first | rfl | exact absurd rfl hside
    subst hother
    rw [Function.update_of_ne (peer_ne side), peer_peer, Function.update_self]
    exact hpeer

/-- What is of another conversation changes nothing. -/
theorem input_stray {e : Endpoint} {data : Bytes} (h : ¬(ikcpGetconv data = e.kcp.conv ∧ 24 ≤ data.length)) :
    e.input data = e := by
  rw [Endpoint.input, ikcpInput]
  split
  · rfl
  · next hint =>
    have hlen := le_length_of_not_int_lt hint
    have hconv : ikcpGetconv data ≠ e.kcp.conv := fun hconv => h ⟨hconv, hlen⟩
    obtain ⟨n, hn⟩ := Nat.exists_eq_succ_of_ne_zero (show data.length ≠ 0 by omega)
    have hdec : decodeSegment e.kcp.conv data = .error (-1) := if_pos hconv
    rw [hn, inputLoop, overhead_toNat, if_neg (Nat.not_lt.mpr hlen), hdec]

theorem Sound.step (h : ch.Sound conv) (hs : ch.Small) (event : Event) : (ch.step event).Sound conv := by
  cases event with
  | call side c hc =>
      obtain ⟨hsound, hgrow⟩ := (h side).call (h side.peer).framed hc
      exact h.update hsound hgrow
  | deliver side i =>
      rw [Channel.step]
      cases hd : (ch side.peer).wire[i]? with
      | none => exact h.update (h side) (.refl _)
      | some data =>
          have hpeer := h side.peer
          rw [peer_peer] at hpeer
          obtain ⟨hsound, hgrow⟩ := (h side).input (hs.history side) (hs.history side.peer) hpeer (List.mem_of_getElem? hd)
          exact h.update hsound hgrow
  | stray side data =>
      rw [Channel.step]
      split
      · exact h
      · next hstray =>
        rw [input_stray hstray]
        exact h.update (h side) (.refl _)

theorem cuts_call (e : Endpoint) (c : Call) : e.cuts <+: (e.call c).cuts := by
  cases c with
  | send buffer => exact List.prefix_append _ _
  | _ => exact List.prefix_rfl

theorem cuts_step (ch : Channel) (event : Event) (side : Side) : (ch side).cuts <+: (ch.step event side).cuts := by
  have hupdate (side' : Side) (e : Endpoint) (h : (ch side').cuts <+: e.cuts) :
      (ch side).cuts <+: (Function.update ch side' e side).cuts := by
    by_cases hside : side = side'
    · subst hside
      rwa [Function.update_self]
    · rw [Function.update_of_ne hside]
  cases event with
  | call side' c => exact hupdate _ _ (cuts_call _ c)
  | deliver side' i =>
      apply hupdate
      cases (ch side'.peer).wire[i]? <;> exact List.prefix_rfl
  | stray side' data =>
      rw [Channel.step]
      split
      · exact List.prefix_rfl
      · exact hupdate _ _ List.prefix_rfl

theorem Small.of_step {event : Event} (h : (ch.step event).Small) : ch.Small := by
  intro side
  obtain ⟨rest, hrest⟩ := cuts_step ch event side
  have hlt := h side
  rw [← hrest, List.flatten_append, List.length_append] at hlt
  omega

/-- What holds at both ends holds at all times. -/
theorem sound_run (conv : UInt32) (events : List Event) (hs : (run conv events).Small) : (run conv events).Sound conv := by
  induction events using List.reverseRecOn with
  | nil => exact fun _ => .create conv
  | append_singleton events event ih =>
      rw [run, List.foldl_append] at hs ⊢
      exact (ih hs.of_step).step hs.of_step event

/-- Messages arrive as they have been sent, in order and each of them once, no
matter what the network does to the datagrams. -/
theorem received_prefix_sent (conv : UInt32) (events : List Event) (hs : (run conv events).Small) (side : Side) :
    (run conv events side).got <+: (run conv events side.peer).sent := by
  have h := sound_run conv events hs
  obtain ⟨ms, hms, -, hgot⟩ := (h side).got
  rw [hgot, (h side.peer).framed.sent]
  exact hms.map List.flatten

/-- The second datagram arrives first, and the first one twice. -/
def lossyEvents : List Event :=
  [.call .client (.nodelay 1 10 2 1) rfl, .call .client (.send (ascii "a")) rfl, .call .client (.update 0) rfl,
    .call .client (.send (ascii "b")) rfl, .call .client (.update 10) rfl, .deliver .gateway 1, .stray .gateway [7],
    .deliver .gateway 0, .deliver .gateway 0, .call .gateway (.recv 2048) rfl, .call .gateway (.update 0) rfl,
    .deliver .client 0]

theorem small_lossyEvents : (run 7 lossyEvents).Small := by
  intro side
  cases side <;> decide +kernel

theorem received_prefix_sent_of_lossy :
    (run 7 lossyEvents .gateway).got ≠ [] ∧ (run 7 lossyEvents .gateway).got <+: [ascii "a", ascii "b"] := by
  have hsent : (run 7 lossyEvents .client).sent = [ascii "a", ascii "b"] := by decide +kernel
  rw [← hsent]
  exact ⟨by decide +kernel, received_prefix_sent 7 lossyEvents small_lossyEvents .gateway⟩

end Channel

end GameAccelerator.Ikcp
