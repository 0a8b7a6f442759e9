import GameAccelerator.NetUtils
import GameAccelerator.TunnelProtocol

namespace GameAccelerator.TunnelClient

open CString NetUtils TunnelProtocol

/-- What `select` and `recvfrom` yield after a REGISTER. -/
inductive Reception
  | nothing
  | datagram (src : Endpoint) (bytes : Bytes)

/-- The conv that an answer from the gateway `gw` brings, if it is one. -/
def Reception.conv (gw : Endpoint) : Reception → Option UInt32
  | .nothing => none
  | .datagram src bytes => if src = gw then readRegistered (bytes.take 16) else none

def attempts : Nat := 5

/-- What becomes of the attempts from `i` on. -/
def registerFrom (gw : Endpoint) (receive : Nat → Reception) (i : Nat) : Nat → Option UInt32
  | 0 => none
  | left + 1 =>
      match (receive i).conv gw with
      | some c => some c
      | none => registerFrom gw receive (i + 1) left

/-- `receive i` is what comes after the REGISTER of the attempt `i`. -/
def registerWithGateway (gw : Endpoint) (receive : Nat → Reception) : Option UInt32 :=
  registerFrom gw receive 0 attempts

/-- How far a client has come with `register_with_gateway`. -/
inductive Client
  | sending (i : Nat)
  | waiting (i : Nat)
  | adopted (conv : UInt32)
  | failed
  deriving DecidableEq

/-- The end of the attempt `i`. -/
def Client.received (gw : Endpoint) (i : Nat) (r : Reception) : Client :=
  match r.conv gw with
  | some c => .adopted c
  | none => if i + 1 < attempts then .sending (i + 1) else .failed

/-- The client that is left to itself from the attempt `i` on. -/
def Client.alone (gw : Endpoint) (receive : Nat → Reception) : Nat → Client → Client
  | 0, client => client
  | left + 1, .sending i => Client.alone gw receive left (.received gw i (receive i))
  | _, client => client

theorem alone_adopted (gw : Endpoint) (receive : Nat → Reception) (left : Nat) (c : UInt32) :
    Client.alone gw receive left (.adopted c) = .adopted c := by
  cases left <;> rfl

/-- Attempt by attempt a client does what the loop of `register_with_gateway`
does. -/
theorem alone_eq_registerFrom (gw : Endpoint) (receive : Nat → Reception) {i left : Nat} (h : i + left = attempts)
    (hleft : 0 < left) :
    Client.alone gw receive left (.sending i) =
      match registerFrom gw receive i left with
      | some c => .adopted c
      | none => .failed := by
  induction left generalizing i with
  | zero => exact absurd hleft (Nat.lt_irrefl 0)
  | succ left ih =>
      simp only [Client.alone, registerFrom, Client.received]
      cases (receive i).conv gw with
      | some c => exact alone_adopted gw receive left c
      | none =>
          dsimp only
          split_ifs with hmore
          · exact ih (by omega) (by omega)
          · obtain rfl : left = 0 := by omega
            rfl

theorem alone_eq_registerWithGateway (gw : Endpoint) (receive : Nat → Reception) :
    Client.alone gw receive attempts (.sending 0) =
      match registerWithGateway gw receive with
      | some c => .adopted c
      | none => .failed :=
  alone_eq_registerFrom gw receive (Nat.zero_add _) (Nat.succ_pos _)

end GameAccelerator.TunnelClient
