import GameAccelerator.GatewayLoop

namespace GameAccelerator.TunnelMessages

open CString NetUtils TunnelProtocol SessionManager GatewayLoop

/-- What a client has to say over its tunnel. -/
inductive Message
  | connect (route : Bytes) (h : route.length ≤ routeMax)
  | data (payload : Bytes) (h : payload.length ≤ maxReply)
  | close

def Message.encode : Message → Bytes
  | .connect route _ => packConnect route (.ofNat route.length)
  | .data payload _ => packData payload (.ofNat payload.length)
  | .close => packClose

def Message.payload : Message → Option Bytes
  | .data payload _ => some payload
  | _ => none

def Message.isClose : Message → Bool
  | .close => true
  | _ => false

def Message.isConnect : Message → Bool
  | .connect _ _ => true
  | _ => false

/-- What reaches the target: the payloads between the first CONNECT and the
first CLOSE, all for the address of that CONNECT. -/
def relayed (resolve : Bytes → Option Endpoint) (ms : List Message) : List (Endpoint × Bytes) :=
  match (ms.takeWhile fun m => !m.isClose).dropWhile fun m => !m.isConnect with
  | [] => []
  | m :: rest =>
      match resolve m.encode with
      | none => []
      | some addr => (rest.filterMap Message.payload).map fun payload => (addr, payload)

/-- How far a session has come. -/
inductive Phase
  | pending
  | connected (addr : Endpoint)
  | closed

variable (resolve : Bytes → Option Endpoint)

def Phase.next : Phase → Message → Phase
  | .pending, .connect route h =>
      match resolve (Message.connect route h).encode with
      | none => .closed
      | some addr => .connected addr
  | .pending, .data _ _ => .pending
  | .pending, .close => .closed
  | .connected _, .close => .closed
  | .connected addr, _ => .connected addr
  | .closed, _ => .closed

def Phase.output : Phase → Message → List (Endpoint × Bytes)
  | .connected addr, .data payload _ => [(addr, payload)]
  | _, _ => []

def Phase.after (φ : Phase) (ms : List Message) : Phase := ms.foldl (Phase.next resolve) φ

def Phase.outputs : Phase → List Message → List (Endpoint × Bytes)
  | _, [] => []
  | φ, m :: ms => φ.output m ++ Phase.outputs (φ.next resolve m) ms

theorem after_append (φ : Phase) (ms ms' : List Message) :
    φ.after resolve (ms ++ ms') = (φ.after resolve ms).after resolve ms' :=
  List.foldl_append

theorem outputs_append (φ : Phase) (ms ms' : List Message) :
    φ.outputs resolve (ms ++ ms') = φ.outputs resolve ms ++ (φ.after resolve ms).outputs resolve ms' := by
  induction ms generalizing φ with
  | nil => rfl
  | cons m ms ih => simp only [List.cons_append, Phase.outputs, Phase.after, List.foldl_cons, ih, List.append_assoc]

theorem after_closed (ms : List Message) : Phase.closed.after resolve ms = .closed := by
  induction ms with
  | nil => rfl
  | cons m ms ih => exact ih

theorem outputs_closed (ms : List Message) : Phase.closed.outputs resolve ms = [] := by
  induction ms with
  | nil => rfl
  | cons m ms ih => exact ih

theorem outputs_connected (addr : Endpoint) (ms : List Message) :
    (Phase.connected addr).outputs resolve ms =
      ((ms.takeWhile fun m => !m.isClose).filterMap Message.payload).map fun payload => (addr, payload) := by
  induction ms with
  | nil => rfl
  | cons m ms ih =>
      cases m with
      | connect route h => exact ih
      | data payload h => exact congrArg ((addr, payload) :: ·) ih
      | close => exact outputs_closed resolve ms

theorem outputs_pending (ms : List Message) : Phase.pending.outputs resolve ms = relayed resolve ms := by
  induction ms with
  | nil => rfl
  | cons m ms ih =>
      cases m with
      | connect route h =>
          have hr : relayed resolve (.connect route h :: ms) =
              match resolve (Message.connect route h).encode with
              | none => []
              | some addr => (((ms.takeWhile fun m => !m.isClose)).filterMap Message.payload).map (addr, ·) := rfl
          have ho : Phase.pending.outputs resolve (.connect route h :: ms) =
              (Phase.pending.next resolve (.connect route h)).outputs resolve ms := rfl
          rw [hr, ho, Phase.next]
          cases resolve (Message.connect route h).encode with
          | none => exact outputs_closed resolve ms
          | some addr => exact outputs_connected resolve addr ms
      | data payload h => exact ih
      | close => exact outputs_closed resolve ms

theorem ofNat_length {route : Bytes} (h : route.length ≤ routeMax) :
    (UInt8.ofNat route.length).toNat = route.length := by
  rw [UInt8.toNat_ofNat', Nat.mod_eq_of_lt]
  exact Nat.lt_of_le_of_lt h (by decide)

theorem ofNat_length_data {payload : Bytes} (h : payload.length ≤ maxReply) :
    (UInt16.ofNat payload.length).toNat = payload.length := by
  rw [UInt16.toNat_ofNat', Nat.mod_eq_of_lt]
  exact Nat.lt_of_le_of_lt h (by decide)

theorem parse_connect {route : Bytes} (h : route.length ≤ routeMax) :
    parse (Message.connect route h).encode = some ⟨packetConnect, none, 0⟩ := by
  have hp := parse_packConnect route (.ofNat route.length) (ofNat_length h).le []
  rwa [List.append_nil] at hp

theorem parse_data {payload : Bytes} (h : payload.length ≤ maxReply) :
    parse (Message.data payload h).encode = some ⟨packetData, some dataHeadLen, .ofNat payload.length⟩ := by
  have hp := parse_packData payload (.ofNat payload.length) (ofNat_length_data h).le []
  rwa [List.append_nil] at hp

theorem slice_data {payload : Bytes} (h : payload.length ≤ maxReply) :
    ((Message.data payload h).encode.drop dataHeadLen).take (UInt16.ofNat payload.length).toNat = payload := by
  have hp := packData_slice payload (.ofNat payload.length) [] (ofNat_length_data h).le
  rw [List.append_nil] at hp
  exact hp.trans (by rw [ofNat_length_data h, List.take_length])

theorem parse_close : parse Message.close.encode = some ⟨packetClose, none, 0⟩ := parse_packClose []

theorem encode_pos (m : Message) : 0 < m.encode.length := by
  cases m <;> exact Nat.succ_pos _

theorem encode_le (m : Message) : m.encode.length ≤ blockSize := by
  cases m with
  | connect route h =>
      simp only [routeMax] at h
      simp [Message.encode, packConnect, blockSize]
      omega
  | data payload h =>
      simp only [maxReply, blockSize, dataHeadLen] at h
      simp [Message.encode, packData, htons, blockSize]
      omega
  | close => decide

end GameAccelerator.TunnelMessages
