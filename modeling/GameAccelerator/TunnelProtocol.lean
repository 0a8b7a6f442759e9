import GameAccelerator.CString

namespace GameAccelerator.TunnelProtocol

open CString

def packetConnect : UInt8 := 1

def packetData : UInt8 := 2

def packetClose : UInt8 := 3

def packetRegister : UInt8 := 4

def packetRegistered : UInt8 := 5

def headLen : Nat := 1

def connectHeadLen : Nat := 2

def dataHeadLen : Nat := 3

def routeMax : Nat := 255

/-- The bytes of a number in network order, as `htons` leaves them in memory. -/
def htons (n : UInt16) : Bytes := [.ofNat (n.toNat / 256), .ofNat n.toNat]

def ntohs (b₀ b₁ : UInt8) : UInt16 := .ofNat (b₀.toNat * 256 + b₁.toNat)

def htonl (n : UInt32) : Bytes :=
  [.ofNat (n.toNat / 16777216), .ofNat (n.toNat / 65536), .ofNat (n.toNat / 256), .ofNat n.toNat]

def ntohl (b₀ b₁ b₂ b₃ : UInt8) : UInt32 :=
  .ofNat (((b₀.toNat * 256 + b₁.toNat) * 256 + b₂.toNat) * 256 + b₃.toNat)

def packConnect (route : Bytes) (routeLen : UInt8) : Bytes :=
  packetConnect :: routeLen :: route.take routeLen.toNat

def packData (data : Bytes) (len : UInt16) : Bytes := packetData :: (htons len ++ data.take len.toNat)

def packClose : Bytes := [packetClose]

def packRegister : Bytes := [packetRegister]

def packRegistered (conv : UInt32) : Bytes := packetRegistered :: htonl conv

/-- Reading a byte of a packet whose length has been checked. -/
def byteAt (buf : Bytes) (i : Nat) : UInt8 := buf.getD i 0

def readRegistered (buf : Bytes) : Option UInt32 :=
  if buf.length < 1 + 4 ∨ byteAt buf 0 ≠ packetRegistered then none
  else some (ntohl (byteAt buf 1) (byteAt buf 2) (byteAt buf 3) (byteAt buf 4))

/-- What `parse` writes to its out parameters; `data` is an offset into the
packet, or NULL. -/
structure Parsed where
  type : UInt8
  data : Option Nat
  len : UInt16

def parse (buf : Bytes) : Option Parsed :=
  if buf.length < headLen then none
  else
    let type := byteAt buf 0
    if type = packetData then
      if buf.length < dataHeadLen then none
      else
        let len := ntohs (byteAt buf 1) (byteAt buf 2)
        if dataHeadLen + len.toNat > buf.length then none else some ⟨type, some dataHeadLen, len⟩
    else if type = packetConnect then
      if buf.length < connectHeadLen then none
      else if connectHeadLen + (byteAt buf 1).toNat > buf.length then none
      else some ⟨type, none, 0⟩
    else some ⟨type, none, 0⟩

/-- What is in the caller's buffer of `cap` bytes up to the NUL written last. -/
def readConnectRoute (buf : Bytes) (cap : Nat) : Bytes :=
  let rl := (byteAt buf 1).toNat
  let rl := if rl ≥ cap then cap - 1 else rl
  (buf.drop connectHeadLen).take rl ++ [0]

theorem ntohs_htons (n : UInt16) : ntohs (.ofNat (n.toNat / 256)) (.ofNat n.toNat) = n := by
  have h := n.toNat_lt
  apply UInt16.toNat_inj.mp
  simp only [ntohs, UInt8.toNat_ofNat', UInt16.toNat_ofNat']
  omega

theorem ntohl_htonl (n : UInt32) :
    ntohl (.ofNat (n.toNat / 16777216)) (.ofNat (n.toNat / 65536)) (.ofNat (n.toNat / 256)) (.ofNat n.toNat) = n := by
  have h := n.toNat_lt
  apply UInt32.toNat_inj.mp
  simp only [ntohl, UInt8.toNat_ofNat', UInt32.toNat_ofNat']
  omega

theorem readRegistered_packRegistered (conv : UInt32) (suffix : Bytes) :
    readRegistered (packRegistered conv ++ suffix) = some conv := by
  have hlen : ¬ ((packRegistered conv ++ suffix).length < 1 + 4 ∨
      byteAt (packRegistered conv ++ suffix) 0 ≠ packetRegistered) := by
    simp [packRegistered, htonl, byteAt]
  rw [readRegistered, if_neg hlen]
  exact congrArg some (ntohl_htonl conv)

theorem parse_packData (data : Bytes) (len : UInt16) (h : len.toNat ≤ data.length) (suffix : Bytes) :
    parse (packData data len ++ suffix) = some ⟨packetData, some dataHeadLen, len⟩ := by
  have hl : (packData data len ++ suffix).length = 3 + len.toNat + suffix.length := by
    simp [packData, htons]
    omega
  have h1 : byteAt (packData data len ++ suffix) 1 = .ofNat (len.toNat / 256) := rfl
  have h2 : byteAt (packData data len ++ suffix) 2 = .ofNat len.toNat := rfl
  have h0 : byteAt (packData data len ++ suffix) 0 = packetData := rfl
  rw [parse, hl, h0, h1, h2, ntohs_htons, if_neg (by simp only [headLen]; omega), if_pos rfl,
    if_neg (by simp only [dataHeadLen]; omega), if_neg (by simp only [dataHeadLen]; omega)]

theorem packData_slice (data : Bytes) (len : UInt16) (suffix : Bytes) (h : len.toNat ≤ data.length) :
    ((packData data len ++ suffix).drop dataHeadLen).take len.toNat = data.take len.toNat := by
  simp [packData, htons, dataHeadLen, h]

theorem parse_packConnect (route : Bytes) (len : UInt8) (h : len.toNat ≤ route.length) (suffix : Bytes) :
    parse (packConnect route len ++ suffix) = some ⟨packetConnect, none, 0⟩ := by
  have hl : (packConnect route len ++ suffix).length = 2 + len.toNat + suffix.length := by
    simp [packConnect]
    omega
  have h1 : byteAt (packConnect route len ++ suffix) 1 = len := rfl
  have h0 : byteAt (packConnect route len ++ suffix) 0 = packetConnect := rfl
  rw [parse, hl, h0, h1, if_neg (by simp only [headLen]; omega), if_neg (by decide), if_pos rfl,
    if_neg (by simp only [connectHeadLen]; omega), if_neg (by simp only [connectHeadLen]; omega)]

theorem parse_packClose (suffix : Bytes) : parse (packClose ++ suffix) = some ⟨packetClose, none, 0⟩ := by
  have h0 : byteAt (packClose ++ suffix) 0 = packetClose := rfl
  rw [parse, h0, if_neg (by simp [packClose, headLen]), if_neg (by decide), if_neg (by decide)]

theorem byteAt_of_prefixOf {p l : Bytes} (h : p <+: l) {i : Nat} (hi : i < p.length) : byteAt p i = byteAt l i := by
  obtain ⟨r, rfl⟩ := h
  simp [byteAt, List.getD_eq_getElem?_getD, List.getElem?_append_left hi]

theorem length_lt_of_proper {p l : Bytes} (h : p <+: l) (hne : p ≠ l) : p.length < l.length :=
  lt_of_le_of_ne h.length_le fun he => hne (h.eq_of_length he)

/-- A CONNECT that has been cut short is not accepted. -/
theorem parse_connect_cut {route p : Bytes} {len : UInt8} (h : len.toNat ≤ route.length)
    (hp : p <+: packConnect route len) (hne : p ≠ packConnect route len) (hpos : p ≠ []) : parse p = none := by
  have hfull : (packConnect route len).length = 2 + len.toNat := by
    simp [packConnect]
    omega
  have hlt := length_lt_of_proper hp hne
  rw [hfull] at hlt
  have hlen : 0 < p.length := List.length_pos_iff.mpr hpos
  have h0 : byteAt p 0 = packetConnect := byteAt_of_prefixOf hp hlen
  have hone : ¬ p.length < headLen := Nat.not_lt.mpr hlen
  rw [parse, h0, if_neg hone, if_neg (by decide), if_pos rfl]
  split_ifs with hhead hbody
  · rfl
  · rfl
  · have h1 : byteAt p 1 = len := byteAt_of_prefixOf hp (Nat.not_lt.mp hhead)
    rw [h1] at hbody
    simp only [connectHeadLen] at hbody
    omega

theorem parse_data_cut {data p : Bytes} {len : UInt16} (h : len.toNat ≤ data.length)
    (hp : p <+: packData data len) (hne : p ≠ packData data len) (hpos : p ≠ []) : parse p = none := by
  have hfull : (packData data len).length = 3 + len.toNat := by
    simp [packData, htons]
    omega
  have hlt := length_lt_of_proper hp hne
  rw [hfull] at hlt
  have hlen : 0 < p.length := List.length_pos_iff.mpr hpos
  have h0 : byteAt p 0 = packetData := byteAt_of_prefixOf hp hlen
  have hone : ¬ p.length < headLen := Nat.not_lt.mpr hlen
  rw [parse, h0, if_neg hone, if_pos rfl]
  split_ifs with hhead
  · rfl
  · have hthree : 3 ≤ p.length := Nat.not_lt.mp hhead
    have h1 : byteAt p 1 = .ofNat (len.toNat / 256) := byteAt_of_prefixOf hp (by omega)
    have h2 : byteAt p 2 = .ofNat len.toNat := byteAt_of_prefixOf hp (by omega)
    rw [h1, h2, ntohs_htons]
    exact if_pos (by simp only [dataHeadLen]; omega)

/-- With room for the longest route nothing is cut off. -/
theorem readConnectRoute_eq (buf : Bytes) :
    readConnectRoute buf (routeMax + 1) = (buf.drop connectHeadLen).take (byteAt buf 1).toNat ++ [0] := by
  have hlt : ¬ (byteAt buf 1).toNat ≥ routeMax + 1 := Nat.not_le.mpr (byteAt buf 1).toNat_lt
  simp only [readConnectRoute, hlt, if_false]

theorem packConnect_slice (route : Bytes) (len : UInt8) (suffix : Bytes) (h : len.toNat ≤ route.length) :
    ((packConnect route len ++ suffix).drop connectHeadLen).take len.toNat = route.take len.toNat := by
  simp [packConnect, connectHeadLen, h]

/-- What one end packs the other reads, whatever follows in the buffer, and it
reads nothing from a message that has been cut short. -/
theorem tunnel_round_trip (route payload : Bytes) (conv : UInt32) (suffix : Bytes) (hroute : route.length ≤ 255)
    (hnul : 0 ∉ route) (hpayload : payload.length ≤ 65535) :
    (parse (packConnect route (.ofNat route.length) ++ suffix) = some ⟨packetConnect, none, 0⟩ ∧
      readConnectRoute (packConnect route (.ofNat route.length) ++ suffix) 256 = route ++ [0] ∧
      (cstrAt (readConnectRoute (packConnect route (.ofNat route.length) ++ suffix) 256) 0).bytes = route) ∧
    (∃ len, parse (packData payload (.ofNat payload.length) ++ suffix) = some ⟨packetData, some dataHeadLen, len⟩ ∧
      len.toNat = payload.length ∧
      ((packData payload (.ofNat payload.length) ++ suffix).drop dataHeadLen).take len.toNat = payload) ∧
    parse (packClose ++ suffix) = some ⟨packetClose, none, 0⟩ ∧
    readRegistered (packRegistered conv ++ suffix) = some conv ∧
    (∀ p, p <+: packConnect route (.ofNat route.length) → p ≠ packConnect route (.ofNat route.length) → p ≠ [] →
      parse p = none) ∧
    ∀ p, p <+: packData payload (.ofNat payload.length) → p ≠ packData payload (.ofNat payload.length) → p ≠ [] →
      parse p = none := by
  have hr : (UInt8.ofNat route.length).toNat = route.length := UInt8.toNat_ofNat_of_lt' (Nat.lt_succ_of_le hroute)
  have hd : (UInt16.ofNat payload.length).toNat = payload.length :=
    UInt16.toNat_ofNat_of_lt' (Nat.lt_succ_of_le hpayload)
  have hread : readConnectRoute (packConnect route (.ofNat route.length) ++ suffix) 256 = route ++ [0] := by
    refine (readConnectRoute_eq _).trans (congrArg (· ++ [0]) ?_)
    exact (packConnect_slice route _ suffix hr.le).trans (by rw [hr, List.take_length])
  refine ⟨⟨parse_packConnect route _ hr.le suffix, hread, ?_⟩,
    ⟨_, parse_packData payload _ hd.le suffix, hd, ?_⟩, parse_packClose suffix,
    readRegistered_packRegistered conv suffix, fun p => parse_connect_cut hr.le, fun p => parse_data_cut hd.le⟩
  · rw [hread]
    exact cstrAt_append [] route [] hnul
  · rw [packData_slice payload _ suffix hd.le, hd, List.take_length]

theorem lobby_round_trip :
    readConnectRoute (packConnect (ascii "lobby") 5 ++ [9]) 256 = ascii "lobby" ++ [0] ∧
      readRegistered (packRegistered 1000 ++ [9]) = some 1000 := by
  have h := tunnel_round_trip (ascii "lobby") [1, 2, 3] 1000 [9] (by decide) (by decide) (by decide)
  exact ⟨h.1.2.1, h.2.2.2.1⟩

end GameAccelerator.TunnelProtocol
