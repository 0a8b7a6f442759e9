import GameAccelerator.Buffer
import GameAccelerator.GatewayLoop

namespace GameAccelerator.TunnelBounds

open CString Buffer NetUtils TunnelProtocol SessionManager GatewayLoop

/-- `parse` with every read checked against the length of the buffer. -/
def parseMem (buf : Bytes) : Option (Option Parsed) :=
  if buf.length < headLen then some none
  else do
    let type ← buf[0]?
    if type = packetData then
      if buf.length < dataHeadLen then some none
      else do
        let b₀ ← buf[1]?
        let b₁ ← buf[2]?
        let len := ntohs b₀ b₁
        some (if dataHeadLen + len.toNat > buf.length then none else some ⟨type, some dataHeadLen, len⟩)
    else if type = packetConnect then
      if buf.length < connectHeadLen then some none
      else do
        let rl ← buf[1]?
        some (if connectHeadLen + rl.toNat > buf.length then none else some ⟨type, none, 0⟩)
    else some (some ⟨type, none, 0⟩)

/-- `read_connect_route` into the buffer `out`, with every access checked. -/
def readConnectRouteMem (buf out : Bytes) : Option (Nat × Bytes) := do
  let b ← buf[1]?
  let rl := if b.toNat ≥ out.length then out.length - 1 else b.toNat
  let data ← load buf connectHeadLen rl
  let out ← store out 0 data
  let out ← store out rl [0]
  some (rl, out)

variable {ρ : Type}

/-- The handler over the checked readers; `route` is what the stack buffer
holds before it is written. -/
def handleTunnelMsgMem (env : Env ρ) (o : Outcome ρ) (c : UInt32) (s : Session ρ) (g : Gateway ρ)
    (route buf : Bytes) : Option (Bool × Session ρ × Gateway ρ) := do
  match ← parseMem buf with
  | none => some (false, s, g)
  | some p =>
      if p.type = packetConnect then
        if s.targetFd ≥ 0 then some (false, s, g)
        else do
          let r ← readConnectRouteMem buf route
          match (o.kvGet (ascii "route:" ++ (cstrAt r.2 0).bytes)).bind (nodeToAddr env.inetPton) with
          | none => some (true, markDying s g)
          | some addr =>
              let s := { s with targetAddr := addr, lastActive := env.clock g.ticks }
              let r := openTarget o c s g.tick
              some (!r.1, r.2)
      else if p.type = packetData then
        if s.targetFd < 0 then some (false, s, g)
        else do
          let s := { s with lastActive := env.clock g.ticks }
          let data ← p.data
          let payload ← load buf data p.len.toNat
          some (false, s, g.tick.emit [.relay s.conv s.targetFd s.targetAddr payload])
      else if p.type = packetClose then some (true, markDying s g)
      else some (false, s, g)

/-- The messages that the protocol knows, in the bytes of the buffer. -/
def WellFormed (buf : Bytes) : Prop :=
  1 ≤ buf.length ∧
    (byteAt buf 0 = packetData →
      3 ≤ buf.length ∧ 3 + ((byteAt buf 1).toNat * 256 + (byteAt buf 2).toNat) ≤ buf.length) ∧
    (byteAt buf 0 = packetConnect → 2 ≤ buf.length ∧ 2 + (byteAt buf 1).toNat ≤ buf.length)

theorem getElem?_byteAt {buf : Bytes} {i : Nat} (h : i < buf.length) : buf[i]? = some (byteAt buf i) := by
  simp [byteAt, h]

theorem ntohs_toNat (b₀ b₁ : UInt8) : (ntohs b₀ b₁).toNat = b₀.toNat * 256 + b₁.toNat := by
  have h₀ := b₀.toNat_lt
  have h₁ := b₁.toNat_lt
  rw [ntohs, UInt16.toNat_ofNat']
  omega

theorem parseMem_eq (buf : Bytes) : parseMem buf = some (parse buf) := by
  rw [parseMem, parse]
  by_cases hn : buf.length < headLen
  · rw [if_pos hn, if_pos hn]
  · have h0 : 0 < buf.length := Nat.not_lt.mp hn
    simp only [if_neg hn, getElem?_byteAt h0, Option.bind_eq_bind, Option.bind_some]
    by_cases hd : byteAt buf 0 = packetData
    · rw [if_pos hd, if_pos hd]
      by_cases hh : buf.length < dataHeadLen
      · rw [if_pos hh, if_pos hh]
      · -- three bytes are there, so the length can be read
        have h2 : 2 < buf.length := Nat.not_lt.mp hh
        rw [if_neg hh, if_neg hh, getElem?_byteAt (Nat.lt_of_succ_lt h2), getElem?_byteAt h2]
        rfl
    · rw [if_neg hd, if_neg hd]
      by_cases hc : byteAt buf 0 = packetConnect
      · rw [if_pos hc, if_pos hc]
        by_cases hh : buf.length < connectHeadLen
        · rw [if_pos hh, if_pos hh]
        · rw [if_neg hh, if_neg hh, getElem?_byteAt (Nat.not_lt.mp hh)]
          rfl
      · rw [if_neg hc, if_neg hc]

theorem parse_isSome_iff (buf : Bytes) : (parse buf).isSome ↔ WellFormed buf := by
  have hdiff : packetConnect ≠ packetData := by decide
  have hlen := ntohs_toNat (byteAt buf 1) (byteAt buf 2)
  rw [parse, WellFormed]
  dsimp only
  split_ifs with hn hd hh hl hc hh hl
  · exact iff_of_false Bool.false_ne_true fun h => hn.not_ge h.1
  · exact iff_of_false Bool.false_ne_true fun h => hh.not_ge (h.2.1 hd).1
  · exact iff_of_false Bool.false_ne_true fun h => hl.not_ge (hlen ▸ (h.2.1 hd).2)
  · exact iff_of_true rfl ⟨Nat.not_lt.mp hn, fun _ => ⟨Nat.not_lt.mp hh, hlen ▸ Nat.not_lt.mp hl⟩,
      fun hc => absurd (hc.symm.trans hd) hdiff⟩
  · exact iff_of_false Bool.false_ne_true fun h => hh.not_ge (h.2.2 hc).1
  · exact iff_of_false Bool.false_ne_true fun h => hl.not_ge (h.2.2 hc).2
  · exact iff_of_true rfl ⟨Nat.not_lt.mp hn, fun h => absurd h hd, fun _ => ⟨Nat.not_lt.mp hh, Nat.not_lt.mp hl⟩⟩
  · exact iff_of_true rfl ⟨Nat.not_lt.mp hn, fun h => absurd h hd, fun h => absurd h hc⟩

theorem parse_data {buf : Bytes} {p : Parsed} (h : parse buf = some p) (ht : p.type = packetData) :
    p.data = some dataHeadLen ∧ dataHeadLen + p.len.toNat ≤ buf.length := by
  rw [parse] at h
  dsimp only at h
  split_ifs at h with hn hd hh hl hc hh hl
  · cases h
    exact ⟨rfl, Nat.not_lt.mp hl⟩
  · cases h
    exact absurd ht hd
  · cases h
    exact absurd ht hd

theorem parse_connect {buf : Bytes} {p : Parsed} (h : parse buf = some p) (ht : p.type = packetConnect) :
    connectHeadLen + (byteAt buf 1).toNat ≤ buf.length := by
  rw [parse] at h
  dsimp only at h
  split_ifs at h with hn hd hh hl hc hh hl
  · cases h
    exact absurd (hd.symm.trans ht) (by decide)
  · exact Nat.not_lt.mp hl
  · cases h
    exact absurd ht hc

theorem readConnectRoute_length {buf : Bytes} (h : connectHeadLen + (byteAt buf 1).toNat ≤ buf.length) :
    (readConnectRoute buf (routeMax + 1)).length = (byteAt buf 1).toNat + 1 := by
  rw [readConnectRoute_eq]
  simp only [List.length_append, List.length_take, List.length_drop, List.length_singleton]
  omega

/-- A route of a message that was accepted fits a buffer for the longest one. -/
theorem readConnectRouteMem_eq {buf out : Bytes} (hout : out.length = routeMax + 1)
    (h : connectHeadLen + (byteAt buf 1).toNat ≤ buf.length) :
    readConnectRouteMem buf out = some ((byteAt buf 1).toNat,
      readConnectRoute buf (routeMax + 1) ++ out.drop ((byteAt buf 1).toNat + 1)) := by
  have hb := (byteAt buf 1).toNat_lt
  have h1 : 1 < buf.length := by
    simp only [connectHeadLen] at h
    omega
  have hcap : ¬ (byteAt buf 1).toNat ≥ out.length := by
    rw [hout]
    exact Nat.not_le.mpr hb
  have hlen : ((buf.drop connectHeadLen).take (byteAt buf 1).toNat).length = (byteAt buf 1).toNat := by
    simp only [List.length_take, List.length_drop]
    omega
  rw [readConnectRouteMem, getElem?_byteAt h1, readConnectRoute_eq]
  simp only [Option.bind_eq_bind, Option.bind_some, if_neg hcap, load, if_pos h]
  generalize (buf.drop connectHeadLen).take (byteAt buf 1).toNat = data at hlen ⊢
  -- the bytes are stored first and the NUL right behind them
  have hdata : store out 0 data = some (data ++ out.drop data.length) := store_append [] (by omega)
  have hnul : store (data ++ out.drop data.length) data.length [0] =
      some (data ++ [0] ++ (out.drop data.length).drop 1) := by
    apply store_append
    rw [List.length_drop, List.length_singleton]
    omega
  rw [hdata, Option.bind_some, ← hlen, hnul, List.drop_drop]
  rfl

/-- What follows a NUL is not part of the string. -/
theorem cstrAt_after_nul (w junk : Bytes) : (cstrAt (w ++ [0] ++ junk) 0).bytes = (cstrAt (w ++ [0]) 0).bytes := by
  simp only [cstrAt, List.drop_zero]
  induction w with
  | nil => rfl
  | cons b w ih =>
      rw [List.cons_append, List.cons_append, List.takeWhile_cons, List.takeWhile_cons, ih]

theorem handleTunnelMsgMem_eq (env : Env ρ) (o : Outcome ρ) (c : UInt32) (s : Session ρ) (g : Gateway ρ)
    {route : Bytes} (hroute : route.length = routeMax + 1) (buf : Bytes) :
    handleTunnelMsgMem env o c s g route buf = some (handleTunnelMsg env o c s g buf) := by
  rw [handleTunnelMsgMem, handleTunnelMsg, parseMem_eq, Option.bind_eq_bind, Option.bind_some]
  cases hp : parse buf with
  | none => rfl
  | some p =>
      dsimp only
      split_ifs with hc hfd hd hfd hclose
      · rfl
      · have hcstr : (cstrAt (readConnectRoute buf (routeMax + 1) ++ route.drop ((byteAt buf 1).toNat + 1)) 0).bytes =
            (cstrAt (readConnectRoute buf (routeMax + 1)) 0).bytes := cstrAt_after_nul _ _
        rw [readConnectRouteMem_eq hroute (parse_connect hp hc), Option.bind_eq_bind, Option.bind_some, hcstr,
          ← routeKey, resolve]
        cases o.kvGet (routeKey buf) with
        | none => rfl
        | some node =>
            dsimp only [Option.bind_some]
            cases nodeToAddr env.inetPton node <;> rfl
      · rfl
      · obtain ⟨hdata, hle⟩ := parse_data hp hd
        rw [hdata, Option.bind_eq_bind, Option.bind_some, load, if_pos hle]
        rfl
      · rfl
      · rfl

/-- What is accepted is well formed, and no reader leaves the buffer. -/
theorem parse_exact_in_bounds (buf : Bytes) :
    ((parse buf).isSome ↔ WellFormed buf) ∧ parseMem buf = some (parse buf) ∧
    (∀ p, parse buf = some p → p.type = packetData →
      p.data = some dataHeadLen ∧ dataHeadLen + p.len.toNat ≤ buf.length) ∧
    (∀ p, parse buf = some p → p.type = packetConnect → ∀ out : Bytes, out.length = 256 →
      ∃ out', readConnectRouteMem buf out = some ((byteAt buf 1).toNat, out') ∧ out'.length = 256 ∧
        readConnectRoute buf 256 <+: out') ∧
    ∀ (env : Env ρ) (o : Outcome ρ) (c : UInt32) (s : Session ρ) (g : Gateway ρ) (route : Bytes), route.length = 256 →
      handleTunnelMsgMem env o c s g route buf = some (handleTunnelMsg env o c s g buf) := by
  refine ⟨parse_isSome_iff buf, parseMem_eq buf, fun p => parse_data, ?_, ?_⟩
  · intro p hp ht out hout
    refine ⟨_, readConnectRouteMem_eq hout (parse_connect hp ht), ?_, List.prefix_append _ _⟩
    have hroute := readConnectRoute_length (parse_connect hp ht)
    have hb := (byteAt buf 1).toNat_lt
    rw [List.length_append, hroute, List.length_drop, hout]
    omega
  · intro env o c s g route hroute
    exact handleTunnelMsgMem_eq env o c s g hroute buf

/-- A CONNECT for the route "ab" and what is left of the stack buffer. -/
theorem connect_in_bounds :
    ∃ out, readConnectRouteMem [1, 2, 97, 98] (List.replicate 256 7) = some (2, out) ∧ out.length = 256 := by
  obtain ⟨out, hread, hlen, -⟩ := (@parse_exact_in_bounds Unit [1, 2, 97, 98]).2.2.2.1 ⟨1, none, 0⟩ rfl rfl
    (List.replicate 256 7) (List.length_replicate ..)
  exact ⟨out, hread, hlen⟩

end GameAccelerator.TunnelBounds
