import GameAccelerator.GatewayLoop
import GameAccelerator.Requests

namespace GameAccelerator.NodeAddress

open CString NetUtils TunnelProtocol Tokens Requests SessionManager GatewayLoop LosslessKcp

def decimal (s : Bytes) : Nat := s.foldl (fun n c => n * 10 + (c.toNat - 48)) 0

/-- One of the four numbers of an address; only a zero alone begins with a
zero. -/
def octet (s : Bytes) : Option Nat :=
  if s ≠ [] ∧ s.all isdigit ∧ (s.head? = some 48 → s.length = 1) ∧ decimal s ≤ 255 then some (decimal s) else none

/-- The address that a dotted quad spells. -/
def dottedQuad (s : Bytes) : Option UInt32 :=
  match s.splitOn 46 with
  | [a, b, c, d] => do
      let a ← octet a
      let b ← octet b
      let c ← octet c
      let d ← octet d
      some (.ofNat (((a * 256 + b) * 256 + c) * 256 + d))
  | _ => none

/-- A port number and nothing else. -/
def IsPort (s : Bytes) : Prop := s ≠ [] ∧ s.all isdigit ∧ decimal s ≤ 65535

/-- The text is an address, a colon and a port, those of `e`. -/
def Names (node : Bytes) (e : Endpoint) : Prop :=
  ∃ ip port, node = ip ++ 58 :: port ∧ dottedQuad ip = some e.ip ∧ IsPort port ∧ e.port = .ofNat (decimal port)

/-- Where the text in front of the last colon passes for an address, it is one
and a port follows. -/
def Plain (node : Bytes) : Prop :=
  match splitLastColon node with
  | none => True
  | some (ip, port) => (dottedQuad (cstrAt ip 0).bytes).isSome → 0 ∉ ip ∧ IsPort port

instance (s : Bytes) : Decidable (IsPort s) := inferInstanceAs (Decidable (_ ∧ _))

theorem splitLastColon_eq {ip port : Bytes} (h : 58 ∉ port) : splitLastColon (ip ++ 58 :: port) = some (ip, port) := by
  have hrev : (ip ++ 58 :: port).reverse = port.reverse ++ 58 :: ip.reverse := by simp
  have hport : ∀ c ∈ port.reverse, (c != 58) = true := by
    intro c hc
    have hne : c ≠ 58 := fun he => h (he ▸ List.mem_reverse.mp hc)
    simpa using hne
  rw [splitLastColon, if_pos (by simp), hrev, takeWhile_exact _ _ hport (by decide), List.dropWhile_append_of_pos hport,
    List.dropWhile_cons_of_neg (by decide)]
  simp

theorem splitLastColon_cases (node : Bytes) :
    (58 ∉ node ∧ splitLastColon node = none) ∨
      ∃ ip port, node = ip ++ 58 :: port ∧ 58 ∉ port ∧ splitLastColon node = some (ip, port) := by
  by_cases hmem : 58 ∈ node
  · -- the first colon from the right
    obtain ⟨l, r, hrev, hl⟩ := List.eq_append_cons_of_mem (List.mem_reverse.mpr hmem)
    have hnode : node = r.reverse ++ 58 :: l.reverse := by
      rw [← List.reverse_reverse node, hrev]
      simp
    have hport : 58 ∉ l.reverse := fun h => hl (List.mem_reverse.mp h)
    exact .inr ⟨_, _, hnode, hport, hnode ▸ splitLastColon_eq hport⟩
  · exact .inl ⟨hmem, if_neg hmem⟩

theorem digit_bounds {c : UInt8} (h : isdigit c = true) : 48 ≤ c.toNat ∧ c.toNat ≤ 57 := by
  simpa [isdigit, UInt8.le_iff_toNat_le] using h

theorem colon_notMem_port {s : Bytes} (h : IsPort s) : 58 ∉ s := fun hm =>
  absurd (List.all_eq_true.mp h.2.1 58 hm) (by decide)

/-- What `strtoul` reads from digits alone. -/
theorem strtoul_port {s : Bytes} (h : IsPort s) : (strtoul s).toUInt16 = .ofNat (decimal s) := by
  obtain ⟨hne, hall, hle⟩ := h
  obtain ⟨c, s, rfl⟩ := List.exists_cons_of_ne_nil hne
  have hdigits := List.all_eq_true.mp hall
  obtain ⟨hlo, hhi⟩ := digit_bounds (hdigits c List.mem_cons_self)
  have hspace : isspace c = false := by
    simp only [isspace, Bool.or_eq_false_iff, beq_eq_false_iff_ne, Bool.and_eq_false_iff, decide_eq_false_iff_not,
      UInt8.le_iff_toNat_le, ne_eq, ← UInt8.toNat_inj]
    have h32 : (32 : UInt8).toNat = 32 := rfl
    have h13 : (13 : UInt8).toNat = 13 := rfl
    omega
  have hplus : c ≠ 43 := by
    rintro rfl
    exact absurd hlo (by decide)
  have hminus : c ≠ 45 := by
    rintro rfl
    exact absurd hlo (by decide)
  have htake : (c :: s).takeWhile isdigit = c :: s := List.takeWhile_eq_self_iff.mpr hdigits
  have hsmall : ¬ decimal (c :: s) ≥ UInt64.size := by
    simp only [UInt64.size]
    omega
  rw [strtoul, List.dropWhile_cons_of_neg (by simp [hspace])]
  dsimp only
  split
  next heq => exact absurd (List.cons.inj heq).1 hplus
  next heq => exact absurd (List.cons.inj heq).1 hminus
  next =>
    rw [htake, ← decimal, if_neg hsmall, if_neg Bool.false_ne_true]
    apply UInt16.toNat_inj.mp
    rw [UInt64.toNat_toUInt16, UInt64.toNat_ofNat', UInt16.toNat_ofNat']
    omega

theorem octet_noNul {s : Bytes} {n : Nat} (h : octet s = some n) : 0 ∉ s := by
  intro hm
  rw [octet] at h
  split_ifs at h with hs
  exact absurd (List.all_eq_true.mp hs.2.1 0 hm) (by decide)

theorem dottedQuad_noNul {s : Bytes} {addr : UInt32} (h : dottedQuad s = some addr) : 0 ∉ s := by
  intro hm
  rw [dottedQuad] at h
  split at h
  next a b c d hs =>
    simp only [bind, Option.bind_eq_some_iff] at h
    obtain ⟨_, ha, _, hb, _, hc, _, hd, _⟩ := h
    have hall : s = List.intercalate [46] [a, b, c, d] := by
      rw [← hs, List.intercalate_splitOn]
    rw [hall] at hm
    simp only [List.intercalate, List.intersperse, List.flatten_cons, List.flatten_nil, List.mem_append, List.mem_singleton,
      List.not_mem_nil, or_false] at hm
    rcases hm with h | h | h | h | h | h | h
    · exact octet_noNul ha h
    · cases h
    · exact octet_noNul hb h
    · cases h
    · exact octet_noNul hc h
    · cases h
    · exact octet_noNul hd h
  next => cases h

theorem names_split {node : Bytes} {e : Endpoint} (h : Names node e) :
    ∃ ip port, splitLastColon node = some (ip, port) ∧ dottedQuad ip = some e.ip ∧ IsPort port ∧
      e.port = .ofNat (decimal port) := by
  obtain ⟨ip, port, rfl, hip, hport, he⟩ := h
  exact ⟨ip, port, splitLastColon_eq (colon_notMem_port hport), hip, hport, he⟩

variable {ρ : Type} {env : Env ρ}

/-- What the reading of a node gives is what the node names, and a CONNECT to
a node that names nothing drops the session. -/
def Exact (env : Env ρ) (node : Bytes) : Prop :=
  (∀ e, nodeToAddr env.inetPton node = some e ↔ Names node e) ∧
    ∀ (o : Outcome ρ) (c : UInt32) (s : Session ρ) (g : Gateway ρ) (buf : Bytes) (p : Parsed),
      parse buf = some p → p.type = packetConnect → s.targetFd < 0 → o.kvGet (routeKey buf) = some node →
      (∀ e, ¬ Names node e) → handleTunnelMsg env o c s g buf = (true, markDying s g)

theorem nodeToAddr_names (hpton : ∀ s, env.inetPton s = dottedQuad s.bytes) {node : Bytes} {e : Endpoint}
    (h : Names node e) : nodeToAddr env.inetPton node = some e := by
  obtain ⟨ip, port, hsplit, hip, hport, he⟩ := names_split h
  have hcstr : (cstrAt ip 0).bytes = ip := toCStr_bytes (dottedQuad_noNul hip)
  rw [nodeToAddr, hsplit]
  simp only [hpton, hcstr, hip, strtoul_port hport, ← he]

theorem connect_unreadable {node : Bytes} {o : Outcome ρ} {s : Session ρ} {buf : Bytes} {p : Parsed}
    (hread : nodeToAddr env.inetPton node = none) (hp : parse buf = some p) (ht : p.type = packetConnect)
    (hfd : s.targetFd < 0) (hkv : o.kvGet (routeKey buf) = some node) (c : UInt32) (g : Gateway ρ) :
    handleTunnelMsg env o c s g buf = (true, markDying s g) := by
  rw [handleTunnelMsg]
  simp only [hp, ht, if_pos, not_le.mpr hfd, if_neg, not_false_eq_true, resolve, hkv, hread]

theorem node_exact_iff (hpton : ∀ s, env.inetPton s = dottedQuad s.bytes) (node : Bytes) :
    Exact env node ↔ Plain node := by
  have hgone (h : ∀ e, nodeToAddr env.inetPton node = some e ↔ Names node e) : Exact env node := by
    refine ⟨h, ?_⟩
    intro o c s g buf p hp ht hfd hkv hno
    apply connect_unreadable _ hp ht hfd hkv
    exact Option.eq_none_iff_forall_ne_some.mpr fun e he => hno e ((h e).mp he)
  rw [Plain]
  rcases splitLastColon_cases node with ⟨hno, hsplit⟩ | ⟨ip, port, rfl, hcolon, hsplit⟩
  · -- without a colon nothing is named and nothing is read
    rw [hsplit]
    apply iff_of_true _ trivial
    apply hgone
    intro e
    rw [nodeToAddr, hsplit]
    apply iff_of_false (Option.some_ne_none e).symm
    rintro ⟨ip, port, rfl, _⟩
    exact hno (by simp)
  · rw [hsplit]
    constructor
    · intro h haddr
      obtain ⟨addr, haddr⟩ := Option.isSome_iff_exists.mp haddr
      have hread : nodeToAddr env.inetPton (ip ++ 58 :: port) = some ⟨addr, (strtoul port).toUInt16⟩ := by
        rw [nodeToAddr, hsplit]
        simp only [hpton, haddr]
      obtain ⟨ip', port', hsplit', hip, hport, -⟩ := names_split ((h.1 _).mp hread)
      cases hsplit.symm.trans hsplit'
      exact ⟨dottedQuad_noNul hip, hport⟩
    · intro hplain
      apply hgone
      intro e
      refine ⟨fun h => ?_, nodeToAddr_names hpton⟩
      rw [nodeToAddr, hsplit] at h
      simp only [hpton] at h
      cases haddr : dottedQuad (cstrAt ip 0).bytes with
      | none =>
          rw [haddr] at h
          cases h
      | some addr =>
          rw [haddr] at h
          obtain ⟨h0, hport⟩ := hplain (Option.isSome_iff_exists.mpr ⟨addr, haddr⟩)
          have hcstr : (cstrAt ip 0).bytes = ip := toCStr_bytes h0
          cases h
          exact ⟨ip, port, rfl, hcstr ▸ haddr, hport, strtoul_port hport⟩

/-- An environment whose `inet_pton` reads dotted quads. -/
def quadEnv : Env Link := { sampleEnv .ofNat with inetPton := fun s => dottedQuad s.bytes }

theorem node_exact_of_sample : Exact quadEnv (ascii "10.0.0.1:9000") :=
  (node_exact_iff (fun _ => rfl) _).mpr fun _ => by decide

/-- The port is cut to sixteen bits. -/
theorem port_past_range_is_read :
    nodeToAddr quadEnv.inetPton (ascii "10.0.0.1:65616") = some ⟨167772161, 80⟩ ∧
      ∀ e, ¬ Names (ascii "10.0.0.1:65616") e := by
  refine ⟨by decide, ?_⟩
  intro e h
  obtain ⟨ip, port, hsplit, -, hport, -⟩ := names_split h
  have hs : splitLastColon (ascii "10.0.0.1:65616") = some (ascii "10.0.0.1", ascii "65616") := by decide
  cases hs.symm.trans hsplit
  exact absurd hport (by decide)

end GameAccelerator.NodeAddress
