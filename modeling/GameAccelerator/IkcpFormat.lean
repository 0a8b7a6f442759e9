import GameAccelerator.IkcpFrame

namespace GameAccelerator.Ikcp

open CString
open Kcp (ikcpGetconv)
open LosslessKcp (cmdPush cmdAck encode16u encode32u encodeSeg)

@[simp]
theorem overhead_toNat : overhead.toNat = 24 := by decide

section Fields

theorem getconv_encode32u (n : UInt32) (rest : Bytes) : ikcpGetconv (encode32u n ++ rest) = n := by
  have hn := n.toNat_lt
  apply UInt32.toNat_inj.mp
  simp only [ikcpGetconv, encode32u, List.cons_append, List.getD_cons_zero, List.getD_cons_succ, UInt8.toNat_ofNat',
    UInt32.toNat_ofNat']
  omega

theorem decode16u_encode16u (n : UInt16) (rest : Bytes) : decode16u (encode16u n ++ rest) = n := by
  have hn := n.toNat_lt
  apply UInt16.toNat_inj.mp
  simp only [decode16u, encode16u, List.cons_append, List.getD_cons_zero, List.getD_cons_succ, UInt8.toNat_ofNat',
    UInt16.toNat_ofNat']
  omega

theorem uint8_ofNat_eq {n : Nat} {b : UInt8} (h : n % 256 = b.toNat) : UInt8.ofNat n = b := by
  apply UInt8.toNat_inj.mp
  rw [UInt8.toNat_ofNat']
  exact h

theorem eq_encode32u_append {data : Bytes} (h : 4 ≤ data.length) :
    data = encode32u (ikcpGetconv data) ++ data.drop 4 := by
  rcases data with _ | ⟨a, _ | ⟨b, _ | ⟨c, _ | ⟨d, rest⟩⟩⟩⟩ <;> try simp at h
  have ha := a.toNat_lt
  have hb := b.toNat_lt
  have hc := c.toNat_lt
  have hd := d.toNat_lt
  simp only [ikcpGetconv, encode32u, List.getD_cons_zero, List.getD_cons_succ, UInt32.toNat_ofNat', List.cons_append,
    List.nil_append, List.drop_succ_cons, List.drop_zero, List.cons.injEq, and_true]
  refine ⟨(uint8_ofNat_eq ?_).symm, (uint8_ofNat_eq ?_).symm, (uint8_ofNat_eq ?_).symm, (uint8_ofNat_eq ?_).symm⟩ <;> omega

theorem eq_encode16u_append {data : Bytes} (h : 2 ≤ data.length) :
    data = encode16u (decode16u data) ++ data.drop 2 := by
  rcases data with _ | ⟨a, _ | ⟨b, rest⟩⟩ <;> try simp at h
  have ha := a.toNat_lt
  have hb := b.toNat_lt
  simp only [decode16u, encode16u, List.getD_cons_zero, List.getD_cons_succ, UInt16.toNat_ofNat', List.cons_append,
    List.nil_append, List.drop_succ_cons, List.drop_zero, List.cons.injEq, and_true]
  refine ⟨(uint8_ofNat_eq ?_).symm, (uint8_ofNat_eq ?_).symm⟩ <;> omega

theorem drop_eq_encode32u {data : Bytes} {k : Nat} (h : k + 4 ≤ data.length) :
    data.drop k = encode32u (ikcpGetconv (data.drop k)) ++ data.drop (k + 4) := by
  rw [← List.drop_drop]
  apply eq_encode32u_append
  rw [List.length_drop]
  omega

theorem drop_eq_encode16u {data : Bytes} {k : Nat} (h : k + 2 ≤ data.length) :
    data.drop k = encode16u (decode16u (data.drop k)) ++ data.drop (k + 2) := by
  rw [← List.drop_drop]
  apply eq_encode16u_append
  rw [List.length_drop]
  omega

theorem drop_eq_getD_cons {data : Bytes} {k : Nat} (h : k < data.length) :
    data.drop k = data.getD k 0 :: data.drop (k + 1) := by
  rw [List.drop_eq_getElem_cons h, List.getD_eq_getElem?_getD, List.getElem?_eq_getElem h, Option.getD_some]

end Fields

section Segments

/-- A segment as it stands in a datagram. -/
def Wire.encode (w : Wire) : Bytes := encodeSeg w.conv w.cmd w.frg w.wnd w.ts w.sn w.una w.data

/-- What `ikcp_input` takes for a segment of a conversation. -/
structure Wire.Valid (conv : UInt32) (w : Wire) : Prop where
  conv_eq : w.conv = conv
  command : w.cmd = cmdPush ∨ w.cmd = cmdAck ∨ w.cmd = cmdWask ∨ w.cmd = cmdWins
  short : w.data.length < 2147483648

theorem Wire.length_encode (w : Wire) : w.encode.length = 24 + w.data.length := by
  simp only [Wire.encode, encodeSeg, encode32u, encode16u, List.length_append, List.length_cons, List.length_nil]

theorem decodeSegment_encode {conv : UInt32} {w : Wire} (h : w.Valid conv) (rest : Bytes) :
    decodeSegment conv (w.encode ++ rest) = .ok (w, rest) := by
  have hconv : ikcpGetconv (w.encode ++ rest) = conv := by
    rw [Wire.encode, encodeSeg, ← h.conv_eq]
    simp only [List.append_assoc]
    exact getconv_encode32u _ _
  have hwnd : decode16u ((w.encode ++ rest).drop 6) = w.wnd := decode16u_encode16u _ _
  have hts : ikcpGetconv ((w.encode ++ rest).drop 8) = w.ts := getconv_encode32u _ _
  have hsn : ikcpGetconv ((w.encode ++ rest).drop 12) = w.sn := getconv_encode32u _ _
  have huna : ikcpGetconv ((w.encode ++ rest).drop 16) = w.una := getconv_encode32u _ _
  have hsize : ikcpGetconv ((w.encode ++ rest).drop 20) = .ofNat w.data.length := getconv_encode32u _ _
  have hdata : (w.encode ++ rest).drop overhead.toNat = w.data ++ rest := rfl
  have hcmd : (w.encode ++ rest).getD 4 0 = w.cmd := rfl
  have hfrg : (w.encode ++ rest).getD 5 0 = w.frg := rfl
  have hshort := h.short
  have hnat : (UInt32.ofNat w.data.length).toNat = w.data.length := by
    rw [UInt32.toNat_ofNat']
    omega
  have hcode : ¬(w.cmd ≠ cmdPush ∧ w.cmd ≠ cmdAck ∧ w.cmd ≠ cmdWask ∧ w.cmd ≠ cmdWins) := by
    rintro ⟨h1, h2, h3, h4⟩
    rcases h.command with h | h | h | h <;> contradiction
  rw [decodeSegment]
  simp only [hconv, hwnd, hts, hsn, huna, hsize, hdata, hnat, hcmd, hfrg]
  rw [if_neg (by simp), if_neg (by simp; omega), if_neg hcode]
  simp [← h.conv_eq]

/-- The fields of a header one after the other. -/
theorem eq_header_append {data : Bytes} (h : 24 ≤ data.length) :
    data = encode32u (ikcpGetconv data) ++ [data.getD 4 0, data.getD 5 0] ++ encode16u (decode16u (data.drop 6)) ++
      encode32u (ikcpGetconv (data.drop 8)) ++ encode32u (ikcpGetconv (data.drop 12)) ++
      encode32u (ikcpGetconv (data.drop 16)) ++ encode32u (ikcpGetconv (data.drop 20)) ++ data.drop 24 := by
  simp only [List.append_assoc]
  rw [← drop_eq_encode32u (by omega), ← drop_eq_encode32u (by omega), ← drop_eq_encode32u (by omega),
    ← drop_eq_encode32u (by omega), ← drop_eq_encode16u (by omega), List.cons_append, List.singleton_append,
    ← drop_eq_getD_cons (by omega), ← drop_eq_getD_cons (by omega)]
  exact eq_encode32u_append (by omega)

/-- What is accepted is the encoding of a segment. -/
theorem eq_encode_of_decodeSegment {conv : UInt32} {data rest : Bytes} {w : Wire} (hlen : 24 ≤ data.length)
    (h : decodeSegment conv data = .ok (w, rest)) : w.Valid conv ∧ data = w.encode ++ rest := by
  simp only [decodeSegment, overhead_toNat] at h
  by_cases hconv : ikcpGetconv data = conv
  case neg =>
    rw [if_pos hconv] at h
    cases h
  rw [if_neg (not_not.mpr hconv)] at h
  by_cases hsize : (data.drop 24).length < (ikcpGetconv (data.drop 20)).toNat ∨
      (ikcpGetconv (data.drop 20)).toNat ≥ 2147483648
  case pos =>
    rw [if_pos hsize] at h
    cases h
  rw [if_neg hsize] at h
  by_cases hcmd : data.getD 4 0 ≠ cmdPush ∧ data.getD 4 0 ≠ cmdAck ∧ data.getD 4 0 ≠ cmdWask ∧ data.getD 4 0 ≠ cmdWins
  case pos =>
    rw [if_pos hcmd] at h
    cases h
  rw [if_neg hcmd] at h
  cases h
  have htake : ((data.drop 24).take (ikcpGetconv (data.drop 20)).toNat).length = (ikcpGetconv (data.drop 20)).toNat := by
    rw [List.length_take]
    omega
  refine ⟨⟨rfl, by simpa only [not_and_or, not_not] using hcmd, ?_⟩, ?_⟩
  · rw [htake]
    omega
  · rw [Wire.encode, encodeSeg, htake, UInt32.ofNat_toNat, List.append_assoc _ (List.take _ _), List.take_append_drop,
      ← hconv]
    exact eq_header_append hlen

theorem neg_of_decodeSegment {conv : UInt32} {data : Bytes} {code : Int} (h : decodeSegment conv data = .error code) :
    code < 0 := by
  simp only [decodeSegment] at h
  split at h
  · cases h
    decide
  · split at h
    · cases h
      decide
    · split at h
      · cases h
        decide
      · cases h

end Segments

section Datagrams

/-- The segments of a datagram up to the first one that is not accepted, and
what `ikcp_input` returns because of that one. -/
def decodeAll (conv : UInt32) : Nat → Bytes → Option Int × List Wire
  | 0, _ => (none, [])
  | fuel + 1, data =>
      if data.length < overhead.toNat then (none, [])
      else
        match decodeSegment conv data with
        | .error code => (some code, [])
        | .ok (w, rest) => ((decodeAll conv fuel rest).1, w :: (decodeAll conv fuel rest).2)

variable {conv : UInt32} {fuel : Nat} {data tail : Bytes} {ws : List Wire}

theorem decodeAll_encode (hws : ∀ w ∈ ws, w.Valid conv) (htail : tail.length < 24)
    (hfuel : (ws.flatMap Wire.encode ++ tail).length ≤ fuel) :
    decodeAll conv fuel (ws.flatMap Wire.encode ++ tail) = (none, ws) := by
  induction ws generalizing fuel with
  | nil =>
      rw [List.flatMap_nil, List.nil_append]
      cases fuel with
      | zero => rfl
      | succ fuel => rw [decodeAll, if_pos (by rwa [overhead_toNat])]
  | cons w ws ih =>
      have hlen := w.length_encode
      rw [List.flatMap_cons, List.append_assoc, List.length_append] at hfuel
      rw [List.flatMap_cons, List.append_assoc]
      cases fuel with
      | zero => omega
      | succ fuel =>
          have hge : ¬(w.encode ++ (ws.flatMap Wire.encode ++ tail)).length < overhead.toNat := by
            rw [overhead_toNat, List.length_append]
            omega
          have hrest : decodeAll conv fuel (ws.flatMap Wire.encode ++ tail) = (none, ws) :=
            ih (fun w' hw' => hws w' (List.mem_cons_of_mem w hw')) (by omega)
          rw [decodeAll, if_neg hge, decodeSegment_encode (hws w List.mem_cons_self)]
          simp only [hrest]

/-- A datagram is the encoding of the segments that are taken from it, with
something behind them that is no segment. -/
theorem eq_of_decodeAll (hfuel : data.length ≤ fuel) :
    ∃ tail, data = (decodeAll conv fuel data).2.flatMap Wire.encode ++ tail ∧
      (∀ w ∈ (decodeAll conv fuel data).2, w.Valid conv) ∧ ((decodeAll conv fuel data).1 = none → tail.length < 24) := by
  induction fuel generalizing data with
  | zero =>
      have hnil : data = [] := List.length_eq_zero_iff.mp (Nat.le_zero.mp hfuel)
      exact ⟨[], by simp [decodeAll, hnil], by simp [decodeAll], by simp⟩
  | succ fuel ih =>
      rw [decodeAll]
      split
      · next hlt =>
        rw [overhead_toNat] at hlt
        exact ⟨data, by simp, by simp, fun _ => hlt⟩
      · next hge =>
        rw [overhead_toNat, Nat.not_lt] at hge
        split
        · next code _ => exact ⟨data, by simp, by simp, by simp⟩
        · next w rest hw =>
          obtain ⟨hvalid, hdata⟩ := eq_encode_of_decodeSegment hge hw
          have hlen := congrArg List.length hdata
          rw [List.length_append, Wire.length_encode] at hlen
          obtain ⟨tail, hrest, hall, hshort⟩ := ih (show rest.length ≤ fuel by omega)
          refine ⟨tail, ?_, ?_, hshort⟩
          · rw [List.flatMap_cons, List.append_assoc, ← hrest, hdata]
          · rintro w' (_ | ⟨_, hw'⟩)
            · exact hvalid
            · exact hall w' hw'

theorem neg_of_decodeAll {code : Int} (h : (decodeAll conv fuel data).1 = some code) : code < 0 := by
  induction fuel generalizing data with
  | zero => cases h
  | succ fuel ih =>
      rw [decodeAll] at h
      split at h
      · cases h
      · split at h
        · next hw =>
          cases h
          exact neg_of_decodeSegment hw
        · exact ih h

/-- The segments that `ikcp_input` takes from a datagram, whose length it
compares with a header's as an `int`. -/
def segmentsOf (conv : UInt32) (data : Bytes) : List Wire :=
  if Int32.ofNat data.length < overhead.toInt32 then [] else (decodeAll conv data.length data).2

theorem length_lt_of_int_lt (hlen : data.length < 2147483648) :
    Int32.ofNat data.length < overhead.toInt32 ↔ data.length < 24 := by
  have hover : overhead.toInt32.toInt = 24 := by decide
  rw [Int32.lt_iff_toInt_lt, Int32.toInt_ofNat_of_lt hlen, hover]
  omega

theorem le_length_of_not_int_lt (h : ¬Int32.ofNat data.length < overhead.toInt32) : 24 ≤ data.length := by
  by_contra hlt
  exact h ((length_lt_of_int_lt (by omega)).mpr (by omega))

/-- What segments do to a control block, one after the other. -/
def inputAll (kcp : Ikcpcb) (ack : Maxack) (ws : List Wire) : Ikcpcb × Maxack :=
  ws.foldl (fun s w => inputSegment s.1 s.2 w) (kcp, ack)

theorem conv_inputSegment (kcp : Ikcpcb) (ack : Maxack) (w : Wire) : (inputSegment kcp ack w).1.conv = kcp.conv :=
  congrArg Settings.conv (settings_inputSegment kcp ack w)

/-- The loop reads the datagram as if nothing happened in between. -/
theorem inputLoop_eq (fuel : Nat) (kcp : Ikcpcb) (ack : Maxack) (data : Bytes) :
    inputLoop fuel kcp ack data =
      ((decodeAll kcp.conv fuel data).1, inputAll kcp ack (decodeAll kcp.conv fuel data).2) := by
  induction fuel generalizing kcp ack data with
  | zero => rfl
  | succ fuel ih =>
      rw [inputLoop, decodeAll]
      split
      · rfl
      · cases hw : decodeSegment kcp.conv data with
        | error code => rfl
        | ok p =>
            simp only [ih, conv_inputSegment]
            rfl

/-- A call takes the segments of the datagram and may then look at the
acknowledgements among them. -/
theorem ikcpInput_cases (kcp : Ikcpcb) (data : Bytes) :
    (ikcpInput kcp data).2 = (inputAll kcp none (segmentsOf kcp.conv data)).1 ∨
      (ikcpInput kcp data).2 = endInput kcp.sndUna (inputAll kcp none (segmentsOf kcp.conv data)).1
        (inputAll kcp none (segmentsOf kcp.conv data)).2 := by
  rw [ikcpInput, segmentsOf, inputLoop_eq]
  split
  · exact .inl rfl
  · cases (decodeAll kcp.conv data.length data).1 with
    | none => exact .inr rfl
    | some code => exact .inl rfl

/-- A call succeeds exactly for datagrams that consist of segments of the
conversation and less than a header behind them. -/
theorem ikcpInput_eq_zero_iff (kcp : Ikcpcb) (data : Bytes) (hsize : data.length < 2147483648) :
    (ikcpInput kcp data).1 = 0 ↔ ∃ ws tail,
      data = ws.flatMap Wire.encode ++ tail ∧ ws ≠ [] ∧ (∀ w ∈ ws, w.Valid kcp.conv) ∧ tail.length < 24 := by
  simp only [ikcpInput, inputLoop_eq, length_lt_of_int_lt hsize]
  constructor
  · intro h
    split at h
    · cases h
    · next hge =>
      obtain ⟨tail, hdata, hall, hshort⟩ := @eq_of_decodeAll kcp.conv _ data (Nat.le_refl data.length)
      cases hcode : (decodeAll kcp.conv data.length data).1 with
      | some code =>
          rw [hcode] at h
          exact absurd h (Int.ne_of_lt (neg_of_decodeAll hcode))
      | none =>
          refine ⟨_, tail, hdata, ?_, hall, hshort hcode⟩
          intro hnil
          rw [hnil, List.flatMap_nil, List.nil_append] at hdata
          exact hge (hdata ▸ hshort hcode)
  · rintro ⟨ws, tail, rfl, hne, hall, htail⟩
    have hdec := decodeAll_encode hall htail (Nat.le_refl _)
    obtain ⟨w, ws, rfl⟩ := List.exists_cons_of_ne_nil hne
    have hlen := w.length_encode
    rw [if_neg, hdec]
    simp only [List.flatMap_cons, List.length_append]
    omega

/-- The other end asks for the window. -/
def wask : Wire := ⟨7, cmdWask, 0, 128, 0, 0, 0, []⟩

theorem ikcpInput_eq_zero_of_wask :
    (wask.encode ++ [0]).length < 2147483648 ∧ (ikcpInput (ikcpCreate 7) (wask.encode ++ [0])).1 = 0 := by
  have hvalid : wask.Valid 7 := ⟨rfl, .inr (.inr (.inl rfl)), by decide⟩
  refine ⟨by decide, (ikcpInput_eq_zero_iff (ikcpCreate 7) (wask.encode ++ [0]) (by decide)).mpr ?_⟩
  exact ⟨[wask], [0], rfl, List.cons_ne_nil _ _, List.forall_mem_singleton.mpr hvalid, by decide⟩

end Datagrams

end GameAccelerator.Ikcp
