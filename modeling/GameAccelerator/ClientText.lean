import GameAccelerator.Buffer
import GameAccelerator.TunnelProtocol

namespace GameAccelerator.ClientText

open CString Buffer TunnelProtocol

def wbufSize : Nat := 65535

/-- `pack_data` with every write checked against `out` and every read against
`data`. -/
def packDataMem (out data : Bytes) (len : UInt16) : Option (Bytes × Nat) := do
  let out ← store out 0 [packetData]
  let out ← store out 1 (htons len)
  let payload ← load data 0 len.toNat
  let out ← store out dataHeadLen payload
  return (out, dataHeadLen + len.toNat)

/-- The text with its terminator is packed into `wbuf_`, and the message is what
`send_tun` reads there. -/
def sendData (wbuf : Bytes) (text : CStr) (len : UInt16) : Option (Bytes × Bytes) := do
  let (wbuf, sz) ← packDataMem wbuf (text.bytes ++ [0]) len
  let msg ← load wbuf 0 sz
  return (wbuf, msg)

/-- The cast to `uint16_t` drops what does not fit. -/
def roundtrip (wbuf : Bytes) (text : CStr) : Option (Bytes × Bytes) :=
  sendData wbuf text (.ofNat text.bytes.length)

def newline : UInt8 := 10

/-- The bytes that are read, up to a newline, and what is left of the input. -/
def fgets (size : Nat) (input : Bytes) : Option (Bytes × Bytes) :=
  if input = [] then none
  else
    let n := min (input.findIdx (· == newline) + 1) (size - 1)
    some (input.take n, input.drop n)

/-- The line without its newline. -/
def stripped (chunk : Bytes) : CStr :=
  let line := chunk ++ [0]
  let strcspn := (line.takeWhile fun c => c != newline && c != 0).length
  cstrAt (line.set strcspn 0) 0

def quit : CStr := ⟨ascii "quit", by decide⟩

/-- The texts of the loop over the lines, which takes a byte at least in every
round. -/
def interactive : Nat → Bytes → List CStr
  | 0, _ => []
  | fuel + 1, stdin =>
      match fgets wbufSize stdin with
      | none => []
      | some (chunk, rest) =>
          let line := stripped chunk
          if line.bytes = [] then interactive fuel rest
          else if strcmp line quit = 0 then []
          else line :: interactive fuel rest

/-- What `main` hands to `roundtrip`, one after the other. -/
def mainTexts (oneShot : Option CStr) (stdin : Bytes) : List CStr :=
  match oneShot with
  | some text => [text]
  | none => interactive stdin.length stdin

/-- The payload of a DATA message. -/
def payload (msg : Bytes) : Option Bytes :=
  match parse msg with
  | some ⟨_, some data, len⟩ => load msg data len.toNat
  | _ => none

/-- Nothing is written outside `wbuf_`, whatever it holds, and the message
carries the text. -/
def SentWhole (text : CStr) : Prop :=
  ∀ wbuf : Bytes, wbuf.length = wbufSize →
    ∃ wbuf' msg, roundtrip wbuf text = some (wbuf', msg) ∧ wbuf'.length = wbufSize ∧ payload msg = some text.bytes

/-- The first three bytes are in the buffer in any case. -/
theorem packDataMem_head {data : Bytes} {len : UInt16} (hdata : len.toNat ≤ data.length) (a b c : UInt8) (rest : Bytes) :
    packDataMem (a :: b :: c :: rest) data len =
      (store (packetData :: htons len ++ rest) dataHeadLen (data.take len.toNat)).map
        fun out => (out, dataHeadLen + len.toNat) := by
  have hload : load data 0 len.toNat = some (data.take len.toNat) := by
    rw [load, if_pos (by omega), List.drop_zero]
  have htype : store (a :: b :: c :: rest) 0 [packetData] = some (packetData :: b :: c :: rest) := by
    simp [store]
  have hlen : store (packetData :: b :: c :: rest) 1 (htons len) = some (packetData :: htons len ++ rest) := by
    simp [store, htons]
  simp only [packDataMem, htype, hlen, hload, Option.bind_eq_bind, Option.bind_some]
  cases store (packetData :: htons len ++ rest) dataHeadLen (data.take len.toNat) <;> rfl

theorem packDataMem_eq {out data : Bytes} {len : UInt16} (hout : dataHeadLen ≤ out.length)
    (hdata : len.toNat ≤ data.length) :
    packDataMem out data len =
      if dataHeadLen + len.toNat ≤ out.length then
        some (packData data len ++ out.drop (dataHeadLen + len.toNat), dataHeadLen + len.toNat)
      else none := by
  obtain _ | ⟨a, _ | ⟨b, _ | ⟨c, rest⟩⟩⟩ := out
  · simp [dataHeadLen] at hout
  · simp [dataHeadLen] at hout
  · simp [dataHeadLen] at hout
  have hchunk : (data.take len.toNat).length = len.toNat := List.length_take_of_le hdata
  rw [packDataMem_head hdata]
  by_cases hroom : len.toNat ≤ rest.length
  · have hstore := store_append (packetData :: htons len) (hchunk.le.trans hroom)
    change store (packetData :: htons len ++ rest) dataHeadLen _ = _ at hstore
    rw [hstore, if_pos (by simp only [List.length_cons, dataHeadLen]; omega), hchunk]
    simp [packData, dataHeadLen, Nat.add_comm 3]
  · rw [store, if_neg (by simp [hchunk, htons, dataHeadLen]; omega),
      if_neg (by simp only [List.length_cons, dataHeadLen]; omega)]
    rfl

theorem fgets_rest {size : Nat} {input chunk rest : Bytes} (hsize : 1 < size) (h : fgets size input = some (chunk, rest)) :
    rest.length < input.length := by
  rw [fgets] at h
  split_ifs at h with hempty
  cases h
  have hpos := List.length_pos_iff.mpr hempty
  rw [List.length_drop]
  omega

theorem interactive_fuel {fuel fuel' : Nat} {stdin : Bytes} (h : stdin.length ≤ fuel) (h' : stdin.length ≤ fuel') :
    interactive fuel stdin = interactive fuel' stdin := by
  have hnil : ∀ n, interactive n [] = [] := fun n => by cases n <;> rfl
  induction fuel generalizing fuel' stdin with
  | zero =>
      cases List.length_eq_zero_iff.mp (Nat.le_zero.mp h)
      rw [hnil, hnil]
  | succ fuel ih =>
      cases fuel' with
      | zero =>
          cases List.length_eq_zero_iff.mp (Nat.le_zero.mp h')
          rw [hnil, hnil]
      | succ fuel' =>
          rw [interactive, interactive]
          cases hread : fgets wbufSize stdin with
          | none => rfl
          | some r =>
              obtain ⟨chunk, rest⟩ := r
              have hlt := fgets_rest (by decide) hread
              have hrest : interactive fuel rest = interactive fuel' rest := ih (by omega) (by omega)
              simp only [hrest]

theorem length_packData {data : Bytes} {len : UInt16} (h : len.toNat ≤ data.length) :
    (packData data len).length = dataHeadLen + len.toNat := by
  simp only [packData, htons, List.length_cons, List.length_append, List.length_nil, List.length_take, dataHeadLen]
  omega

theorem sendData_eq {wbuf : Bytes} {text : CStr} {len : UInt16} (hwbuf : wbuf.length = wbufSize)
    (hlen : len.toNat ≤ text.bytes.length) :
    sendData wbuf text len =
      if dataHeadLen + len.toNat ≤ wbufSize then
        some (packData text.bytes len ++ wbuf.drop (dataHeadLen + len.toNat), packData text.bytes len)
      else none := by
  have hdata : len.toNat ≤ (text.bytes ++ [0]).length := by
    rw [List.length_append]
    exact Nat.le_add_right_of_le hlen
  have hpack : packData (text.bytes ++ [0]) len = packData text.bytes len := by
    rw [packData, packData, List.take_append_of_le_length hlen]
  have hmsg := length_packData hlen
  have hhead : dataHeadLen ≤ wbuf.length := by
    rw [hwbuf]
    decide
  rw [sendData, packDataMem_eq hhead hdata, hpack, hwbuf]
  split_ifs with hroom
  · change (load _ 0 _).bind _ = _
    rw [load, if_pos (by rw [List.length_append, hmsg]; omega), List.drop_zero, ← hmsg, List.take_left]
    rfl
  · rfl

theorem payload_packData {data : Bytes} {len : UInt16} (h : len.toNat ≤ data.length) :
    payload (packData data len) = some (data.take len.toNat) := by
  have hparse := parse_packData data len h []
  have hslice := packData_slice data len [] h
  rw [List.append_nil] at hparse hslice
  rw [payload, hparse]
  change load (packData data len) dataHeadLen len.toNat = _
  rw [load, hslice, if_pos (length_packData h).ge]

theorem sentWhole_iff (text : CStr) : SentWhole text ↔ dataHeadLen + text.bytes.length ≤ wbufSize := by
  have hmod : (UInt16.ofNat text.bytes.length).toNat = text.bytes.length % 65536 := UInt16.toNat_ofNat'
  have hle : (UInt16.ofNat text.bytes.length).toNat ≤ text.bytes.length := hmod ▸ Nat.mod_le _ _
  constructor
  · intro h
    obtain ⟨wbuf', msg, hsend, -, hpayload⟩ := h (List.replicate wbufSize 0) List.length_replicate
    rw [roundtrip, sendData_eq List.length_replicate hle] at hsend
    split_ifs at hsend with hroom
    cases hsend
    rw [payload_packData hle, Option.some.injEq] at hpayload
    have hlen := congrArg List.length hpayload
    rw [List.length_take_of_le hle] at hlen
    rwa [hlen] at hroom
  · intro hroom wbuf hwbuf
    have hlen : (UInt16.ofNat text.bytes.length).toNat = text.bytes.length := by
      rw [hmod]
      simp only [dataHeadLen, wbufSize] at hroom
      omega
    rw [roundtrip, sendData_eq hwbuf hle, hlen, if_pos hroom]
    refine ⟨_, _, rfl, ?_, ?_⟩
    · rw [List.length_append, length_packData hle, hlen, List.length_drop, hwbuf]
      exact Nat.add_sub_of_le hroom
    · rw [payload_packData hle, hlen, List.take_length]

section Lines

theorem length_takeWhile_lt {p : UInt8 → Bool} {l : Bytes} {c : UInt8} (hc : c ∈ l) (hp : p c = false) :
    (l.takeWhile p).length < l.length := by
  refine lt_of_le_of_ne (List.takeWhile_prefix p).length_le fun hall => ?_
  rw [(List.takeWhile_prefix p).eq_of_length hall |>.symm] at hc
  exact Bool.false_ne_true (hp.symm.trans (List.mem_takeWhile_imp hc))

/-- A line is no longer than what was read. -/
theorem length_stripped (chunk : Bytes) : (stripped chunk).bytes.length ≤ chunk.length := by
  have hcspn : ((chunk ++ [0]).takeWhile fun c => c != newline && c != 0).length < (chunk ++ [0]).length :=
    length_takeWhile_lt (List.mem_append_right _ List.mem_cons_self) rfl
  have hlt := @length_takeWhile_lt (· != 0) _ 0 (List.mem_set hcspn 0) rfl
  rw [List.length_set, List.length_append] at hlt
  exact Nat.le_of_lt_succ hlt

theorem length_fgets {size : Nat} {input chunk rest : Bytes} (h : fgets size input = some (chunk, rest)) :
    chunk.length ≤ size - 1 := by
  rw [fgets] at h
  split_ifs at h
  cases h
  exact (List.length_take_le _ _).trans (Nat.min_le_right _ _)

/-- So only the two longest lines that can be read are too long. -/
theorem length_interactive {fuel : Nat} {stdin : Bytes} {text : CStr} (h : text ∈ interactive fuel stdin) :
    text.bytes.length ≤ wbufSize - 1 := by
  induction fuel generalizing stdin with
  | zero => cases h
  | succ fuel ih =>
      rw [interactive] at h
      cases hread : fgets wbufSize stdin with
      | none =>
          rw [hread] at h
          cases h
      | some r =>
          rw [hread] at h
          dsimp only at h
          split_ifs at h
          · exact ih h
          · cases h
          · rcases List.mem_cons.mp h with rfl | hrest
            · exact (length_stripped r.1).trans (length_fgets hread)
            · exact ih hrest

theorem fgets_line {size : Nat} {line : Bytes} (hline : newline ∉ line) (hsize : line.length + 1 < size) (rest : Bytes) :
    fgets size (line ++ newline :: rest) = some (line ++ [newline], rest) := by
  have hnone : line.findIdx (· == newline) = line.length := by
    refine List.findIdx_eq_length.mpr fun c hc => ?_
    simpa using fun he : c = newline => hline (he ▸ hc)
  have hidx : (line ++ newline :: rest).findIdx (· == newline) = line.length := by
    rw [List.findIdx_append, hnone, if_neg (Nat.lt_irrefl _), List.findIdx_cons]
    simp
  have happend : line ++ newline :: rest = (line ++ [newline]) ++ rest := List.append_cons ..
  have hlen : line.length + 1 = (line ++ [newline]).length := by
    rw [List.length_append, List.length_singleton]
  rw [fgets, if_neg (by simp)]
  dsimp only
  rw [hidx, Nat.min_eq_left (Nat.le_sub_one_of_lt hsize), happend, hlen, List.take_left, List.drop_left]

theorem stripped_line {line : CStr} (hline : newline ∉ line.bytes) : stripped (line.bytes ++ [newline]) = line := by
  have hall : ∀ c ∈ line.bytes, (c != newline && c != 0) = true := by
    intro c hc
    have hn : c ≠ newline := fun he => hline (he ▸ hc)
    have hz : c ≠ 0 := fun he => line.noNul (he ▸ hc)
    simp [hn, hz]
  have hcspn : ((line.bytes ++ [newline] ++ [0]).takeWhile fun c => c != newline && c != 0) = line.bytes := by
    rw [List.append_assoc, List.takeWhile_append_of_pos hall]
    exact List.append_nil _
  have hset : (line.bytes ++ [newline] ++ [0]).set line.bytes.length 0 = line.bytes ++ 0 :: [0] := by
    rw [List.append_assoc, List.set_append_right _ _ (le_refl _), Nat.sub_self]
    rfl
  apply CStr.bytes_injective
  rw [stripped, hcspn, hset]
  exact cstrAt_append [] line.bytes [0] line.noNul

/-- A line that fits the buffer with its newline is handed on as it is. -/
theorem mainTexts_line {line : CStr} (hline : newline ∉ line.bytes) (hsize : line.bytes.length + 1 < wbufSize)
    (hempty : line.bytes ≠ []) (hquit : line ≠ quit) (rest : Bytes) :
    mainTexts none (line.bytes ++ newline :: rest) = line :: mainTexts none rest := by
  have hlen : (line.bytes ++ newline :: rest).length = line.bytes.length + rest.length + 1 := by
    rw [List.length_append, List.length_cons, Nat.add_assoc]
  have hcmp : strcmp line quit ≠ 0 := fun h => hquit (strcmp_eq_zero.mp h)
  rw [mainTexts, mainTexts, hlen, interactive, fgets_line hline hsize]
  dsimp only
  rw [stripped_line hline, if_neg hempty, if_neg hcmp, interactive_fuel (Nat.le_add_left _ _) (le_refl _)]

end Lines

/-- A text is sent whole if there is room for it behind the three bytes of the
header. -/
theorem client_text_sent_whole_iff (oneShot : Option CStr) (stdin : Bytes) (text : CStr) :
    (text ∈ mainTexts oneShot stdin → SentWhole text) ↔
      (text ∈ mainTexts oneShot stdin → text.bytes.length ≤ 65532) := by
  refine imp_congr_right fun _ => (sentWhole_iff text).trans ?_
  simp only [dataHeadLen, wbufSize]
  omega

def longText (n : Nat) : CStr := ⟨List.replicate n 97, fun h => absurd (List.eq_of_mem_replicate h) (by decide)⟩

/-- A text of 65533 bytes does not fit, as an argument and as a line, and of one
of 65536 bytes nothing is left. -/
theorem long_text_not_whole :
    longText 65533 ∈ mainTexts (some (longText 65533)) [] ∧
      longText 65533 ∈ mainTexts none ((longText 65533).bytes ++ [newline]) ∧
      (∀ wbuf : Bytes, wbuf.length = wbufSize → roundtrip wbuf (longText 65533) = none) ∧
      longText 65536 ∈ mainTexts (some (longText 65536)) [] ∧
      ∀ wbuf : Bytes, wbuf.length = wbufSize → ∃ wbuf' msg, roundtrip wbuf (longText 65536) = some (wbuf', msg) ∧
        payload msg = some [] := by
  have hlen : ∀ n, (longText n).bytes.length = n := fun n => List.length_replicate
  have hline : newline ∉ (longText 65533).bytes := fun h => absurd (List.eq_of_mem_replicate h) (by decide)
  have hempty : (longText 65533).bytes ≠ [] := fun h => absurd (congrArg List.length h) (by rw [hlen]; decide)
  have hquit : longText 65533 ≠ quit := fun h => absurd (congrArg (fun t => t.bytes.length) h) (by rw [hlen]; decide)
  refine ⟨List.mem_singleton_self _, ?_, fun wbuf hwbuf => ?_, List.mem_singleton_self _, fun wbuf hwbuf => ?_⟩
  · rw [mainTexts_line hline (by rw [hlen]; decide) hempty hquit]
    exact List.mem_cons_self
  · rw [roundtrip, hlen, sendData_eq hwbuf (by rw [hlen]; decide), if_neg (by decide)]
  · rw [roundtrip, hlen, sendData_eq hwbuf (Nat.zero_le _), if_pos (by decide)]
    exact ⟨_, _, rfl, payload_packData (Nat.zero_le _)⟩

end GameAccelerator.ClientText
