import GameAccelerator.KvStore

namespace GameAccelerator.Requests

open CString Platform HashEngine Tokens KvStore

inductive Request
  | set (key value : CStr)
  | get (key : CStr)
  | del (key : CStr)
  | mod (key value : CStr)
  deriving DecidableEq

/-- The request that a list of words asks for; further words are ignored. -/
def Request.ofWords : List CStr → Option Request
  | c :: key :: rest =>
      match command c, rest with
      | some .set, value :: _ => some (.set key value)
      | some .mod, value :: _ => some (.mod key value)
      | some .get, _ => some (.get key)
      | some .del, _ => some (.del key)
      | _, _ => none
  | _ => none

def toCStr (w : Bytes) : CStr := cstrAt w 0

def decode (seg : Bytes) : Option Request := Request.ofWords ((words seg).map toCStr)

structure WellFormed (seg : Bytes) : Prop where
  nonempty : 1 ≤ seg.length
  short : seg.length ≤ 1023
  noNul : 0 ∉ seg
  tokens : (words seg).length ≤ 128
  command : ((words seg).head? = some (ascii "SET") ∨ (words seg).head? = some (ascii "MOD")) ∧
      3 ≤ (words seg).length ∨
    ((words seg).head? = some (ascii "GET") ∨ (words seg).head? = some (ascii "DEL")) ∧
      2 ≤ (words seg).length

instance (seg : Bytes) : Decidable (WellFormed seg) :=
  decidable_of_iff
    (1 ≤ seg.length ∧ seg.length ≤ 1023 ∧ 0 ∉ seg ∧ (words seg).length ≤ 128 ∧
      (((words seg).head? = some (ascii "SET") ∨ (words seg).head? = some (ascii "MOD")) ∧
        3 ≤ (words seg).length ∨
      ((words seg).head? = some (ascii "GET") ∨ (words seg).head? = some (ascii "DEL")) ∧
        2 ≤ (words seg).length))
    ⟨fun ⟨h1, h2, h3, h4, h5⟩ => ⟨h1, h2, h3, h4, h5⟩, fun ⟨h1, h2, h3, h4, h5⟩ => ⟨h1, h2, h3, h4, h5⟩⟩

variable {σ : Type}

/-- The effect and the reply of a request, without buffers and tokens. -/
def execute (E : Engine σ) (st : σ) : Request → Except Fault (Bytes × σ)
  | .set key value => (E.set st key value).map fun r => (ascii (if r.1 = 0 then "SUCCESS" else "FAILER"), r.2)
  | .get key => (E.get st key).map fun r => ((getReply r.1).take (bufferLength - 1), r.2)
  | .del key => (E.delete st key).map fun r => (ascii (codeReply r.1 "DEL_FAILER"), r.2)
  | .mod key value => (E.modify st key value).map fun r => (ascii (codeReply r.1 "MOD_FAILER"), r.2)

theorem toCStr_bytes {w : Bytes} (h : 0 ∉ w) : (toCStr w).bytes = w := by
  have hall : ∀ c ∈ w, (c != 0) = true := fun c hc => by
    simpa using fun h' : c = 0 => h (h' ▸ hc)
  simpa [toCStr, cstrAt] using hall

theorem cstrAt_snprintf {text : Bytes} (h : 0 ∉ text) :
    (cstrAt (snprintf text) 0).bytes = text.take (bufferLength - 1) := by
  have h0 : 0 ∉ text.take (bufferLength - 1) := fun hm => h (List.mem_of_mem_take hm)
  have hpos : bufferLength - (text.take (bufferLength - 1)).length =
      bufferLength - (text.take (bufferLength - 1)).length - 1 + 1 := by
    have := List.length_take_le (bufferLength - 1) text
    simp only [bufferLength] at this ⊢
    omega
  have hc := cstrAt_append [] (text.take (bufferLength - 1))
    (List.replicate (bufferLength - (text.take (bufferLength - 1)).length - 1) 0) h0
  rw [snprintf, hpos, List.replicate_succ]
  simpa only [List.nil_append, List.length_nil] using hc

theorem readToken_eq {item : ConnItem} {tokens : List Nat} {strs : List CStr}
    (h : tokens.map (cstrAt item.bytes) = strs) (i : Nat) :
    readToken item tokens i = match strs[i]? with
      | some s => .ok s
      | none => .error (.uninitToken i) := by
  subst h
  unfold readToken
  cases htok : tokens[i]? <;> simp [htok]

theorem cstrAt_reply {text : Bytes} (h : 0 ∉ text ∧ text.length ≤ bufferLength - 1) :
    (cstrAt (snprintf text) 0).bytes = text := by
  rw [cstrAt_snprintf h.1, List.take_of_length_le h.2]

theorem codeReply_fits (ret : Int) (positive : String)
    (h : 0 ∉ ascii positive ∧ (ascii positive).length ≤ bufferLength - 1) :
    0 ∉ ascii (codeReply ret positive) ∧ (ascii (codeReply ret positive)).length ≤ bufferLength - 1 := by
  unfold codeReply
  split
  · decide
  · split
    · decide
    · exact h

/-- What the parser makes of any list of words: it leaves the write buffer alone
for the empty one, and without a request it runs into the assertion or into a
token that is not there. -/
def answer (E : Engine σ) (st : σ) (strs : List CStr) : Except Fault (Option Bytes × σ) :=
  match strs with
  | [] => .ok (none, st)
  | c :: args =>
      match Request.ofWords (c :: args) with
      | some r => (execute E st r).map fun o => (some o.1, o.2)
      | none => .error (if (command c).isSome then .uninitToken (args.length + 1) else .assertFailed)

/-- The buffers and the state that a call leaves, the write buffer as `strlen`
sees it. -/
def seen (o : ConnItem × σ) : Bytes × Bytes × σ := (o.1.rbuffer, (cstrAt o.1.wbuffer 0).bytes, o.2)

/-- Every case of the parser ends so: what the engine returns is printed into the
cleared write buffer. -/
theorem printed_eq {α : Type} (x : Except Fault (α × σ)) {text reply : α → Bytes}
    (hr : ∀ a, (cstrAt (snprintf (text a)) 0).bytes = reply a) (rbuffer old : Bytes) :
    (x >>= fun o => Except.ok ((1 : Int), (⟨rbuffer, snprintf (text o.1)⟩ : ConnItem), o.2)).map (fun o => seen o.2) =
      ((x.map fun o => (reply o.1, o.2)).map fun o => (some o.1, o.2)).map fun o => (rbuffer, o.1.getD old, o.2) := by
  cases x with
  | error e => rfl
  | ok o => simp only [bind, Except.bind, Except.map, seen, hr, Option.getD_some]

theorem codeReply_printed (positive : String) (h : 0 ∉ ascii positive ∧ (ascii positive).length ≤ bufferLength - 1)
    (ret : Int) : (cstrAt (snprintf (ascii (codeReply ret positive))) 0).bytes = ascii (codeReply ret positive) :=
  cstrAt_reply (codeReply_fits ret positive h)

theorem getReply_printed (value : Option CStr) :
    (cstrAt (snprintf (getReply value)) 0).bytes = (getReply value).take (bufferLength - 1) := by
  apply cstrAt_snprintf
  cases value with
  | none => decide
  | some v => exact v.noNul

theorem setReply_printed (ret : Int) :
    (cstrAt (snprintf (ascii (if ret = 0 then "SUCCESS" else "FAILER"))) 0).bytes =
      ascii (if ret = 0 then "SUCCESS" else "FAILER") := by
  apply cstrAt_reply
  split <;> decide

/-- The parser depends on the tokens through their strings only, before and
after it has cleared the write buffer. -/
theorem parser_eq (E : Engine σ) (item : ConnItem) {tokens : List Nat} {strs : List CStr}
    (h : tokens.map (cstrAt item.bytes) = strs)
    (h' : tokens.map (cstrAt (item.rbuffer ++ List.replicate bufferLength 0)) = strs) (st : σ) :
    (kvstoreParserProtocol E item tokens st).map (fun o => seen o.2) =
      (answer E st strs).map fun o => (item.rbuffer, o.1.getD (cstrAt item.wbuffer 0).bytes, o.2) := by
  have hread := @readToken_eq { item with wbuffer := List.replicate bufferLength 0 } tokens strs h'
  cases tokens with
  | nil =>
      cases h
      rfl
  | cons t tokens =>
      subst h
      have h1 := hread 1
      have h2 := hread 2
      simp only [List.map_cons, List.getElem?_cons_succ] at h1 h2
      simp only [kvstoreParserProtocol, List.map_cons, answer]
      generalize cstrAt item.bytes t = c at h1 h2 ⊢
      generalize hargs : tokens.map (cstrAt item.bytes) = args at h1 h2 ⊢
      cases hcmd : command c with
      | none =>
          have hnone : Request.ofWords (c :: args) = none := by
            cases args <;> simp [Request.ofWords, hcmd]
          simp [hnone, Except.map]
      | some cmd =>
          cases args with
          | nil =>
              simp only [List.getElem?_nil] at h1
              cases cmd <;> simp [h1, Request.ofWords, bind, Except.bind, Except.map]
          | cons key rest =>
              simp only [List.getElem?_cons_zero] at h1
              simp only [List.getElem?_cons_succ] at h2
              cases cmd with
              | get =>
                  have hof : Request.ofWords (c :: key :: rest) = some (.get key) := by
                    cases rest <;> simp [Request.ofWords, hcmd]
                  simp only [h1, hof]
                  exact printed_eq (E.get st key) getReply_printed _ _
              | del =>
                  have hof : Request.ofWords (c :: key :: rest) = some (.del key) := by
                    cases rest <;> simp [Request.ofWords, hcmd]
                  simp only [h1, hof]
                  exact printed_eq (E.delete st key) (codeReply_printed "DEL_FAILER" (by decide)) _ _
              | set =>
                  cases rest with
                  | nil =>
                      simp only [List.getElem?_nil] at h2
                      simp [h1, h2, Request.ofWords, hcmd, bind, Except.bind, Except.map]
                  | cons value rest =>
                      have hof : Request.ofWords (c :: key :: value :: rest) = some (.set key value) := by
                        simp [Request.ofWords, hcmd]
                      simp only [List.getElem?_cons_zero] at h2
                      simp only [h1, h2, hof]
                      exact printed_eq (E.set st key value) setReply_printed _ _
              | mod =>
                  cases rest with
                  | nil =>
                      simp only [List.getElem?_nil] at h2
                      simp [h1, h2, Request.ofWords, hcmd, bind, Except.bind, Except.map]
                  | cons value rest =>
                      have hof : Request.ofWords (c :: key :: value :: rest) = some (.mod key value) := by
                        simp [Request.ofWords, hcmd]
                      simp only [List.getElem?_cons_zero] at h2
                      simp only [h1, h2, hof]
                      exact printed_eq (E.modify st key value) (codeReply_printed "MOD_FAILER" (by decide)) _ _

theorem decode_of_wellFormed {seg : Bytes} (h : WellFormed seg) : ∃ r, decode seg = some r := by
  unfold decode
  rcases h.command with ⟨hc, hl⟩ | ⟨hc, hl⟩
  · match hws : words seg with
    | [] | [_] | [_, _] => rw [hws] at hl; simp at hl
    | c :: key :: value :: rest =>
        rw [hws] at hc
        simp only [List.head?_cons, Option.some.injEq] at hc
        rcases hc with rfl | rfl
        · exact ⟨.set (toCStr key) (toCStr value), rfl⟩
        · exact ⟨.mod (toCStr key) (toCStr value), rfl⟩
  · match hws : words seg with
    | [] | [_] => rw [hws] at hl; simp at hl
    | c :: key :: rest =>
        rw [hws] at hc
        simp only [List.head?_cons, Option.some.injEq] at hc
        rcases hc with rfl | rfl
        · exact ⟨.get (toCStr key), by cases rest <;> rfl⟩
        · exact ⟨.del (toCStr key), by cases rest <;> rfl⟩

theorem decodeAll_of_wellFormed {segs : List Bytes} (h : ∀ seg ∈ segs, WellFormed seg) :
    ∃ rs, segs.mapM decode = some rs := by
  induction segs with
  | nil => exact ⟨[], rfl⟩
  | cons seg segs ih =>
      obtain ⟨r, hr⟩ := decode_of_wellFormed (h seg List.mem_cons_self)
      obtain ⟨rs, hrs⟩ := ih fun s hs => h s (List.mem_cons_of_mem _ hs)
      exact ⟨r :: rs, by simp [hr, hrs]⟩

theorem decodeAll_cons {seg : Bytes} {segs : List Bytes} {r : Request} {rs : List Request} (hr : decode seg = some r)
    (h : (seg :: segs).mapM decode = some rs) : ∃ rs', segs.mapM decode = some rs' ∧ rs = r :: rs' := by
  simp only [List.mapM_cons, hr, Option.pure_def, Option.bind_eq_bind, Option.bind_some, Option.bind_eq_some_iff,
    Option.some.injEq] at h
  obtain ⟨rs', hrs', rfl⟩ := h
  exact ⟨rs', hrs', rfl⟩

theorem drop_append_congr {a b : Bytes} (h : a.length = b.length) {n : Nat} (hn : a.length ≤ n) (l : Bytes) :
    (a ++ l).drop n = (b ++ l).drop n := by
  have hb : b.length ≤ n := h ▸ hn
  rw [List.drop_append, List.drop_append, List.drop_of_length_le hn, List.drop_of_length_le hb, h]

theorem words_of_tokens {text z : Bytes} {tokens : List Nat}
    (h : tokens.map (fun p => (cstrAt (cut false text ++ 0 :: z) p).bytes) = words text) :
    tokens.map (cstrAt (cut false text ++ 0 :: z)) = (words text).map toCStr := by
  rw [← h, List.map_map]
  exact List.map_congr_left fun p _ => CStr.bytes_injective (toCStr_bytes (CStr.noNul _)).symm

/-- A request, from the bytes in the item to the reply: the text up to the
first NUL is cut into words, and the parser answers to them. The NUL stands in
the read buffer, or the write buffer begins with it. -/
theorem request_eq (E : Engine σ) (item : ConnItem) {text z : Bytes} (hb : item.bytes = text ++ 0 :: z)
    (h0 : 0 ∉ text) (hr : item.rbuffer.length = bufferLength) (hle : text.length ≤ bufferLength)
    (hz : text.length < bufferLength ∨ item.wbuffer = List.replicate bufferLength 0) (st : σ) :
    (kvstoreRequest E item st).map seen =
      if kvstoreMaxTokens < (words text).length then .error (.tokenOverflow kvstoreMaxTokens)
      else (answer E st ((words text).map toCStr)).map fun o =>
        ((cut false text ++ 0 :: z).take bufferLength, o.1.getD (cstrAt item.wbuffer 0).bytes, o.2) := by
  obtain ⟨tokens, hsplit, htok⟩ := split_token_spec text z h0
  have hcount : tokens.length = (words text).length := by rw [← htok z, List.length_map]
  have hw : (cut false text ++ 0 :: z).drop bufferLength = item.wbuffer := by
    rw [drop_append_congr (cut_length false text) (by rw [cut_length]; exact hle), ← hb, ConnItem.bytes, List.drop_left' hr]
  have hstrs := words_of_tokens (htok z)
  -- clearing the write buffer does not touch the words
  have hclear : ∃ z', (cut false text ++ 0 :: z).take bufferLength ++ List.replicate bufferLength 0 =
      cut false text ++ 0 :: z' := by
    rcases hz with hlt | hzero
    · refine ⟨z.take (bufferLength - (text.length + 1)) ++ List.replicate bufferLength 0, ?_⟩
      have hn : bufferLength - text.length = bufferLength - (text.length + 1) + 1 := by omega
      rw [List.take_append, List.take_of_length_le (by rw [cut_length]; exact hle), cut_length, hn, List.take_succ_cons,
        List.append_assoc, List.cons_append]
    · exact ⟨z, by rw [← hzero, ← hw, List.take_append_drop]⟩
  obtain ⟨z', hclear⟩ := hclear
  have hcut : tokens.map (cstrAt (ConnItem.bytes ⟨(cut false text ++ 0 :: z).take bufferLength,
      (cut false text ++ 0 :: z).drop bufferLength⟩)) = (words text).map toCStr := by
    rw [ConnItem.bytes, List.take_append_drop]
    exact hstrs
  have hparse := parser_eq E _ hcut (by rw [hclear]; exact words_of_tokens (htok z')) st
  rw [kvstoreRequest, hb, hsplit]
  simp only [hcount]
  split_ifs
  · rfl
  · rw [hw] at hparse ⊢
    rw [← hparse]
    simp only [bind, Except.bind]
    cases kvstoreParserProtocol E _ tokens st <;> rfl

theorem serverReader_eq_map (E : Engine σ) (st : σ) (seg : Bytes) :
    serverReader E st seg = (kvstoreRequest E (received seg) st).map fun o => (seen o).2 := by
  rw [serverReader]
  cases kvstoreRequest E (received seg) st <;> rfl

/-- The write buffer begins with a NUL, so there is one behind every segment. -/
theorem received_bytes {seg text rest : Bytes} (htext : seg = text ∨ seg = text ++ 0 :: rest) :
    ∃ z, (received seg).bytes = text ++ 0 :: z := by
  have hpad : bufferLength - seg.length + bufferLength = bufferLength - seg.length + (bufferLength - 1) + 1 := rfl
  rw [ConnItem.bytes, received, List.append_assoc, List.replicate_append_replicate, hpad, List.replicate_succ]
  rcases htext with rfl | rfl
  · exact ⟨_, rfl⟩
  · exact ⟨_, by rw [List.append_assoc, List.cons_append]⟩

/-- The reader sees of a segment the text in front of its first NUL. -/
theorem serverReader_text (E : Engine σ) {seg text rest : Bytes} (hseg : seg.length ≤ bufferLength)
    (htext : seg = text ∨ seg = text ++ 0 :: rest) (h0 : 0 ∉ text) (st : σ) :
    serverReader E st seg =
      if kvstoreMaxTokens < (words text).length then .error (.tokenOverflow kvstoreMaxTokens)
      else (answer E st ((words text).map toCStr)).map fun o => (o.1.getD [], o.2) := by
  have hr : (received seg).rbuffer.length = bufferLength := by
    simp only [received, List.length_append, List.length_replicate]
    omega
  obtain ⟨z, hb⟩ := received_bytes htext
  have hle : text.length ≤ bufferLength := by
    rcases htext with rfl | rfl
    · exact hseg
    · rw [List.length_append] at hseg
      omega
  have hsent : serverReader E st seg = ((kvstoreRequest E (received seg) st).map seen).map Prod.snd := by
    rw [serverReader_eq_map]
    cases kvstoreRequest E (received seg) st <;> rfl
  rw [hsent, request_eq E (received seg) hb h0 hr hle (.inr rfl) st]
  split_ifs
  · rfl
  · cases answer E st ((words text).map toCStr) <;> rfl

theorem serverReader_words (E : Engine σ) {seg : Bytes} (hseg : seg.length ≤ bufferLength) (h0 : 0 ∉ seg) (st : σ) :
    serverReader E st seg =
      if kvstoreMaxTokens < (words seg).length then .error (.tokenOverflow kvstoreMaxTokens)
      else (answer E st ((words seg).map toCStr)).map fun o => (o.1.getD [], o.2) :=
  serverReader_text E hseg (.inl rfl : _ ∨ seg = seg ++ 0 :: []) h0 st

theorem answer_of_decode (E : Engine σ) {seg : Bytes} {r : Request} (hr : decode seg = some r) (st : σ) :
    answer E st ((words seg).map toCStr) = (execute E st r).map fun o => (some o.1, o.2) := by
  rw [decode] at hr
  cases hw : (words seg).map toCStr with
  | nil =>
      rw [hw] at hr
      cases hr
  | cons c args =>
      rw [hw] at hr
      rw [answer, hr]

/-- Through buffers, tokeniser and dispatch, the answer to a well-formed
segment is the answer to the request it denotes. -/
theorem serverReader_eq (E : Engine σ) {seg : Bytes} (h : WellFormed seg) {r : Request}
    (hr : decode seg = some r) (st : σ) : serverReader E st seg = execute E st r := by
  have hshort : seg.length ≤ bufferLength := h.short.trans (by decide)
  have hcount : ¬ kvstoreMaxTokens < (words seg).length := Nat.not_lt.mpr h.tokens
  rw [serverReader_words E hshort h.noNul, if_neg hcount, answer_of_decode E hr]
  cases execute E st r <;> rfl

end GameAccelerator.Requests
