import GameAccelerator.HashContents
import GameAccelerator.Requests

namespace GameAccelerator.EpollEntry

open CString Platform HashEngine Tokens KvStore Requests

variable {σ : Type}

/-- The item of a connection that `accept_cb` has set up. -/
def acceptCb : ConnItem := ⟨List.replicate bufferLength 0, List.replicate bufferLength 0⟩

/-- `recv_cb`, and what `send_cb` sends next. The segment is laid over the front
of the read buffer; the rest of the buffer stays. -/
def recvCb (E : Engine σ) (item : ConnItem) (st : σ) (seg : Bytes) : Except Fault (Bytes × ConnItem × σ) := do
  let item := { item with rbuffer := seg ++ item.rbuffer.drop seg.length }
  let (item, st) ← kvstoreRequest E item st
  .ok ((cstrAt item.wbuffer 0).bytes, item, st)

/-- The requests of one connection. -/
def epollServe (E : Engine σ) : ConnItem → σ → List Bytes → Except Fault (List Bytes × σ)
  | _, st, [] => .ok ([], st)
  | item, st, seg :: segs => do
      let (reply, item, st) ← recvCb E item st seg
      let (replies, st) ← epollServe E item st segs
      .ok (reply :: replies, st)

/-- The bytes of earlier requests that follow a segment up to the next NUL. -/
def leftover (old seg : Bytes) : Bytes := (old.drop seg.length).takeWhile (· != 0)

/-- The read buffer after the request. -/
def residue (old seg : Bytes) : Bytes :=
  cut false (seg ++ leftover old seg) ++ old.drop (seg ++ leftover old seg).length

/-- The segment denotes the same request with what follows it in the buffer as
alone. -/
def undisturbed (old seg : Bytes) : Prop :=
  (words (seg ++ leftover old seg)).length ≤ kvstoreMaxTokens ∧ decode (seg ++ leftover old seg) = decode seg

instance (old seg : Bytes) : Decidable (undisturbed old seg) := inferInstanceAs (Decidable (_ ∧ _))

def Undisturbed : Bytes → List Bytes → Prop
  | _, [] => True
  | old, seg :: segs => undisturbed old seg ∧ Undisturbed (residue old seg) segs

/-- A buffer whose last byte no segment reaches. -/
def Closed (rbuffer : Bytes) : Prop := ∃ body, rbuffer = body ++ [0] ∧ body.length = 1023

theorem leftover_noNul (old seg : Bytes) : 0 ∉ leftover old seg := fun h => by
  simpa using List.mem_takeWhile_imp h

theorem leftover_split {old seg : Bytes} (ho : Closed old) (hseg : seg.length ≤ 1023) :
    ∃ z, old.drop seg.length = leftover old seg ++ 0 :: z ∧ old.drop (seg ++ leftover old seg).length = 0 :: z := by
  obtain ⟨body, rfl, hbody⟩ := ho
  have hdrop : (body ++ [0]).drop seg.length = body.drop seg.length ++ [0] :=
    List.drop_append_of_le_length (hbody ▸ hseg)
  have hmem : 0 ∈ (body ++ [0]).drop seg.length := by simp [hdrop]
  rcases split_takeWhile (· != 0) ((body ++ [0]).drop seg.length) with h | ⟨c, z, hc, h⟩
  · rw [← h] at hmem
    exact absurd hmem (leftover_noNul _ _)
  · have hc0 : c = 0 := by simpa using hc
    subst hc0
    refine ⟨z, h, ?_⟩
    rw [List.length_append, ← List.drop_drop, h]
    exact List.drop_left

theorem residue_closed {old seg : Bytes} (ho : Closed old) (hseg : seg.length ≤ 1023) : Closed (residue old seg) := by
  obtain ⟨z, _, hz⟩ := leftover_split ho hseg
  obtain ⟨body, rfl, hbody⟩ := ho
  have hlen : (seg ++ leftover (body ++ [0]) seg).length ≤ body.length := by
    have hl := congrArg List.length hz
    simp only [List.length_drop, List.length_append, List.length_cons, List.length_nil] at hl ⊢
    omega
  refine ⟨cut false (seg ++ leftover (body ++ [0]) seg) ++ body.drop (seg ++ leftover (body ++ [0]) seg).length, ?_, ?_⟩
  · rw [residue, List.drop_append_of_le_length hlen, List.append_assoc]
  · rw [List.length_append, cut_length, List.length_drop]
    omega

/-- The epoll loop answers to the words of the segment and of what follows it. -/
theorem recvCb_eq (E : Engine σ) {item : ConnItem} (hi : Closed item.rbuffer) {seg : Bytes} (hw : WellFormed seg)
    (st : σ) :
    (recvCb E item st seg).map (fun o => (o.2.1.rbuffer, o.1, o.2.2)) =
      if kvstoreMaxTokens < (words (seg ++ leftover item.rbuffer seg)).length then
        .error (.tokenOverflow kvstoreMaxTokens)
      else (answer E st ((words (seg ++ leftover item.rbuffer seg)).map toCStr)).map fun o =>
        (residue item.rbuffer seg, o.1.getD (cstrAt item.wbuffer 0).bytes, o.2) := by
  obtain ⟨z, hz, hz'⟩ := leftover_split hi hw.short
  have hlen : item.rbuffer.length = bufferLength := by
    obtain ⟨body, hbody, h⟩ := hi
    rw [hbody, List.length_append, h]
    rfl
  have hbuf : (seg ++ item.rbuffer.drop seg.length).length = bufferLength := by
    have hshort := hw.short
    rw [List.length_append, List.length_drop, hlen]
    simp only [bufferLength]
    omega
  have hlt : (seg ++ leftover item.rbuffer seg).length < bufferLength := by
    rw [hz, ← List.append_assoc, List.length_append, List.length_cons] at hbuf
    omega
  have h0 : 0 ∉ seg ++ leftover item.rbuffer seg := by
    rw [List.mem_append, not_or]
    exact ⟨hw.noNul, leftover_noNul _ _⟩
  have hrbuf : (cut false (seg ++ leftover item.rbuffer seg) ++ 0 :: (z ++ item.wbuffer)).take bufferLength =
      residue item.rbuffer seg := by
    rw [residue, hz', ← List.cons_append, ← List.append_assoc]
    apply List.take_left'
    rw [hz, ← List.append_assoc, List.length_append] at hbuf
    rw [List.length_append, cut_length, hbuf]
  have hbytes : ConnItem.bytes ⟨seg ++ item.rbuffer.drop seg.length, item.wbuffer⟩ =
      (seg ++ leftover item.rbuffer seg) ++ 0 :: (z ++ item.wbuffer) := by
    rw [ConnItem.bytes, hz]
    simp only [List.append_assoc, List.cons_append]
  have hreq := request_eq E _ hbytes h0 hbuf hlt.le (.inl hlt) st
  rw [hrbuf] at hreq
  rw [← hreq, recvCb]
  simp only [bind, Except.bind]
  cases kvstoreRequest E ⟨seg ++ item.rbuffer.drop seg.length, item.wbuffer⟩ st <;> rfl

/-- An undisturbed request is answered as by the coroutine. -/
theorem recvCb_undisturbed (E : Engine σ) {item : ConnItem} (hi : Closed item.rbuffer) {seg : Bytes}
    (hw : WellFormed seg) (hu : undisturbed item.rbuffer seg) (st : σ) :
    (recvCb E item st seg).map (fun o => (o.2.1.rbuffer, o.1, o.2.2)) =
      (serverReader E st seg).map fun o => (residue item.rbuffer seg, o.1, o.2) := by
  obtain ⟨r, hr⟩ := decode_of_wellFormed hw
  rw [recvCb_eq E hi hw, if_neg (Nat.not_lt.mpr hu.1), answer_of_decode E (hu.2.trans hr), serverReader_eq E hw hr]
  cases execute E st r <;> rfl

theorem epollServe_undisturbed (E : Engine σ) {segs : List Bytes} (hsegs : ∀ seg ∈ segs, WellFormed seg)
    {item : ConnItem} (hi : Closed item.rbuffer) (hu : Undisturbed item.rbuffer segs) (st : σ) :
    epollServe E item st segs = serve E st segs := by
  induction segs generalizing item st with
  | nil => rfl
  | cons seg segs ih =>
      have hw := hsegs seg List.mem_cons_self
      simp only [epollServe, serve, bind, Except.bind]
      rcases map_eq_map (recvCb_undisturbed E hi hw hu.1 st) with ⟨e, hk, hs⟩ | ⟨⟨reply, item', st'⟩, o, hk, hs, he⟩
      · rw [hk, hs]
      · simp only [Prod.mk.injEq] at he
        obtain ⟨hrb, rfl, rfl⟩ := he
        have hrest := ih (fun s h => hsegs s (List.mem_cons_of_mem _ h)) (hrb ▸ residue_closed hi hw.short) (hrb ▸ hu.2) o.2
        simp only [hk, hs, hrest]

/-- A store that expects the requests of a list and gives itself away when
another comes. -/
def script : Engine (List Request) where
  set rs k v := .ok (if rs.head? = some (.set k v) then 0 else 1, rs.tail)
  get rs k := .ok (if rs.head? = some (.get k) then some ⟨ascii "1", by decide⟩ else none, rs.tail)
  delete rs k := .ok (if rs.head? = some (.del k) then 0 else 1, rs.tail)
  modify rs k v := .ok (if rs.head? = some (.mod k v) then 0 else 1, rs.tail)

def approval : Request → Bytes
  | .get _ => ascii "1"
  | _ => ascii "SUCCESS"

def refusal : Request → Bytes
  | .set _ _ => ascii "FAILER"
  | .get _ => ascii "NO EXIST"
  | .del _ => ascii "DEL_FAILER"
  | .mod _ _ => ascii "MOD_FAILER"

theorem execute_script (rs : List Request) (r : Request) :
    execute script rs r = .ok (if rs.head? = some r then approval r else refusal r, rs.tail) := by
  cases r <;> simp only [execute, script, Except.map] <;> split_ifs <;> first | rfl | contradiction

theorem approval_ne_refusal (r r' : Request) : approval r ≠ refusal r' := by
  cases r <;> cases r' <;> simp only [approval, refusal] <;> decide

/-- A disturbed request does not get the reply that the script has for it. -/
theorem undisturbed_of_reply {item : ConnItem} (hi : Closed item.rbuffer) {seg : Bytes} (hw : WellFormed seg)
    {r : Request} (hr : decode seg = some r) {rs rs' : List Request} {item' : ConnItem}
    (h : recvCb script item (r :: rs) seg = .ok (approval r, item', rs')) :
    undisturbed item.rbuffer seg ∧ item'.rbuffer = residue item.rbuffer seg ∧ rs' = rs := by
  have hstep := recvCb_eq script hi hw (r :: rs)
  rw [h] at hstep
  split_ifs at hstep with hcount
  · cases hstep
  generalize hws : (words (seg ++ leftover item.rbuffer seg)).map toCStr = strs at hstep
  cases strs with
  | nil =>
      have hspaces := words_eq_nil.mp (List.map_eq_nil_iff.mp hws)
      have hseg : words seg = [] := words_eq_nil.mpr fun c hc => hspaces c (List.mem_append_left _ hc)
      rw [decode, hseg] at hr
      cases hr
  | cons c args =>
      cases hof : Request.ofWords (c :: args) with
      | none => simp [answer, hof, Except.map] at hstep
      | some r' =>
          simp only [answer, hof, execute_script, Except.map, List.head?_cons, Option.some.injEq, List.tail_cons,
            Option.getD_some, Except.ok.injEq, Prod.mk.injEq] at hstep
          obtain ⟨hrb, hreply, rfl⟩ := hstep
          split_ifs at hreply with heq
          · refine ⟨⟨Nat.not_lt.mp hcount, ?_⟩, hrb, rfl⟩
            rw [hr, decode, hws, hof, heq]
          · exact absurd hreply (approval_ne_refusal r r')

theorem serve_script {segs : List Bytes} (hsegs : ∀ seg ∈ segs, WellFormed seg) {rs : List Request}
    (hrs : segs.mapM decode = some rs) : serve script rs segs = .ok (rs.map approval, []) := by
  induction segs generalizing rs with
  | nil =>
      cases hrs
      rfl
  | cons seg segs ih =>
      have hw := hsegs seg List.mem_cons_self
      obtain ⟨r, hr⟩ := decode_of_wellFormed hw
      obtain ⟨rs, hrs', rfl⟩ := decodeAll_cons hr hrs
      have hrest := ih (fun s h => hsegs s (List.mem_cons_of_mem _ h)) hrs'
      simp [serve, serverReader_eq script hw hr, execute_script, hrest, bind, Except.bind]

theorem undisturbed_of_script {segs : List Bytes} (hsegs : ∀ seg ∈ segs, WellFormed seg) {item : ConnItem}
    (hi : Closed item.rbuffer) {rs : List Request} (hrs : segs.mapM decode = some rs)
    (h : epollServe script item rs segs = .ok (rs.map approval, [])) : Undisturbed item.rbuffer segs := by
  induction segs generalizing item rs with
  | nil => trivial
  | cons seg segs ih =>
      have hw := hsegs seg List.mem_cons_self
      obtain ⟨r, hr⟩ := decode_of_wellFormed hw
      obtain ⟨rs, hrs', rfl⟩ := decodeAll_cons hr hrs
      simp only [epollServe, bind, Except.bind] at h
      split at h
      next => cases h
      next o hk =>
        split at h
        next => cases h
        next o' hrest =>
          obtain ⟨reply, item', rs'⟩ := o
          obtain ⟨replies, rs''⟩ := o'
          simp only [List.map_cons, Except.ok.injEq, Prod.mk.injEq, List.cons.injEq] at h
          obtain ⟨⟨rfl, rfl⟩, rfl⟩ := h
          obtain ⟨hu, hrb, rfl⟩ := undisturbed_of_reply hi hw hr hk
          refine ⟨hu, hrb ▸ ih (fun s h => hsegs s (List.mem_cons_of_mem _ h)) ?_ hrs' hrest⟩
          exact hrb ▸ residue_closed hi hw.short

theorem acceptCb_closed : Closed acceptCb.rbuffer :=
  ⟨List.replicate 1023 0, List.replicate_succ', List.length_replicate⟩

/-- Whatever the engine and the store, the loops answer alike exactly if no
request is changed by the bytes that earlier ones have left behind it. -/
theorem front_ends_alike_iff (segs : List Bytes) (hsegs : ∀ seg ∈ segs, WellFormed seg) :
    (∀ (σ : Type) (E : Engine σ) (st : σ), epollServe E acceptCb st segs = serve E st segs) ↔
      Undisturbed (List.replicate bufferLength 0) segs := by
  refine ⟨fun h => ?_, fun h σ E st => epollServe_undisturbed E hsegs acceptCb_closed h st⟩
  obtain ⟨rs, hrs⟩ := decodeAll_of_wellFormed hsegs
  exact undisturbed_of_script hsegs acceptCb_closed hrs ((h _ script rs).trans (serve_script hsegs hrs))

def setThenGet : List Bytes := [ascii "SET lobby 10.0.0.1:9000", ascii "GET lobby"]

theorem set_then_get_alike :
    (∀ seg ∈ setThenGet, WellFormed seg) ∧
      ∀ (σ : Type) (E : Engine σ) (st : σ), epollServe E acceptCb st setThenGet = serve E st setThenGet := by
  have hw : ∀ seg ∈ setThenGet, WellFormed seg := by decide
  exact ⟨hw, (front_ends_alike_iff setThenGet hw).mpr ⟨by decide +kernel, by decide +kernel, trivial⟩⟩

def longThenShort : List Bytes := [ascii "SET lobby2 1", ascii "GET lobby"]

/-- The end of the key of the first request is taken for the end of the key of
the second. -/
theorem long_then_short_differ :
    (∀ seg ∈ longThenShort, WellFormed seg) ∧
      (epollServe (hashEngine .exclusive .succeeds) acceptCb (kvstoreHashCreate fun _ => []) longThenShort).map Prod.fst =
        .ok [ascii "SUCCESS", ascii "1"] ∧
      (serve (hashEngine .exclusive .succeeds) (kvstoreHashCreate fun _ => []) longThenShort).map Prod.fst =
        .ok [ascii "SUCCESS", ascii "NO EXIST"] := by
  exact ⟨by decide, by decide +kernel, by decide +kernel⟩

end GameAccelerator.EpollEntry
