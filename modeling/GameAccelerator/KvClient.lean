import GameAccelerator.CString

namespace GameAccelerator.KvClient

open CString

/-- What a round of the loop of `read_reply` meets. -/
inductive Poll
  -- the deadline has passed
  | late
  -- `select` fails
  | failed
  -- no data for two milliseconds
  | silence
  -- `recv` returns up to `n` bytes; with none the peer has closed
  | data (n : Nat)

def recvSize : Nat := 256

/-- `unread` is what the server sends on the connection and the client has not
read yet. The deadline ends every list of rounds. -/
def readReply : List Poll → Bool → Bytes → Bytes → Bool × Bytes × Bytes
  | [], got, out, unread => (got, out, unread)
  | .late :: _, got, out, unread => (got, out, unread)
  | .failed :: _, got, out, unread => (got, out, unread)
  | .silence :: polls, got, out, unread => if got then (true, out, unread) else readReply polls got out unread
  | .data n :: polls, got, out, unread =>
      let piece := unread.take (min n recvSize)
      if piece.isEmpty then (got, out, unread)
      else readReply polls true (out ++ piece) (unread.drop (min n recvSize))

/-- `conn` is `fd_`, with what is still to be read from it. -/
structure Client where
  port : UInt16
  conn : Option Bytes

/-- How the network treats one call of `request`. -/
structure Attempt where
  connects : Bool
  sends : Bool
  polls : List Poll

def disconnect (c : Client) : Client := { c with conn := none }

def ensureConnected (c : Client) (connects : Bool) : Bool × Client :=
  if c.conn.isSome then (true, c)
  else if c.port = 0 then (false, c)
  else if connects then (true, { c with conn := some [] })
  else (false, c)

variable {σ : Type}

/-- `server` takes a command and gives the bytes that it answers. -/
def request (server : σ → Bytes → Bytes × σ) (st : σ) (c : Client) (a : Attempt) (cmd : Bytes) :
    Option Bytes × Client × σ :=
  let r := ensureConnected c a.connects
  if !r.1 then (none, r.2, st)
  else if !a.sends then (none, disconnect r.2, st)
  else
    let answer := server st cmd
    let o := readReply a.polls false [] (r.2.conn.getD [] ++ answer.1)
    if o.1 then (some o.2.1, { r.2 with conn := some o.2.2 }, answer.2)
    else (none, disconnect r.2, answer.2)

def requestWithRetry (server : σ → Bytes → Bytes × σ) (st : σ) (c : Client) (a a' : Attempt) (cmd : Bytes) :
    Option Bytes × Client × σ :=
  let r := request server st c a cmd
  if r.1.isSome then r
  else
    let e := ensureConnected (disconnect r.2.1) a'.connects
    if e.1 then request server r.2.2 e.2 a' cmd else (none, e.2, r.2.2)

def setCommand (key value : Bytes) : Bytes := ascii "SET " ++ key ++ ascii " " ++ value

def getCommand (key : Bytes) : Bytes := ascii "GET " ++ key

def set (server : σ → Bytes → Bytes × σ) (st : σ) (c : Client) (a a' : Attempt) (key value : Bytes) :
    Bool × Client × σ :=
  let r := requestWithRetry server st c a a' (setCommand key value)
  (r.1 = some (ascii "SUCCESS"), r.2)

def stripNewlines (reply : Bytes) : Bytes := (reply.reverse.dropWhile fun b => b = 13 || b = 10).reverse

def get (server : σ → Bytes → Bytes × σ) (st : σ) (c : Client) (a a' : Attempt) (key : Bytes) :
    Option Bytes × Client × σ :=
  let r := requestWithRetry server st c a a' (getCommand key)
  match r.1 with
  | none => (none, r.2)
  | some reply => if reply = ascii "NO EXIST" then (none, r.2) else (some (stripNewlines reply), r.2)

/-- The `n` bytes that are left of a reply come without a pause. -/
def flows : List Poll → Nat → Bool
  | _, 0 => true
  | .data k :: polls, n + 1 => 0 < k && flows polls (n + 1 - min k recvSize)
  | _, _ + 1 => false

/-- Once the first of the `n` bytes of a reply has come, the others come
without a pause. -/
def unbroken : List Poll → Nat → Bool
  | .silence :: polls, n => unbroken polls n
  | .data k :: polls, n => k = 0 || flows polls (n - min k recvSize)
  | _, _ => true

theorem readReply_parts (polls : List Poll) (got : Bool) (out unread : Bytes) :
    ∃ piece, (readReply polls got out unread).2.1 = out ++ piece ∧
      piece ++ (readReply polls got out unread).2.2 = unread ∧
      ((readReply polls got out unread).1 = true ↔ got = true ∨ piece ≠ []) := by
  have hstop : ∃ piece : Bytes, out = out ++ piece ∧ piece ++ unread = unread ∧ (got = true ↔ got = true ∨ piece ≠ []) :=
    ⟨[], (List.append_nil _).symm, rfl, by simp⟩
  induction polls generalizing got out unread with
  | nil => exact hstop
  | cons p polls ih =>
      cases p with
      | late => exact hstop
      | failed => exact hstop
      | silence =>
          rw [readReply]
          split_ifs with hg
          · exact ⟨[], (List.append_nil _).symm, rfl, by simp [hg]⟩
          · exact ih got out unread hstop
      | data n =>
          simp only [readReply]
          split_ifs with hp
          · exact hstop
          · obtain ⟨piece, h₁, h₂, h₃⟩ := ih true (out ++ unread.take (min n recvSize)) (unread.drop (min n recvSize))
              ⟨[], (List.append_nil _).symm, rfl, by simp⟩
            refine ⟨unread.take (min n recvSize) ++ piece, ?_, ?_, ?_⟩
            · rw [h₁, List.append_assoc]
            · rw [List.append_assoc, h₂, List.take_append_drop]
            · have hne : unread.take (min n recvSize) ++ piece ≠ [] := by
                intro he
                exact hp (by rw [(List.append_eq_nil_iff.mp he).1]; rfl)
              exact iff_of_true (h₃.mpr (.inl rfl)) (.inr hne)

theorem readReply_nil (polls : List Poll) (out : Bytes) : readReply polls true out [] = (true, out, []) := by
  cases polls with
  | nil => rfl
  | cons p polls => cases p <;> simp [readReply]

theorem readReply_flows {polls : List Poll} {unread : Bytes} (h : flows polls unread.length) (out : Bytes) :
    readReply polls true out unread = (true, out ++ unread, []) := by
  induction polls generalizing out unread with
  | nil =>
      cases unread with
      | nil => rw [readReply_nil, List.append_nil]
      | cons b unread => cases h
  | cons p polls ih =>
      cases unread with
      | nil => rw [readReply_nil, List.append_nil]
      | cons b unread =>
          cases p with
          | data k =>
              simp only [List.length_cons, flows, Bool.and_eq_true, decide_eq_true_eq] at h
              have hpos : min k recvSize = min k recvSize - 1 + 1 := by
                have hr : 0 < min k recvSize := lt_min h.1 (by decide)
                omega
              have hne : ((b :: unread).take (min k recvSize)).isEmpty = false := by
                rw [hpos]
                rfl
              have hlen : ((b :: unread).drop (min k recvSize)).length = unread.length + 1 - min k recvSize :=
                List.length_drop
              simp only [readReply, hne, Bool.false_eq_true, if_false]
              rw [ih (hlen.symm ▸ h.2), List.append_assoc, List.take_append_drop]
          | _ => cases h

theorem readReply_unbroken {polls : List Poll} {answer : Bytes} (h : unbroken polls answer.length)
    (hok : (readReply polls false [] answer).1 = true) : readReply polls false [] answer = (true, answer, []) := by
  induction polls with
  | nil => cases hok
  | cons p polls ih =>
      cases p with
      | late => cases hok
      | failed => cases hok
      | silence => exact ih h hok
      | data k =>
          simp only [unbroken, Bool.or_eq_true, decide_eq_true_eq] at h
          simp only [readReply] at hok ⊢
          split_ifs at hok ⊢ with hp
          have hk : k ≠ 0 := by
            rintro rfl
            exact hp (by simp)
          have hlen : (answer.drop (min k recvSize)).length = answer.length - min k recvSize := List.length_drop
          rw [readReply_flows (hlen.symm ▸ h.resolve_left hk), List.nil_append, List.take_append_drop]

/-- A call of `request` and the state of the server at that time, whatever
others have done to it since the last call. -/
structure Call (σ : Type) where
  cmd : Bytes
  attempt : Attempt
  st : σ

def answerTo (server : σ → Bytes → Bytes × σ) (call : Call σ) : Bytes := (server call.st call.cmd).1

def requests (server : σ → Bytes → Bytes × σ) : Client → List (Call σ) → List (Option Bytes)
  | _, [] => []
  | c, call :: calls =>
      let r := request server call.st c call.attempt call.cmd
      r.1 :: requests server r.2.1 calls

/-- Nothing that was sent to the client is left unread. -/
def Clean (c : Client) : Prop := c.conn.getD [] = []

theorem ensureConnected_unread (c : Client) (connects : Bool) :
    (ensureConnected c connects).2.conn.getD [] = c.conn.getD [] := by
  rw [ensureConnected]
  split_ifs with hc
  · rfl
  · rfl
  · rw [Option.not_isSome_iff_eq_none.mp hc]
    rfl
  · rfl

variable {server : σ → Bytes → Bytes × σ} {st : σ} {c c' : Client} {a : Attempt} {cmd reply : Bytes}

/-- However the bytes arrive, a reply is the next of them on this connection. -/
theorem request_next (h : (request server st c a cmd).1 = some reply) :
    reply ≠ [] ∧ ∃ rest, (request server st c a cmd).2.1.conn = some rest ∧
      reply ++ rest = c.conn.getD [] ++ (server st cmd).1 := by
  have hunread := ensureConnected_unread c a.connects
  simp only [request] at h ⊢
  split_ifs at h ⊢ with _ _ hok
  obtain ⟨piece, hout, hrest, hgot⟩ := readReply_parts a.polls false []
    ((ensureConnected c a.connects).2.conn.getD [] ++ (server st cmd).1)
  rw [List.nil_append] at hout
  have hpiece : piece = reply := hout.symm.trans (Option.some.inj h)
  subst hpiece
  refine ⟨(hgot.mp hok).resolve_left Bool.false_ne_true, _, rfl, ?_⟩
  rw [hrest, hunread]

theorem request_clean (hc : Clean c) (h : unbroken a.polls (server st cmd).1.length) :
    Clean (request server st c a cmd).2.1 ∧
      ∀ reply, (request server st c a cmd).1 = some reply → reply = (server st cmd).1 := by
  have hunread := (ensureConnected_unread c a.connects).trans hc
  simp only [request, hunread, List.nil_append]
  split_ifs with hcon hsend hok
  · exact ⟨hunread, nofun⟩
  · exact ⟨rfl, nofun⟩
  · have hread := readReply_unbroken h hok
    rw [hread]
    exact ⟨rfl, fun reply he => (Option.some.inj he).symm⟩
  · exact ⟨rfl, nofun⟩

theorem requests_clean {calls : List (Call σ)} (hc : Clean c)
    (h : ∀ call ∈ calls, unbroken call.attempt.polls (answerTo server call).length) :
    ∀ p ∈ calls.zip (requests server c calls), ∀ reply, p.2 = some reply → reply = answerTo server p.1 := by
  induction calls generalizing c with
  | nil => nofun
  | cons call calls ih =>
      obtain ⟨hclean, hexact⟩ := request_clean hc (h call List.mem_cons_self)
      intro p hp
      rcases List.mem_cons.mp hp with rfl | hp
      · exact hexact
      · exact ih hclean (fun call' hc' => h call' (List.mem_cons_of_mem _ hc')) p hp

/-- However the bytes arrive, the replies of one connection are cut from the
answers in order; they are the answers, if none of them comes with a pause. -/
theorem replies_match_unbroken (server : σ → Bytes → Bytes × σ) :
    (∀ c (call : Call σ) reply, (request server call.st c call.attempt call.cmd).1 = some reply →
      reply ≠ [] ∧ ∃ rest, (request server call.st c call.attempt call.cmd).2.1.conn = some rest ∧
        reply ++ rest = c.conn.getD [] ++ answerTo server call) ∧
    ∀ c (calls : List (Call σ)), Clean c → (∀ call ∈ calls, unbroken call.attempt.polls (answerTo server call).length) →
      ∀ p ∈ calls.zip (requests server c calls), ∀ reply, p.2 = some reply → reply = answerTo server p.1 :=
  ⟨fun _ _ _ h => request_next h, fun _ _ hc h => requests_clean hc h⟩

/-- The `n` bytes of a reply come, and come without a pause. -/
def arrives : List Poll → Nat → Bool
  | .silence :: polls, n => arrives polls n
  | .data k :: polls, n => 0 < k && flows polls (n - min k recvSize)
  | _, _ => false

/-- The network takes the whole command to the server and the whole reply, of
`n` bytes, back. -/
def Attempt.delivers (a : Attempt) (n : Nat) : Bool := a.connects && a.sends && arrives a.polls n

theorem readReply_arrives {polls : List Poll} {answer : Bytes} (h : arrives polls answer.length) (hne : answer ≠ []) :
    readReply polls false [] answer = (true, answer, []) := by
  induction polls with
  | nil => cases h
  | cons p polls ih =>
      cases p with
      | late => cases h
      | failed => cases h
      | silence => exact ih h
      | data k =>
          simp only [arrives, Bool.and_eq_true, decide_eq_true_eq] at h
          have hpiece : (answer.take (min k recvSize)).isEmpty = false := by
            have hk : min k recvSize ≠ 0 := (lt_min h.1 (by decide)).ne'
            simp [hne, hk]
          have hlen : (answer.drop (min k recvSize)).length = answer.length - min k recvSize := List.length_drop
          simp only [readReply, hpiece, Bool.false_eq_true, if_false]
          rw [readReply_flows (hlen.symm ▸ h.2), List.nil_append, List.take_append_drop]

/-- The client has a connection or an address to connect to. -/
def Usable (c : Client) : Prop := c.conn.isSome ∨ c.port ≠ 0

theorem request_delivered {a' : Attempt} (hc : Clean c) (hu : Usable c) (hne : (server st cmd).1 ≠ [])
    (h : a.delivers (server st cmd).1.length) :
    requestWithRetry server st c a a' cmd =
      (some (server st cmd).1, { c with conn := some [] }, (server st cmd).2) := by
  simp only [Attempt.delivers, Bool.and_eq_true] at h
  obtain ⟨⟨hconn, hsend⟩, harr⟩ := h
  have hens : (ensureConnected c a.connects).1 = true ∧ { (ensureConnected c a.connects).2 with conn := some [] } =
      { c with conn := some [] } := by
    rw [ensureConnected, hconn]
    split_ifs with hs hp ht
    · exact ⟨rfl, rfl⟩
    · exact absurd (hu.resolve_left hs) (not_not.mpr hp)
    · exact ⟨rfl, rfl⟩
    · exact absurd rfl ht
  have hunread := (ensureConnected_unread c a.connects).trans hc
  have hreq : request server st c a cmd = (some (server st cmd).1, { c with conn := some [] }, (server st cmd).2) := by
    simp only [request, hunread, List.nil_append, readReply_arrives harr hne, hens.1, hsend]
    rw [← hens.2]
    rfl
  rw [requestWithRetry, hreq]
  rfl

theorem request_silent (hc : Clean c) (h : (server st cmd).1 = []) :
    (request server st c a cmd).1 = none ∧ Clean (request server st c a cmd).2.1 ∧
      ((request server st c a cmd).2.2 = st ∨ (request server st c a cmd).2.2 = (server st cmd).2) := by
  have hunread := (ensureConnected_unread c a.connects).trans hc
  obtain ⟨piece, -, hrest, hgot⟩ := readReply_parts a.polls false [] []
  have hnone : (readReply a.polls false [] []).1 = false := by
    rw [(List.append_eq_nil_iff.mp hrest).1] at hgot
    simpa using hgot
  simp only [request, hunread, h, List.append_nil, hnone]
  split_ifs
  · exact ⟨rfl, hunread, .inl rfl⟩
  · exact ⟨rfl, rfl, .inl rfl⟩
  · contradiction
  · exact ⟨rfl, rfl, .inr rfl⟩

/-- A server that does not answer fails the call, its second attempt too. -/
theorem requestWithRetry_silent (a a' : Attempt) (hc : Clean c) (h : (server st cmd).1 = [])
    (h' : (server (server st cmd).2 cmd).1 = []) : (requestWithRetry server st c a a' cmd).1 = none := by
  obtain ⟨hnone, -, hst⟩ := request_silent (a := a) hc h
  simp only [requestWithRetry, hnone, Option.isSome_none, Bool.false_eq_true, if_false]
  split_ifs
  · refine (request_silent ?_ ?_).1
    · exact (ensureConnected_unread _ _).trans rfl
    · rcases hst with he | he <;> rw [he]
      · exact h
      · exact h'
  · rfl

/-- A store that says SUCCESS to everything. -/
def yes (_ : Unit) (_ : Bytes) : Bytes × Unit := (ascii "SUCCESS", ())

def chunkedCalls : List (Call Unit) :=
  [⟨ascii "SET a 1", ⟨true, true, [.silence, .data 4, .data 3, .silence]⟩, ()⟩,
    ⟨ascii "SET b 2", ⟨true, true, [.silence, .late]⟩, ()⟩, ⟨ascii "SET c 3", ⟨true, true, [.data 7, .data 0]⟩, ()⟩]

theorem chunked_replies_match :
    requests yes ⟨9096, none⟩ chunkedCalls = [some (ascii "SUCCESS"), none, some (ascii "SUCCESS")] ∧
      ∀ p ∈ chunkedCalls.zip (requests yes ⟨9096, none⟩ chunkedCalls), ∀ reply, p.2 = some reply →
        reply = answerTo yes p.1 :=
  ⟨by decide, (replies_match_unbroken yes).2 ⟨9096, none⟩ chunkedCalls rfl (by decide)⟩

def pausedCalls : List (Call Unit) :=
  [⟨ascii "SET a 1", ⟨true, true, [.data 4, .silence]⟩, ()⟩, ⟨ascii "SET b 2", ⟨true, true, [.data 3, .silence]⟩, ()⟩]

/-- A pause inside the first answer cuts it, and the rest of it is taken for the
second. -/
theorem pause_splits_reply :
    requests yes ⟨9096, none⟩ pausedCalls = [some (ascii "SUCC"), some (ascii "ESS")] ∧
      ∀ call ∈ pausedCalls, answerTo yes call = ascii "SUCCESS" := by
  decide

end GameAccelerator.KvClient
