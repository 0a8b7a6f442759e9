import GameAccelerator.GatewayLoop
import GameAccelerator.KvClient
import GameAccelerator.Requests

namespace GameAccelerator.RouteLookup

open CString Platform TunnelProtocol GatewayLoop Tokens KvStore Requests KvClient

/-- The bytes of a CONNECT that its length byte counts. -/
def routeOf (buf : Bytes) : Bytes := (buf.drop connectHeadLen).take (byteAt buf 1).toNat

/-- A store with the given content that writes down which keys it is asked
for. -/
def recording (content : CStr → Option CStr) : Engine (List CStr) where
  set keys _ _ := .ok (0, keys)
  get keys key := .ok (content key, keys ++ [key])
  delete keys _ := .ok (0, keys)
  modify keys _ _ := .ok (0, keys)

/-- The keys that `kv_store` looks up for the command that the gateway sends
when it resolves a CONNECT. -/
def lookups (content : CStr → Option CStr) (buf : Bytes) : Except Fault (List Bytes) :=
  (serverReader (recording content) [] (getCommand (routeKey buf))).map fun o => o.2.map CStr.bytes

theorem routeKey_eq {buf : Bytes} (h0 : 0 ∉ routeOf buf) : routeKey buf = ascii "route:" ++ routeOf buf := by
  have hroute := cstrAt_append [] (routeOf buf) [] h0
  rw [List.nil_append, List.length_nil] at hroute
  rw [routeKey, readConnectRoute_eq, ← routeOf, hroute]

theorem routeOf_length (buf : Bytes) : (routeOf buf).length ≤ routeMax :=
  (List.length_take_le _ _).trans (Nat.le_of_lt_succ (byteAt buf 1).toNat_lt)

variable {content : CStr → Option CStr} {buf : Bytes}

/-- The store answers to the words of the command; the first is GET, the second
starts with the route. -/
theorem lookups_words (h0 : 0 ∉ routeOf buf) {key : Bytes} {rest : List Bytes}
    (hw : words (ascii "route:" ++ routeOf buf) = key :: rest) :
    lookups content buf = if kvstoreMaxTokens < rest.length + 2 then .error (.tokenOverflow kvstoreMaxTokens)
      else .ok [key] := by
  have hcmd : getCommand (routeKey buf) = ascii "GET" ++ 32 :: (ascii "route:" ++ routeOf buf) := by
    rw [routeKey_eq h0]
    rfl
  have hwords : words (getCommand (routeKey buf)) = ascii "GET" :: key :: rest := by
    rw [hcmd, words_token _ _ (by decide) (by decide), hw]
  have hnul : 0 ∉ getCommand (routeKey buf) := by
    rw [hcmd]
    simp only [List.mem_append, List.mem_cons, not_or]
    exact ⟨by decide, by decide, by decide, h0⟩
  have hlen : (getCommand (routeKey buf)).length ≤ bufferLength := by
    have hr := routeOf_length buf
    have h10 : (getCommand (routeKey buf)).length = 10 + (routeOf buf).length := by
      rw [hcmd]
      simp only [List.length_append, List.length_cons]
      exact Nat.add_right_comm 3 _ 1 |>.trans (by rw [← Nat.add_assoc]; rfl)
    rw [h10]
    simp only [routeMax, bufferLength] at hr ⊢
    omega
  have hkey : (toCStr key).bytes = key := by
    have hmem : key ∈ words (getCommand (routeKey buf)) := by simp [hwords]
    exact toCStr_bytes fun h => hnul ((words_sublist hmem).subset h)
  have hget : Request.ofWords ((ascii "GET" :: key :: rest).map toCStr) = some (.get (toCStr key)) := by
    cases rest <;> rfl
  have hans : answer (recording content) [] ((ascii "GET" :: key :: rest).map toCStr) =
      (execute (recording content) [] (.get (toCStr key))).map fun o => (some o.1, o.2) := by
    rw [List.map_cons, answer, ← List.map_cons, hget]
  rw [lookups, serverReader_words _ hlen hnul, hwords, hans]
  simp only [List.length_cons]
  split_ifs
  · rfl
  · exact congrArg (fun k => Except.ok [k]) hkey

theorem lookups_of_noSpace (h0 : 0 ∉ routeOf buf) (hs : 32 ∉ routeOf buf) :
    lookups content buf = .ok [ascii "route:" ++ routeOf buf] := by
  have hne : ascii "route:" ++ routeOf buf ≠ [] := List.append_ne_nil_of_left_ne_nil (by decide) _
  have hsp : 32 ∉ ascii "route:" ++ routeOf buf := by
    simp only [List.mem_append, not_or]
    exact ⟨by decide, hs⟩
  exact lookups_words h0 (words_last _ hne hsp)

/-- Up to the first space only. -/
theorem lookups_of_space (h0 : 0 ∉ routeOf buf) {name rest : Bytes} (hr : routeOf buf = name ++ 32 :: rest)
    (hname : 32 ∉ name) :
    lookups content buf = if kvstoreMaxTokens < (words rest).length + 2 then .error (.tokenOverflow kvstoreMaxTokens)
      else .ok [ascii "route:" ++ name] := by
  have hne : ascii "route:" ++ name ≠ [] := List.append_ne_nil_of_left_ne_nil (by decide) _
  have hsp : 32 ∉ ascii "route:" ++ name := by
    simp only [List.mem_append, not_or]
    exact ⟨by decide, hname⟩
  apply lookups_words h0
  rw [hr, ← List.append_assoc, words_token _ _ hne hsp]

/-- The key is the named one exactly if the name has no space, and then no two
names share a key. -/
theorem route_key_iff_no_space (content : CStr → Option CStr) (buf : Bytes) (hnul : 0 ∉ routeOf buf) :
    (lookups content buf = .ok [ascii "route:" ++ routeOf buf] ↔ 32 ∉ routeOf buf) ∧
    ∀ buf', 0 ∉ routeOf buf' → 32 ∉ routeOf buf → 32 ∉ routeOf buf' →
      lookups content buf = lookups content buf' → routeOf buf = routeOf buf' := by
  refine ⟨⟨fun h hs => ?_, lookups_of_noSpace hnul⟩, fun buf' hnul' hs hs' he => ?_⟩
  · obtain ⟨name, rest, hr, hname⟩ := List.eq_append_cons_of_mem hs
    rw [lookups_of_space hnul hr hname] at h
    split_ifs at h
    have hkey := List.append_cancel_left (List.singleton_inj.mp (Except.ok.inj h))
    have hlen := congrArg List.length (hkey.trans hr)
    simp only [List.length_append, List.length_cons] at hlen
    omega
  · rw [lookups_of_noSpace hnul hs, lookups_of_noSpace hnul' hs'] at he
    exact List.append_cancel_left (List.singleton_inj.mp (Except.ok.inj he))

theorem lobby_looked_up :
    parse (packConnect (ascii "lobby") 5) = some ⟨packetConnect, none, 0⟩ ∧
      lookups (fun _ => none) (packConnect (ascii "lobby") 5) = .ok [ascii "route:lobby"] :=
  ⟨rfl, (route_key_iff_no_space (fun _ => none) (packConnect (ascii "lobby") 5) (by decide)).1.mpr (by decide)⟩

/-- Two routes with one key. -/
theorem spaced_routes_share_key :
    parse (packConnect (ascii "eu 1") 4) = some ⟨packetConnect, none, 0⟩ ∧
    parse (packConnect (ascii "eu 2") 4) = some ⟨packetConnect, none, 0⟩ ∧
    ∀ content, lookups content (packConnect (ascii "eu 1") 4) = .ok [ascii "route:eu"] ∧
      lookups content (packConnect (ascii "eu 2") 4) = .ok [ascii "route:eu"] := by
  have h₁ : 0 ∉ routeOf (packConnect (ascii "eu 1") 4) := by decide
  have h₂ : 0 ∉ routeOf (packConnect (ascii "eu 2") 4) := by decide
  refine ⟨rfl, rfl, fun content => ⟨?_, ?_⟩⟩
  · exact lookups_of_space h₁ (rfl : _ = ascii "eu" ++ 32 :: ascii "1") (by decide)
  · exact lookups_of_space h₂ (rfl : _ = ascii "eu" ++ 32 :: ascii "2") (by decide)

end GameAccelerator.RouteLookup
