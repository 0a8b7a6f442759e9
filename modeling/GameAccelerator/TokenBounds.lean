import GameAccelerator.Buffer
import GameAccelerator.RequestSafety
import GameAccelerator.RouteLookup

namespace GameAccelerator.TokenBounds

open CString Platform Buffer Tokens TunnelProtocol GatewayLoop KvClient KvStore Requests RequestSafety

/-- The loop of `kvstore_split_token` on the array of the caller, with every
store checked; an entry that was never set is `none`. -/
def splitLoopMem : Nat → Option Nat × Strtok → List (Option Nat) → Nat → Except Fault (Bytes × List (Option Nat) × Nat)
  | _, (none, st), tokens, idx => .ok (st.mem, tokens, idx)
  | 0, (some _, _), _, _ => .error .diverges
  | fuel + 1, (some p, st), tokens, idx =>
      match store tokens idx [some p] with
      | none => .error (.tokenOverflow idx)
      | some tokens => splitLoopMem fuel (strtok st) tokens (idx + 1)

def kvstoreSplitTokenMem (msg : Bytes) (tokens : List (Option Nat)) : Except Fault (Bytes × List (Option Nat) × Nat) :=
  splitLoopMem (msg.length + 1) (strtok ⟨msg, 0⟩) tokens 0

theorem splitLoop_append {fuel : Nat} {s : Option Nat × Strtok} {tokens : List Nat} {r : Bytes × List Nat}
    (h : splitLoop fuel s tokens = some r) : ∃ offs, r.2 = tokens ++ offs := by
  induction fuel generalizing s tokens with
  | zero =>
      obtain ⟨_ | p, st⟩ := s
      · cases h
        exact ⟨[], (List.append_nil _).symm⟩
      · cases h
  | succ fuel ih =>
      obtain ⟨_ | p, st⟩ := s
      · cases h
        exact ⟨[], (List.append_nil _).symm⟩
      · obtain ⟨offs, hr⟩ := ih h
        exact ⟨p :: offs, by rw [hr, List.append_assoc]; rfl⟩

theorem store_full (tokens : List Nat) (p : Option Nat) : store (tokens.map some) tokens.length [p] = none := by
  rw [store, if_neg]
  simp

theorem store_next (tokens : List Nat) (p : Nat) (x : Option Nat) (rest : List (Option Nat)) :
    store (tokens.map some ++ x :: rest) tokens.length [some p] = some ((tokens ++ [p]).map some ++ rest) := by
  have hroom : [some p].length ≤ (x :: rest).length := Nat.le_add_left 1 rest.length
  have h := store_append (tokens.map some) hroom
  rw [List.length_map] at h
  rw [h, List.map_append]
  rfl

theorem splitLoopMem_end {fuel : Nat} {st : Strtok} {tokens : List Nat} {rest : List (Option Nat)} {mem : Bytes}
    {offs : List Nat} (h : splitLoop fuel (none, st) tokens = some (mem, tokens ++ offs)) :
    splitLoopMem fuel (none, st) (tokens.map some ++ rest) tokens.length =
      if rest.length < offs.length then .error (.tokenOverflow (tokens.length + rest.length))
      else .ok (mem, (tokens ++ offs).map some ++ rest.drop offs.length, (tokens ++ offs).length) := by
  rw [splitLoop, Option.some_inj, Prod.mk.injEq] at h
  have hoffs : offs = [] := List.append_cancel_left (h.2.symm.trans (List.append_nil _).symm)
  rw [splitLoopMem, hoffs, h.1, List.append_nil]
  rfl

/-- The array takes the tokens as long as there is room; the first one too many
is stored right behind it. -/
theorem splitLoopMem_eq {fuel : Nat} {s : Option Nat × Strtok} {tokens : List Nat} {rest : List (Option Nat)}
    {mem : Bytes} {offs : List Nat} (h : splitLoop fuel s tokens = some (mem, tokens ++ offs)) :
    splitLoopMem fuel s (tokens.map some ++ rest) tokens.length =
      if rest.length < offs.length then .error (.tokenOverflow (tokens.length + rest.length))
      else .ok (mem, (tokens ++ offs).map some ++ rest.drop offs.length, (tokens ++ offs).length) := by
  induction fuel generalizing s tokens rest offs with
  | zero =>
      obtain ⟨_ | p, st⟩ := s
      · exact splitLoopMem_end h
      · cases h
  | succ fuel ih =>
      obtain ⟨_ | p, st⟩ := s
      · exact splitLoopMem_end h
      · rw [splitLoop] at h
        -- the loop goes on behind the token it has just stored
        obtain ⟨offs', hoffs⟩ := splitLoop_append h
        rw [List.append_assoc] at hoffs
        have hcons : offs = p :: offs' := List.append_cancel_left hoffs
        have happ : tokens ++ p :: offs' = tokens ++ [p] ++ offs' := List.append_cons tokens p offs'
        rw [hcons] at h ⊢
        rw [happ] at h ⊢
        cases rest with
        | nil =>
            rw [List.append_nil, splitLoopMem, store_full]
            exact (if_pos (Nat.zero_lt_succ _)).symm
        | cons x rest =>
            have hnext := @ih _ _ rest _ h
            rw [List.length_append, List.length_singleton] at hnext
            rw [splitLoopMem, store_next]
            simp only [hnext, List.length_cons, Nat.succ_lt_succ_iff, List.drop_succ_cons]
            rw [Nat.add_right_comm, Nat.add_assoc]

/-- A text in front of a NUL is split into an array if it has no more words
than the array has entries. -/
theorem splitTokenMem_spec {text : Bytes} (h0 : 0 ∉ text) (z : Bytes) (array : List (Option Nat)) :
    ∃ tokens : List Nat, tokens.length = (words text).length ∧
      kvstoreSplitToken (text ++ 0 :: z) = some (cut false text ++ 0 :: z, tokens) ∧
      kvstoreSplitTokenMem (text ++ 0 :: z) array =
        if array.length < (words text).length then .error (.tokenOverflow array.length)
        else .ok (cut false text ++ 0 :: z, tokens.map some ++ array.drop tokens.length, tokens.length) := by
  obtain ⟨tokens, hsplit, htok⟩ := split_token_spec text z h0
  have hcount : tokens.length = (words text).length := by rw [← htok z, List.length_map]
  have hmem := @splitLoopMem_eq _ _ [] array _ _ hsplit
  refine ⟨tokens, hcount, hsplit, ?_⟩
  rw [← hcount, kvstoreSplitTokenMem]
  simpa using hmem

theorem splitTokenMem_received (seg : Bytes) {array : List (Option Nat)} (harray : array.length = 128) :
    (∃ r, kvstoreSplitTokenMem (received seg).bytes array = .ok r) ↔ (words (text seg)).length ≤ 128 := by
  obtain ⟨rest, hrest⟩ := text_split seg
  obtain ⟨z, hb⟩ := received_bytes hrest
  obtain ⟨tokens, -, -, hmem⟩ := splitTokenMem_spec (text_noNul seg) z array
  rw [hb, hmem, harray]
  split_ifs with hmany
  · apply iff_of_false _ (Nat.not_le.mpr hmany)
    rintro ⟨r, hr⟩
    cases hr
  · exact iff_of_true ⟨_, rfl⟩ (Nat.not_lt.mp hmany)

theorem routeKey_noNul (buf : Bytes) : 0 ∉ routeKey buf := by
  rw [routeKey, List.mem_append, not_or]
  exact ⟨by decide, CStr.noNul _⟩

theorem words_getCommand (buf : Bytes) : words (text (getCommand (routeKey buf))) = ascii "GET" :: words (routeKey buf) := by
  have hcmd : getCommand (routeKey buf) = ascii "GET" ++ 32 :: routeKey buf := rfl
  have hnul : 0 ∉ getCommand (routeKey buf) := by
    rw [hcmd, List.mem_append, List.mem_cons, not_or, not_or]
    exact ⟨by decide, by decide, routeKey_noNul buf⟩
  have htext : text (getCommand (routeKey buf)) = getCommand (routeKey buf) := by
    rw [text, List.takeWhile_eq_self_iff]
    intro c hc
    have hne : c ≠ 0 := fun h => hnul (h ▸ hc)
    simpa using hne
  rw [htext, hcmd, words_token _ _ (by decide) (by decide)]

/-- No store leaves the array of 128 exactly if the segment has at most 128
words; of the command that the gateway sends, one is GET. -/
theorem tokens_in_bounds_iff (array : List (Option Nat)) (harray : array.length = 128) :
    (∀ seg : Bytes, 1 ≤ seg.length → seg.length ≤ 1024 →
      ((∃ r, kvstoreSplitTokenMem (received seg).bytes array = .ok r) ↔ (words (text seg)).length ≤ 128)) ∧
    ∀ buf : Bytes, (∃ r, kvstoreSplitTokenMem (received (getCommand (routeKey buf))).bytes array = .ok r) ↔
      (words (routeKey buf)).length ≤ 127 := by
  refine ⟨fun seg _ _ => splitTokenMem_received seg harray, ?_⟩
  intro buf
  rw [splitTokenMem_received _ harray, words_getCommand, List.length_cons]
  exact Nat.succ_le_succ_iff

theorem get_lobby_in_bounds :
    ∃ r, kvstoreSplitTokenMem (received (ascii "GET route:lobby")).bytes (List.replicate 128 none) = .ok r :=
  ((tokens_in_bounds_iff (List.replicate 128 none) List.length_replicate).1 (ascii "GET route:lobby") (by decide)
    (by decide)).mpr (by decide)

/-- A route of 128 words in 255 bytes. -/
def wordyRoute : Bytes := (List.replicate 127 (ascii "a ")).flatten ++ ascii "a"

/-- The gateway accepts the CONNECT, and the store writes behind its array. -/
theorem wordy_route_overflows :
    parse (packConnect wordyRoute 255) = some ⟨packetConnect, none, 0⟩ ∧
      ∀ array : List (Option Nat), array.length = 128 →
        kvstoreSplitTokenMem (received (getCommand (routeKey (packConnect wordyRoute 255)))).bytes array =
          .error (.tokenOverflow 128) := by
  have hwords : (words (text (getCommand (routeKey (packConnect wordyRoute 255))))).length = 129 := by
    decide +kernel
  have hparse := parse_packConnect wordyRoute 255 (by decide +kernel) []
  rw [List.append_nil] at hparse
  refine ⟨hparse, ?_⟩
  intro array harray
  obtain ⟨rest, hrest⟩ := text_split (getCommand (routeKey (packConnect wordyRoute 255)))
  obtain ⟨z, hb⟩ := received_bytes hrest
  obtain ⟨tokens, -, -, hmem⟩ := splitTokenMem_spec (text_noNul _) z array
  rw [hb, hmem, harray, hwords]
  rfl

end GameAccelerator.TokenBounds
