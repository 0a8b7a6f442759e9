import GameAccelerator.Requests

namespace GameAccelerator.RequestText

open CString Platform Tokens KvStore Requests

/-- A string that the tokeniser leaves in one piece. -/
def IsToken (s : CStr) : Prop := s.bytes ≠ [] ∧ 32 ∉ s.bytes

instance (s : CStr) : Decidable (IsToken s) := inferInstanceAs (Decidable (s.bytes ≠ [] ∧ 32 ∉ s.bytes))

def keyword : Command → Bytes
  | .set => ascii "SET"
  | .get => ascii "GET"
  | .del => ascii "DEL"
  | .mod => ascii "MOD"

def wordsOf : Request → List Bytes
  | .set key value => [keyword .set, key.bytes, value.bytes]
  | .get key => [keyword .get, key.bytes]
  | .del key => [keyword .del, key.bytes]
  | .mod key value => [keyword .mod, key.bytes, value.bytes]

/-- The shortest segment that asks for a request. -/
def spell : Request → Bytes
  | .set key value => ascii "SET" ++ 32 :: (key.bytes ++ 32 :: value.bytes)
  | .get key => ascii "GET" ++ 32 :: key.bytes
  | .del key => ascii "DEL" ++ 32 :: key.bytes
  | .mod key value => ascii "MOD" ++ 32 :: (key.bytes ++ 32 :: value.bytes)

def TokenArgs : Request → Prop
  | .set key value | .mod key value => IsToken key ∧ IsToken value
  | .get key | .del key => IsToken key

variable {r : Request}

theorem words_one {c : Bytes} {s : CStr} (hc : c ≠ [] ∧ 32 ∉ c) (hs : IsToken s) :
    words (c ++ 32 :: s.bytes) = [c, s.bytes] := by
  rw [words_token c _ hc.1 hc.2, words_last _ hs.1 hs.2]

theorem words_two {c : Bytes} {s s' : CStr} (hc : c ≠ [] ∧ 32 ∉ c) (hs : IsToken s) (hs' : IsToken s') :
    words (c ++ 32 :: (s.bytes ++ 32 :: s'.bytes)) = [c, s.bytes, s'.bytes] := by
  rw [words_token c _ hc.1 hc.2, words_one hs hs']

theorem words_spell (h : TokenArgs r) : words (spell r) = wordsOf r := by
  cases r with
  | set key value => exact words_two (by decide) h.1 h.2
  | get key => exact words_one (by decide) h
  | del key => exact words_one (by decide) h
  | mod key value => exact words_two (by decide) h.1 h.2

theorem toCStr_self (s : CStr) : toCStr s.bytes = s := CStr.bytes_injective (toCStr_bytes s.noNul)

theorem decode_of_words {seg : Bytes} (h : words seg = wordsOf r) : decode seg = some r := by
  rw [decode, h]
  cases r with
  | set key value => rw [wordsOf, List.map_cons, List.map_cons, List.map_cons, toCStr_self, toCStr_self]; rfl
  | get key => rw [wordsOf, List.map_cons, List.map_cons, toCStr_self]; rfl
  | del key => rw [wordsOf, List.map_cons, List.map_cons, toCStr_self]; rfl
  | mod key value => rw [wordsOf, List.map_cons, List.map_cons, List.map_cons, toCStr_self, toCStr_self]; rfl

theorem decode_spell (h : TokenArgs r) : decode (spell r) = some r := decode_of_words (words_spell h)

theorem spell_noNul (r : Request) : 0 ∉ spell r := by
  have hone : ∀ {c : Bytes} (s : CStr), 0 ∉ c → 0 ∉ c ++ 32 :: s.bytes := fun s hc h => by
    rcases List.mem_append.mp h with h | h
    · exact hc h
    · exact s.noNul ((List.mem_cons.mp h).resolve_left (by decide))
  have htwo : ∀ {c : Bytes} (s s' : CStr), 0 ∉ c → 0 ∉ c ++ 32 :: (s.bytes ++ 32 :: s'.bytes) := fun s s' hc h => by
    rcases List.mem_append.mp h with h | h
    · exact hc h
    · exact hone s' s.noNul ((List.mem_cons.mp h).resolve_left (by decide))
  cases r with
  | set key value => exact htwo key value (by decide)
  | get key => exact hone key (by decide)
  | del key => exact hone key (by decide)
  | mod key value => exact htwo key value (by decide)

theorem wellFormed_spell (h : TokenArgs r) (hlen : (spell r).length ≤ 1023) : WellFormed (spell r) := by
  refine ⟨?_, hlen, spell_noNul r, ?_, ?_⟩
  · cases r <;> exact Nat.le_add_left 1 _
  · rw [words_spell h]
    cases r <;> simp [wordsOf]
  · rw [words_spell h]
    cases r with
    | set key value => exact .inl ⟨.inl rfl, by simp [wordsOf]⟩
    | get key => exact .inr ⟨.inl rfl, by simp [wordsOf]⟩
    | del key => exact .inr ⟨.inr rfl, by simp [wordsOf]⟩
    | mod key value => exact .inl ⟨.inr rfl, by simp [wordsOf]⟩

theorem command_bytes {c : CStr} {cmd : Command} (h : command c = some cmd) : c.bytes = keyword cmd := by
  obtain ⟨p, hfind, rfl⟩ := Option.map_eq_some_iff.mp h
  have hall : ∀ p ∈ commands, p.2.bytes = keyword p.1 := by decide
  have hc : p.2 = c := strcmp_eq_zero.mp (by simpa using List.find?_some hfind)
  rw [← hc]
  exact hall p (List.mem_of_find?_eq_some hfind)

/-- A segment begins with the words of its request. -/
theorem words_of_decode {seg : Bytes} (h0 : 0 ∉ seg) (h : decode seg = some r) :
    ∃ rest, words seg = wordsOf r ++ rest := by
  have hbytes : ∀ w ∈ words seg, (toCStr w).bytes = w := fun w hw =>
    toCStr_bytes fun hz => h0 ((words_sublist hw).subset hz)
  rw [decode] at h
  generalize words seg = ws at h hbytes ⊢
  rcases ws with _ | ⟨c, _ | ⟨key, rest⟩⟩
  · cases h
  · cases h
  · obtain ⟨hc, hkey, hrest⟩ : _ ∧ _ ∧ _ := by simpa using hbytes
    simp only [List.map_cons, Request.ofWords] at h
    cases hcmd : command (toCStr c) with
    | none => simp [hcmd] at h
    | some cmd =>
        have hc' := hc.symm.trans (command_bytes hcmd)
        rw [hcmd] at h
        cases cmd with
        | get =>
            cases h
            exact ⟨rest, by rw [wordsOf, hkey, hc']; rfl⟩
        | del =>
            cases h
            exact ⟨rest, by rw [wordsOf, hkey, hc']; rfl⟩
        | set =>
            cases rest with
            | nil => cases h
            | cons value rest =>
                cases h
                exact ⟨rest, by rw [wordsOf, hkey, hrest value List.mem_cons_self, hc']; rfl⟩
        | mod =>
            cases rest with
            | nil => cases h
            | cons value rest =>
                cases h
                exact ⟨rest, by rw [wordsOf, hkey, hrest value List.mem_cons_self, hc']; rfl⟩

theorem tokens_of_decode {seg : Bytes} (h0 : 0 ∉ seg) (h : decode seg = some r) : TokenArgs r := by
  obtain ⟨rest, hw⟩ := words_of_decode h0 h
  have htoken : ∀ w ∈ wordsOf r, w ≠ [] ∧ 32 ∉ w := fun w hm =>
    word_token (hw ▸ List.mem_append_left rest hm)
  cases r with
  | set key value | mod key value => exact ⟨htoken _ (by simp [wordsOf]), htoken _ (by simp [wordsOf])⟩
  | get key | del key => exact htoken _ (by simp [wordsOf])

/-- The words of a request fit into its segment. -/
theorem wordsOf_length {seg : Bytes} (h0 : 0 ∉ seg) (h : decode seg = some r) :
    (wordsOf r).flatten.length ≤ seg.length := by
  obtain ⟨rest, hw⟩ := words_of_decode h0 h
  have hsub := (words_flatten seg).length_le
  rw [hw, List.flatten_append, List.length_append] at hsub
  omega

/-- The key of a SET can be asked for and deleted. -/
theorem wellFormed_key {seg : Bytes} {key value : CStr} (hw : WellFormed seg) (hr : decode seg = some (.set key value)) :
    WellFormed (spell (.del key)) ∧ WellFormed (spell (.get key)) := by
  obtain ⟨hkey, hvalue⟩ := tokens_of_decode hw.noNul hr
  have hlen := (wordsOf_length hw.noNul hr).trans hw.short
  have hpos := List.length_pos_of_ne_nil hvalue.1
  have hfit : key.bytes.length + 4 ≤ 1023 := by
    simp only [wordsOf, List.flatten_cons, List.flatten_nil, List.length_append, List.length_nil] at hlen
    have hset : (keyword .set).length = 3 := rfl
    omega
  have hspell : ∀ c : Bytes, c.length = 3 → (c ++ 32 :: key.bytes).length ≤ 1023 := fun c hc => by
    rw [List.length_append, List.length_cons, hc]
    omega
  exact ⟨wellFormed_spell hkey (hspell _ rfl), wellFormed_spell hkey (hspell _ rfl)⟩

end GameAccelerator.RequestText
