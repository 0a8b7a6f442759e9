import GameAccelerator.CString

namespace GameAccelerator.Tokens

open CString

/-- The space-separated words of a text. -/
def words (s : Bytes) : List Bytes := (s.splitOn 32).filter (· ≠ [])

/-- `tokens[idx++] = token` until `strtok` gives NULL. The fuel stands for the
rounds of the loop; the tokens are offsets into the region. -/
def splitLoop : Nat → Option Nat × Strtok → List Nat → Option (Bytes × List Nat)
  | _, (none, st), tokens => some (st.mem, tokens)
  | 0, (some _, _), _ => none
  | fuel + 1, (some p, st), tokens => splitLoop fuel (strtok st) (tokens ++ [p])

def kvstoreSplitToken (msg : Bytes) : Option (Bytes × List Nat) :=
  splitLoop (msg.length + 1) (strtok ⟨msg, 0⟩) []

/-- What the tokeniser leaves of a text: the first space behind a word becomes
a NUL. `inside` says that a word has just been read. -/
def cut (inside : Bool) : Bytes → Bytes
  | [] => []
  | c :: s => if c = 32 then (if inside then 0 else 32) :: cut false s else c :: cut true s

theorem cut_length (inside : Bool) (s : Bytes) : (cut inside s).length = s.length := by
  induction s generalizing inside with
  | nil => rfl
  | cons c s ih =>
      rw [cut]
      split_ifs <;> simp [ih]

theorem cut_spaces (sp s : Bytes) (hsp : ∀ c ∈ sp, c = 32) : cut false (sp ++ s) = sp ++ cut false s := by
  induction sp with
  | nil => rfl
  | cons c sp ih =>
      obtain ⟨hc, hsp⟩ := List.forall_mem_cons.mp hsp
      simp [cut, hc, ih hsp]

theorem cut_token (inside : Bool) (tok s : Bytes) (hne : tok ≠ []) (htok : 32 ∉ tok) :
    cut inside (tok ++ s) = tok ++ cut true s := by
  induction tok generalizing inside with
  | nil => exact absurd rfl hne
  | cons c tok ih =>
      have hc : c ≠ 32 := fun h => htok (h ▸ List.mem_cons_self)
      rw [List.cons_append, cut, if_neg hc]
      cases tok with
      | nil => rfl
      | cons d tok => exact congrArg (c :: ·) (ih true (List.cons_ne_nil d tok) fun h => htok (List.mem_cons_of_mem c h))

theorem words_nil : words [] = [] := rfl

theorem words_spaces (sp s : Bytes) (hsp : ∀ c ∈ sp, c = 32) : words (sp ++ s) = words s := by
  induction sp with
  | nil => rfl
  | cons c sp ih =>
      have hc : c = 32 := hsp c (by simp)
      subst hc
      rw [← ih fun c hc => hsp c (by simp [hc])]
      have h := List.splitOn_append_cons_self (a := (32 : UInt8)) [] (sp ++ s)
      simp only [List.nil_append] at h
      rw [words, List.cons_append, h]
      simp [words]

theorem words_token (tok s : Bytes) (hne : tok ≠ []) (htok : 32 ∉ tok) :
    words (tok ++ 32 :: s) = tok :: words s := by
  simp [words, List.splitOn_append_cons_self_of_not_mem htok, hne]

theorem words_last (tok : Bytes) (hne : tok ≠ []) (htok : 32 ∉ tok) : words tok = [tok] := by
  simp [words, List.splitOn_eq_singleton htok, hne]

theorem splitOn_spec (s : Bytes) : (s.splitOn 32).flatten.Sublist s ∧ ∀ w ∈ s.splitOn 32, 32 ∉ w := by
  induction s with
  | nil => simp
  | cons c s ih =>
      rw [List.splitOn_cons_eq_if_modifyHead]
      split
      · exact ⟨ih.1.cons c, by simpa using ih.2⟩
      · rename_i hc
        cases hs : s.splitOn 32 with
        | nil => exact absurd hs (List.splitOn_ne_nil _ _)
        | cons h t =>
            rw [hs] at ih
            obtain ⟨hh, ht⟩ := List.forall_mem_cons.mp ih.2
            have hne : 32 ≠ c := fun he => hc (by simp [he])
            exact ⟨ih.1.cons_cons c, List.forall_mem_cons.mpr ⟨List.not_mem_cons_of_ne_of_not_mem hne hh, ht⟩⟩

theorem words_flatten (s : Bytes) : (words s).flatten.Sublist s := by
  rw [words, List.flatten_filter_ne_nil]
  exact (splitOn_spec s).1

theorem words_sublist {s w : Bytes} (hw : w ∈ words s) : w.Sublist s :=
  (List.sublist_flatten_of_mem hw).trans (words_flatten s)

theorem word_token {s w : Bytes} (hw : w ∈ words s) : w ≠ [] ∧ 32 ∉ w :=
  ⟨by simpa using List.of_mem_filter hw, (splitOn_spec s).2 w (List.mem_of_mem_filter hw)⟩

theorem getD_append_length (q r : Bytes) (c : UInt8) : (q ++ c :: r).getD q.length 0 = c := by
  simp [List.getD_eq_getElem?_getD]

theorem takeWhile_stop {p : UInt8 → Bool} (l r : Bytes) {c : UInt8} (hc : p c = false) :
    (l ++ c :: r).takeWhile p = l.takeWhile p := by
  induction l with
  | nil => simp [hc]
  | cons d l ih => cases hd : p d <;> simp [hd, ih]

theorem split_takeWhile (p : UInt8 → Bool) (l : Bytes) :
    l.takeWhile p = l ∨ ∃ c r, p c = false ∧ l = l.takeWhile p ++ c :: r := by
  induction l with
  | nil => exact Or.inl rfl
  | cons d l ih =>
      cases hd : p d with
      | false => exact Or.inr ⟨d, l, hd, by simp [hd]⟩
      | true =>
          rcases ih with h | ⟨c, r, hc, h⟩
          · exact Or.inl (by simp [hd, h])
          · exact Or.inr ⟨c, r, hc, by simpa [hd] using h⟩

/-- There are only spaces in a text, or it has a first word. -/
theorem word_cases (s : Bytes) : (∀ c ∈ s, c = 32) ∨ ∃ sp tok, (∀ c ∈ sp, c = 32) ∧ tok ≠ [] ∧ 32 ∉ tok ∧
    (s = sp ++ tok ∨ ∃ rest, s = sp ++ tok ++ 32 :: rest) := by
  have hsp : ∀ c ∈ s.takeWhile (· == 32), c = 32 := fun c hc => by simpa using List.mem_takeWhile_imp hc
  rcases split_takeWhile (· == 32) s with hall | ⟨c, r, hc, hs⟩
  · rw [hall] at hsp
    exact .inl hsp
  · have hne : (c :: r).takeWhile (· != 32) ≠ [] := by simpa using hc
    have htok : 32 ∉ (c :: r).takeWhile (· != 32) := fun hm => by simpa using List.mem_takeWhile_imp hm
    refine .inr ⟨s.takeWhile (· == 32), (c :: r).takeWhile (· != 32), hsp, hne, htok, ?_⟩
    rcases split_takeWhile (· != 32) (c :: r) with hall | ⟨d, rest, hd, hr⟩
    · rw [hall]
      exact .inl hs
    · have hd32 : d = 32 := by simpa using hd
      subst hd32
      exact .inr ⟨rest, by rw [List.append_assoc, ← hr]; exact hs⟩

theorem words_eq_nil {s : Bytes} : words s = [] ↔ ∀ c ∈ s, c = 32 := by
  refine ⟨fun h => ?_, fun h => by simpa [words_nil] using words_spaces s [] h⟩
  rcases word_cases s with hall | ⟨sp, tok, hsp, hne, htok, rfl | ⟨rest, rfl⟩⟩
  · exact hall
  · rw [words_spaces sp _ hsp, words_last _ hne htok] at h
    cases h
  · rw [List.append_assoc, words_spaces sp _ hsp, words_token _ _ hne htok] at h
    cases h

theorem takeWhile_exact {p : UInt8 → Bool} (l r : Bytes) {c : UInt8} (hl : ∀ d ∈ l, p d) (hc : p c = false) :
    (l ++ c :: r).takeWhile p = l :=
  (takeWhile_stop l r hc).trans (List.takeWhile_eq_self_iff.mpr hl)

theorem strtok_none (pre sp z : Bytes) (hsp : ∀ c ∈ sp, c = 32) :
    strtok ⟨pre ++ sp ++ 0 :: z, pre.length⟩ = (none, ⟨pre ++ sp ++ 0 :: z, (pre ++ sp).length⟩) := by
  have hskip : ((pre ++ sp ++ 0 :: z).drop pre.length).takeWhile (· == 32) = sp := by
    rw [List.append_assoc, List.drop_left]
    exact takeWhile_exact sp z (by simpa using hsp) (by decide)
  have hz : (pre ++ sp ++ 0 :: z).getD (pre ++ sp).length 0 = 0 := getD_append_length _ _ _
  simp only [strtok, hskip, ← List.length_append, hz, if_true]

/-- A token that ends at a space is cut off there; one that ends at the
terminator is the last. -/
theorem strtok_some (pre sp tok z : Bytes) {c : UInt8} (hsp : ∀ c ∈ sp, c = 32) (hne : tok ≠ []) (htok : 32 ∉ tok)
    (h0 : 0 ∉ tok) (hc : c = 32 ∨ c = 0) :
    strtok ⟨pre ++ sp ++ tok ++ c :: z, pre.length⟩ = (some (pre ++ sp).length,
      if c = 0 then ⟨pre ++ sp ++ tok ++ c :: z, (pre ++ sp ++ tok).length⟩
      else ⟨pre ++ sp ++ tok ++ 0 :: z, (pre ++ sp ++ tok).length + 1⟩) := by
  obtain ⟨d, tok', rfl⟩ := List.exists_cons_of_ne_nil hne
  have hd : d ≠ 32 := fun h => htok (h ▸ List.mem_cons_self)
  have hd0 : d ≠ 0 := fun h => h0 (h ▸ List.mem_cons_self)
  have hskip : ((pre ++ sp ++ (d :: tok') ++ c :: z).drop pre.length).takeWhile (· == 32) = sp := by
    rw [List.append_assoc, List.append_assoc, List.drop_left]
    exact takeWhile_exact sp _ (by simpa using hsp) (by simpa using hd)
  have hs : (pre ++ sp ++ (d :: tok') ++ c :: z).getD (pre ++ sp).length 0 = d := by
    rw [List.append_assoc]
    exact getD_append_length _ _ _
  have hscan : ((pre ++ sp ++ (d :: tok') ++ c :: z).drop (pre ++ sp).length).takeWhile (fun c => c != 32 && c != 0) =
      d :: tok' := by
    rw [List.append_assoc, List.drop_left]
    refine takeWhile_exact _ _ (fun e he => ?_) (by rcases hc with rfl | rfl <;> decide)
    have he32 : e ≠ 32 := fun h => htok (h ▸ he)
    have he0 : e ≠ 0 := fun h => h0 (h ▸ he)
    simp [he32, he0]
  have hend : (pre ++ sp ++ (d :: tok') ++ c :: z).getD (pre ++ sp ++ (d :: tok')).length 0 = c :=
    getD_append_length _ _ _
  have hset : (pre ++ sp ++ (d :: tok') ++ c :: z).set (pre ++ sp ++ (d :: tok')).length 0 =
      pre ++ sp ++ (d :: tok') ++ 0 :: z := by
    rw [List.set_append_right _ _ le_rfl, Nat.sub_self, List.set_cons_zero]
  simp only [strtok, hskip, ← List.length_append, hs, hd0, if_false, hscan, hend, hset]
  split_ifs <;> rfl

/-- What one call of `strtok` does on a NUL-free rest of the text: nothing is
left, the last token runs to the terminator, or a token is cut off. -/
theorem strtok_cases (pre rest z : Bytes) (h0 : 0 ∉ rest) :
    (words rest = [] ∧ cut false rest = rest ∧ ∃ s, strtok ⟨pre ++ rest ++ 0 :: z, pre.length⟩ =
      (none, ⟨pre ++ rest ++ 0 :: z, s⟩)) ∨
    (∃ sp tok, rest = sp ++ tok ∧ words rest = [tok] ∧ cut false rest = rest ∧ strtok ⟨pre ++ rest ++ 0 :: z, pre.length⟩ =
      (some (pre ++ sp).length, ⟨pre ++ rest ++ 0 :: z, (pre ++ rest).length⟩)) ∨
    (∃ sp tok rest', rest = sp ++ tok ++ 32 :: rest' ∧ words rest = tok :: words rest' ∧
      cut false rest = sp ++ tok ++ [0] ++ cut false rest' ∧ strtok ⟨pre ++ rest ++ 0 :: z, pre.length⟩ =
        (some (pre ++ sp).length,
          ⟨(pre ++ sp ++ tok ++ [0]) ++ rest' ++ 0 :: z, (pre ++ sp ++ tok ++ [0]).length⟩)) := by
  rcases word_cases rest with hsp | ⟨sp, tok, hsp, hne, htok, rfl | ⟨rest', rfl⟩⟩
  · refine .inl ⟨words_eq_nil.mpr hsp, ?_, (pre ++ rest).length, strtok_none pre rest z hsp⟩
    simpa [cut] using cut_spaces rest [] hsp
  · refine .inr (.inl ⟨sp, tok, rfl, ?_, ?_, ?_⟩)
    · rw [words_spaces sp _ hsp, words_last _ hne htok]
    · have hcut := cut_token false tok [] hne htok
      rw [List.append_nil, cut, List.append_nil] at hcut
      rw [cut_spaces sp _ hsp, hcut]
    · rw [← List.append_assoc pre]
      exact strtok_some pre sp tok z hsp hne htok (fun h => h0 (List.mem_append_right _ h)) (.inr rfl)
  · refine .inr (.inr ⟨sp, tok, rest', rfl, ?_, ?_, ?_⟩)
    · rw [List.append_assoc, words_spaces sp _ hsp, words_token _ _ hne htok]
    · rw [List.append_assoc, cut_spaces sp _ hsp, cut_token false tok _ hne htok]
      simp [cut]
    · have h := strtok_some pre sp tok (rest' ++ 0 :: z) hsp hne htok (fun h => h0 (by simp [h])) (.inl rfl)
      simpa [List.append_assoc, Nat.add_assoc] using h

/-- The offsets that the tokeniser stores denote, in the memory it leaves
behind, the words of the text. -/
theorem splitLoop_spec (fuel : Nat) (pre rest z : Bytes) (h0 : 0 ∉ rest) (hf : rest.length < fuel)
    (tokens : List Nat) :
    ∃ offs, splitLoop fuel (strtok ⟨pre ++ rest ++ 0 :: z, pre.length⟩) tokens =
        some (pre ++ cut false rest ++ 0 :: z, tokens ++ offs) ∧ (∀ p ∈ offs, p ≤ (pre ++ rest).length) ∧
      offs.map (fun p => (cstrAt (pre ++ cut false rest ++ 0 :: z) p).bytes) = words rest := by
  induction fuel generalizing pre rest tokens with
  | zero => omega
  | succ fuel ih =>
      rcases strtok_cases pre rest z h0 with
        ⟨hw, hcut, s, hs⟩ | ⟨sp, tok, hr, hw, hcut, hs⟩ | ⟨sp, tok, rest', hr, hw, hcut, hs⟩
      · exact ⟨[], by rw [hs, splitLoop, List.append_nil, hcut], nofun, by rw [hw]; rfl⟩
      · -- the next call finds the terminator at once
        rcases strtok_cases (pre ++ rest) [] z (by simp) with
          ⟨_, _, s', hs'⟩ | ⟨_, _, _, hw', _⟩ | ⟨_, _, _, hr', _⟩
        · rw [List.append_nil] at hs'
          refine ⟨[(pre ++ sp).length], by rw [hs, splitLoop, hs', splitLoop, hcut], ?_, ?_⟩
          · simp [hr]
          · have htok0 : 0 ∉ tok := fun h => h0 (by rw [hr]; simp [h])
            rw [hcut, hw, hr, List.map_singleton, ← List.append_assoc, cstrAt_append _ _ _ htok0]
        · simp [words_nil] at hw'
        · simp at hr'
      · have h0' : 0 ∉ rest' := fun h => h0 (by rw [hr]; simp [h])
        have htok0 : 0 ∉ tok := fun h => h0 (by rw [hr]; simp [h])
        have hlen : rest.length = sp.length + tok.length + (rest'.length + 1) := by
          rw [hr]; simp only [List.length_append, List.length_cons]
        obtain ⟨offs, hl, hb, ho⟩ := ih (pre ++ sp ++ tok ++ [0]) rest' h0' (by omega)
          (tokens ++ [(pre ++ sp).length])
        have he : pre ++ sp ++ tok ++ [0] ++ cut false rest' = pre ++ cut false rest := by
          rw [hcut]
          simp only [List.append_assoc]
        rw [he] at hl ho
        refine ⟨(pre ++ sp).length :: offs, ?_, List.forall_mem_cons.mpr ⟨?_, fun p hp => ?_⟩, ?_⟩
        · rw [hs, splitLoop, hl, List.append_assoc tokens]
          rfl
        · simp only [List.length_append]; omega
        · have := hb p hp
          simp only [List.length_append, List.length_cons, List.length_nil] at this ⊢
          omega
        · have hc := cstrAt_append (pre ++ sp) tok (cut false rest' ++ 0 :: z) htok0
          have he' : pre ++ cut false rest ++ 0 :: z = pre ++ sp ++ tok ++ 0 :: (cut false rest' ++ 0 :: z) := by
            rw [hcut]
            simp [List.append_assoc]
          rw [List.map_cons, ho, hw, he', hc]

/-- A string that ends at a NUL does not depend on what follows. -/
theorem cstrAt_of_le {m : Bytes} {p : Nat} (hp : p ≤ m.length) (z z' : Bytes) :
    cstrAt (m ++ 0 :: z) p = cstrAt (m ++ 0 :: z') p := by
  apply CStr.bytes_injective
  simp only [cstrAt]
  rw [List.drop_append_of_le_length hp, List.drop_append_of_le_length hp, takeWhile_stop _ _ (by decide),
    takeWhile_stop _ _ (by decide)]

/-- A NUL-free text in front of a NUL is split into its words, whatever stands
behind it by the time the words are read. -/
theorem split_token_spec (seg z : Bytes) (h0 : 0 ∉ seg) :
    ∃ tokens, kvstoreSplitToken (seg ++ 0 :: z) = some (cut false seg ++ 0 :: z, tokens) ∧
      ∀ z', tokens.map (fun p => (cstrAt (cut false seg ++ 0 :: z') p).bytes) = words seg := by
  have hf : seg.length < (seg ++ 0 :: z).length + 1 := by
    simp only [List.length_append, List.length_cons]
    omega
  obtain ⟨tokens, hsplit, hle, hmap⟩ := splitLoop_spec ((seg ++ 0 :: z).length + 1) [] seg z h0 hf []
  simp only [List.nil_append] at hsplit hle hmap
  refine ⟨tokens, hsplit, fun z' => ?_⟩
  rw [← hmap]
  apply List.map_congr_left
  intro p hp
  rw [cstrAt_of_le (by rw [cut_length]; exact hle p hp) z' z]

end GameAccelerator.Tokens
