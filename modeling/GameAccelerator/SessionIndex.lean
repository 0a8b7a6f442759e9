import GameAccelerator.SessionManager

namespace GameAccelerator.SessionIndex

open Tables NetUtils SessionManager

variable {ρ : Type}

/-- What identifies a session: everything but its traffic. -/
structure Core where
  conv : UInt32
  kcpConv : UInt32
  peer : Endpoint
  owner : Endpoint
  clientFd : Int
  targetFd : Int
  dying : Bool

/-- The two indexes over the sessions and the list of those to be erased, as
functions, with the descriptors in use. -/
@[ext] structure Index where
  sessions : UInt32 → Option Core
  fdToSession : Int → Option UInt32
  toErase : List UInt32
  openFds : List Int

structure Valid (clientFd : Int) (x : Index) : Prop where
  entry : ∀ {c k}, x.sessions c = some k → k.conv = c ∧ k.kcpConv = c ∧ k.peer = k.owner ∧ k.clientFd = clientFd
  fds : ∀ fd c, x.fdToSession fd = some c ↔ 0 ≤ fd ∧ ∃ k, x.sessions c = some k ∧ k.targetFd = fd
  dying : ∀ {c k}, x.sessions c = some k → (k.dying = true ↔ c ∈ x.toErase)
  listed : ∀ c ∈ x.toErase, ∃ k, x.sessions c = some k
  nodup : x.toErase.Nodup
  opened : ∀ {c k}, x.sessions c = some k → 0 ≤ k.targetFd → k.targetFd ∈ x.openFds ∧ k.targetFd ≠ clientFd
  client : clientFd ∈ x.openFds

variable {clientFd : Int} {x : Index} {c : UInt32} {k : Core}

def Index.set (x : Index) (c : UInt32) (k : Core) : Index :=
  { x with sessions := Function.update x.sessions c (some k) }

/-- Marks the sessions of a list as dying. -/
def Index.kill (x : Index) (l : List UInt32) : Index :=
  { x with
    sessions := fun c => (x.sessions c).map fun k => if c ∈ l then { k with dying := true } else k
    toErase := x.toErase ++ l }

def Index.connect (x : Index) (c : UInt32) (k : Core) (fd : Int) : Index :=
  { x.set c { k with targetFd := fd } with
    openFds := fd :: x.openFds
    fdToSession := emplaceFd x.fdToSession fd c }

/-- Erases the session `c` with the core `k`, the first on the list. -/
def Index.drop (x : Index) (c : UInt32) (k : Core) : Index where
  sessions := Function.update x.sessions c none
  fdToSession := if k.targetFd ≥ 0 then Function.update x.fdToSession k.targetFd none else x.fdToSession
  toErase := x.toErase.tail
  openFds := if k.targetFd ≥ 0 then x.openFds.erase k.targetFd else x.openFds

theorem set_self (x : Index) (c : UInt32) (k : Core) : (x.set c k).sessions c = some k := Function.update_self ..

theorem set_of_ne {c' : UInt32} (h : c' ≠ c) (x : Index) (k : Core) : (x.set c k).sessions c' = x.sessions c' :=
  Function.update_of_ne h ..

theorem set_eq_some {c' : UInt32} {k' : Core} (h : (x.set c k).sessions c' = some k') :
    c' = c ∧ k = k' ∨ c' ≠ c ∧ x.sessions c' = some k' := by
  by_cases hc : c' = c
  · subst hc
    exact .inl ⟨rfl, Option.some.inj ((set_self x c' k).symm.trans h)⟩
  · exact .inr ⟨hc, (set_of_ne hc x k).symm.trans h⟩

theorem drop_eq_some {c' : UInt32} {k' : Core} : (x.drop c k).sessions c' = some k' ↔ c' ≠ c ∧ x.sessions c' = some k' := by
  by_cases hc : c' = c
  · subst hc
    simp [Index.drop]
  · simp [Index.drop, hc]

namespace Valid

variable (h : Valid clientFd x)

include h

theorem same_fd {c' : UInt32} {k' : Core} (hk : x.sessions c = some k) (hk' : x.sessions c' = some k')
    (hfd : 0 ≤ k.targetFd) (he : k'.targetFd = k.targetFd) : c' = c := by
  have h₁ := (h.fds _ c).mpr ⟨hfd, k, hk, rfl⟩
  have h₂ := (h.fds _ c').mpr ⟨hfd, k', hk', he⟩
  exact Option.some.inj (h₂.symm.trans h₁)

theorem fd_open {fd : Int} (hfd : x.fdToSession fd = some c) : fd ∈ x.openFds := by
  obtain ⟨hnn, k, hk, rfl⟩ := (h.fds fd c).mp hfd
  exact (h.opened hk hnn).1

theorem kill {l : List UInt32} (hl : l.Nodup) (hlive : ∀ c ∈ l, ∃ k, x.sessions c = some k ∧ k.dying = false) :
    Valid clientFd (x.kill l) := by
  have hnew : ∀ c ∈ l, c ∉ x.toErase := by
    intro c hc hmem
    obtain ⟨k, hk, hd⟩ := hlive c hc
    exact Bool.eq_false_iff.mp hd ((h.dying hk).mpr hmem)
  refine ⟨?_, fun fd c => ?_, ?_, fun c hc => ?_, ?_, ?_, h.client⟩
  · intro c k' hk'
    obtain ⟨k, hk, rfl⟩ := Option.map_eq_some_iff.mp hk'
    have he := h.entry hk
    split_ifs <;> exact he
  · refine (h.fds fd c).trans (and_congr_right fun _ => ?_)
    constructor
    · rintro ⟨k, hk, rfl⟩
      exact ⟨_, Option.map_eq_some_iff.mpr ⟨k, hk, rfl⟩, by split_ifs <;> rfl⟩
    · rintro ⟨k', hk', rfl⟩
      obtain ⟨k, hk, rfl⟩ := Option.map_eq_some_iff.mp hk'
      exact ⟨k, hk, by split_ifs <;> rfl⟩
  · intro c k' hk'
    obtain ⟨k, hk, rfl⟩ := Option.map_eq_some_iff.mp hk'
    have hd := h.dying hk
    by_cases hc : c ∈ l <;> simp [Index.kill, hc, hd]
  · rcases List.mem_append.mp hc with hc | hc
    · obtain ⟨k, hk⟩ := h.listed c hc
      exact ⟨_, Option.map_eq_some_iff.mpr ⟨k, hk, rfl⟩⟩
    · obtain ⟨k, hk, _⟩ := hlive c hc
      exact ⟨_, Option.map_eq_some_iff.mpr ⟨k, hk, rfl⟩⟩
  · exact List.nodup_append'.mpr ⟨h.nodup, hl, fun c hc hc' => hnew c hc' hc⟩
  · intro c k' hk' hfd
    obtain ⟨k, hk, rfl⟩ := Option.map_eq_some_iff.mp hk'
    have ho := h.opened hk
    split_ifs at hfd ⊢ <;> exact ho hfd

/-- A core without a target comes where there was none. -/
theorem set {k' : Core} (hentry : k'.conv = c ∧ k'.kcpConv = c ∧ k'.peer = k'.owner ∧ k'.clientFd = clientFd)
    (hdying : k'.dying = true ↔ c ∈ x.toErase) (hnone : ∀ k, x.sessions c = some k → k.targetFd < 0)
    (hfd : k'.targetFd < 0) : Valid clientFd (x.set c k') := by
  refine ⟨?_, fun fd c' => ?_, ?_, fun c' hc' => ?_, h.nodup, ?_, h.client⟩
  · intro c' k₁ hk₁
    rcases set_eq_some hk₁ with ⟨rfl, rfl⟩ | ⟨_, hk₁⟩
    · exact hentry
    · exact h.entry hk₁
  · refine (h.fds fd c').trans (and_congr_right fun hnn => exists_congr fun k₁ => ?_)
    by_cases hc : c' = c
    · subst hc
      have hfalse : ¬ (x.sessions c' = some k₁ ∧ k₁.targetFd = fd) := by
        rintro ⟨hk₁, rfl⟩
        exact absurd hnn (Int.not_le.mpr (hnone k₁ hk₁))
      apply iff_of_false hfalse
      rintro ⟨hk₁, rfl⟩
      rcases set_eq_some hk₁ with ⟨_, rfl⟩ | ⟨hne, _⟩
      · exact absurd hnn (Int.not_le.mpr hfd)
      · exact hne rfl
    · rw [set_of_ne hc]
  · intro c' k₁ hk₁
    rcases set_eq_some hk₁ with ⟨rfl, rfl⟩ | ⟨_, hk₁⟩
    · exact hdying
    · exact h.dying hk₁
  · by_cases hc : c' = c
    · exact ⟨k', by rw [hc, set_self]⟩
    · rw [set_of_ne hc]
      exact h.listed c' hc'
  · intro c' k₁ hk₁ hnn
    rcases set_eq_some hk₁ with ⟨rfl, rfl⟩ | ⟨_, hk₁⟩
    · exact absurd hnn (Int.not_le.mpr hfd)
    · exact h.opened hk₁ hnn

theorem connect (hk : x.sessions c = some k) (hneg : k.targetFd < 0) {fd : Int} (hfd : 0 ≤ fd)
    (hfresh : fd ∉ x.openFds) : Valid clientFd (x.connect c k fd) := by
  have hfree : x.fdToSession fd = none := Option.eq_none_iff_forall_ne_some.mpr fun c' hc' => hfresh (h.fd_open hc')
  have hmap : (x.connect c k fd).fdToSession = Function.update x.fdToSession fd (some c) := by
    simp [Index.connect, emplaceFd, hfree]
  refine ⟨?_, fun fd' c' => ?_, ?_, fun c' hc' => ?_, h.nodup, ?_, List.mem_cons_of_mem _ h.client⟩
  · intro c' k₁ hk₁
    rcases set_eq_some hk₁ with ⟨rfl, rfl⟩ | ⟨_, hk₁⟩
    · have he := h.entry hk
      exact he
    · exact h.entry hk₁
  · rw [hmap]
    by_cases hf : fd' = fd
    · subst hf
      rw [Function.update_self]
      constructor
      · intro he
        cases he
        exact ⟨hfd, _, set_self x c _, rfl⟩
      · rintro ⟨_, k₁, hk₁, he⟩
        rcases set_eq_some hk₁ with ⟨rfl, rfl⟩ | ⟨_, hk₁⟩
        · rfl
        · exact absurd (he ▸ (h.opened hk₁ (he ▸ hfd)).1) hfresh
    · rw [Function.update_of_ne hf]
      refine (h.fds fd' c').trans (and_congr_right fun hnn => ?_)
      constructor
      · rintro ⟨k₁, hk₁, rfl⟩
        refine ⟨k₁, (set_of_ne ?_ x _).trans hk₁, rfl⟩
        rintro rfl
        cases hk.symm.trans hk₁
        exact absurd hnn (Int.not_le.mpr hneg)
      · rintro ⟨k₁, hk₁, rfl⟩
        rcases set_eq_some hk₁ with ⟨rfl, rfl⟩ | ⟨_, hk₁⟩
        · exact absurd rfl hf
        · exact ⟨k₁, hk₁, rfl⟩
  · intro c' k₁ hk₁
    rcases set_eq_some hk₁ with ⟨rfl, rfl⟩ | ⟨_, hk₁⟩
    · have hd := h.dying hk
      exact hd
    · exact h.dying hk₁
  · by_cases hc : c' = c
    · subst hc
      exact ⟨_, set_self x c' _⟩
    · obtain ⟨k₁, hk₁⟩ := h.listed c' hc'
      exact ⟨k₁, (set_of_ne hc x _).trans hk₁⟩
  · intro c' k₁ hk₁ hnn
    rcases set_eq_some hk₁ with ⟨rfl, rfl⟩ | ⟨_, hk₁⟩
    · exact ⟨List.mem_cons_self, ne_of_mem_of_not_mem h.client hfresh |>.symm⟩
    · exact ⟨List.mem_cons_of_mem _ (h.opened hk₁ hnn).1, (h.opened hk₁ hnn).2⟩

theorem drop_fds (hk : x.sessions c = some k) {fd : Int} {c' : UInt32} :
    (x.drop c k).fdToSession fd = some c' ↔ c' ≠ c ∧ x.fdToSession fd = some c' := by
  have hown : x.fdToSession fd = some c → 0 ≤ fd ∧ k.targetFd = fd := by
    intro hfd
    obtain ⟨hnn, k₁, hk₁, he⟩ := (h.fds fd c).mp hfd
    cases hk.symm.trans hk₁
    exact ⟨hnn, he⟩
  simp only [Index.drop]
  split_ifs with hnn
  · by_cases hf : fd = k.targetFd
    · subst hf
      rw [Function.update_self, (h.fds _ c).mpr ⟨hnn, k, hk, rfl⟩]
      exact iff_of_false nofun fun he => he.1 (Option.some.inj he.2).symm
    · rw [Function.update_of_ne hf]
      exact ⟨fun he => ⟨fun hc => hf (hown (hc ▸ he)).2.symm, he⟩, And.right⟩
  · refine ⟨fun he => ⟨?_, he⟩, And.right⟩
    rintro rfl
    obtain ⟨h0, rfl⟩ := hown he
    exact hnn h0

theorem drop {l : List UInt32} (hl : x.toErase = c :: l) (hk : x.sessions c = some k) :
    Valid clientFd (x.drop c k) := by
  obtain ⟨hcl, hnd⟩ := List.nodup_cons.mp (hl ▸ h.nodup)
  have htail : (x.drop c k).toErase = l := congrArg List.tail hl
  refine ⟨?_, fun fd c' => ?_, ?_, fun c' hc' => ?_, htail ▸ hnd, ?_, ?_⟩
  · intro c' k₁ hk₁
    exact h.entry (drop_eq_some.mp hk₁).2
  · rw [h.drop_fds hk, h.fds]
    constructor
    · rintro ⟨hne, hnn, k₁, hk₁, he⟩
      exact ⟨hnn, k₁, drop_eq_some.mpr ⟨hne, hk₁⟩, he⟩
    · rintro ⟨hnn, k₁, hk₁, he⟩
      obtain ⟨hne, hk₁⟩ := drop_eq_some.mp hk₁
      exact ⟨hne, hnn, k₁, hk₁, he⟩
  · intro c' k₁ hk₁
    obtain ⟨hne, hk₁⟩ := drop_eq_some.mp hk₁
    rw [h.dying hk₁, htail, hl, List.mem_cons, or_iff_right hne]
  · rw [htail] at hc'
    obtain ⟨k₁, hk₁⟩ := h.listed c' (hl ▸ List.mem_cons_of_mem c hc')
    exact ⟨k₁, drop_eq_some.mpr ⟨ne_of_mem_of_not_mem hc' hcl, hk₁⟩⟩
  · intro c' k₁ hk₁ hnn
    obtain ⟨hne, hk₁⟩ := drop_eq_some.mp hk₁
    obtain ⟨hopen, hclient⟩ := h.opened hk₁ hnn
    refine ⟨?_, hclient⟩
    simp only [Index.drop]
    split_ifs with hfd
    · exact (List.mem_erase_of_ne fun he => hne (h.same_fd hk hk₁ hfd he)).mpr hopen
    · exact hopen
  · simp only [Index.drop]
    split_ifs with hfd
    · exact (List.mem_erase_of_ne (h.opened hk hfd).2.symm).mpr h.client
    · exact h.client

end Valid

end GameAccelerator.SessionIndex
