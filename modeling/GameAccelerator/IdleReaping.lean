import GameAccelerator.SessionInvariant
import Mathlib.Data.List.Induction

namespace GameAccelerator.IdleReaping

open CString Platform Tables NetUtils TunnelProtocol Kcp LosslessKcp SessionManager GatewayLoop GatewayMoves SessionInvariant
  Relation

variable {ρ : Type} {env : Env ρ} {src : Endpoint} {c : UInt32} {s : Session ρ} {g g' : Gateway ρ}
  {log effects : List Effect}

def NonDecreasing (clock : Nat → UInt64) : Prop := ∀ m n, m ≤ n → clock m ≤ clock n

/-- The session and the time of a creation, of a datagram of the owner or of a
reply. -/
def markOf : Effect → Option (UInt32 × UInt64)
  | .created c _ t => some (c, t)
  | .accepted c t => some (c, t)
  | .replied c t => some (c, t)
  | _ => none

def Marked (c : UInt32) (t : UInt64) (log : List Effect) : Prop := ∃ e ∈ log, markOf e = some (c, t)

def ReapsOnlyIdle (idleMs : UInt64) (log : List Effect) : Prop :=
  ∀ before c now after, log = before ++ .reaped c now :: after →
    ∀ t, Marked c t before → idleMs.toNat < now.toNat - t.toNat

theorem marked_append {t : UInt64} : Marked c t (log ++ effects) ↔ Marked c t log ∨ Marked c t effects := by
  simp only [Marked, List.mem_append, or_and_right, exists_or]

theorem marked_append_quiet (h : ∀ e ∈ effects, markOf e = none) {t : UInt64} :
    Marked c t (log ++ effects) ↔ Marked c t log := by
  rw [marked_append, or_iff_left]
  rintro ⟨e, he, hm⟩
  cases (h e he).symm.trans hm

theorem reapsOnlyIdle_snoc {idleMs : UInt64} (e : Effect) :
    ReapsOnlyIdle idleMs (log ++ [e]) ↔ ReapsOnlyIdle idleMs log ∧
      ∀ c now, e = .reaped c now → ∀ t, Marked c t log → idleMs.toNat < now.toNat - t.toNat := by
  constructor
  · intro h
    refine ⟨fun before c now after he => ?_, fun c now he => ?_⟩
    · exact h before c now (after ++ [e]) (by rw [he]; simp)
    · exact h log c now [] (by rw [he])
  · rintro ⟨hlog, he⟩ before c now after h
    rcases List.eq_nil_or_concat after with rfl | ⟨after, x, rfl⟩
    · obtain ⟨rfl, hx⟩ := List.append_inj' h rfl
      exact he c now (List.head_eq_of_cons_eq hx)
    · rw [List.concat_eq_append, ← List.cons_append, ← List.append_assoc] at h
      obtain ⟨rfl, _⟩ := List.append_inj' h rfl
      exact hlog before c now after rfl

theorem reapsOnlyIdle_append_quiet {idleMs : UInt64} (h : ∀ e ∈ effects, markOf e = none) :
    ReapsOnlyIdle idleMs (log ++ effects) ↔ ReapsOnlyIdle idleMs log ∧
      ∀ c now, .reaped c now ∈ effects → ∀ t, Marked c t log → idleMs.toNat < now.toNat - t.toNat := by
  induction effects using List.reverseRecOn with
  | nil => simp
  | append_singleton l e ih =>
      have hl : ∀ x ∈ l, markOf x = none := fun x hx => h x (List.mem_append_left _ hx)
      rw [← List.append_assoc, reapsOnlyIdle_snoc, ih hl, and_assoc]
      apply and_congr_right
      intro _
      simp only [marked_append_quiet hl, List.mem_append, List.mem_singleton, or_imp, forall_and, @eq_comm _ _ e]

theorem reapsOnlyIdle_append {idleMs : UInt64} (hlog : ReapsOnlyIdle idleMs log)
    (h : ∀ c now, .reaped c now ∉ effects) : ReapsOnlyIdle idleMs (log ++ effects) := by
  induction effects using List.reverseRecOn with
  | nil => rwa [List.append_nil]
  | append_singleton l e ih =>
      rw [← List.append_assoc, reapsOnlyIdle_snoc]
      refine ⟨ih fun c now hm => h c now (List.mem_append_left _ hm), fun c now he => ?_⟩
      exact absurd (List.mem_append_right l (List.mem_singleton.mpr he.symm)) (h c now)

/-- What `last_active` says about the times of a session. -/
def Truthful (log : List Effect) (c : UInt32) (s : Session ρ) : Prop :=
  (∀ t, Marked c t log → t ≤ s.lastActive) ∨
    s.lastActive = 0 ∧ ∃ owner created, .created c owner created ∈ log ∧ ∀ t, Marked c t log → t ≤ created

structure Times (env : Env ρ) (g : Gateway ρ) : Prop where
  marks : ∀ c t, Marked c t g.log → t ≤ env.clock g.ticks
  last : ∀ c s, g.sessions.find c = some s → s.lastActive ≤ env.clock g.ticks
  truthful : ∀ c s, g.sessions.find c = some s → Truthful g.log c s
  reaps : ReapsOnlyIdle env.idleMs g.log

theorem truthful_quiet {s s' : Session ρ} (h : Truthful log c s) (hl : s'.lastActive = s.lastActive)
    (hq : ∀ t, ¬ Marked c t effects) : Truthful (log ++ effects) c s' := by
  have hm : ∀ t, Marked c t (log ++ effects) → Marked c t log := fun t ht =>
    (marked_append.mp ht).resolve_right (hq t)
  rw [Truthful, hl]
  rcases h with h | ⟨h0, owner, created, hc, h⟩
  · exact .inl fun t ht => h t (hm t ht)
  · exact .inr ⟨h0, owner, created, List.mem_append_left _ hc, fun t ht => h t (hm t ht)⟩

theorem Times.quiet (h : Times env g) (hmono : NonDecreasing env.clock) (hticks : g.ticks ≤ g'.ticks)
    (hl : g'.log = g.log ++ effects) (hq : ∀ e ∈ effects, markOf e = none)
    (hr : ReapsOnlyIdle env.idleMs g'.log)
    (hs : ∀ c s', g'.sessions.find c = some s' → ∃ s, g.sessions.find c = some s ∧ s'.lastActive = s.lastActive) :
    Times env g' := by
  have hclock := hmono _ _ hticks
  refine ⟨fun c t ht => ?_, fun c s' hs' => ?_, fun c s' hs' => ?_, hr⟩
  · rw [hl, marked_append_quiet hq] at ht
    exact UInt64.le_trans (h.marks c t ht) hclock
  · obtain ⟨s, hs, he⟩ := hs c s' hs'
    exact he ▸ UInt64.le_trans (h.last c s hs) hclock
  · obtain ⟨s, hs, he⟩ := hs c s' hs'
    rw [hl]
    exact truthful_quiet (h.truthful c s hs) he fun t ⟨e, hm, ht⟩ => nomatch (hq e hm).symm.trans ht

theorem put_lastActive (hs : g.sessions.find c = some s) {s' : Session ρ} (h : s'.lastActive = s.lastActive)
    (c₁ : UInt32) (s₁ : Session ρ) (h₁ : (g.put c s').sessions.find c₁ = some s₁) :
    ∃ s₂, g.sessions.find c₁ = some s₂ ∧ s₁.lastActive = s₂.lastActive := by
  rcases put_eq_some hs h₁ with ⟨rfl, rfl⟩ | ⟨_, h₁⟩
  · exact ⟨s, hs, h⟩
  · exact ⟨s₁, h₁, rfl⟩

theorem Times.emit (h : Times env g) (hmono : NonDecreasing env.clock) (hticks : g.ticks ≤ g'.ticks)
    (hl : g'.log = g.log ++ effects) (hq : ∀ e ∈ effects, markOf e = none) (hr : ∀ c now, .reaped c now ∉ effects)
    (hs : ∀ c s', g'.sessions.find c = some s' → ∃ s, g.sessions.find c = some s ∧ s'.lastActive = s.lastActive) :
    Times env g' :=
  h.quiet hmono hticks hl hq (hl ▸ reapsOnlyIdle_append h.reaps hr) hs

theorem Times.silent (h : Times env g) (hmono : NonDecreasing env.clock) (hticks : g.ticks ≤ g'.ticks)
    (hl : g'.log = g.log)
    (hs : ∀ c s', g'.sessions.find c = some s' → ∃ s, g.sessions.find c = some s ∧ s'.lastActive = s.lastActive) :
    Times env g' :=
  h.emit hmono hticks (hl.trans (List.append_nil _).symm) nofun nofun hs

theorem Times.active (h : Times env g) (hmono : NonDecreasing env.clock) (hs : g.sessions.find c = some s)
    {marks : List Effect}
    (hm : ∀ e ∈ marks, e = .accepted c (env.clock g.ticks) ∨ e = .replied c (env.clock g.ticks)) :
    Times env ((g.put c { s with lastActive := env.clock g.ticks }).tick.emit marks) := by
  have hclock := hmono g.ticks (g.ticks + 1) (Nat.le_succ _)
  have hnew : ∀ c' t, Marked c' t marks → c' = c ∧ t = env.clock g.ticks := by
    rintro c' t ⟨e, he, hmark⟩
    rcases hm e he with rfl | rfl <;> cases hmark <;> exact ⟨rfl, rfl⟩
  have hnow : ∀ c' t, Marked c' t (g.log ++ marks) → t ≤ env.clock g.ticks := by
    intro c' t ht
    rcases marked_append.mp ht with ht | ht
    · exact h.marks c' t ht
    · exact (hnew c' t ht).2 ▸ UInt64.le_refl _
  refine ⟨fun c' t ht => UInt64.le_trans (hnow c' t ht) hclock, fun c' s' hs' => ?_, fun c' s' hs' => ?_, ?_⟩
  · rcases put_eq_some hs hs' with ⟨rfl, rfl⟩ | ⟨_, hs'⟩
    · exact hclock
    · exact UInt64.le_trans (h.last c' s' hs') hclock
  · rcases put_eq_some hs hs' with ⟨rfl, rfl⟩ | ⟨hc, hs'⟩
    · exact .inl (hnow c')
    · exact truthful_quiet (h.truthful c' s' hs') rfl fun t ht => hc (hnew c' t ht).1
  · apply reapsOnlyIdle_append h.reaps
    intro c' now hr
    rcases hm _ hr with hr | hr <;> cases hr

theorem Times.created (h : Times env g) (hmono : NonDecreasing env.clock) (hs : g.sessions.find c = none)
    (s : Session ρ) (h0 : s.lastActive = 0) (next : UInt32) (arrange : Arrangement UInt32 (Session ρ)) :
    Times env (({ g with
      sessions := g.sessions.emplace arrange c s
      nextConv := next }.emit [.created c src (env.clock g.ticks)]).tick) := by
  have hclock := hmono g.ticks (g.ticks + 1) (Nat.le_succ _)
  have hnew : ∀ c' t, Marked c' t [.created c src (env.clock g.ticks)] → c' = c ∧ t = env.clock g.ticks := by
    rintro c' t ⟨e, he, hmark⟩
    cases List.mem_singleton.mp he
    cases hmark
    exact ⟨rfl, rfl⟩
  have hnow : ∀ c' t, Marked c' t (g.log ++ [.created c src (env.clock g.ticks)]) → t ≤ env.clock g.ticks := by
    intro c' t ht
    rcases marked_append.mp ht with ht | ht
    · exact h.marks c' t ht
    · exact (hnew c' t ht).2 ▸ UInt64.le_refl _
  have hfind : ∀ c' s', (g.sessions.emplace arrange c s).find c' = some s' →
      c' = c ∧ s = s' ∨ c' ≠ c ∧ g.sessions.find c' = some s' := by
    intro c' s' hs'
    rw [find_emplace hs] at hs'
    split_ifs at hs' with hc
    · exact .inl ⟨hc, Option.some.inj hs'⟩
    · exact .inr ⟨hc, hs'⟩
  refine ⟨fun c' t ht => UInt64.le_trans (hnow c' t ht) hclock, fun c' s' hs' => ?_, fun c' s' hs' => ?_, ?_⟩
  · rcases hfind c' s' hs' with ⟨rfl, rfl⟩ | ⟨_, hs'⟩
    · exact h0 ▸ UInt64.zero_le
    · exact UInt64.le_trans (h.last c' s' hs') hclock
  · rcases hfind c' s' hs' with ⟨rfl, rfl⟩ | ⟨hc, hs'⟩
    · exact .inr ⟨h0, src, env.clock g.ticks, List.mem_append_right _ (List.mem_singleton.mpr rfl), hnow c'⟩
    · exact truthful_quiet (h.truthful c' s' hs') rfl fun t ht => hc (hnew c' t ht).1
  · apply reapsOnlyIdle_append h.reaps
    intro c' now hr
    cases List.mem_singleton.mp hr

theorem act_times (h : Act env src c g g') (hmono : NonDecreasing env.clock) (hg : Good env g) (ht : Times env g) :
    Times env g' := by
  have hsame : ∀ c s', g.sessions.find c = some s' → ∃ s, g.sessions.find c = some s ∧ s'.lastActive = s.lastActive :=
    fun _ s' hs' => ⟨s', hs', rfl⟩
  cases h with
  | pool => exact ht.silent hmono (Nat.le_refl _) rfl hsame
  | clock => exact ht.silent hmono (Nat.le_succ _) rfl hsame
  | note hs ho hd marks hm =>
      refine ht.emit hmono (Nat.le_refl _) rfl (fun e he => ?_) (fun c now he => ?_) hsame
      · rcases hm e he with ⟨m, rfl⟩ | ⟨m, rfl⟩ <;> rfl
      · rcases hm _ he with ⟨m, he⟩ | ⟨m, he⟩ <;> cases he
  | kcp hs ho hd k hk packets =>
      refine ht.emit hmono (Nat.le_refl _) rfl (fun e he => ?_) (fun c now he => ?_) (put_lastActive hs rfl)
      · obtain ⟨m, _, rfl⟩ := List.mem_map.mp he
        rfl
      · obtain ⟨m, _, he⟩ := List.mem_map.mp he
        cases he
  | active hs ho hd marks hm =>
      rw [conv_eq hg hs] at hm
      exact ht.active hmono hs hm
  | killed hs => exact ht.silent hmono (Nat.le_refl _) rfl (put_lastActive hs rfl)
  | noSocket hs => exact ht.silent hmono (Nat.le_refl _) rfl (put_lastActive hs rfl)
  | connected hs ho hd hp addr fd =>
      exact ht.emit hmono (Nat.le_refl _) rfl (by simp [markOf]) (by simp) (put_lastActive hs rfl)
  | relayed => exact ht.emit hmono (Nat.le_refl _) rfl (by simp [markOf]) (by simp) hsame
  | created hs _ _ arrange => exact ht.created hmono hs _ rfl _ arrange
  | timer => exact ht.emit hmono (Nat.le_refl _) rfl (by simp [markOf]) (by simp) hsame
  | answered => exact ht.emit hmono (Nat.le_refl _) rfl (by simp [markOf]) (by simp) hsame

theorem updateActive_times (hmono : NonDecreasing env.clock) (ht : Times env g) : Times env (updateActive env g) := by
  refine ht.emit hmono (Nat.le_succ _) rfl (fun e he => ?_) (fun c now he => ?_) fun c s' hs' => ?_
  · obtain ⟨x, _, he⟩ := List.mem_flatMap.mp he
    split_ifs at he
    · exact absurd he List.not_mem_nil
    · obtain ⟨m, _, rfl⟩ := List.mem_map.mp he
      rfl
  · obtain ⟨x, _, he⟩ := List.mem_flatMap.mp he
    split_ifs at he
    · exact absurd he List.not_mem_nil
    · obtain ⟨m, _, he⟩ := List.mem_map.mp he
      cases he
  · obtain ⟨s, hs, rfl⟩ := Option.map_eq_some_iff.mp ((find_mapVals ..).symm.trans hs')
    refine ⟨s, hs, ?_⟩
    split_ifs <;> rfl

theorem teardown_times (hmono : NonDecreasing env.clock) (ht : Times env g) (c : UInt32) :
    Times env (teardown g c) := by
  cases hs : g.sessions.find c with
  | none =>
      rw [teardown, hs]
      exact ht
  | some s =>
      have hsub : ∀ c₁ s₁, (g.sessions.erase c).find c₁ = some s₁ →
          ∃ s₂, g.sessions.find c₁ = some s₂ ∧ s₁.lastActive = s₂.lastActive := by
        intro c₁ s₁ h₁
        rw [find_erase] at h₁
        split_ifs at h₁
        exact ⟨s₁, h₁, rfl⟩
      rw [teardown_eq hs]
      by_cases hfd : s.targetFd ≥ 0
      · exact ht.emit hmono (Nat.le_refl _) (if_pos hfd) (by simp [markOf]) (by simp) hsub
      · exact ht.silent hmono (Nat.le_refl _) (if_neg hfd) hsub

theorem flushTeardown_times (hmono : NonDecreasing env.clock) (ht : Times env g) : Times env (flushTeardown g) := by
  have hfold : ∀ (l : List UInt32) (g : Gateway ρ), Times env g → Times env (l.foldl teardown g) := by
    intro l
    induction l with
    | nil => exact fun g ht => ht
    | cons c l ih => exact fun g ht => ih _ (teardown_times hmono ht c)
  exact (hfold g.toErase g ht).emit hmono (Nat.le_refl _) rfl (by simp [markOf]) (by simp)
    fun c s hs => ⟨s, hs, rfl⟩

/-- Whoever a sweep from `g` finds without any traffic so far, and takes, was
created long enough ago. -/
def SweepSafe (env : Env ρ) (g : Gateway ρ) : Prop :=
  ¬ env.clock g.ticks - g.lastIdleSweep < 1000 →
    ∀ c s, g.sessions.find c = some s → s.dying = false → s.lastActive = 0 → env.idleMs < env.clock g.ticks →
      ∀ owner t, .created c owner t ∈ g.log → env.idleMs.toNat < (env.clock g.ticks).toNat - t.toNat

theorem idle_iff {now : UInt64} (h : s.lastActive ≤ now) :
    idle env now s = true ↔ s.dying = false ∧ env.idleMs.toNat < now.toNat - s.lastActive.toNat := by
  simp only [idle, Bool.and_eq_true, Bool.not_eq_true', decide_eq_true_eq]
  apply and_congr_right
  intro _
  rw [gt_iff_lt, UInt64.lt_iff_toNat_lt, UInt64.toNat_sub_of_le _ _ h]

/-- The reaps of a sweep that is not throttled. -/
def sweepEffects (env : Env ρ) (now : UInt64) (g : Gateway ρ) : List Effect :=
  ((g.sessions.entries.map Prod.snd).filter (idle env now)).map fun s => .reaped s.conv now

theorem mem_sweepEffects (hg : Good env g) {now t : UInt64} :
    .reaped c t ∈ sweepEffects env now g ↔ t = now ∧ ∃ s, g.sessions.find c = some s ∧ idle env now s = true := by
  rw [← mem_reapedConvs hg]
  simp only [sweepEffects, reapedConvs, List.mem_map, Effect.reaped.injEq]
  constructor
  · rintro ⟨s, hs, rfl, rfl⟩
    exact ⟨rfl, s, hs, rfl⟩
  · rintro ⟨rfl, s, hs, rfl⟩
    exact ⟨s, hs, rfl, rfl⟩

theorem sweepEffects_quiet (env : Env ρ) (now : UInt64) (g : Gateway ρ) :
    ∀ e ∈ sweepEffects env now g, markOf e = none := by
  intro e he
  obtain ⟨s, _, rfl⟩ := List.mem_map.mp he
  rfl

theorem sweepIdle_log_iff (hg : Good env g) (ht : Times env g) :
    ReapsOnlyIdle env.idleMs (sweepIdle env (env.clock g.ticks) g.tick).log ↔ SweepSafe env g := by
  rw [sweepIdle]
  split_ifs with hthrottled
  · exact iff_of_true ht.reaps fun hn => absurd hthrottled hn
  change ReapsOnlyIdle env.idleMs (g.log ++ sweepEffects env (env.clock g.ticks) g) ↔ _
  rw [reapsOnlyIdle_append_quiet (sweepEffects_quiet env _ g), and_iff_right ht.reaps]
  constructor
  · intro h _ c s hs hd h0 hidle owner t hc
    have hreap : idle env (env.clock g.ticks) s = true := by
      rw [idle_iff (ht.last c s hs), h0]
      exact ⟨hd, UInt64.lt_iff_toNat_lt.mp hidle⟩
    exact h c _ ((mem_sweepEffects hg).mpr ⟨rfl, s, hs, hreap⟩) t ⟨_, hc, rfl⟩
  · intro h c now hr t hm
    obtain ⟨rfl, s, hs, hi⟩ := (mem_sweepEffects hg).mp hr
    obtain ⟨hd, hidle⟩ := (idle_iff (ht.last c s hs)).mp hi
    rcases ht.truthful c s hs with hle | ⟨h0, owner, created, hc, hle⟩
    · have := UInt64.le_iff_toNat_le.mp (hle t hm)
      omega
    · have hlt : env.idleMs < env.clock g.ticks := by
        rw [h0] at hidle
        exact UInt64.lt_iff_toNat_lt.mpr hidle
      have hsafe := h hthrottled c s hs hd h0 hlt owner created hc
      have := UInt64.le_iff_toNat_le.mp (hle t hm)
      omega

theorem sweepIdle_times (hmono : NonDecreasing env.clock) (hg : Good env g) (ht : Times env g)
    (hsafe : SweepSafe env g) : Times env (sweepIdle env (env.clock g.ticks) g.tick) := by
  have hreaps := (sweepIdle_log_iff hg ht).mpr hsafe
  rw [sweepIdle] at hreaps ⊢
  split_ifs at hreaps ⊢ with hthrottled
  · exact ht.silent hmono (Nat.le_succ _) rfl fun c s hs => ⟨s, hs, rfl⟩
  · apply ht.quiet hmono (Nat.le_succ _) rfl (sweepEffects_quiet env (env.clock g.ticks) g) hreaps
    intro c s' hs'
    obtain ⟨s, hs, rfl⟩ := Option.map_eq_some_iff.mp ((find_mapVals ..).symm.trans hs')
    refine ⟨s, hs, ?_⟩
    split_ifs <;> rfl

/-- A run whose sweeps are all safe. -/
def SafeRun (env : Env ρ) : Gateway ρ → List (Event ρ) → Prop
  | _, [] => True
  | g, e :: events => (e = .sweep → SweepSafe env g) ∧ ∀ g', step env g e = .ok g' → SafeRun env g' events

theorem step_times {e : Event ρ} (hmono : NonDecreasing env.clock) (hg : Good env g) (ht : Times env g)
    (hsafe : e = .sweep → SweepSafe env g) (h : step env g e = .ok g') : Times env g' :=
  step_keep (fun h hg ht => act_times h hmono hg ht) (updateActive_times hmono)
    (fun he ht => sweepIdle_times hmono hg ht (hsafe he)) (fun _ => flushTeardown_times hmono) h hg ht

theorem init_times (env : Env ρ) : Times env (.init env) where
  marks _ _ := fun ⟨_, he, _⟩ => absurd he List.not_mem_nil
  last := nofun
  truthful := nofun
  reaps _ _ _ _ he := nomatch (List.append_eq_nil_iff.mp he.symm).2

theorem runEvents_times (hmono : NonDecreasing env.clock) {events : List (Event ρ)} (hg : Good env g)
    (ht : Times env g) (hsafe : SafeRun env g events) (h : runEvents env g events = .ok g') :
    Good env g' ∧ Times env g' := by
  induction events generalizing g with
  | nil =>
      cases h
      exact ⟨hg, ht⟩
  | cons e events ih =>
      rw [runEvents] at h
      split at h
      next => cases h
      next g₁ h₁ => exact ih (step_good h₁ hg) (step_times hmono hg ht hsafe.1 h₁) (hsafe.2 g₁ h₁) h

theorem safe_sweeps_reap_only_idle (env : Env ρ) (hmono : NonDecreasing env.clock) (events : List (Event ρ))
    (g : Gateway ρ) (hrun : runEvents env (.init env) events = .ok g) (hsafe : SafeRun env (.init env) events) :
    ReapsOnlyIdle env.idleMs g.log ∧
      ∀ g', step env g .sweep = .ok g' → (ReapsOnlyIdle env.idleMs g'.log ↔ SweepSafe env g) := by
  obtain ⟨hg, ht⟩ := runEvents_times hmono (init_good env) (init_times env) hsafe hrun
  refine ⟨ht.reaps, fun g' hstep => ?_⟩
  cases hstep
  exact sweepIdle_log_iff hg ht

/-- A clock that stands at `t` at first and at `t'` from its second reading on. -/
def twoReadings (t t' : UInt64) (n : Nat) : UInt64 := if n = 0 then t else t'

theorem twoReadings_nonDecreasing {t t' : UInt64} (h : t ≤ t') : NonDecreasing (twoReadings t t') := by
  intro m n hmn
  simp only [twoReadings]
  split_ifs with hm hn hn
  · exact UInt64.le_refl _
  · exact h
  · omega
  · exact UInt64.le_refl _

def registerAndSweep : List (Event Link) := [.register ⟨1, 1⟩ sampleOutcome.arrange, .sweep]

theorem reaps_idle_after_40_seconds :
    ∃ g, runEvents (sampleEnv (twoReadings 40000 80000)) (.init (sampleEnv (twoReadings 40000 80000)))
        registerAndSweep = .ok g ∧ .reaped 1000 80000 ∈ g.log ∧ ReapsOnlyIdle 30000 g.log := by
  have hrun : ∃ g, runEvents (sampleEnv (twoReadings 40000 80000))
      (.init (sampleEnv (twoReadings 40000 80000))) registerAndSweep = .ok g ∧
      g.log = [.created 1000 ⟨1, 1⟩ 40000, .timer 5, .tunnel 3 ⟨1, 1⟩ (packRegistered 1000), .reaped 1000 80000] :=
    ⟨_, rfl, rfl⟩
  obtain ⟨g, hg, hlog⟩ := hrun
  refine ⟨g, hg, by simp [hlog], (safe_sweeps_reap_only_idle _ (twoReadings_nonDecreasing (by decide)) _ g hg ?_).1⟩
  refine ⟨nofun, fun g₁ h₁ => ⟨fun _ _ c s hs hd h0 hi owner t hc => ?_, fun _ _ => trivial⟩⟩
  cases Except.ok.inj h₁
  have ht : t = 40000 := by
    rcases List.mem_cons.mp hc with hc | hc
    · exact (Effect.created.inj hc).2.2
    · rcases List.mem_cons.mp hc with hc | hc
      · cases hc
      · cases List.mem_singleton.mp hc
  rw [ht]
  decide

theorem fresh_session_reaped :
    ∃ g, runEvents (sampleEnv (twoReadings 100000 100001))
        (.init (sampleEnv (twoReadings 100000 100001))) registerAndSweep = .ok g ∧
      NonDecreasing (twoReadings 100000 100001) ∧ ¬ ReapsOnlyIdle 30000 g.log := by
  refine ⟨_, rfl, twoReadings_nonDecreasing (by decide), fun h => ?_⟩
  have hlt := h [.created 1000 ⟨1, 1⟩ 100000, .timer 5, .tunnel 3 ⟨1, 1⟩ (packRegistered 1000)] 1000 100001 [] rfl 100000
    ⟨_, List.mem_cons_self, rfl⟩
  exact absurd hlt (by decide)

end GameAccelerator.IdleReaping
