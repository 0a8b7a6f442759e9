import GameAccelerator.GatewayMoves
import GameAccelerator.Probing

namespace GameAccelerator.ConvAllocation

open Platform Tables NetUtils Kcp LosslessKcp SessionManager GatewayLoop GatewayMoves WhileLoop

variable {ρ : Type} {g : Gateway ρ}

theorem shift_succ (c : UInt32) (k : Nat) : c + .ofNat k + 1 = c + .ofNat (k + 1) := by
  rw [UInt32.add_assoc, UInt32.ofNat_add]
  rfl

theorem shift_sub (c : UInt32) {k : Nat} (hk : k < UInt32.size) : (c + .ofNat k - c).toNat = k := by
  have hadd : c + .ofNat k - c = .ofNat k := by
    rw [UInt32.add_comm, UInt32.add_sub_cancel]
  rw [hadd, UInt32.toNat_ofNat']
  exact Nat.mod_eq_of_lt hk

theorem shift_inj {c : UInt32} {i j : Nat} (hi : i < UInt32.size) (hj : j < UInt32.size)
    (h : c + .ofNat i = c + .ofNat j) : i = j := by
  rw [← shift_sub c hi, h, shift_sub c hj]

theorem find_isSome {c : UInt32} : (g.sessions.find c).isSome ↔ c ∈ g.sessions.entries.map Prod.fst := by
  rw [Option.isSome_iff_ne_none, ne_eq, find_eq_none, not_not]

/-- The loop ends at the first conv from `next_conv_` on that is not in use. -/
theorem allocConv_first (hfew : g.sessions.entries.length < UInt32.size) :
    ∃ k < UInt32.size, g.sessions.find (g.nextConv + .ofNat k) = none ∧
      (∀ j < k, (g.sessions.find (g.nextConv + .ofNat j)).isSome) ∧
      allocConv g = some (g.nextConv + .ofNat k, { g with nextConv := g.nextConv + .ofNat k + 1 }) := by
  have hlen : (g.sessions.entries.map Prod.fst).length = g.sessions.entries.length := List.length_map _
  rw [← hlen] at hfew
  obtain ⟨k, hk, hfree, hbefore⟩ := @Probing.exists_first_free _ (fun k => g.nextConv + .ofNat k)
    (g.sessions.entries.map Prod.fst) _
    (fun i hi j hj h => shift_inj (Nat.lt_of_le_of_lt hi hfew) (Nat.lt_of_le_of_lt hj hfew) h)
  have hnone : g.sessions.find (g.nextConv + .ofNat k) = none := find_eq_none.mpr hfree
  have htaken : ∀ j < k, (g.sessions.find (g.nextConv + .ofNat j)).isSome :=
    fun j hj => find_isSome.mpr (hbefore j hj)
  refine ⟨k, Nat.lt_of_le_of_lt hk hfew, hnone, htaken, ?_⟩
  have hloop := @whileLoop_first _ (fun c => (g.sessions.find c).isSome) (· + 1) (fun j => g.nextConv + .ofNat j) k
    (g.sessions.entries.length + 1) (fun j hj => ⟨htaken j hj, shift_succ _ j⟩) (by rw [hnone]; rfl)
    ((hk.trans_eq hlen).trans (Nat.le_succ _))
  have hzero : g.nextConv + .ofNat 0 = g.nextConv := UInt32.add_zero _
  rw [hzero] at hloop
  rw [allocConv, hloop]
  rfl

theorem eq_shift (c d : UInt32) : d = c + .ofNat (d - c).toNat := by
  rw [UInt32.ofNat_toNat, UInt32.add_comm, UInt32.sub_add_cancel]

/-- A registration of a new client takes a conv and returns. -/
theorem registerClient_of_few (env : Env ρ) (arrange : Arrangement UInt32 (Session ρ)) (src : Endpoint)
    (hfew : g.sessions.entries.length < UInt32.size) : ∃ g', registerClient env arrange g src = .ok g' := by
  obtain ⟨k, _, _, _, halloc⟩ := allocConv_first hfew
  rw [registerClient]
  cases pendingOf g src with
  | some o => exact ⟨_, rfl⟩
  | none =>
      rw [halloc]
      exact ⟨_, rfl⟩

/-- The conv is the unused one at the least distance from `next_conv_`, counting
upwards and through zero. -/
theorem alloc_conv_takes_first_unused (g : Gateway ρ) (hfew : g.sessions.entries.length < UInt32.size) :
    ∃ conv, allocConv g = some (conv, { g with nextConv := conv + 1 }) ∧
      conv ∉ g.sessions.entries.map Prod.fst ∧
      (∀ c ∉ g.sessions.entries.map Prod.fst, (conv - g.nextConv).toNat ≤ (c - g.nextConv).toNat) ∧
      (conv + 1).toNat = (conv.toNat + 1) % UInt32.size := by
  obtain ⟨k, hk, hfree, htaken, halloc⟩ := allocConv_first hfew
  refine ⟨_, halloc, find_eq_none.mp hfree, fun c hc => ?_, ?_⟩
  · rw [shift_sub _ hk]
    by_contra hlt
    apply hc
    apply find_isSome.mp
    rw [eq_shift g.nextConv c]
    exact htaken _ (Nat.lt_of_not_le hlt)
  · rw [UInt32.toNat_add, UInt32.toNat_one]

/-- The counter has come to the last conv, which is taken like the one after it. -/
def lastConvTaken : Gateway Link :=
  { Gateway.init (sampleEnv .ofNat) with
    sessions := ⟨[(0, newSession lossless 3 0 ⟨1, 1⟩),
      (4294967295, { newSession lossless 3 4294967295 ⟨2, 2⟩ with dying := true })], by decide⟩
    nextConv := 4294967295 }

theorem alloc_conv_takes_first_unused_wraps :
    (allocConv lastConvTaken).map Prod.fst = some 1 ∧
      ∃ conv, allocConv lastConvTaken = some (conv, { lastConvTaken with nextConv := conv + 1 }) ∧
        (∀ c ∉ lastConvTaken.sessions.entries.map Prod.fst,
          (conv - lastConvTaken.nextConv).toNat ≤ (c - lastConvTaken.nextConv).toNat) := by
  have hfew : lastConvTaken.sessions.entries.length < UInt32.size := by decide
  obtain ⟨conv, halloc, _, hfirst, _⟩ := alloc_conv_takes_first_unused lastConvTaken hfew
  exact ⟨rfl, conv, halloc, hfirst⟩

end GameAccelerator.ConvAllocation
