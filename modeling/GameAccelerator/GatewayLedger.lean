import GameAccelerator.ConvLedger
import GameAccelerator.SessionInvariant

namespace GameAccelerator.GatewayLedger

open CString Platform Tables NetUtils TunnelProtocol Kcp SessionManager GatewayLoop GatewayMoves SessionInvariant
  ConvLedger WhileLoop

variable {ρ : Type} {env : Env ρ} {src : Endpoint} {c : UInt32} {s s' : Session ρ} {g g' : Gateway ρ}
  {effects : List Effect}

/-- The convs that have been given out, with their clients. -/
def registrations (log : List Effect) : List (UInt32 × Endpoint) :=
  log.filterMap fun
    | .created c owner _ => some (c, owner)
    | _ => none

theorem registrations_append (l₁ l₂ : List Effect) :
    registrations (l₁ ++ l₂) = registrations l₁ ++ registrations l₂ :=
  List.filterMap_append

theorem registrations_eq_nil (h : ∀ e ∈ effects, ∀ c owner t, e ≠ .created c owner t) :
    registrations effects = [] := by
  apply List.filterMap_eq_nil_iff.mpr
  intro e he
  cases e with
  | created c owner t => exact absurd rfl (h _ he c owner t)
  | _ => rfl

def ledger (g : Gateway ρ) : Ledger Endpoint :=
  ⟨registrations g.log, g.nextConv, fun c => (g.sessions.find c).map Session.clientAddr⟩

theorem ledger_emit (h : registrations effects = []) : ledger (g.emit effects) = ledger g := by
  rw [ledger, ledger, emit_log, registrations_append, h, List.append_nil]
  rfl

theorem ledger_put (hs : g.sessions.find c = some s) (ho : s'.clientAddr = s.clientAddr) :
    ledger (g.put c s') = ledger g := by
  simp only [ledger, Ledger.mk.injEq]
  refine ⟨rfl, rfl, funext fun c' => ?_⟩
  by_cases hc : c' = c
  · rw [hc, find_put (Option.isSome_iff_exists.mpr ⟨s, hs⟩), hs]
    exact congrArg some ho
  · rw [Gateway.put, find_modify_of_ne hc]

theorem registrations_kcpOutput (ks : KcpSession ρ) (packets : List Bytes) :
    registrations (kcpOutput ks packets) = [] := by
  apply registrations_eq_nil
  intro e he c owner t
  obtain ⟨m, _, rfl⟩ := List.mem_map.mp he
  exact nofun

theorem ledger_withSession (env : Env ρ) (arrange : Arrangement UInt32 (Session ρ)) (src : Endpoint)
    (hs : g.sessions.find c = none) : ledger (withSession env arrange g src c) = (ledger g).give c src := by
  simp only [ledger, Ledger.give, Ledger.mk.injEq]
  refine ⟨registrations_append g.log _, rfl, funext fun c' => ?_⟩
  rw [find_withSession hs, Function.update_apply]
  split_ifs <;> rfl

theorem act_ledger (h : Act env src c g g') :
    ledger g' = ledger g ∨ pendingOf g src = none ∧ g.sessions.find c = none ∧
      allocConv g = some (c, { g with nextConv := c + 1 }) ∧ ledger g' = (ledger g).give c src := by
  cases h with
  | created hs hp ha arrange => exact .inr ⟨hp, hs, ha, ledger_withSession env arrange src hs⟩
  | pool | clock => exact .inl rfl
  | note hs ho hd marks hm =>
      refine .inl (ledger_emit (registrations_eq_nil fun e he => ?_))
      rcases hm e he with ⟨m, rfl⟩ | ⟨m, rfl⟩ <;> exact nofun
  | kcp hs ho hd k hk packets => exact .inl ((ledger_emit (registrations_kcpOutput _ packets)).trans (ledger_put hs rfl))
  | active hs ho hd marks hm =>
      refine .inl ((ledger_emit (registrations_eq_nil fun e he => ?_)).trans (ledger_put hs rfl))
      rcases hm e he with rfl | rfl <;> exact nofun
  | killed hs ho hd =>
      rename_i s
      exact .inl (ledger_put (g := (markDying s g).2) hs rfl)
  | noSocket hs => exact .inl (ledger_put hs rfl)
  | connected hs ho hd hp addr fd hfd hfresh =>
      refine .inl ((ledger_emit rfl).trans ?_)
      exact ledger_put (g := { g with openFds := fd :: g.openFds, fdToSession := emplaceFd g.fdToSession fd c }) hs rfl
  | relayed | timer | answered => exact .inl (ledger_emit rfl)

theorem allocConv_of_free (h : g.sessions.find g.nextConv = none) :
    allocConv g = some (g.nextConv, { g with nextConv := g.nextConv + 1 }) := by
  rw [allocConv, whileLoop_false]
  · rfl
  · rw [h]
    rfl

/-- As long as there have not been too many registrations. -/
def LedgerKept (lost : UInt32 × Endpoint → Prop) (g : Gateway ρ) : Prop :=
  (registrations g.log).length < UInt32.size → Kept lost (ledger g)

variable {lost : UInt32 × Endpoint → Prop}

theorem act_kept (h : Act env src c g g') (hk : LedgerKept lost g) : LedgerKept lost g' := by
  intro hfew
  rcases act_ledger h with hl | ⟨_, _, ha, hl⟩
  · have hg : registrations g'.log = registrations g.log := congrArg Ledger.given hl
    rw [hl]
    exact hk (hg ▸ hfew)
  · have hlt : (registrations g.log).length < UInt32.size := by
      have hg : registrations g'.log = registrations g.log ++ [(c, src)] := congrArg Ledger.given hl
      rw [hg, List.length_append] at hfew
      exact Nat.lt_of_le_of_lt (Nat.le_add_right _ _) hfew
    have hfree : g.sessions.find g.nextConv = none := Option.map_eq_none_iff.mp ((hk hlt).next_free hlt)
    cases (allocConv_of_free hfree).symm.trans ha
    rw [hl]
    exact (hk hlt).give hlt src

theorem updateActive_ledger (env : Env ρ) (g : Gateway ρ) : ledger (updateActive env g) = ledger g := by
  have hout : registrations (g.sessions.entries.flatMap fun e => if e.2.dying then [] else kcpOutput e.2.kcp
      (ikcpUpdate env.kcp e.2.kcp.kcp (env.clock g.ticks).toUInt32).2) = [] := by
    apply registrations_eq_nil
    intro e he c owner t
    obtain ⟨x, _, he⟩ := List.mem_flatMap.mp he
    split_ifs at he
    · exact absurd he List.not_mem_nil
    · obtain ⟨m, _, rfl⟩ := List.mem_map.mp he
      exact nofun
  simp only [ledger, updateActive, emit_log, tick_log, registrations_append, hout, List.append_nil, Ledger.mk.injEq,
    find_mapVals, Option.map_map]
  refine ⟨trivial, rfl, funext fun c => congrFun (congrArg _ (funext fun s => ?_)) _⟩
  simp only [Function.comp_apply]
  split_ifs <;> rfl

theorem sweepIdle_ledger (env : Env ρ) (now : UInt64) (g : Gateway ρ) : ledger (sweepIdle env now g) = ledger g := by
  rw [sweepIdle]
  split_ifs
  · rfl
  · have hnil : registrations (((g.sessions.entries.map Prod.snd).filter (idle env now)).map fun s =>
        .reaped s.conv now) = [] := by
      apply registrations_eq_nil
      intro e he c owner t h
      obtain ⟨_, _, rfl⟩ := List.mem_map.mp he
      cases h
    simp only [ledger, registrations_append, hnil, List.append_nil, find_mapVals, Option.map_map, Ledger.mk.injEq,
      true_and]
    refine funext fun c => congrFun (congrArg _ (funext fun s => ?_)) _
    simp only [Function.comp_apply]
    split_ifs <;> rfl

theorem flushTeardown_ledger (g : Gateway ρ) : ledger (flushTeardown g) =
    { ledger g with holder := fun c => if c ∈ g.toErase then none else (g.sessions.find c).map Session.clientAddr } := by
  obtain ⟨l, hl, hup⟩ := flushTeardown_log g
  have hnil : registrations l = [] := by
    apply registrations_eq_nil
    intro e he c owner t h
    cases h ▸ hup e he
  simp only [ledger, hl, registrations_append, hnil, List.append_nil, Ledger.mk.injEq, true_and]
  refine ⟨(foldl_teardown_rest g.toErase g).2, funext fun c => ?_⟩
  rw [find_flushTeardown]
  split_ifs <;> rfl

theorem flushTeardown_kept (hlost : ∀ c s, c ∈ g.toErase → g.sessions.find c = some s → lost (c, s.clientAddr))
    (hk : LedgerKept lost g) : LedgerKept lost (flushTeardown g) := by
  have he := flushTeardown_ledger g
  have hreg : registrations (flushTeardown g).log = registrations g.log := congrArg Ledger.given he
  intro hfew
  rw [he]
  refine (hk (hreg ▸ hfew)).lose (fun _ => id) (fun c e h => ?_) fun c e h => ?_
  · split_ifs at h
    exact h
  · obtain ⟨s, hs, rfl⟩ := Option.map_eq_some_iff.mp h
    split_ifs with hc
    · exact .inl (hlost c s hc hs)
    · exact .inr h

end GameAccelerator.GatewayLedger
