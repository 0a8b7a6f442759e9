import Mathlib.Data.List.Nodup
import Mathlib.Logic.Function.Basic

namespace GameAccelerator.ConvLedger

variable {α : Type}

/-- Which convs have been given out and to whom, in this order, which is next
and who holds one now. -/
structure Ledger (α : Type) where
  given : List (UInt32 × α)
  next : UInt32
  holder : UInt32 → Option α

def convAt (i : Nat) : UInt32 := .ofNat (1000 + i)

theorem convAt_inj {i j : Nat} (hi : i < UInt32.size) (hj : j < UInt32.size) (h : convAt i = convAt j) : i = j := by
  have hn := congrArg UInt32.toNat h
  simp only [convAt, UInt32.toNat_ofNat', UInt32.size] at hn hi hj
  omega

theorem convAt_succ (i : Nat) : convAt i + 1 = convAt (i + 1) := by
  apply UInt32.toNat_inj.mp
  simp only [convAt, UInt32.toNat_add, UInt32.toNat_ofNat', UInt32.toNat_one]
  omega

def Ledger.give (x : Ledger α) (c : UInt32) (e : α) : Ledger α :=
  ⟨x.given ++ [(c, e)], c + 1, Function.update x.holder c (some e)⟩

/-- The convs count up, and a conv is held by the one it was given to unless it
is among the `lost` ones. -/
structure Kept (lost : UInt32 × α → Prop) (x : Ledger α) : Prop where
  convs : x.given.map Prod.fst = (List.range x.given.length).map convAt
  next : x.next = convAt x.given.length
  held : ∀ c e, x.holder c = some e → (c, e) ∈ x.given
  kept : ∀ c e, (c, e) ∈ x.given → lost (c, e) ∨ x.holder c = some e

namespace Kept

variable {lost : UInt32 × α → Prop} {x : Ledger α} (h : Kept lost x) (hfew : x.given.length < UInt32.size)

include h hfew

theorem same_holder {c : UInt32} {e e' : α} (he : (c, e) ∈ x.given) (he' : (c, e') ∈ x.given) : e = e' := by
  have hnodup : (x.given.map Prod.fst).Nodup := by
    rw [h.convs]
    refine List.Nodup.map_on (fun i hi j hj hij => ?_) List.nodup_range
    exact convAt_inj (Nat.lt_trans (List.mem_range.mp hi) hfew) (Nat.lt_trans (List.mem_range.mp hj) hfew) hij
  exact congrArg Prod.snd (List.inj_on_of_nodup_map hnodup he he' rfl)

theorem next_free : x.holder x.next = none := by
  apply Option.eq_none_iff_forall_ne_some.mpr
  intro e he
  have hm := List.mem_map_of_mem (f := Prod.fst) (h.held _ e he)
  rw [h.convs, h.next] at hm
  obtain ⟨i, hi, hc⟩ := List.mem_map.mp hm
  have hlt := List.mem_range.mp hi
  exact absurd (convAt_inj (Nat.lt_trans hlt hfew) hfew hc) (Nat.ne_of_lt hlt)

theorem give (e : α) : Kept lost (x.give x.next e) := by
  refine ⟨?_, ?_, fun c e' he => ?_, fun c e' he => ?_⟩
  · simp only [Ledger.give, List.map_append, List.length_append, h.convs, List.range_succ, List.length_singleton]
    rw [h.next]
    rfl
  · simp only [Ledger.give, List.length_append, List.length_singleton]
    rw [h.next, convAt_succ]
  · simp only [Ledger.give, Function.update_apply] at he
    split_ifs at he with hc
    · cases he
      exact hc ▸ List.mem_append_right _ List.mem_cons_self
    · exact List.mem_append_left _ (h.held c e' he)
  · simp only [Ledger.give, Function.update_apply]
    rcases List.mem_append.mp he with he | he
    · apply (h.kept c e' he).imp_right
      intro hold
      rwa [if_neg]
      rintro rfl
      cases (h.next_free hfew).symm.trans hold
    · cases List.mem_singleton.mp he
      exact .inr (if_pos rfl)

omit hfew

theorem lose {lost' : UInt32 × α → Prop} {holder : UInt32 → Option α} (hmono : ∀ p, lost p → lost' p)
    (hsub : ∀ c e, holder c = some e → x.holder c = some e)
    (hlost : ∀ c e, x.holder c = some e → lost' (c, e) ∨ holder c = some e) :
    Kept lost' { x with holder := holder } := by
  refine ⟨h.convs, h.next, fun c e he => h.held c e (hsub c e he), fun c e he => ?_⟩
  rcases h.kept c e he with hl | hh
  · exact .inl (hmono _ hl)
  · exact hlost c e hh

end Kept

end GameAccelerator.ConvLedger
