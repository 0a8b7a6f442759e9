import Mathlib.Data.List.Lex
import Mathlib.Data.List.TakeWhile
import Mathlib.Order.Basic

namespace GameAccelerator.CString

abbrev Bytes := List UInt8

/-- What a `char *` argument denotes: the bytes in front of the terminator. -/
structure CStr where
  bytes : Bytes
  noNul : 0 ∉ bytes
  deriving DecidableEq

def ascii (s : String) : Bytes := s.toList.map (fun c => c.toNat.toUInt8)

theorem CStr.bytes_injective : Function.Injective CStr.bytes := by
  rintro ⟨a, ha⟩ ⟨b, hb⟩ rfl
  rfl

theorem toNat_injective : Function.Injective (List.map UInt8.toNat) :=
  List.map_injective_iff.mpr fun _ _ h => UInt8.toNat_inj.mp h

instance CStr.linearOrder : LinearOrder CStr :=
  LinearOrder.lift' (fun s => s.bytes.map UInt8.toNat) (toNat_injective.comp CStr.bytes_injective)

instance CStr.lt : LT CStr := CStr.linearOrder.toPartialOrder.toPreorder.toLT

/-- Bytes compare as `unsigned char`; the end of a list stands for the NUL. -/
def strcmpBytes : Bytes → Bytes → Int
  | [], [] => 0
  | [], b :: _ => -(b.toNat : Int)
  | a :: _, [] => a.toNat
  | a :: s, b :: t => if a = b then strcmpBytes s t else (a.toNat : Int) - b.toNat

def strcmp (a b : CStr) : Int := strcmpBytes a.bytes b.bytes

theorem toNat_pos {a : UInt8} (h : 0 ≠ a) : 0 < a.toNat := by
  rcases Nat.eq_zero_or_pos a.toNat with hz | hp
  · exact absurd (UInt8.toNat_inj.mp hz).symm h
  · exact hp

theorem strcmpBytes_spec (s t : Bytes) (hs : 0 ∉ s) (ht : 0 ∉ t) :
    (strcmpBytes s t = 0 ↔ s = t) ∧
      (strcmpBytes s t < 0 ↔ s.map UInt8.toNat < t.map UInt8.toNat) := by
  induction s generalizing t with
  | nil =>
      cases t with
      | nil => simp [strcmpBytes]
      | cons b t =>
          have hb := toNat_pos (List.ne_of_not_mem_cons ht)
          simp only [strcmpBytes, List.map_nil, List.map_cons, List.nil_lt_cons, iff_true]
          constructor
          · constructor
            · intro h; omega
            · intro h; cases h
          · omega
  | cons a s ih =>
      cases t with
      | nil =>
          have ha := toNat_pos (List.ne_of_not_mem_cons hs)
          simp only [strcmpBytes, List.map_nil, List.map_cons, List.not_lt_nil, iff_false]
          constructor
          · constructor
            · intro h; omega
            · intro h; cases h
          · omega
      | cons b t =>
          obtain ⟨h0, hlt⟩ := ih t (fun h => hs (List.mem_cons_of_mem _ h))
            (fun h => ht (List.mem_cons_of_mem _ h))
          by_cases hab : a = b
          · subst b
            simp only [strcmpBytes, if_pos, List.cons.injEq, true_and, List.map_cons,
              List.cons_lt_cons_iff, lt_irrefl, false_or]
            exact ⟨h0, hlt⟩
          · have hn : a.toNat ≠ b.toNat := fun h => hab (UInt8.toNat_inj.mp h)
            simp only [strcmpBytes, List.cons.injEq, hab, false_and, iff_false, if_false,
              List.map_cons, List.cons_lt_cons_iff, hn, or_false]
            omega

theorem strcmp_eq_zero {a b : CStr} : strcmp a b = 0 ↔ a = b :=
  (strcmpBytes_spec a.bytes b.bytes a.noNul b.noNul).1.trans CStr.bytes_injective.eq_iff

theorem strcmp_neg {a b : CStr} : strcmp a b < 0 ↔ a < b :=
  (strcmpBytes_spec a.bytes b.bytes a.noNul b.noNul).2

theorem strcmp_pos {a b : CStr} : 0 < strcmp a b ↔ b < a := by
  have h0 := strcmp_eq_zero (a := a) (b := b)
  have hn := strcmp_neg (a := a) (b := b)
  constructor
  · intro h
    rcases lt_trichotomy a b with hl | he | hg
    · have := hn.mpr hl; omega
    · have := h0.mpr he; omega
    · exact hg
  · intro h
    have h1 : strcmp a b ≠ 0 := fun he => (ne_of_gt h) (h0.mp he)
    have h2 : ¬ strcmp a b < 0 := fun hl => lt_asymm h (hn.mp hl)
    omega

/-- The string that a pointer to offset `off` of a memory region denotes. -/
def cstrAt (mem : Bytes) (off : Nat) : CStr :=
  ⟨(mem.drop off).takeWhile (· != 0), fun h => by simpa using List.mem_takeWhile_imp h⟩

theorem cstrAt_append (q w r : Bytes) (hw : 0 ∉ w) : (cstrAt (q ++ w ++ 0 :: r) q.length).bytes = w := by
  have hall : ∀ c ∈ w, (c != 0) = true := fun c hc => by
    simpa using fun h : c = 0 => hw (h ▸ hc)
  simp [cstrAt, List.append_assoc, List.takeWhile_append_of_pos hall]

/-- `strtok` keeps its place between calls; here it also carries the region
it writes its NULs into. -/
structure Strtok where
  mem : Bytes
  save : Nat

/-- One call of `strtok(.., " ")` continuing at the saved place: skip the
separators, give up at the terminator, else cut the token off with a NUL. -/
def strtok (st : Strtok) : Option Nat × Strtok :=
  let s := st.save + ((st.mem.drop st.save).takeWhile (· == 32)).length
  if st.mem.getD s 0 = 0 then (none, ⟨st.mem, s⟩)
  else
    let e := s + ((st.mem.drop s).takeWhile (fun c => c != 32 && c != 0)).length
    if st.mem.getD e 0 = 0 then (some s, ⟨st.mem, e⟩)
    else (some s, ⟨st.mem.set e 0, e + 1⟩)

end GameAccelerator.CString
