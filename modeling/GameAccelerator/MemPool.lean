import Mathlib.Data.List.Perm.Basic
import Mathlib.Data.List.Nodup
import Mathlib.Data.List.Range
import Mathlib.Logic.Function.Basic

namespace GameAccelerator.MemPool

/-- Blocks go by their number. `next` is the first word of each block: the link
of a free block, and whatever was written there in a block that is in use. -/
structure MemoryPool where
  next : Nat → Option Nat
  freeHead : Option Nat

def MemoryPool.free (p : MemoryPool) : Option Nat → MemoryPool
  | none => p
  | some b => ⟨Function.update p.next b p.freeHead, some b⟩

def MemoryPool.alloc (p : MemoryPool) : Option Nat × MemoryPool :=
  match p.freeHead with
  | none => (none, p)
  | some b => (some b, { p with freeHead := p.next b })

/-- The constructor links the blocks in the way `free` does. -/
def MemoryPool.create (cap : Nat) (storage : Nat → Option Nat) : MemoryPool :=
  (List.range cap).foldl (fun p i => p.free (some i)) ⟨storage, none⟩

def MemoryPool.write (p : MemoryPool) (b : Nat) (word : Option Nat) : MemoryPool :=
  { p with next := Function.update p.next b word }

/-- The list that the links spell from a head on. -/
def Chain (next : Nat → Option Nat) : Option Nat → List Nat → Prop
  | head, [] => head = none
  | head, b :: l => head = some b ∧ Chain next (next b) l

def MemoryPool.Lists (p : MemoryPool) (l : List Nat) : Prop := Chain p.next p.freeHead l

variable {p : MemoryPool} {l : List Nat} {b cap : Nat}

theorem chain_update {next : Nat → Option Nat} {head : Option Nat} (word : Option Nat) (hb : b ∉ l)
    (h : Chain next head l) : Chain (Function.update next b word) head l := by
  induction l generalizing head with
  | nil => exact h
  | cons c l ih =>
      obtain ⟨hne, hb⟩ : b ≠ c ∧ b ∉ l := by simpa using hb
      refine ⟨h.1, ?_⟩
      rw [Function.update_of_ne (Ne.symm hne)]
      exact ih hb h.2

theorem free_lists (hb : b ∉ l) (h : p.Lists l) : (p.free (some b)).Lists (b :: l) := by
  refine ⟨rfl, ?_⟩
  change Chain (Function.update p.next b p.freeHead) (Function.update p.next b p.freeHead b) l
  rw [Function.update_self]
  exact chain_update _ hb h

theorem write_lists (word : Option Nat) (hb : b ∉ l) (h : p.Lists l) : (p.write b word).Lists l :=
  chain_update word hb h

theorem alloc_lists (h : p.Lists (b :: l)) : p.alloc.1 = some b ∧ p.alloc.2.Lists l := by
  rw [MemoryPool.alloc, h.1]
  exact ⟨rfl, h.2⟩

theorem create_lists (cap : Nat) (storage : Nat → Option Nat) :
    (MemoryPool.create cap storage).Lists (List.range cap).reverse := by
  induction cap with
  | zero => rfl
  | succ n ih =>
      rw [MemoryPool.create, List.range_succ, List.foldl_append, List.reverse_append, ← MemoryPool.create]
      exact free_lists (by simp) ih

/-- The pool operations of a function, in the order in which it makes them; the
rest of what it does stands between them. -/
inductive Prog (α : Type) : Type
  | done (a : α)
  | alloc (k : Option Nat → Prog α)
  | free (b : Nat) (k : Prog α)
  | write (b : Nat) (word : Option Nat) (k : Prog α)

/-- The pool, with the blocks that have been handed out and not given back. -/
structure Use where
  pool : MemoryPool
  held : List Nat

def Use.alloc (u : Use) : Use := ⟨u.pool.alloc.2, u.pool.alloc.1.toList ++ u.held⟩

def Use.free (u : Use) (b : Nat) : Use := ⟨u.pool.free (some b), u.held.erase b⟩

def Use.write (u : Use) (b : Nat) (word : Option Nat) : Use := { u with pool := u.pool.write b word }

variable {α β : Type}

def Prog.run : Prog α → Use → α × Use
  | .done a, u => (a, u)
  | .alloc k, u => (k u.pool.alloc.1).run u.alloc
  | .free b k, u => k.run (u.free b)
  | .write b word k, u => k.run (u.write b word)

/-- Every state on the way, the first and the last included. -/
def Prog.points : Prog α → Use → List Use
  | .done _, u => [u]
  | .alloc k, u => u :: (k u.pool.alloc.1).points u.alloc
  | .free b k, u => u :: k.points (u.free b)
  | .write b word k, u => u :: k.points (u.write b word)

/-- The same on the free list alone, without links and contents. -/
def Prog.runList : Prog α → List Nat → α × List Nat
  | .done a, l => (a, l)
  | .alloc k, [] => (k none).runList []
  | .alloc k, b :: l => (k (some b)).runList l
  | .free b k, l => k.runList (b :: l)
  | .write _ _ k, l => k.runList l

/-- Some `alloc` on the way returns NULL. -/
def Prog.starves : Prog α → Use → Bool
  | .done _, _ => false
  | .alloc k, u => u.pool.alloc.1.isNone || (k u.pool.alloc.1).starves u.alloc
  | .free b k, u => k.starves (u.free b)
  | .write b word k, u => k.starves (u.write b word)

def Prog.bind : Prog α → (α → Prog β) → Prog β
  | .done a, f => f a
  | .alloc k, f => .alloc fun b => (k b).bind f
  | .free b k, f => .free b (k.bind f)
  | .write b word k, f => .write b word (k.bind f)

/-- The free list is `l`, and every block is in it or held, and only once. -/
structure Splits (cap : Nat) (u : Use) (l : List Nat) : Prop where
  lists : u.pool.Lists l
  blocks : (l ++ u.held).Perm (List.range cap)

/-- The program writes and frees only what it holds, never holds more than
`limit` blocks, and ends with `Q`. -/
def Prog.Meets (limit : Nat) : Prog α → List Nat → (α → List Nat → Prop) → Prop
  | .done a, held, Q => Q a held
  | .alloc k, held, Q => held.length < limit ∧ ∀ b, b ∉ held → (k (some b)).Meets limit (b :: held) Q
  | .free b k, held, Q => b ∈ held ∧ k.Meets limit (held.erase b) Q
  | .write b _ k, held, Q => b ∈ held ∧ k.Meets limit held Q

variable {limit : Nat} {u : Use} {prog : Prog α} {Q : α → List Nat → Prop} {held : List Nat}

theorem Prog.Meets.bind {f : α → Prog β} {Q' : β → List Nat → Prop}
    (h : prog.Meets limit held fun a held => (f a).Meets limit held Q') : (prog.bind f).Meets limit held Q' := by
  induction prog generalizing held with
  | done a => exact h
  | alloc k ih => exact ⟨h.1, fun b hb => ih (some b) (h.2 b hb)⟩
  | free b k ih => exact ⟨h.1, ih h.2⟩
  | write b word k ih => exact ⟨h.1, ih h.2⟩

theorem Prog.Meets.mono {Q' : α → List Nat → Prop} (h : prog.Meets limit held Q) (hQ : ∀ a held, Q a held → Q' a held) :
    prog.Meets limit held Q' := by
  induction prog generalizing held with
  | done a => exact hQ a held h
  | alloc k ih => exact ⟨h.1, fun b hb => ih (some b) (h.2 b hb)⟩
  | free b k ih => exact ⟨h.1, ih h.2⟩
  | write b word k ih => exact ⟨h.1, ih h.2⟩

theorem runList_bind (prog : Prog α) (f : α → Prog β) (l : List Nat) :
    (prog.bind f).runList l = (f (prog.runList l).1).runList (prog.runList l).2 := by
  induction prog generalizing l with
  | done a => rfl
  | alloc k ih => cases l <;> exact ih _ _
  | free b k ih => exact ih _
  | write b word k ih => exact ih _

theorem create_splits (cap : Nat) (storage : Nat → Option Nat) :
    Splits cap ⟨MemoryPool.create cap storage, []⟩ (List.range cap).reverse := by
  refine ⟨create_lists cap storage, ?_⟩
  rw [List.append_nil]
  exact List.reverse_perm _

theorem Splits.nodup (h : Splits cap u l) : (l ++ u.held).Nodup := h.blocks.nodup_iff.mpr List.nodup_range

theorem Splits.not_free (h : Splits cap u l) (hb : b ∈ u.held) : b ∉ l := fun hl =>
  List.disjoint_of_nodup_append h.nodup hl hb

theorem Splits.alloc (h : Splits cap u l) (hlt : u.held.length < cap) :
    ∃ b l', l = b :: l' ∧ u.pool.alloc.1 = some b ∧ b ∉ u.held ∧ u.alloc.held = b :: u.held ∧ Splits cap u.alloc l' := by
  cases l with
  | nil =>
      have hlen := h.blocks.length_eq
      rw [List.nil_append, List.length_range] at hlen
      omega
  | cons b l =>
      obtain ⟨hb, hl⟩ := alloc_lists h.lists
      have hfresh := (List.nodup_cons.mp h.nodup).1
      have hheld : u.alloc.held = b :: u.held := by rw [Use.alloc, hb]; rfl
      refine ⟨b, l, rfl, hb, fun hm => hfresh (List.mem_append_right l hm), hheld, hl, ?_⟩
      rw [hheld]
      exact List.perm_middle.trans h.blocks

theorem Splits.free (h : Splits cap u l) (hb : b ∈ u.held) : Splits cap (u.free b) (b :: l) := by
  refine ⟨free_lists (h.not_free hb) h.lists, List.Perm.trans ?_ h.blocks⟩
  exact List.perm_middle.symm.trans ((List.perm_cons_erase hb).symm.append_left l)

theorem Splits.write (h : Splits cap u l) (word : Option Nat) (hb : b ∈ u.held) : Splits cap (u.write b word) l :=
  ⟨write_lists word (h.not_free hb) h.lists, h.blocks⟩

/-- What is known of every state on the way and of the last one. -/
structure Sound (limit cap : Nat) (prog : Prog α) (u : Use) (l : List Nat) (Q : α → List Nat → Prop) : Prop where
  points : ∀ p ∈ prog.points u, p.held.length ≤ limit ∧ ∃ l, Splits cap p l
  fed : prog.starves u = false
  final : Q (prog.run u).1 (prog.run u).2.held
  value : (prog.run u).1 = (prog.runList l).1
  splits : Splits cap (prog.run u).2 (prog.runList l).2

/-- A disciplined program finds a block at each `alloc` and loses none. -/
theorem Prog.Meets.sound (h : prog.Meets limit u.held Q) (hlimit : limit ≤ cap) (hs : Splits cap u l)
    (hlen : u.held.length ≤ limit) : Sound limit cap prog u l Q := by
  have hhere : u.held.length ≤ limit ∧ ∃ l, Splits cap u l := ⟨hlen, l, hs⟩
  induction prog generalizing u l with
  | done a => exact ⟨fun p hp => List.mem_singleton.mp hp ▸ hhere, rfl, h, rfl, hs⟩
  | alloc k ih =>
      obtain ⟨b, l', rfl, hb, hfresh, hheld, hs'⟩ := hs.alloc (h.1.trans_le hlimit)
      have hk : (k u.pool.alloc.1).Meets limit u.alloc.held Q := by
        rw [hb, hheld]
        exact h.2 b hfresh
      have hlen' : u.alloc.held.length ≤ limit := by
        rw [hheld]
        exact h.1
      obtain ⟨hpoints, hfed, hfinal, hvalue, hsplits⟩ := ih u.pool.alloc.1 hk hs' hlen' ⟨hlen', _, hs'⟩
      refine ⟨List.forall_mem_cons.mpr ⟨hhere, hpoints⟩, ?_, hfinal, ?_, ?_⟩
      · rw [Prog.starves, hfed, hb]
        rfl
      · rw [Prog.runList, ← hb]
        exact hvalue
      · rw [Prog.runList, ← hb]
        exact hsplits
  | free b k ih =>
      have hlen' : (u.free b).held.length ≤ limit := List.length_erase_le.trans hlen
      obtain ⟨hpoints, hfed, hfinal, hvalue, hsplits⟩ := ih h.2 (hs.free h.1) hlen' ⟨hlen', _, hs.free h.1⟩
      exact ⟨List.forall_mem_cons.mpr ⟨hhere, hpoints⟩, hfed, hfinal, hvalue, hsplits⟩
  | write b word k ih =>
      obtain ⟨hpoints, hfed, hfinal, hvalue, hsplits⟩ := ih (u := u.write b word) h.2 (hs.write word h.1) hlen
        ⟨hlen, _, hs.write word h.1⟩
      exact ⟨List.forall_mem_cons.mpr ⟨hhere, hpoints⟩, hfed, hfinal, hvalue, hsplits⟩

end GameAccelerator.MemPool
