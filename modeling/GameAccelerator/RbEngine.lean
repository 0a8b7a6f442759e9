import GameAccelerator.Platform
import GameAccelerator.RedBlack
import GameAccelerator.WhileLoop
import Mathlib.Logic.Function.Basic

namespace GameAccelerator.RbEngine

open CString Platform RedBlack WhileLoop

abbrev Addr := Nat

/-- A `char *` that owns its block: where it points and what stands there.
The bytes of a block are written once, right after its allocation. -/
structure Str where
  block : Addr
  text : CStr

def RED : UInt8 := 1

def BLACK : UInt8 := 2

structure RbNode where
  color : UInt8
  right : Addr
  left : Addr
  parent : Addr
  key : Str
  value : Option Str

def RbNode.child (n : RbNode) : Side → Addr
  | .left => n.left
  | .right => n.right

def RbNode.setChild (n : RbNode) : Side → Addr → RbNode
  | .left, p => { n with left := p }
  | .right, p => { n with right := p }

/-- The tree handle with the memory it lives in. Addresses from `next` on have
not been handed out; `live` lists the blocks that are allocated. -/
structure RbTree where
  root : Addr
  nil : Addr
  count : Int32
  node : Addr → RbNode
  next : Addr
  live : List Addr

def RbTree.color (T : RbTree) (p : Addr) : UInt8 := (T.node p).color

def RbTree.parent (T : RbTree) (p : Addr) : Addr := (T.node p).parent

def RbTree.child (T : RbTree) (p : Addr) (s : Side) : Addr := (T.node p).child s

def RbTree.modify (T : RbTree) (p : Addr) (f : RbNode → RbNode) : RbTree :=
  { T with node := Function.update T.node p (f (T.node p)) }

def RbTree.setColor (T : RbTree) (p : Addr) (c : UInt8) : RbTree :=
  T.modify p fun n => { n with color := c }

def RbTree.setParent (T : RbTree) (p q : Addr) : RbTree := T.modify p fun n => { n with parent := q }

def RbTree.setChild (T : RbTree) (p : Addr) (s : Side) (q : Addr) : RbTree :=
  T.modify p fun n => n.setChild s q

def malloc (T : RbTree) : Addr × RbTree :=
  (T.next, { T with next := T.next + 1, live := T.next :: T.live })

def kvstoreFree (T : RbTree) (p : Addr) : RbTree := { T with live := T.live.erase p }

/-- A bound on the rounds of every loop that does not visit a node twice. -/
def RbTree.fuel (T : RbTree) : Nat := T.next

def rbtreeMini (T : RbTree) (x : Addr) : Option Addr :=
  whileLoop (fun x => T.child x .left != T.nil) (fun x => T.child x .left) T.fuel x

def rbtreeSuccessor (T : RbTree) (x : Addr) : Option Addr :=
  if T.child x .right ≠ T.nil then rbtreeMini T (T.child x .right)
  else
    (whileLoop (fun s : Addr × Addr => s.2 != T.nil && s.1 == T.child s.2 .right)
      (fun s => (s.2, T.parent s.2)) T.fuel (x, T.parent x)).map Prod.snd

/-- The rotation at `x` towards `s`: the child `y` on the other side comes up
and `x` goes down to side `s`. -/
def rotate (s : Side) (T : RbTree) (x : Addr) : RbTree :=
  let y := T.child x s.other
  let T := T.setChild x s.other (T.child y s)
  let T := if T.child y s ≠ T.nil then T.setParent (T.child y s) x else T
  let T := T.setParent y (T.parent x)
  let T :=
    if T.parent x = T.nil then { T with root := y }
    else if x = T.child (T.parent x) s then T.setChild (T.parent x) s y
    else T.setChild (T.parent x) s.other y
  let T := T.setChild y s x
  T.setParent x y

def rbtreeLeftRotate := rotate .left

def rbtreeRightRotate := rotate .right

/-- One round of the loop of `rbtree_insert_fixup`, with the parent of `z` on
side `s` of the grandparent. -/
def insertFixupCase (s : Side) (T : RbTree) (z : Addr) : RbTree × Addr :=
  let y := T.child (T.parent (T.parent z)) s.other
  if T.color y = RED then
    let T := T.setColor (T.parent z) BLACK
    let T := T.setColor y BLACK
    let T := T.setColor (T.parent (T.parent z)) RED
    (T, T.parent (T.parent z))
  else
    let (T, z) :=
      if z = T.child (T.parent z) s.other then (rotate s T (T.parent z), T.parent z) else (T, z)
    let T := T.setColor (T.parent z) BLACK
    let T := T.setColor (T.parent (T.parent z)) RED
    (rotate s.other T (T.parent (T.parent z)), z)

def insertFixupBody (st : RbTree × Addr) : RbTree × Addr :=
  let (T, z) := st
  if T.parent z = T.child (T.parent (T.parent z)) .left then insertFixupCase .left T z
  else insertFixupCase .right T z

def rbtreeInsertFixup (T : RbTree) (z : Addr) : Option RbTree :=
  (whileLoop (fun st : RbTree × Addr => st.1.color (st.1.parent st.2) == RED) insertFixupBody
    T.fuel (T, z)).map fun st => st.1.setColor st.1.root BLACK

/-- Where the descent for `key` goes below `x`: `none` at a node with this key. -/
def turn (T : RbTree) (key : CStr) (x : Addr) : Option Side :=
  if strcmp key (T.node x).key.text < 0 then some .left
  else if strcmp key (T.node x).key.text > 0 then some .right
  else none

/-- The descent of `rbtree_insert`: the last node visited and the place
reached, which is not nil when the key is there already. -/
def insertDescent (T : RbTree) (key : CStr) : Option (Addr × Addr) :=
  whileLoop (fun s : Addr × Addr => s.2 != T.nil && (turn T key s.2).isSome)
    (fun s => (s.2, match turn T key s.2 with | some d => T.child s.2 d | none => s.2))
    T.fuel (T.nil, T.root)

/-- Hangs the new node `z` below `y`, the last node of the descent. -/
def attach (T : RbTree) (z y : Addr) : RbTree :=
  let T := T.setParent z y
  let T :=
    if y = T.nil then { T with root := z }
    else if strcmp (T.node z).key.text (T.node y).key.text < 0 then T.setChild y .left z
    else T.setChild y .right z
  let T := T.setChild z .left T.nil
  let T := T.setChild z .right T.nil
  T.setColor z RED

def rbtreeInsert (T : RbTree) (z : Addr) : Option RbTree :=
  match insertDescent T (T.node z).key.text with
  | none => none
  | some (y, x) => if x ≠ T.nil then some T else rbtreeInsertFixup (attach T z y) z

/-- The second half of a round of `rbtree_delete_fixup`, where the sibling `w`
of `x` is black. -/
def deleteFixupBlack (s : Side) (T : RbTree) (x w : Addr) : RbTree × Addr :=
  if T.color (T.child w .left) = BLACK ∧ T.color (T.child w .right) = BLACK then
    (T.setColor w RED, T.parent x)
  else
    let (T, w) :=
      if T.color (T.child w s.other) = BLACK then
        let T := T.setColor (T.child w s) BLACK
        let T := T.setColor w RED
        let T := rotate s.other T w
        (T, T.child (T.parent x) s.other)
      else (T, w)
    let T := T.setColor w (T.color (T.parent x))
    let T := T.setColor (T.parent x) BLACK
    let T := T.setColor (T.child w s.other) BLACK
    let T := rotate s T (T.parent x)
    (T, T.root)

/-- One round of the loop of `rbtree_delete_fixup`, with `x` on side `s` of
its parent. -/
def deleteFixupCase (s : Side) (T : RbTree) (x : Addr) : RbTree × Addr :=
  let w := T.child (T.parent x) s.other
  let (T, w) :=
    if T.color w = RED then
      let T := T.setColor w BLACK
      let T := T.setColor (T.parent x) RED
      let T := rotate s T (T.parent x)
      (T, T.child (T.parent x) s.other)
    else (T, w)
  deleteFixupBlack s T x w

def deleteFixupBody (st : RbTree × Addr) : RbTree × Addr :=
  let (T, x) := st
  if x = T.child (T.parent x) .left then deleteFixupCase .left T x else deleteFixupCase .right T x

def rbtreeDeleteFixup (T : RbTree) (x : Addr) : Option RbTree :=
  (whileLoop (fun st : RbTree × Addr => st.2 != st.1.root && st.1.color st.2 == BLACK) deleteFixupBody
    T.fuel (T, x)).map fun st => st.1.setColor st.2 BLACK

def onlyChild (T : RbTree) (y : Addr) : Addr :=
  if T.child y .left ≠ T.nil then T.child y .left
  else if T.child y .right ≠ T.nil then T.child y .right
  else T.nil

/-- Unlinks `y` by putting its only child, or nil, in its place. -/
def unlink (T : RbTree) (y : Addr) : RbTree × Addr :=
  let x := onlyChild T y
  let T := T.setParent x (T.parent y)
  let T :=
    if T.parent y = T.nil then { T with root := x }
    else if y = T.child (T.parent y) .left then T.setChild (T.parent y) .left x
    else T.setChild (T.parent y) .right x
  (T, x)

def swapEntries (T : RbTree) (z y : Addr) : RbTree :=
  let zn := T.node z
  let yn := T.node y
  let T := T.modify z fun n => { n with key := yn.key, value := yn.value }
  T.modify y fun n => { n with key := zn.key, value := zn.value }

def rbtreeDelete (T : RbTree) (z : Addr) : Option (RbTree × Addr) :=
  let y := if T.child z .left = T.nil ∨ T.child z .right = T.nil then some z else rbtreeSuccessor T z
  match y with
  | none => none
  | some y =>
      let (T, x) := unlink T y
      let T := if y ≠ z then swapEntries T z y else T
      if T.color y = BLACK then (rbtreeDeleteFixup T x).map fun T => (T, y) else some (T, y)

def rbtreeSearch (T : RbTree) (key : CStr) : Option Addr :=
  whileLoop (fun x => x != T.nil && (turn T key x).isSome)
    (fun x => match turn T key x with | some d => T.child x d | none => x) T.fuel T.root

/-- `mem` is what the memory holds before anything is written to it. -/
def kvstoreRbtreeCreate (mem : Addr → RbNode) : RbTree :=
  let T : RbTree := ⟨0, 0, 0, mem, 0, []⟩
  let (nil, T) := malloc T
  let (block, T) := malloc T
  let T := T.modify nil fun n => { n with key := ⟨block, ⟨[], by simp⟩⟩, color := BLACK }
  { T with nil := nil, root := nil }

def kvsRbtreeSet (al : Alloc) (T : RbTree) (key value : CStr) : Option (Int × RbTree) :=
  if al.node then
    let (node, T) := malloc T
    if al.key then
      let (kblock, T) := malloc T
      let T := T.modify node fun n => { n with key := ⟨kblock, key⟩ }
      if al.value then
        let (vblock, T) := malloc T
        let T := T.modify node fun n => { n with value := some ⟨vblock, value⟩ }
        (rbtreeInsert T node).map fun T => (0, { T with count := T.count + 1 })
      else
        let T := T.modify node fun n => { n with value := none }
        some (-1, kvstoreFree (kvstoreFree T kblock) node)
    else some (-1, kvstoreFree T node)
  else some (-1, T)

def kvsRbtreeGet (T : RbTree) (key : CStr) : Option (Option CStr) :=
  (rbtreeSearch T key).map fun node => if node = T.nil then none else (T.node node).value.map Str.text

/-- `rbtree_delete` never returns NULL, so `if (!cur)` releases nothing. -/
def kvsRbtreeDelete (T : RbTree) (key : CStr) : Option (Int × RbTree) :=
  match rbtreeSearch T key with
  | none => none
  | some node =>
      if node = T.nil then some (-1, T)
      else (rbtreeDelete T node).map fun r => (0, { r.1 with count := r.1.count - 1 })

def kvsRbtreeModify (al : Alloc) (T : RbTree) (key value : CStr) : Option (Int × RbTree) :=
  match rbtreeSearch T key with
  | none => none
  | some node =>
      if node = T.nil then some (-1, T)
      else
        let T := match (T.node node).value with
          | some tmp => kvstoreFree T tmp.block
          | none => T
        if al.value then
          let (block, T) := malloc T
          some (0, T.modify node fun n => { n with value := some ⟨block, value⟩ })
        else some (-1, T.modify node fun n => { n with value := none })

end GameAccelerator.RbEngine
