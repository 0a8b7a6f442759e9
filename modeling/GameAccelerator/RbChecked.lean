import GameAccelerator.CheckedLoop
import GameAccelerator.RbContents

namespace GameAccelerator.RbChecked

open CString Platform RedBlack WhileLoop CheckedLoop RbEngine RbContents

/-- What must not happen: a use of nil as a node, or a loop without end. -/
inductive Misuse
  -- `left` or `right` of nil is read or written
  | child
  -- `parent` of nil is read before `rbtree_delete` has set it, or written by another function
  | parent
  -- a rotation at nil or around a nil child
  | rotation
  | sibling
  | grandparent
  | red
  | endless

def readChild (T : RbTree) (p : Addr) (s : Side) : Except Misuse Addr :=
  if p = T.nil then .error .child else .ok (T.child p s)

def writeChild (T : RbTree) (p : Addr) (s : Side) (q : Addr) : Except Misuse RbTree :=
  if p = T.nil then .error .child else .ok (T.setChild p s q)

/-- `given` tells whether this call has set the parent of nil. -/
def readParent (given : Bool) (T : RbTree) (p : Addr) : Except Misuse Addr :=
  if p = T.nil ∧ given = false then .error .parent else .ok (T.parent p)

def writeParent (T : RbTree) (p q : Addr) : Except Misuse RbTree :=
  if p = T.nil then .error .parent else .ok (T.setParent p q)

def paint (T : RbTree) (p : Addr) (c : UInt8) : Except Misuse RbTree :=
  if p = T.nil ∧ c = RED then .error .red else .ok (T.setColor p c)

def rbtreeMini (T : RbTree) (x : Addr) : Except Misuse Addr :=
  checkedLoop .endless (fun x => do return (← readChild T x .left) != T.nil) (fun x => readChild T x .left) T.fuel x

def rbtreeSuccessor (T : RbTree) (x : Addr) : Except Misuse Addr := do
  let y ← readParent false T x
  if (← readChild T x .right) ≠ T.nil then rbtreeMini T (← readChild T x .right)
  else do
    let r ← checkedLoop .endless
      (fun s : Addr × Addr => if s.2 = T.nil then .ok false else do return s.1 == (← readChild T s.2 .right))
      (fun s => do return (s.2, ← readParent false T s.2)) T.fuel (x, y)
    return r.2

/-- The child of `x` that a rotation towards `s` brings up. -/
def pivot (s : Side) (T : RbTree) (x : Addr) : Except Misuse Addr :=
  if x = T.nil then .error .rotation
  else do
    let y ← readChild T x s.other
    if y = T.nil then .error .rotation else .ok y

def adopt (T : RbTree) (p x : Addr) : Except Misuse RbTree :=
  if p ≠ T.nil then writeParent T p x else .ok T

/-- `y` takes the place of `x` below the parent of `x`. -/
def replaceChild (s : Side) (T : RbTree) (x y : Addr) : Except Misuse RbTree := do
  let p ← readParent false T x
  if p = T.nil then .ok { T with root := y }
  else do
    if x = (← readChild T p s) then writeChild T p s y else writeChild T p s.other y

def rotate (s : Side) (T : RbTree) (x : Addr) : Except Misuse RbTree := do
  let y ← pivot s T x
  let T ← writeChild T x s.other (← readChild T y s)
  let T ← adopt T (← readChild T y s) x
  let T ← writeParent T y (← readParent false T x)
  let T ← replaceChild s T x y
  let T ← writeChild T y s x
  writeParent T x y

/-- `z->parent->parent`. -/
def grandparent (T : RbTree) (z : Addr) : Except Misuse Addr := do
  let g ← readParent false T (← readParent false T z)
  if g = T.nil then .error .grandparent else .ok g

/-- The first rotation of a round with a black uncle, if there is one. -/
def insertFixupInner (s : Side) (T : RbTree) (z : Addr) : Except Misuse (RbTree × Addr) := do
  if z = (← readChild T (← readParent false T z) s.other) then
    let z ← readParent false T z
    return (← rotate s T z, z)
  else return (T, z)

def insertFixupCase (s : Side) (T : RbTree) (z : Addr) : Except Misuse (RbTree × Addr) := do
  let y ← readChild T (← grandparent T z) s.other
  if T.color y = RED then
    let T ← paint T (← readParent false T z) BLACK
    let T ← paint T y BLACK
    let T ← paint T (← grandparent T z) RED
    return (T, ← grandparent T z)
  else
    let st ← insertFixupInner s T z
    let T ← paint st.1 (← readParent false st.1 st.2) BLACK
    let T ← paint T (← grandparent T st.2) RED
    return (← rotate s.other T (← grandparent T st.2), st.2)

def insertFixupBody (st : RbTree × Addr) : Except Misuse (RbTree × Addr) := do
  if (← readParent false st.1 st.2) = (← readChild st.1 (← grandparent st.1 st.2) .left) then
    insertFixupCase .left st.1 st.2
  else insertFixupCase .right st.1 st.2

def rbtreeInsertFixup (T : RbTree) (z : Addr) : Except Misuse RbTree := do
  let st ← checkedLoop .endless (fun st : RbTree × Addr => do return st.1.color (← readParent false st.1 st.2) == RED)
    insertFixupBody T.fuel (T, z)
  paint st.1 st.1.root BLACK

def insertDescent (T : RbTree) (key : CStr) : Except Misuse (Addr × Addr) :=
  checkedLoop .endless (fun s : Addr × Addr => .ok (s.2 != T.nil && (turn T key s.2).isSome))
    (fun s => do
      match turn T key s.2 with
      | some d => return (s.2, ← readChild T s.2 d)
      | none => return (s.2, s.2))
    T.fuel (T.nil, T.root)

def attach (T : RbTree) (z y : Addr) : Except Misuse RbTree := do
  let T ← writeParent T z y
  let T ← (if y = T.nil then .ok { T with root := z }
    else if strcmp (T.node z).key.text (T.node y).key.text < 0 then writeChild T y .left z
    else writeChild T y .right z)
  let T ← writeChild T z .left T.nil
  let T ← writeChild T z .right T.nil
  paint T z RED

def rbtreeInsert (T : RbTree) (z : Addr) : Except Misuse RbTree := do
  let s ← insertDescent T (T.node z).key.text
  if s.2 ≠ T.nil then return T else rbtreeInsertFixup (← attach T z s.1) z

/-- The node on the other side of the parent of `x`. -/
def sibling (given : Bool) (s : Side) (T : RbTree) (x : Addr) : Except Misuse Addr := do
  let w ← readChild T (← readParent given T x) s.other
  if w = T.nil then .error .sibling else .ok w

def bothBlack (T : RbTree) (w : Addr) : Except Misuse Bool := do
  if T.color (← readChild T w .left) = BLACK then return T.color (← readChild T w .right) == BLACK
  else return false

/-- The rotation at the sibling `w`, if there is one, with the sibling after it. -/
def deleteFixupInner (given : Bool) (s : Side) (T : RbTree) (x w : Addr) : Except Misuse (RbTree × Addr) := do
  if T.color (← readChild T w s.other) = BLACK then
    let T ← paint T (← readChild T w s) BLACK
    let T ← paint T w RED
    let T ← rotate s.other T w
    return (T, ← sibling given s T x)
  else return (T, w)

def deleteFixupBlack (given : Bool) (s : Side) (T : RbTree) (x w : Addr) : Except Misuse (RbTree × Addr) := do
  if ← bothBlack T w then return (← paint T w RED, ← readParent given T x)
  else
    let st ← deleteFixupInner given s T x w
    let T ← paint st.1 st.2 (st.1.color (← readParent given st.1 x))
    let T ← paint T (← readParent given T x) BLACK
    let T ← paint T (← readChild T st.2 s.other) BLACK
    let T ← rotate s T (← readParent given T x)
    return (T, T.root)

def deleteFixupCase (given : Bool) (s : Side) (T : RbTree) (x : Addr) : Except Misuse (RbTree × Addr) := do
  let w ← sibling given s T x
  if T.color w = RED then
    let T ← paint T w BLACK
    let T ← paint T (← readParent given T x) RED
    let T ← rotate s T (← readParent given T x)
    deleteFixupBlack given s T x (← sibling given s T x)
  else deleteFixupBlack given s T x w

def deleteFixupBody (given : Bool) (st : RbTree × Addr) : Except Misuse (RbTree × Addr) := do
  if st.2 = (← readChild st.1 (← readParent given st.1 st.2) .left) then deleteFixupCase given .left st.1 st.2
  else deleteFixupCase given .right st.1 st.2

def rbtreeDeleteFixup (given : Bool) (T : RbTree) (x : Addr) : Except Misuse RbTree := do
  let st ← checkedLoop .endless (fun st : RbTree × Addr => .ok (st.2 != st.1.root && st.1.color st.2 == BLACK))
    (deleteFixupBody given) T.fuel (T, x)
  paint st.1 st.2 BLACK

def onlyChild (T : RbTree) (y : Addr) : Except Misuse Addr := do
  if (← readChild T y .left) ≠ T.nil then readChild T y .left
  else do
    if (← readChild T y .right) ≠ T.nil then readChild T y .right else return T.nil

def unlink (T : RbTree) (y : Addr) : Except Misuse (RbTree × Addr) := do
  let x ← onlyChild T y
  let T ← replaceChild .left (T.setParent x (← readParent false T y)) y x
  return (T, x)

/-- The node that is taken out of its place when `z` is deleted. -/
def removed (T : RbTree) (z : Addr) : Except Misuse Addr := do
  if (← readChild T z .left) = T.nil then .ok z
  else do
    if (← readChild T z .right) = T.nil then .ok z else rbtreeSuccessor T z

def rbtreeDelete (T : RbTree) (z : Addr) : Except Misuse (RbTree × Addr) := do
  let y ← removed T z
  let u ← unlink T y
  let T := if y ≠ z then swapEntries u.1 z y else u.1
  if T.color y = BLACK then return (← rbtreeDeleteFixup (u.2 = T.nil) T u.2, y) else return (T, y)

def rbtreeSearch (T : RbTree) (key : CStr) : Except Misuse Addr :=
  checkedLoop .endless (fun x => .ok (x != T.nil && (turn T key x).isSome))
    (fun x => match turn T key x with
      | some d => readChild T x d
      | none => .ok x) T.fuel T.root

def kvsRbtreeSet (al : Alloc) (T : RbTree) (key value : CStr) : Except Misuse (Int × RbTree) :=
  if al.node then
    let (node, T) := malloc T
    if al.key then
      let (kblock, T) := malloc T
      let T := T.modify node fun n => { n with key := ⟨kblock, key⟩ }
      if al.value then do
        let (vblock, T) := malloc T
        let T ← rbtreeInsert (T.modify node fun n => { n with value := some ⟨vblock, value⟩ }) node
        return (0, { T with count := T.count + 1 })
      else
        let T := T.modify node fun n => { n with value := none }
        .ok (-1, kvstoreFree (kvstoreFree T kblock) node)
    else .ok (-1, kvstoreFree T node)
  else .ok (-1, T)

def kvsRbtreeGet (T : RbTree) (key : CStr) : Except Misuse (Option CStr) := do
  let node ← rbtreeSearch T key
  return if node = T.nil then none else (T.node node).value.map Str.text

def kvsRbtreeDelete (T : RbTree) (key : CStr) : Except Misuse (Int × RbTree) := do
  let node ← rbtreeSearch T key
  if node = T.nil then return (-1, T)
  else
    let r ← rbtreeDelete T node
    return (0, { r.1 with count := r.1.count - 1 })

def kvsRbtreeModify (al : Alloc) (T : RbTree) (key value : CStr) : Except Misuse (Int × RbTree) := do
  let node ← rbtreeSearch T key
  if node = T.nil then return (-1, T)
  else
    let T := match (T.node node).value with
      | some tmp => kvstoreFree T tmp.block
      | none => T
    if al.value then
      let (block, T) := malloc T
      return (0, T.modify node fun n => { n with value := some ⟨block, value⟩ })
    else return (-1, T.modify node fun n => { n with value := none })

def exec (al : Alloc) (T : RbTree) : RbOp → Except Misuse (Ret × RbTree)
  | .set key value => do
      let r ← kvsRbtreeSet al T key value
      return (.code r.1, r.2)
  | .get key => do return (.string (← kvsRbtreeGet T key), T)
  | .delete key => do
      let r ← kvsRbtreeDelete T key
      return (.code r.1, r.2)
  | .modify key value => do
      let r ← kvsRbtreeModify al T key value
      return (.code r.1, r.2)

end GameAccelerator.RbChecked
