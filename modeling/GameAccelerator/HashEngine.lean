import GameAccelerator.Buckets
import GameAccelerator.Platform

namespace GameAccelerator.HashEngine

open CString Platform Buckets

inductive Mutex
  -- one thread runs the engine, so a held mutex is waited for without end
  | exclusive
  -- handed out whatever its state
  | available

/-- The mark is not in the source. A node gets it when it is made, and no call
reads it. -/
structure HashNode (μ : Type := Unit) where
  key : CStr
  -- NULL after an overwrite whose allocation failed
  value : Option CStr
  mark : μ
  deriving DecidableEq

structure HashTable (μ : Type := Unit) where
  maxSlots : Nat
  pos : 0 < maxSlots
  nodes : Fin maxSlots → List (HashNode μ)
  count : Int
  lock : Bool

variable {μ : Type}

def maxTableSize : Nat := 1024

def hashLoop (h : UInt32) : Bytes → UInt32
  | [] => h
  | c :: s => hashLoop ((h <<< 5) + h + c.toUInt32) s

def hash (size : Nat) (pos : 0 < size) (key : CStr) : Fin size :=
  ⟨(hashLoop 5381 key.bytes).toNat % size, Nat.mod_lt _ pos⟩

def index (t : HashTable μ) (key : CStr) : Fin t.maxSlots := hash t.maxSlots t.pos key

def setBucket (t : HashTable μ) (i : Fin t.maxSlots) (chain : List (HashNode μ)) : HashTable μ :=
  { t with nodes := Function.update t.nodes i chain }

def pthreadMutexLock (m : Mutex) (t : HashTable μ) : Except Fault (HashTable μ) :=
  match m, t.lock with
  | .exclusive, true => .error .blocked
  | _, _ => .ok { t with lock := true }

def pthreadMutexUnlock (t : HashTable μ) : HashTable μ := { t with lock := false }

/-- `count + 1 > max_slots * 0.7` in doubles. The literal is 3152519739159347
over 2 ^ 52 and the product is exact, as `max_slots` is a power of two. -/
def overloaded (t : HashTable μ) : Bool :=
  decide ((t.maxSlots : Int) * 3152519739159347 < (t.count + 1) * 4503599627370496)

def resizeHashtable (al : Alloc) (t : HashTable μ) : Int × HashTable μ :=
  -- a doubled `int` past its range converts to a size that no allocator serves
  if al.slots ∧ t.maxSlots * 2 < 2147483648 then
    have pos : 0 < t.maxSlots * 2 := Nat.mul_pos t.pos (by decide)
    (0, { t with
      maxSlots := t.maxSlots * 2
      pos := pos
      nodes := (List.finRange t.maxSlots).foldl
        (fun new i => (t.nodes i).foldl (push HashNode.key (hash (t.maxSlots * 2) pos)) new)
        (fun _ => []) })
  else (-1, t)

def createNode (mark : μ) (al : Alloc) (key value : CStr) : Option (HashNode μ) :=
  if al.node ∧ al.key ∧ al.value then some ⟨key, some value, mark⟩ else none

/-- The array is not cleared: `buckets` is what the memory happens to hold. -/
def initHashtable (buckets : Fin maxTableSize → List (HashNode μ)) : HashTable μ :=
  ⟨maxTableSize, by decide, buckets, 0, false⟩

def findNode (key : CStr) (chain : List (HashNode μ)) : Option (HashNode μ) :=
  chain.find? (fun n => strcmp n.key key = 0)

def overwrite (key : CStr) (value : Option CStr) : List (HashNode μ) → Option (List (HashNode μ))
  | [] => none
  | n :: ns =>
      if strcmp n.key key = 0 then some ({ n with value := value } :: ns)
      else (overwrite key value ns).map (n :: ·)

def putKvHashtable (mark : μ) (m : Mutex) (al : Alloc) (t : HashTable μ) :
    Option CStr → Option CStr → Except Fault (Int × HashTable μ)
  | some key, some value => do
      let t ← pthreadMutexLock m t
      let t := if overloaded t then (resizeHashtable al t).2 else t
      match overwrite key (if al.value then some value else none) (t.nodes (index t key)) with
      | some chain =>
          .ok (if al.value then 0 else -1, pthreadMutexUnlock (setBucket t (index t key) chain))
      | none =>
          match createNode mark al key value with
          | none => .error .nullDeref
          | some n =>
              let t' := setBucket t (index t key) (n :: t.nodes (index t key))
              .ok (0, pthreadMutexUnlock { t' with count := t.count + 1 })
  | _, _ => .ok (-1, t)

def getKvHashtable (m : Mutex) (t : HashTable μ) :
    Option CStr → Except Fault (Option CStr × HashTable μ)
  | some key => do
      let t ← pthreadMutexLock m t
      .ok ((findNode key (t.nodes (index t key))).bind HashNode.value, pthreadMutexUnlock t)
  | none => .ok (none, t)

def unlinkNext (key : CStr) : List (HashNode μ) → Option (List (HashNode μ))
  | [] => none
  | n :: ns => if strcmp n.key key = 0 then some ns else (unlinkNext key ns).map (n :: ·)

def deleteKvHashtable (m : Mutex) (t : HashTable μ) :
    Option CStr → Except Fault (Int × HashTable μ)
  | some key => do
      let t ← pthreadMutexLock m t
      match t.nodes (index t key) with
      -- this return alone leaves the mutex held
      | [] => .ok (-1, t)
      | head :: rest =>
          if strcmp head.key key = 0 then
            let t' := setBucket t (index t key) rest
            .ok (0, pthreadMutexUnlock { t' with count := t.count - 1 })
          else
            match unlinkNext key rest with
            | none => .ok (-1, pthreadMutexUnlock t)
            | some rest' =>
                let t' := setBucket t (index t key) (head :: rest')
                .ok (0, pthreadMutexUnlock { t' with count := t.count - 1 })
  | none => .ok (-2, t)

def kvstoreHashCreate (buckets : Fin maxTableSize → List HashNode) : HashTable :=
  initHashtable buckets

def kvsHashSet := putKvHashtable ()

def kvsHashGet := @getKvHashtable μ

def kvsHashDelete := @deleteKvHashtable μ

def kvsHashModify (al : Alloc) (t : HashTable μ) :
    Option CStr → Option CStr → Except Fault (Int × HashTable μ)
  | some key, some value =>
      match overwrite key (some value) (t.nodes (index t key)) with
      | some chain => if al.value then .ok (0, setBucket t (index t key) chain) else .error .assertFailed
      | none => .ok (-1, t)
  | _, _ => .ok (-1, t)

end GameAccelerator.HashEngine
