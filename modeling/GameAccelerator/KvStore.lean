import GameAccelerator.HashEngine
import GameAccelerator.Tokens

namespace GameAccelerator.KvStore

open CString Platform HashEngine Tokens

def bufferLength : Nat := 1024

def kvstoreMaxTokens : Nat := 128

/-- The engine that `kvstore_set`, `kvstore_get`, `kvstore_delete` and
`kvstore_modify` are bound to when the server is compiled. -/
structure Engine (σ : Type) where
  set : σ → CStr → CStr → Except Fault (Int × σ)
  get : σ → CStr → Except Fault (Option CStr × σ)
  delete : σ → CStr → Except Fault (Int × σ)
  modify : σ → CStr → CStr → Except Fault (Int × σ)

def hashEngine (m : Mutex) (al : Alloc) : Engine HashTable where
  set t key value := kvsHashSet m al t (some key) (some value)
  get t key := kvsHashGet m t (some key)
  delete t key := kvsHashDelete m t (some key)
  modify t key value := kvsHashModify al t (some key) (some value)

/-- The two buffers stand next to each other in the item. -/
structure ConnItem where
  rbuffer : Bytes
  wbuffer : Bytes

def ConnItem.bytes (item : ConnItem) : Bytes := item.rbuffer ++ item.wbuffer

inductive Command
  | set
  | get
  | del
  | mod

def commands : List (Command × CStr) :=
  [(.set, ⟨ascii "SET", by decide⟩), (.get, ⟨ascii "GET", by decide⟩),
    (.del, ⟨ascii "DEL", by decide⟩), (.mod, ⟨ascii "MOD", by decide⟩)]

def command (token : CStr) : Option Command :=
  (commands.find? (fun c => strcmp c.2 token = 0)).map Prod.fst

/-- `snprintf` of a text into a cleared buffer. -/
def snprintf (text : Bytes) : Bytes :=
  text.take (bufferLength - 1) ++ List.replicate (bufferLength - (text.take (bufferLength - 1)).length) 0

def readToken (item : ConnItem) (tokens : List Nat) (i : Nat) : Except Fault CStr :=
  match tokens[i]? with
  | some p => .ok (cstrAt item.bytes p)
  | none => .error (.uninitToken i)

def codeReply (ret : Int) (positive : String) : String :=
  if ret < 0 then "ERROR" else if ret = 0 then "SUCCESS" else positive

def getReply : Option CStr → Bytes
  | some value => value.bytes
  | none => ascii "NO EXIST"

variable {σ : Type}

def kvstoreParserProtocol (E : Engine σ) (item : ConnItem) (tokens : List Nat) (st : σ) :
    Except Fault (Int × ConnItem × σ) :=
  match tokens with
  | [] => .ok (-1, item, st)
  | t :: _ =>
      let cmd := command (cstrAt item.bytes t)
      let item := { item with wbuffer := List.replicate bufferLength 0 }
      match cmd with
      | some .set => do
          let (ret, st) ← E.set st (← readToken item tokens 1) (← readToken item tokens 2)
          let msg := if ret = 0 then "SUCCESS" else "FAILER"
          .ok (1, { item with wbuffer := snprintf (ascii msg) }, st)
      | some .get => do
          let (value, st) ← E.get st (← readToken item tokens 1)
          .ok (1, { item with wbuffer := snprintf (getReply value) }, st)
      | some .del => do
          let (ret, st) ← E.delete st (← readToken item tokens 1)
          .ok (1, { item with wbuffer := snprintf (ascii (codeReply ret "DEL_FAILER")) }, st)
      | some .mod => do
          let (ret, st) ← E.modify st (← readToken item tokens 1) (← readToken item tokens 2)
          .ok (1, { item with wbuffer := snprintf (ascii (codeReply ret "MOD_FAILER")) }, st)
      | none => .error .assertFailed

def kvstoreRequest (E : Engine σ) (item : ConnItem) (st : σ) : Except Fault (ConnItem × σ) :=
  match kvstoreSplitToken item.bytes with
  | none => .error .diverges
  | some (mem, tokens) =>
      if kvstoreMaxTokens < tokens.length then .error (.tokenOverflow kvstoreMaxTokens)
      else do
        let item := ⟨mem.take bufferLength, mem.drop bufferLength⟩
        let (_, item, st) ← kvstoreParserProtocol E item tokens st
        .ok (item, st)

def received (seg : Bytes) : ConnItem :=
  ⟨seg ++ List.replicate (bufferLength - seg.length) 0, List.replicate bufferLength 0⟩

/-- One round of the reader loop: a zeroed item takes the segment, and what
`strlen` sees of the write buffer is sent. -/
def serverReader (E : Engine σ) (st : σ) (seg : Bytes) : Except Fault (Bytes × σ) := do
  let (item, st) ← kvstoreRequest E (received seg) st
  .ok ((cstrAt item.wbuffer 0).bytes, st)

def serve (E : Engine σ) : σ → List Bytes → Except Fault (List Bytes × σ)
  | st, [] => .ok ([], st)
  | st, seg :: segs => do
      let (reply, st) ← serverReader E st seg
      let (replies, st) ← serve E st segs
      .ok (reply :: replies, st)

end GameAccelerator.KvStore
