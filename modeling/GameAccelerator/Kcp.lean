import GameAccelerator.CString

namespace GameAccelerator.Kcp

open CString

variable {ρ : Type}

/-- A control block: the conv it was created with, the complete messages that
wait to be received and whatever else the library keeps. -/
structure Ikcpcb (ρ : Type) where
  conv : UInt32
  rcvQueue : List Bytes
  rest : ρ

/-- What the library leaves open here: which messages are complete after a
datagram, which packets a call hands to the output callback and what it
remembers. -/
structure Library (ρ : Type) where
  create : UInt32 → ρ
  input : Ikcpcb ρ → Bytes → List Bytes × ρ × List Bytes
  update : Ikcpcb ρ → UInt32 → ρ × List Bytes
  flush : Ikcpcb ρ → ρ × List Bytes
  send : Ikcpcb ρ → Bytes → ρ
  recv : Ikcpcb ρ → ρ

def ikcpCreate (K : Library ρ) (conv : UInt32) : Ikcpcb ρ := ⟨conv, [], K.create conv⟩

def ikcpInput (K : Library ρ) (kcp : Ikcpcb ρ) (data : Bytes) : Ikcpcb ρ × List Bytes :=
  ({ kcp with rcvQueue := (K.input kcp data).1, rest := (K.input kcp data).2.1 }, (K.input kcp data).2.2)

/-- The messages behind those that were complete before a datagram. -/
def completed (K : Library ρ) (kcp : Ikcpcb ρ) (data : Bytes) : List Bytes := (K.input kcp data).1.drop kcp.rcvQueue.length

def ikcpUpdate (K : Library ρ) (kcp : Ikcpcb ρ) (current : UInt32) : Ikcpcb ρ × List Bytes :=
  ({ kcp with rest := (K.update kcp current).1 }, (K.update kcp current).2)

def ikcpFlush (K : Library ρ) (kcp : Ikcpcb ρ) : Ikcpcb ρ × List Bytes :=
  ({ kcp with rest := (K.flush kcp).1 }, (K.flush kcp).2)

def ikcpSend (K : Library ρ) (kcp : Ikcpcb ρ) (buffer : Bytes) : Ikcpcb ρ := { kcp with rest := K.send kcp buffer }

/-- The result of `ikcp_recv` with a buffer of `len` bytes, and what it has put
into the buffer. -/
def ikcpRecv (K : Library ρ) (kcp : Ikcpcb ρ) (len : Nat) : Int × Bytes × Ikcpcb ρ :=
  match kcp.rcvQueue with
  | [] => (-1, [], kcp)
  | m :: queue =>
      if m.length > len then (-3, [], kcp)
      else (m.length, m, { kcp with rcvQueue := queue, rest := K.recv kcp })

def ikcpGetconv (data : Bytes) : UInt32 :=
  let byte (i : Nat) : Nat := (data.getD i 0).toNat
  .ofNat (byte 0 + 256 * (byte 1 + 256 * (byte 2 + 256 * byte 3)))

/-- A control block that has only been updated since its creation. -/
inductive Fresh (K : Library ρ) : Ikcpcb ρ → Prop
  | create (conv : UInt32) : Fresh K (ikcpCreate K conv)
  | update {kcp : Ikcpcb ρ} (h : Fresh K kcp) (current : UInt32) : Fresh K (ikcpUpdate K kcp current).1

/-- Nobody has sent anything yet, so there is nothing to acknowledge, to repeat
or to probe. -/
def Library.SilentWhileFresh (K : Library ρ) : Prop :=
  ∀ kcp current, Fresh K kcp → (ikcpUpdate K kcp current).2 = []

end GameAccelerator.Kcp
