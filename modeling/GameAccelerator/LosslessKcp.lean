import GameAccelerator.Kcp

namespace GameAccelerator.LosslessKcp

open CString Kcp

/-- What KCP keeps of a link on which nothing is lost: every datagram brings one
segment, in order, no segment is due to be sent again and no window is full. A
message that is complete counts as many segments as `sizes` says. -/
structure Link where
  updated : Bool
  current : UInt32
  tsFlush : UInt32
  rcvNxt : UInt32
  sizes : List Nat
  fragments : List Bytes
  acklist : List (UInt32 × UInt32)
  sndNxt : UInt32
  sndQueue : List Bytes

def cmdPush : UInt8 := 81

def cmdAck : UInt8 := 82

def wndRcv : Nat := 128

def interval : UInt32 := 10

def encode16u (n : UInt16) : Bytes := [.ofNat n.toNat, .ofNat (n.toNat / 256)]

def encode32u (n : UInt32) : Bytes :=
  [.ofNat n.toNat, .ofNat (n.toNat / 256), .ofNat (n.toNat / 65536), .ofNat (n.toNat / 16777216)]

def encodeSeg (conv : UInt32) (cmd frg : UInt8) (wnd : UInt16) (ts sn una : UInt32) (data : Bytes) : Bytes :=
  encode32u conv ++ [cmd, frg] ++ encode16u wnd ++ encode32u ts ++ encode32u sn ++ encode32u una ++
    encode32u (.ofNat data.length) ++ data

def itimediff (later earlier : UInt32) : Int := (later - earlier).toInt32.toInt

def create (_ : UInt32) : Link := ⟨false, 0, 100, 0, [], [], [], 0, []⟩

/-- A datagram that is no segment or not the next one is passed over. -/
def input (kcp : Ikcpcb Link) (data : Bytes) : List Bytes × Link × List Bytes :=
  let link := kcp.rest
  let len := (ikcpGetconv (data.drop 20)).toNat
  let sn := ikcpGetconv (data.drop 12)
  if ikcpGetconv data ≠ kcp.conv ∨ data.length < 24 + len ∨ data.getD 4 0 ≠ cmdPush ∨ sn ≠ link.rcvNxt then
    (kcp.rcvQueue, link, [])
  else
    let fragments := link.fragments ++ [(data.drop 24).take len]
    let link := { link with acklist := link.acklist ++ [(sn, ikcpGetconv (data.drop 8))], rcvNxt := link.rcvNxt + 1 }
    if data.getD 5 0 = 0 then
      (kcp.rcvQueue ++ [fragments.flatten], { link with sizes := link.sizes ++ [fragments.length], fragments := [] }, [])
    else (kcp.rcvQueue, { link with fragments := fragments }, [])

def flush (kcp : Ikcpcb Link) : Link × List Bytes :=
  let link := kcp.rest
  if link.updated then
    let wnd := .ofNat (wndRcv - link.sizes.foldl (· + ·) link.fragments.length)
    let acks := link.acklist.flatMap fun a => encodeSeg kcp.conv cmdAck 0 wnd a.2 a.1 link.rcvNxt []
    let data := link.sndQueue.zipIdx.flatMap fun m =>
      encodeSeg kcp.conv cmdPush 0 wnd link.current (link.sndNxt + .ofNat m.2) link.rcvNxt m.1
    ({ link with acklist := [], sndNxt := link.sndNxt + .ofNat link.sndQueue.length, sndQueue := [] },
      if (acks ++ data).isEmpty then [] else [acks ++ data])
  else (link, [])

def update (kcp : Ikcpcb Link) (current : UInt32) : Link × List Bytes :=
  let link := kcp.rest
  let tsFlush := if link.updated then link.tsFlush else current
  let slap := itimediff current tsFlush
  let late := slap ≥ 10000 ∨ slap < -10000
  let tsFlush := if late then current else tsFlush
  if late ∨ slap ≥ 0 then
    let due := tsFlush + interval
    let due := if itimediff current due ≥ 0 then current + interval else due
    flush { kcp with rest := { link with updated := true, current := current, tsFlush := due } }
  else ({ link with updated := true, current := current, tsFlush := tsFlush }, [])

/-- For messages that fit into one segment. -/
def send (kcp : Ikcpcb Link) (msg : Bytes) : Link := { kcp.rest with sndQueue := kcp.rest.sndQueue ++ [msg] }

def recv (kcp : Ikcpcb Link) : Link := { kcp.rest with sizes := kcp.rest.sizes.tail }

def lossless : Library Link := ⟨create, input, update, flush, send, recv⟩

def Link.Still (link : Link) : Prop := link.acklist = [] ∧ link.sndQueue = []

theorem flush_still {kcp : Ikcpcb Link} (h : kcp.rest.Still) : (flush kcp).1.Still ∧ (flush kcp).2 = [] := by
  rw [flush]
  split_ifs
  · refine ⟨⟨rfl, rfl⟩, ?_⟩
    simp [h.1, h.2]
  · exact ⟨h, rfl⟩

theorem update_still {kcp : Ikcpcb Link} (h : kcp.rest.Still) (current : UInt32) :
    (update kcp current).1.Still ∧ (update kcp current).2 = [] := by
  simp only [update]
  split_ifs <;> first | exact flush_still h | exact ⟨h, rfl⟩

theorem lossless_silentWhileFresh : lossless.SilentWhileFresh := by
  have hstill : ∀ kcp, Fresh lossless kcp → kcp.rest.Still := by
    intro kcp h
    induction h with
    | create conv => exact ⟨rfl, rfl⟩
    | update _ current ih => exact (update_still ih current).1
  exact fun kcp current h => (update_still (hstill kcp h) current).2

end GameAccelerator.LosslessKcp
