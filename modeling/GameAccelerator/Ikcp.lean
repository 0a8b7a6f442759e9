import GameAccelerator.Countdown
import GameAccelerator.LosslessKcp
import GameAccelerator.SerialList

namespace GameAccelerator.Ikcp

open CString
open Kcp (ikcpGetconv)
open LosslessKcp (cmdPush cmdAck encodeSeg)

def rtoNdl : UInt32 := 30

def rtoMin : UInt32 := 100

def rtoDef : UInt32 := 200

def rtoMax : UInt32 := 60000

def cmdWask : UInt8 := 83

def cmdWins : UInt8 := 84

def askSend : UInt32 := 1

def askTell : UInt32 := 2

def wndSnd : UInt32 := 32

def wndRcv : UInt32 := 128

def mtuDef : UInt32 := 1400

def intervalDef : UInt32 := 100

def overhead : UInt32 := 24

def deadlink : UInt32 := 20

def threshInit : UInt32 := 2

def threshMin : UInt32 := 2

def probeInit : UInt32 := 5000

def probeLimit : UInt32 := 120000

def fastackLimit : Int32 := 5

def itimediff (later earlier : UInt32) : Int := Serial.diff later earlier

def ibound (lower middle upper : UInt32) : UInt32 := min (max lower middle) upper

/-- The length is that of `data`. -/
structure Ikcpseg where
  conv : UInt32
  cmd : UInt8
  frg : UInt32
  wnd : UInt32
  ts : UInt32
  sn : UInt32
  una : UInt32
  resendts : UInt32
  rto : UInt32
  fastack : UInt32
  xmit : UInt32
  data : Bytes

structure Ikcpcb where
  conv : UInt32
  mtu : UInt32
  mss : UInt32
  state : UInt32
  sndUna : UInt32
  sndNxt : UInt32
  rcvNxt : UInt32
  ssthresh : UInt32
  rxRttval : Int32
  rxSrtt : Int32
  rxRto : UInt32
  rxMinrto : UInt32
  sndWnd : UInt32
  rcvWnd : UInt32
  rmtWnd : UInt32
  cwnd : UInt32
  probe : UInt32
  current : UInt32
  interval : UInt32
  tsFlush : UInt32
  xmit : UInt32
  nrcvBuf : UInt32
  nsndBuf : UInt32
  nrcvQue : UInt32
  nsndQue : UInt32
  nodelay : UInt32
  updated : Bool
  tsProbe : UInt32
  probeWait : UInt32
  deadLink : UInt32
  incr : UInt32
  sndQueue : List Ikcpseg
  rcvQueue : List Ikcpseg
  sndBuf : List Ikcpseg
  rcvBuf : List Ikcpseg
  acklist : List (UInt32 × UInt32)
  fastresend : Int32
  fastlimit : Int32
  nocwnd : Int32
  stream : Int32

def ikcpCreate (conv : UInt32) : Ikcpcb where
  conv := conv
  mtu := mtuDef
  mss := mtuDef - overhead
  state := 0
  sndUna := 0
  sndNxt := 0
  rcvNxt := 0
  ssthresh := threshInit
  rxRttval := 0
  rxSrtt := 0
  rxRto := rtoDef
  rxMinrto := rtoMin
  sndWnd := wndSnd
  rcvWnd := wndRcv
  rmtWnd := wndRcv
  cwnd := 0
  probe := 0
  current := 0
  interval := intervalDef
  tsFlush := intervalDef
  xmit := 0
  nrcvBuf := 0
  nsndBuf := 0
  nrcvQue := 0
  nsndQue := 0
  nodelay := 0
  updated := false
  tsProbe := 0
  probeWait := 0
  deadLink := deadlink
  incr := 0
  sndQueue := []
  rcvQueue := []
  sndBuf := []
  rcvBuf := []
  acklist := []
  fastresend := 0
  fastlimit := fastackLimit
  nocwnd := 0
  stream := 0

section Recv

/-- The segments up to the last fragment of a message, and those behind it. -/
def takeMessage (queue : List Ikcpseg) : List Ikcpseg × List Ikcpseg :=
  Countdown.splitMessage (fun seg => seg.frg = 0) queue

def merged (segs : List Ikcpseg) : Bytes := segs.flatMap Ikcpseg.data

def ikcpPeeksize (kcp : Ikcpcb) : Int :=
  match kcp.rcvQueue with
  | [] => -1
  | seg :: _ =>
      if seg.frg = 0 then seg.data.length
      else if kcp.nrcvQue.toNat < seg.frg.toNat + 1 then -1
      else (merged (takeMessage kcp.rcvQueue).1).length

/-- The loop that moves segments from `rcv_buf` to `rcv_queue`; the list is what
is left of `rcv_buf`. -/
def moveReceived (kcp : Ikcpcb) : List Ikcpseg → Ikcpcb
  | [] => { kcp with rcvBuf := [] }
  | seg :: rest =>
      if seg.sn = kcp.rcvNxt ∧ kcp.nrcvQue < kcp.rcvWnd then
        moveReceived { kcp with
          nrcvBuf := kcp.nrcvBuf - 1
          rcvQueue := kcp.rcvQueue ++ [seg]
          nrcvQue := kcp.nrcvQue + 1
          rcvNxt := kcp.rcvNxt + 1 } rest
      else { kcp with rcvBuf := seg :: rest }

def removeMessage (kcp : Ikcpcb) : Ikcpcb :=
  { kcp with
    rcvQueue := (takeMessage kcp.rcvQueue).2
    nrcvQue := kcp.nrcvQue - .ofNat (takeMessage kcp.rcvQueue).1.length }

/-- A window that was closed is announced as soon as it is open again. -/
def fastRecover (recover : Bool) (kcp : Ikcpcb) : Ikcpcb :=
  { kcp with probe := if kcp.nrcvQue < kcp.rcvWnd ∧ recover then kcp.probe ||| askTell else kcp.probe }

/-- The result, what has been put into the buffer and the control block. With a
negative `len` the message stays where it is. -/
def ikcpRecv (kcp : Ikcpcb) (len : Int) : Int × Bytes × Ikcpcb :=
  if kcp.rcvQueue = [] then (-1, [], kcp)
  else if ikcpPeeksize kcp < 0 then (-2, [], kcp)
  else if ikcpPeeksize kcp > len.natAbs then (-3, [], kcp)
  else
    let message := merged (takeMessage kcp.rcvQueue).1
    let recover := decide (kcp.nrcvQue ≥ kcp.rcvWnd)
    let kcp := if len < 0 then kcp else removeMessage kcp
    (message.length, message, fastRecover recover (moveReceived kcp kcp.rcvBuf))

end Recv

section Send

/-- A segment that is not numbered yet. -/
def segmentNew (frg : UInt32) (data : Bytes) : Ikcpseg := ⟨0, 0, frg, 0, 0, 0, 0, 0, 0, 0, 0, data⟩

/-- The loop that cuts the rest of a buffer into so many segments. -/
def fragment (mss : Nat) (stream : Int32) : Nat → Bytes → List Ikcpseg
  | 0, _ => []
  | n + 1, buffer => segmentNew (if stream = 0 then .ofNat n else 0) (buffer.take mss) :: fragment mss stream n (buffer.drop mss)

/-- In stream mode the last segment of the queue is filled up first. -/
def extendLast (kcp : Ikcpcb) (buffer : Bytes) : Nat × Ikcpcb :=
  match kcp.sndQueue.getLast? with
  | none => (0, kcp)
  | some old =>
      if old.data.length < kcp.mss.toNat then
        let extend := min buffer.length (kcp.mss.toNat - old.data.length)
        (extend, { kcp with sndQueue := kcp.sndQueue.dropLast ++ [segmentNew 0 (old.data ++ buffer.take extend)] })
      else (0, kcp)

/-- The number of segments that a buffer needs. -/
def segmentCount (kcp : Ikcpcb) (buffer : Bytes) : Nat :=
  if buffer.length ≤ kcp.mss.toNat then 1 else (buffer.length + kcp.mss.toNat - 1) / kcp.mss.toNat

/-- The part of `ikcp_send` behind the one for streams, which has taken `sent`
bytes. -/
def sendSegments (kcp : Ikcpcb) (sent : Nat) (buffer : Bytes) : Int × Ikcpcb :=
  let count := segmentCount kcp buffer
  if count ≥ wndRcv.toNat then (if kcp.stream ≠ 0 ∧ sent > 0 then sent else -2, kcp)
  else
    (sent + buffer.length, { kcp with
      sndQueue := kcp.sndQueue ++ fragment kcp.mss.toNat kcp.stream count buffer
      nsndQue := kcp.nsndQue + .ofNat count })

def ikcpSend (kcp : Ikcpcb) (buffer : Bytes) : Int × Ikcpcb :=
  if kcp.stream ≠ 0 then
    let extended := extendLast kcp buffer
    let buffer := buffer.drop extended.1
    if buffer.length = 0 then (extended.1, extended.2) else sendSegments extended.2 extended.1 buffer
  else sendSegments kcp 0 buffer

end Send

section Acknowledge

def updateAck (kcp : Ikcpcb) (rtt : Int32) : Ikcpcb :=
  let delta := (rtt - kcp.rxSrtt).toInt.natAbs
  let rttval := if kcp.rxSrtt = 0 then rtt / 2 else .ofInt (((3 * kcp.rxRttval).toInt + delta).tdiv 4)
  let srtt := if kcp.rxSrtt = 0 then rtt else max 1 ((7 * kcp.rxSrtt + rtt) / 8)
  let rto := srtt.toUInt32 + max kcp.interval (4 * rttval).toUInt32
  { kcp with rxRttval := rttval, rxSrtt := srtt, rxRto := ibound kcp.rxMinrto rto rtoMax }

def shrinkBuf (kcp : Ikcpcb) : Ikcpcb :=
  { kcp with sndUna := match kcp.sndBuf with
      | [] => kcp.sndNxt
      | seg :: _ => seg.sn }

/-- The number is in the range of what has been sent and not acknowledged. -/
def inFlight (kcp : Ikcpcb) (sn : UInt32) : Prop :=
  ¬ (itimediff sn kcp.sndUna < 0 ∨ itimediff sn kcp.sndNxt ≥ 0)

instance (kcp : Ikcpcb) (sn : UInt32) : Decidable (inFlight kcp sn) := inferInstanceAs (Decidable (¬ _))

def parseAck (kcp : Ikcpcb) (sn : UInt32) : Ikcpcb :=
  let sndBuf := if inFlight kcp sn then SerialList.erase Ikcpseg.sn sn kcp.sndBuf else kcp.sndBuf
  { kcp with sndBuf := sndBuf, nsndBuf := kcp.nsndBuf - .ofNat (kcp.sndBuf.length - sndBuf.length) }

def parseUna (kcp : Ikcpcb) (una : UInt32) : Ikcpcb :=
  let sndBuf := kcp.sndBuf.dropWhile fun seg => itimediff una seg.sn > 0
  { kcp with sndBuf := sndBuf, nsndBuf := kcp.nsndBuf - .ofNat (kcp.sndBuf.length - sndBuf.length) }

/-- The loop of `ikcp_parse_fastack`. -/
def countFastack (sn ts : UInt32) : List Ikcpseg → List Ikcpseg
  | [] => []
  | seg :: rest =>
      if itimediff sn seg.sn < 0 then seg :: rest
      else if sn ≠ seg.sn ∧ itimediff ts seg.ts ≥ 0 then { seg with fastack := seg.fastack + 1 } :: countFastack sn ts rest
      else seg :: countFastack sn ts rest

def parseFastack (kcp : Ikcpcb) (sn ts : UInt32) : Ikcpcb :=
  { kcp with sndBuf := if inFlight kcp sn then countFastack sn ts kcp.sndBuf else kcp.sndBuf }

def ackPush (kcp : Ikcpcb) (sn ts : UInt32) : Ikcpcb := { kcp with acklist := kcp.acklist ++ [(sn, ts)] }

end Acknowledge

section Input

def parseData (kcp : Ikcpcb) (newseg : Ikcpseg) : Ikcpcb :=
  if itimediff newseg.sn (kcp.rcvNxt + kcp.rcvWnd) ≥ 0 ∨ itimediff newseg.sn kcp.rcvNxt < 0 then kcp
  else
    match SerialList.insert Ikcpseg.sn newseg kcp.rcvBuf with
    | none => moveReceived kcp kcp.rcvBuf
    | some rcvBuf => moveReceived { kcp with nrcvBuf := kcp.nrcvBuf + 1 } rcvBuf

/-- The header of a segment as it stands in a datagram, and its data. -/
structure Wire where
  conv : UInt32
  cmd : UInt8
  frg : UInt8
  wnd : UInt16
  ts : UInt32
  sn : UInt32
  una : UInt32
  data : Bytes

def decode16u (data : Bytes) : UInt16 := .ofNat ((data.getD 0 0).toNat + 256 * (data.getD 1 0).toNat)

/-- The first segment of a datagram and the bytes behind it, or what
`ikcp_input` returns if it is not one of the conversation. -/
def decodeSegment (conv : UInt32) (data : Bytes) : Except Int (Wire × Bytes) :=
  let cmd := data.getD 4 0
  let len := (ikcpGetconv (data.drop 20)).toNat
  let rest := data.drop overhead.toNat
  if ikcpGetconv data ≠ conv then .error (-1)
  else if rest.length < len ∨ len ≥ 2147483648 then .error (-2)
  else if cmd ≠ cmdPush ∧ cmd ≠ cmdAck ∧ cmd ≠ cmdWask ∧ cmd ≠ cmdWins then .error (-3)
  else
    .ok (⟨conv, cmd, data.getD 5 0, decode16u (data.drop 6), ikcpGetconv (data.drop 8), ikcpGetconv (data.drop 12),
      ikcpGetconv (data.drop 16), rest.take len⟩, rest.drop len)

/-- The acknowledgement that counts for fast retransmission, if there was one. -/
abbrev Maxack := Option (UInt32 × UInt32)

def laterAck (ack : Maxack) (sn ts : UInt32) : Maxack :=
  match ack with
  | none => some (sn, ts)
  | some (maxack, latest) =>
      if itimediff sn maxack > 0 ∧ itimediff ts latest > 0 then some (sn, ts) else some (maxack, latest)

/-- The round trip that an acknowledgement has taken, unless it is from later. -/
def measureRtt (kcp : Ikcpcb) (ts : UInt32) : Ikcpcb :=
  if itimediff kcp.current ts ≥ 0 then updateAck kcp (kcp.current - ts).toInt32 else kcp

def inputAck (kcp : Ikcpcb) (sn ts : UInt32) : Ikcpcb := shrinkBuf (parseAck (measureRtt kcp ts) sn)

/-- The segment that is made of what a datagram brings. -/
def receivedSegment (w : Wire) : Ikcpseg :=
  ⟨w.conv, w.cmd, w.frg.toUInt32, w.wnd.toUInt32, w.ts, w.sn, w.una, 0, 0, 0, 0, w.data⟩

def inputPush (kcp : Ikcpcb) (w : Wire) : Ikcpcb :=
  if itimediff w.sn (kcp.rcvNxt + kcp.rcvWnd) < 0 then
    let kcp := ackPush kcp w.sn w.ts
    if itimediff w.sn kcp.rcvNxt ≥ 0 then parseData kcp (receivedSegment w) else kcp
  else kcp

/-- What a segment does to the control block, after its command has been
checked. -/
def inputSegment (kcp : Ikcpcb) (ack : Maxack) (w : Wire) : Ikcpcb × Maxack :=
  let kcp := shrinkBuf (parseUna { kcp with rmtWnd := w.wnd.toUInt32 } w.una)
  if w.cmd = cmdAck then (inputAck kcp w.sn w.ts, laterAck ack w.sn w.ts)
  else if w.cmd = cmdPush then (inputPush kcp w, ack)
  else if w.cmd = cmdWask then ({ kcp with probe := kcp.probe ||| askTell }, ack)
  else (kcp, ack)

/-- The loop over the segments of a datagram: what `ikcp_input` returns from
inside it, and the control block. Every segment takes more than one byte, so the
length of the datagram is enough `fuel`. -/
def inputLoop : Nat → Ikcpcb → Maxack → Bytes → Option Int × Ikcpcb × Maxack
  | 0, kcp, ack, _ => (none, kcp, ack)
  | fuel + 1, kcp, ack, data =>
      if data.length < overhead.toNat then (none, kcp, ack)
      else
        match decodeSegment kcp.conv data with
        | .error code => (some code, kcp, ack)
        | .ok (w, rest) => inputLoop fuel (inputSegment kcp ack w).1 (inputSegment kcp ack w).2 rest

/-- `cwnd` and `incr` after an acknowledgement: slow start below `ssthresh`,
then about one segment for every window. -/
def grownCwnd (kcp : Ikcpcb) : UInt32 × UInt32 :=
  let mss := kcp.mss
  let base := max kcp.incr mss
  let incr := base + ((mss * mss) / base + mss / 16)
  let next :=
    if kcp.cwnd < kcp.ssthresh then (kcp.cwnd + 1, kcp.incr + mss)
    else if (kcp.cwnd + 1) * mss ≤ incr then ((incr + mss - 1) / (if mss > 0 then mss else 1), incr)
    else (kcp.cwnd, incr)
  if kcp.cwnd < kcp.rmtWnd then
    if next.1 > kcp.rmtWnd then (kcp.rmtWnd, kcp.rmtWnd * mss) else next
  else (kcp.cwnd, kcp.incr)

def growCwnd (kcp : Ikcpcb) : Ikcpcb := { kcp with cwnd := (grownCwnd kcp).1, incr := (grownCwnd kcp).2 }

def countAcks (kcp : Ikcpcb) : Maxack → Ikcpcb
  | none => kcp
  | some (maxack, latest) => parseFastack kcp maxack latest

/-- A datagram has been read to its end. -/
def endInput (prevUna : UInt32) (kcp : Ikcpcb) (ack : Maxack) : Ikcpcb :=
  let kcp := countAcks kcp ack
  if itimediff kcp.sndUna prevUna > 0 then growCwnd kcp else kcp

def ikcpInput (kcp : Ikcpcb) (data : Bytes) : Int × Ikcpcb :=
  -- `size` is a long, and cut to an int here alone
  if Int32.ofNat data.length < overhead.toInt32 then (-1, kcp)
  else
    match inputLoop data.length kcp none data with
    | (some code, kcp', _) => (code, kcp')
    | (none, kcp', ack) => (0, endInput kcp.sndUna kcp' ack)

end Input

section Flush

def encode (seg : Ikcpseg) : Bytes :=
  encodeSeg seg.conv seg.cmd seg.frg.toUInt8 seg.wnd.toUInt16 seg.ts seg.sn seg.una seg.data

def wndUnused (kcp : Ikcpcb) : UInt32 := if kcp.nrcvQue < kcp.rcvWnd then kcp.rcvWnd - kcp.nrcvQue else 0

/-- The bytes in the buffer up to `ptr`, and the packets that have been handed
to the output callback. -/
structure Output where
  pending : Bytes
  packets : List Bytes

def ikcpOutput (packets : List Bytes) (data : Bytes) : List Bytes := if data.length = 0 then packets else packets ++ [data]

/-- What is in the buffer goes out first if there is no room behind it. -/
def Output.put (mtu : UInt32) (o : Output) (bytes : Bytes) : Output :=
  if o.pending.length + bytes.length > mtu.toNat then ⟨bytes, ikcpOutput o.packets o.pending⟩
  else ⟨o.pending ++ bytes, o.packets⟩

/-- The segment that flush fills in for acknowledgements and probes. -/
def ackSegment (kcp : Ikcpcb) : Ikcpseg := ⟨kcp.conv, cmdAck, 0, wndUnused kcp, 0, 0, kcp.rcvNxt, 0, 0, 0, 0, []⟩

def flushAcks (kcp : Ikcpcb) (seg : Ikcpseg) (o : Output) : Output :=
  kcp.acklist.foldl (fun o ack => o.put kcp.mtu (encode { seg with sn := ack.1, ts := ack.2 })) o

/-- The segment keeps the number and the time of the last acknowledgement. -/
def lastAck (kcp : Ikcpcb) (seg : Ikcpseg) : Ikcpseg :=
  match kcp.acklist.getLast? with
  | none => seg
  | some ack => { seg with sn := ack.1, ts := ack.2 }

/-- `probe_wait`, `ts_probe` and `probe`: a remote window of zero is probed, at
growing intervals. -/
def nextProbe (kcp : Ikcpcb) : UInt32 × UInt32 × UInt32 :=
  if kcp.rmtWnd = 0 then
    if kcp.probeWait = 0 then (probeInit, kcp.current + probeInit, kcp.probe)
    else if itimediff kcp.current kcp.tsProbe ≥ 0 then
      let wait := max kcp.probeWait probeInit
      let wait := min (wait + wait / 2) probeLimit
      (wait, kcp.current + wait, kcp.probe ||| askSend)
    else (kcp.probeWait, kcp.tsProbe, kcp.probe)
  else (0, 0, kcp.probe)

def probeWindow (kcp : Ikcpcb) : Ikcpcb :=
  { kcp with probeWait := (nextProbe kcp).1, tsProbe := (nextProbe kcp).2.1, probe := (nextProbe kcp).2.2 }

def flushProbes (kcp : Ikcpcb) (seg : Ikcpseg) (o : Output) : Output :=
  let o := if kcp.probe &&& askSend ≠ 0 then o.put kcp.mtu (encode { seg with cmd := cmdWask }) else o
  if kcp.probe &&& askTell ≠ 0 then o.put kcp.mtu (encode { seg with cmd := cmdWins }) else o

def sendWindow (kcp : Ikcpcb) : UInt32 :=
  let cwnd := min kcp.sndWnd kcp.rmtWnd
  if kcp.nocwnd = 0 then min kcp.cwnd cwnd else cwnd

/-- A segment of the send queue gets its number. -/
def number (kcp : Ikcpcb) (seg : Ikcpseg) : Ikcpseg :=
  { seg with
    conv := kcp.conv
    cmd := cmdPush
    wnd := wndUnused kcp
    ts := kcp.current
    sn := kcp.sndNxt
    una := kcp.rcvNxt
    resendts := kcp.current
    rto := kcp.rxRto
    fastack := 0
    xmit := 0 }

def sendNext (kcp : Ikcpcb) (seg : Ikcpseg) : Ikcpcb :=
  { kcp with
    sndBuf := kcp.sndBuf ++ [number kcp seg]
    nsndQue := kcp.nsndQue - 1
    nsndBuf := kcp.nsndBuf + 1
    sndNxt := kcp.sndNxt + 1 }

/-- The loop that moves segments from `snd_queue` to `snd_buf`; the list is what
is left of `snd_queue`. -/
def moveSent (cwnd : UInt32) (kcp : Ikcpcb) : List Ikcpseg → Ikcpcb
  | [] => { kcp with sndQueue := [] }
  | seg :: rest =>
      if itimediff kcp.sndNxt (kcp.sndUna + cwnd) < 0 then moveSent cwnd (sendNext kcp seg) rest
      else { kcp with sndQueue := seg :: rest }

def resentThreshold (kcp : Ikcpcb) : UInt32 := if kcp.fastresend > 0 then kcp.fastresend.toUInt32 else 0xffffffff

/-- Why a segment is sent: for the first time, after its timeout or because
later ones have been acknowledged. -/
inductive Reason
  | first
  | timeout
  | fast
deriving DecidableEq

def needsend (kcp : Ikcpcb) (seg : Ikcpseg) : Option Reason :=
  if seg.xmit = 0 then some .first
  else if itimediff kcp.current seg.resendts ≥ 0 then some .timeout
  else if seg.fastack ≥ resentThreshold kcp ∧ (seg.xmit.toInt32 ≤ kcp.fastlimit ∨ kcp.fastlimit ≤ 0) then some .fast
  else none

def transmit (kcp : Ikcpcb) (seg : Ikcpseg) : Reason → Ikcpseg
  | .first =>
      let rtomin := if kcp.nodelay = 0 then kcp.rxRto >>> 3 else 0
      { seg with
        xmit := seg.xmit + 1
        rto := kcp.rxRto
        resendts := kcp.current + kcp.rxRto + rtomin
        ts := kcp.current
        wnd := wndUnused kcp
        una := kcp.rcvNxt }
  | .timeout =>
      let step := if kcp.nodelay < 2 then seg.rto.toInt32 else kcp.rxRto.toInt32
      let rto := if kcp.nodelay = 0 then seg.rto + max seg.rto kcp.rxRto else seg.rto + (step / 2).toUInt32
      { seg with
        xmit := seg.xmit + 1
        rto := rto
        resendts := kcp.current + rto
        ts := kcp.current
        wnd := wndUnused kcp
        una := kcp.rcvNxt }
  | .fast =>
      { seg with
        xmit := seg.xmit + 1
        fastack := 0
        resendts := kcp.current + seg.rto
        ts := kcp.current
        wnd := wndUnused kcp
        una := kcp.rcvNxt }

/-- What the loop over `snd_buf` leaves: the segments, the output and why there
were retransmissions. -/
structure Pass where
  segs : List Ikcpseg
  out : Output
  timeouts : Nat
  fasts : Nat
  dead : Bool

def flushSegments (kcp : Ikcpcb) : List Ikcpseg → Output → Pass
  | [], o => ⟨[], o, 0, 0, false⟩
  | seg :: rest, o =>
      match needsend kcp seg with
      | none =>
          let p := flushSegments kcp rest o
          { p with segs := seg :: p.segs }
      | some reason =>
          let seg := transmit kcp seg reason
          let p := flushSegments kcp rest (o.put kcp.mtu (encode seg))
          { segs := seg :: p.segs, out := p.out
            timeouts := p.timeouts + if reason = .timeout then 1 else 0
            fasts := p.fasts + if reason = .fast then 1 else 0
            dead := p.dead || decide (seg.xmit ≥ kcp.deadLink) }

/-- The windows after retransmissions. -/
structure Windows where
  ssthresh : UInt32
  cwnd : UInt32
  incr : UInt32

def windowsAfter (kcp : Ikcpcb) (priorCwnd : UInt32) (timeouts fasts : Nat) : Windows :=
  let ssthresh := max ((kcp.sndNxt - kcp.sndUna) / 2) threshMin
  let cwnd := ssthresh + resentThreshold kcp
  let w := if fasts > 0 then ⟨ssthresh, cwnd, cwnd * kcp.mss⟩ else ⟨kcp.ssthresh, kcp.cwnd, kcp.incr⟩
  let w := if timeouts > 0 then ⟨max (priorCwnd / 2) threshMin, 1, kcp.mss⟩ else w
  if w.cwnd < 1 then ⟨w.ssthresh, 1, kcp.mss⟩ else w

def adjustCwnd (kcp : Ikcpcb) (priorCwnd : UInt32) (timeouts fasts : Nat) : Ikcpcb :=
  let w := windowsAfter kcp priorCwnd timeouts fasts
  { kcp with ssthresh := w.ssthresh, cwnd := w.cwnd, incr := w.incr }

/-- The control block when the acknowledgements and probes are out and the
segments that the window admits are in `snd_buf`. -/
def flushQueue (kcp : Ikcpcb) : Ikcpcb :=
  let kcp := { probeWindow { kcp with acklist := [] } with probe := 0 }
  moveSent (sendWindow kcp) kcp kcp.sndQueue

def ikcpFlush (kcp : Ikcpcb) : Ikcpcb × List Bytes :=
  if kcp.updated = false then (kcp, [])
  else
    let seg := ackSegment kcp
    let o := flushAcks kcp seg ⟨[], []⟩
    let o := flushProbes (probeWindow kcp) (lastAck kcp seg) o
    let kcp' := flushQueue kcp
    let p := flushSegments kcp' kcp'.sndBuf o
    let kcp' := { kcp' with
      sndBuf := p.segs
      xmit := kcp'.xmit + .ofNat p.timeouts
      state := if p.dead then 0xffffffff else kcp'.state }
    (adjustCwnd kcp' kcp.cwnd p.timeouts p.fasts, ikcpOutput p.out.packets p.out.pending)

end Flush

section Update

/-- Whether a flush is due, and `ts_flush` after the call. The clock may have
jumped by more than ten seconds in either direction. -/
def nextFlush (kcp : Ikcpcb) (current : UInt32) : Bool × UInt32 :=
  let tsFlush := if kcp.updated then kcp.tsFlush else current
  let slap := itimediff current tsFlush
  let jumped := slap ≥ 10000 ∨ slap < -10000
  let tsFlush := if jumped then current else tsFlush
  let next := tsFlush + kcp.interval
  if jumped ∨ slap ≥ 0 then (true, if itimediff current next ≥ 0 then current + kcp.interval else next)
  else (false, tsFlush)

def ikcpUpdate (kcp : Ikcpcb) (current : UInt32) : Ikcpcb × List Bytes :=
  let kcp' := { kcp with current := current, updated := true, tsFlush := (nextFlush kcp current).2 }
  if (nextFlush kcp current).1 then ikcpFlush kcp' else (kcp', [])

/-- The loop of `ikcp_check`; `none` if a segment is due. -/
def nextResend (current : UInt32) : List Ikcpseg → Int → Option Int
  | [], least => some least
  | seg :: rest, least =>
      let diff := itimediff seg.resendts current
      if diff ≤ 0 then none else nextResend current rest (min diff least)

def ikcpCheck (kcp : Ikcpcb) (current : UInt32) : UInt32 :=
  if !kcp.updated then current
  else
    let late := itimediff current kcp.tsFlush ≥ 10000 ∨ itimediff current kcp.tsFlush < -10000
    let tsFlush := if late then current else kcp.tsFlush
    if itimediff current tsFlush ≥ 0 then current
    else
      match nextResend current kcp.sndBuf 2147483647 with
      | none => current
      | some packet => current + min (.ofInt (min packet (itimediff tsFlush current))) kcp.interval

end Update

section Configure

/-- There may be no memory for the new buffer. Its size is not in the model: after
a call with a smaller MTU `ikcp_flush` can write past its end, when segments of
the old size are waiting. -/
def ikcpSetmtu (kcp : Ikcpcb) (mtu : Int32) (malloc : Bool) : Int × Ikcpcb :=
  if mtu < 50 ∨ mtu < overhead.toInt32 then (-1, kcp)
  else if malloc = false then (-2, kcp)
  else (0, { kcp with mtu := mtu.toUInt32, mss := mtu.toUInt32 - overhead })

def boundInterval (interval : Int32) : UInt32 :=
  if interval > 5000 then 5000 else if interval < 10 then 10 else interval.toUInt32

def ikcpInterval (kcp : Ikcpcb) (interval : Int32) : Ikcpcb := { kcp with interval := boundInterval interval }

def ikcpNodelay (kcp : Ikcpcb) (nodelay interval resend nc : Int32) : Ikcpcb :=
  { kcp with
    nodelay := if nodelay ≥ 0 then nodelay.toUInt32 else kcp.nodelay
    rxMinrto := if nodelay ≥ 0 then (if nodelay ≠ 0 then rtoNdl else rtoMin) else kcp.rxMinrto
    interval := if interval ≥ 0 then boundInterval interval else kcp.interval
    fastresend := if resend ≥ 0 then resend else kcp.fastresend
    nocwnd := if nc ≥ 0 then nc else kcp.nocwnd }

def ikcpWndsize (kcp : Ikcpcb) (sndwnd rcvwnd : Int32) : Ikcpcb :=
  { kcp with
    sndWnd := if sndwnd > 0 then sndwnd.toUInt32 else kcp.sndWnd
    rcvWnd := if rcvwnd > 0 then max rcvwnd.toUInt32 wndRcv else kcp.rcvWnd }

def ikcpWaitsnd (kcp : Ikcpcb) : Int32 := (kcp.nsndBuf + kcp.nsndQue).toInt32

end Configure

end GameAccelerator.Ikcp
