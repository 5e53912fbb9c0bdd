/-
The receive task: `receiver_loop` in `rist-transport/src/receiver.rs`.

The arms of the loop are functions of the state, the clock readings and, for the
two socket arms, the datagrams.  A burst is the datagram `recv_from` returned and
those already queued behind it.  What the two timers send is kept as the compound that
goes out, before it is serialised.  The statistics are left out.
-/
import Rist.Packet.Rtcp
import Rist.Packet.Rtp
import Rist.Protocol.NackTracker
import Rist.Protocol.Reorder
import Rist.Protocol.RtcpState
import Rist.Protocol.Rtt
import Rist.Transport.Guard

namespace Rist

/-- `MAX_UDP_RECV`: a longer datagram is cut. -/
def maxUdpRecv : Nat := 2048

/-- `MIN_NACK_RETRY_DELAY`. -/
def minNackRetryDelay : Duration := Duration.fromMillis 20

/-- `MAX_BATCH`. -/
def maxBatch : Nat := 32

/-- A datagram on the RTP socket, and the time in microseconds at which it is parsed. -/
structure Datagram where
  src : SocketAddr
  bytes : Bytes
  arrivalUs : UInt64

structure ParsedRtp where
  seq : UInt16
  ssrc : UInt32
  rtpTs : UInt32
  payload : Bytes
  arrivalUs : UInt64
  payloadLen : Nat
  isRetransmit : Bool

/-- `parse_rtp`.  The header size never exceeds the buffer. -/
def parseRtp (buf : Bytes) (arrivalUs : UInt64) : Option ParsedRtp :=
  match RtpHeader.parse buf with
  | .ok (header, headerSize) =>
    some { seq := header.sequenceNumber, ssrc := header.ssrc, rtpTs := header.timestamp,
           payload := buf.drop headerSize, arrivalUs, payloadLen := buf.length - headerSize,
           isRetransmit := header.isRetransmit }
  | .error _ => none

/-- What the socket hands over. -/
def Datagram.parse (d : Datagram) : Option ParsedRtp :=
  parseRtp (d.bytes.take maxUdpRecv) d.arrivalUs

/-! ### The three trackers of the media path -/

structure MediaPath where
  reorder : ReorderBuffer
  rtcp : RtcpReceiverState
  nack : NackScheduler

namespace MediaPath

/-- The insert loop of a burst, under one lock. -/
def insertAll (b : ReorderBuffer) (now : Instant) :
    List ParsedRtp → ReorderBuffer × List InsertOutcome
  | [] => (b, [])
  | p :: ps =>
    let (b, o) := b.insert p.seq p.payload now
    let (b, os) := insertAll b now ps
    (b, o :: os)

/-- The tracker loop of a burst. -/
def trackAll (rtcp : RtcpReceiverState) (nack : NackScheduler) (now : Instant) :
    List (ParsedRtp × InsertOutcome) → RtcpReceiverState × NackScheduler
  | [] => (rtcp, nack)
  | (p, o) :: rest =>
    trackAll (rtcp.onPacketReceived p.seq p.rtpTs p.arrivalUs o.duplicate)
      (nack.onPacketReceived p.seq now).1 now rest

/-- A whole burst: every insert first, then the trackers. -/
def processBatch (m : MediaPath) (batch : List ParsedRtp) (now : Instant) : MediaPath :=
  let (reorder, outcomes) := insertAll m.reorder now batch
  let (rtcp, nack) := trackAll m.rtcp m.nack now (batch.zip outcomes)
  ⟨reorder, rtcp, nack⟩

end MediaPath

/-! ### The receive task -/

structure ReceiverState where
  media : MediaPath
  rtt : RttEstimator
  observedMediaSsrc : Option UInt32
  senderRtpAddr : Option SocketAddr
  rtpPeerLive : Option Instant
  senderRtcpAddr : Option SocketAddr
  rtcpPeerLive : Option Instant

namespace ReceiverState

/-- The state the loop starts in. -/
def new (bufferSize : Duration) (maxNackRetries : UInt32) (rtcpInterval : Duration)
    (now : Instant) : ReceiverState where
  media := ⟨ReorderBuffer.new bufferSize, RtcpReceiverState.new,
    NackScheduler.new maxNackRetries minNackRetryDelay now⟩
  rtt := RttEstimator.new (rtcpInterval * 10)
  observedMediaSsrc := none
  senderRtpAddr := none
  rtpPeerLive := none
  senderRtcpAddr := none
  rtcpPeerLive := none

/-- The datagrams read behind the first, at most `n` of them.  One from another
address is read and dropped. -/
def drainBurst (src : SocketAddr) : Nat → List ParsedRtp → List Datagram → List ParsedRtp
  | 0, batch, _ => batch
  | _, batch, [] => batch
  | n + 1, batch, d :: ds =>
    if batch.length < maxBatch then
      if d.src ≠ src then drainBurst src n batch ds
      else
        match d.parse with
        | some p => drainBurst src n (batch ++ [p]) ds
        | none => drainBurst src n batch ds
    else batch

/-- The packets of a burst. -/
def burst (first : Datagram) (queued : List Datagram) : List ParsedRtp :=
  drainBurst first.src (maxBatch - 1) first.parse.toList queued

/-- Latch the media source, and with it the control address of the same host. -/
def latch (s : ReceiverState) (src : SocketAddr) : ReceiverState :=
  if s.senderRtpAddr ≠ some src then
    { s with senderRtpAddr := some src, senderRtcpAddr := some (rtcpAddrFor src) }
  else s

/-- Is the burst's first datagram admitted? -/
def rtpAdmitted (s : ReceiverState) (pinned : Option IpAddr) (first : Datagram)
    (arrivedAt : Instant) : Bool :=
  sourceAllowed first.src pinned s.senderRtpAddr s.rtpPeerLive arrivedAt

/-- The RTP arm. -/
def rtpArm (pinned : Option IpAddr) (s : ReceiverState) (first : Datagram)
    (queued : List Datagram) (arrivedAt now : Instant) : ReceiverState :=
  if s.rtpAdmitted pinned first arrivedAt then
    let s := s.latch first.src
    let s := { s with observedMediaSsrc :=
      s.observedMediaSsrc.or (first.parse.map fun p => p.ssrc) }
    let batch := burst first queued
    if batch.isEmpty then s
    else { s with rtpPeerLive := some now, media := s.media.processBatch batch now }
  else s

/-- `Option::max`: nothing is less than something. -/
def maxLive (a b : Option Instant) : Option Instant :=
  match a, b with
  | some x, some y => some (max x y)
  | some x, none => some x
  | none, y => y

/-- `u32::MAX` at most. -/
def elapsedMicros (since clock : Instant) : UInt32 :=
  UInt32.ofNat (min ((clock - since) / 1000) 4294967295)

/-- The reply to an echo request. -/
def echoReply (ssrc : UInt32) (req : RttEchoRequest) (delay : UInt32) : Bytes :=
  RtcpCompound.serialize [.receiverReport (ReceiverReport.empty ssrc),
    .app (.rttEchoResponse ⟨req.ssrc, req.timestampMsw, req.timestampLsw, delay⟩)]

/-- One sub-packet of an accepted datagram, with the clock at its turn. -/
def handlePacket (ssrc : UInt32) (src : SocketAddr) (now clock : Instant) (s : ReceiverState) :
    RtcpPacket → ReceiverState × List (SocketAddr × Bytes)
  | .senderReport sr => ({ s with media.rtcp := s.media.rtcp.onSrReceived sr now }, [])
  | .app (.rttEchoRequest req) => (s, [(src, echoReply ssrc req (elapsedMicros now clock))])
  | .app (.rttEchoResponse resp) =>
    let rtt := s.rtt.onResponse now resp.timestampMsw resp.timestampLsw resp.processingDelayUs
    match rtt.srtt with
    | some srtt =>
      ({ s with rtt, media.nack := s.media.nack.updateBaseDelay (max (srtt / 2) minNackRetryDelay) },
        [])
    | none => ({ s with rtt }, [])
  | _ => (s, [])

def handlePackets (ssrc : UInt32) (src : SocketAddr) (now : Instant) (clock : Nat → Instant) :
    ReceiverState → Nat → List RtcpPacket → ReceiverState × List (SocketAddr × Bytes)
  | s, _, [] => (s, [])
  | s, k, p :: ps =>
    let (s, out) := handlePacket ssrc src now (clock k) s p
    let (s, outs) := handlePackets ssrc src now clock s (k + 1) ps
    (s, out ++ outs)

/-- The RTCP arm, with the replies it sends. -/
def rtcpArm (pinned : Option IpAddr) (ssrc : UInt32) (s : ReceiverState) (src : SocketAddr)
    (bytes : Bytes) (now : Instant) (clock : Nat → Instant) :
    ReceiverState × List (SocketAddr × Bytes) :=
  if sourceAllowed src pinned s.senderRtcpAddr (maxLive s.rtcpPeerLive s.rtpPeerLive) now then
    match RtcpCompound.parse (bytes.take maxUdpRecv) with
    | .ok packets =>
      if packets.isEmpty then (s, [])
      else
        handlePackets ssrc src now clock
          { s with senderRtcpAddr := some src, rtcpPeerLive := some now } 0 packets
    | .error _ => (s, [])
  else (s, [])

/-! ### The timers -/

/-- The request for the numbers that are due. -/
def nackFor (ssrc : UInt32) (s : ReceiverState) (pendingNacks : List UInt16) : NackPacket :=
  let senderSsrc := (s.media.rtcp.senderSsrc.or s.observedMediaSsrc).getD 0
  (NackListBuilder.mk ssrc senderSsrc).buildBitmask pendingNacks

/-- The fast pump, with the compounds it sends. -/
def pumpArm (ssrc : UInt32) (s : ReceiverState) (now : Instant) :
    ReceiverState × List (SocketAddr × List RtcpPacket) :=
  match s.senderRtcpAddr with
  | none => (s, [])
  | some rtcpDest =>
    let (nack, pendingNacks) := s.media.nack.getPendingNacks now s.rtt.srtt
    if pendingNacks.isEmpty then ({ s with media.nack := nack }, [])
    else
      let (rtcp, rr) := s.media.rtcp.generateRr ssrc now
      ({ s with media.nack := nack, media.rtcp := rtcp },
        [(rtcpDest, [.receiverReport rr, .nack (nackFor ssrc s pendingNacks)])])

/-- The periodic report, with a scheduled echo request in it. -/
def reportArm (ssrc : UInt32) (cname : String) (rttEchoEnabled : Bool) (s : ReceiverState)
    (now : Instant) : ReceiverState × List (SocketAddr × List RtcpPacket) :=
  match s.senderRtcpAddr with
  | none => (s, [])
  | some rtcpDest =>
    let (rtcp, rr) := s.media.rtcp.generateRr ssrc now
    let packets : List RtcpPacket := [.receiverReport rr, .sdes ⟨ssrc, cname⟩]
    if rttEchoEnabled && s.rtt.shouldSendRequest now then
      let (rtt, ts) := s.rtt.generateRequest now
      let request := RttEchoRequest.mk ssrc (ts >>> 32).toUInt32 ts.toUInt32
      ({ s with media.rtcp := rtcp, rtt },
        [(rtcpDest, packets ++ [.app (.rttEchoRequest request)])])
    else ({ s with media.rtcp := rtcp }, [(rtcpDest, packets)])

end ReceiverState

/-! ### The same in a debug build

`none` is a stop: an overflow, or an access out of range.  Times are not bounded here, and
the handlers of the control packets do no other arithmetic. -/

/-- `parse_rtp`, with the slice and the difference it takes. -/
def parseRtpChecked (buf : Bytes) (arrivalUs : UInt64) : Option (Option ParsedRtp) :=
  match RtpHeader.parse buf with
  | .ok (header, headerSize) =>
    match sliceFrom buf headerSize, Checked.subSize buf.length headerSize with
    | .ok payload, some payloadLen =>
      some (some { seq := header.sequenceNumber, ssrc := header.ssrc, rtpTs := header.timestamp,
                   payload, arrivalUs, payloadLen, isRetransmit := header.isRetransmit })
    | _, _ => none
  | .error (.err _) => some none
  | .error .panic => none

def Datagram.parseChecked (d : Datagram) : Option (Option ParsedRtp) :=
  parseRtpChecked (d.bytes.take maxUdpRecv) d.arrivalUs

namespace MediaPath

def insertAllChecked (b : ReorderBuffer) (now : Instant) :
    List ParsedRtp → Option (ReorderBuffer × List InsertOutcome)
  | [] => some (b, [])
  | p :: ps => do
    let (b, o) ← b.insertChecked p.seq p.payload now
    let (b, os) ← insertAllChecked b now ps
    some (b, o :: os)

def trackAllChecked (rtcp : RtcpReceiverState) (nack : NackScheduler) (now : Instant) :
    List (ParsedRtp × InsertOutcome) → Option (RtcpReceiverState × NackScheduler)
  | [] => some (rtcp, nack)
  | (p, o) :: rest => do
    let rtcp ← rtcp.onPacketReceivedChecked p.seq p.rtpTs p.arrivalUs o.duplicate
    let (nack, _) ← nack.onPacketReceivedChecked p.seq now
    trackAllChecked rtcp nack now rest

def processBatchChecked (m : MediaPath) (batch : List ParsedRtp) (now : Instant) :
    Option MediaPath := do
  let (reorder, outcomes) ← insertAllChecked m.reorder now batch
  let (rtcp, nack) ← trackAllChecked m.rtcp m.nack now (batch.zip outcomes)
  some ⟨reorder, rtcp, nack⟩

end MediaPath

namespace ReceiverState

def drainBurstChecked (src : SocketAddr) :
    Nat → List ParsedRtp → List Datagram → Option (List ParsedRtp)
  | 0, batch, _ => some batch
  | _, batch, [] => some batch
  | n + 1, batch, d :: ds =>
    if batch.length < maxBatch then
      if d.src ≠ src then drainBurstChecked src n batch ds
      else do
        match ← d.parseChecked with
        | some p => drainBurstChecked src n (batch ++ [p]) ds
        | none => drainBurstChecked src n batch ds
    else some batch

def latchChecked (s : ReceiverState) (src : SocketAddr) : Option ReceiverState :=
  if s.senderRtpAddr ≠ some src then do
    let rtcpAddr ← rtcpAddrForChecked src
    some { s with senderRtpAddr := some src, senderRtcpAddr := some rtcpAddr }
  else some s

def rtpArmChecked (pinned : Option IpAddr) (s : ReceiverState) (first : Datagram)
    (queued : List Datagram) (arrivedAt now : Instant) : Option ReceiverState :=
  if s.rtpAdmitted pinned first arrivedAt then do
    let s ← s.latchChecked first.src
    let parsed ← first.parseChecked
    let s := { s with observedMediaSsrc := s.observedMediaSsrc.or (parsed.map fun p => p.ssrc) }
    let batch ← drainBurstChecked first.src (maxBatch - 1) parsed.toList queued
    if batch.isEmpty then some s
    else
      let media ← s.media.processBatchChecked batch now
      some { s with rtpPeerLive := some now, media }
  else some s

def rtcpArmChecked (pinned : Option IpAddr) (ssrc : UInt32) (s : ReceiverState)
    (src : SocketAddr) (bytes : Bytes) (now : Instant) (clock : Nat → Instant) :
    Option ReceiverState :=
  if sourceAllowed src pinned s.senderRtcpAddr (maxLive s.rtcpPeerLive s.rtpPeerLive) now then
    match RtcpCompound.parse (bytes.take maxUdpRecv) with
    | .error .panic => none
    | _ => some (s.rtcpArm pinned ssrc src bytes now clock).1
  else some s

def pumpArmChecked (ssrc : UInt32) (s : ReceiverState) (now : Instant) : Option ReceiverState :=
  match s.senderRtcpAddr with
  | none => some s
  | some _ =>
    let (nack, pendingNacks) := s.media.nack.getPendingNacks now s.rtt.srtt
    if pendingNacks.isEmpty then some { s with media.nack := nack }
    else do
      let (rtcp, _) ← s.media.rtcp.generateRrChecked ssrc now
      some { s with media.nack := nack, media.rtcp := rtcp }

def reportArmChecked (ssrc : UInt32) (rttEchoEnabled : Bool) (s : ReceiverState)
    (now : Instant) : Option ReceiverState :=
  match s.senderRtcpAddr with
  | none => some s
  | some _ => do
    let (rtcp, _) ← s.media.rtcp.generateRrChecked ssrc now
    if rttEchoEnabled && s.rtt.shouldSendRequest now then
      some { s with media.rtcp := rtcp, rtt := (s.rtt.generateRequest now).1 }
    else some { s with media.rtcp := rtcp }

end ReceiverState

end Rist
