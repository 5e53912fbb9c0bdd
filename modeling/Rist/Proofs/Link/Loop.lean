/-
The two loops and the network between them.

A link is a send task, a receive task and every datagram either has sent.  A datagram
that is never handed over is lost, one handed over twice is duplicated, and they come in
any order and as late as one likes; that holds for media and for control datagrams alike.
The arms run one at a time and in any order, at any clock readings.

What the media path sees of a link is a session (`Link.session`).  The session's ghost
state is kept here too, and with it the packets the receive task has been handed.
-/
import Rist.Proofs.Session
import Rist.Transport.SendTask

namespace Rist

/-- Two tasks that are set up for each other.  A control socket is the one after its media
socket, a receiver that pins a source pins the sender, and the names fit their format.
A media port of 65535, which has no socket after it, and an IPv6 address with a scope are
left out. -/
structure Peers where
  senderRtp : SocketAddr
  receiverRtp : SocketAddr
  pinned : Option IpAddr
  receiverSsrc : UInt32
  senderCname : String
  receiverCname : String
  senderEcho : Bool
  receiverEcho : Bool
  pinned_eq : pinned = none ∨ pinned = some senderRtp.ip
  senderCname_le : (Sdes.cnameBytes ⟨0, senderCname⟩).length ≤ 255
  receiverCname_le : (Sdes.cnameBytes ⟨0, receiverCname⟩).length ≤ 255

def Peers.senderRtcp (p : Peers) : SocketAddr := rtcpAddrFor p.senderRtp

def Peers.receiverRtcp (p : Peers) : SocketAddr := rtcpAddrFor p.receiverRtp

/-- The media of a link, and the indices of the packets handed to the receive task. -/
structure Heard where
  session : Session
  received : List Nat

namespace Heard

/-- The `d.1`th datagram sent arrives. -/
def hear (now : Instant) (h : Heard) (d : Nat × UInt64) : Heard :=
  ⟨h.session.step (.deliver d.1 d.2 now),
    h.received ++ (h.session.network[d.1]?).toList.map Flight.index⟩

/-- The highest index received. -/
def newest (received : List Nat) : Nat := received.foldl max 0

/-- An arriving packet is less than half of the number circle from the newest packet, and
from the receiver's base. -/
def Near (now : Instant) (h : Heard) (d : Nat × UInt64) : Prop :=
  h.session.Near (.deliver d.1 d.2 now) ∧
    ∀ f, h.session.network[d.1]? = some f → h.received ≠ [] →
      -32767 ≤ (f.index : Int) - newest h.received ∧ (f.index : Int) - newest h.received ≤ 32767

end Heard

structure Link where
  sender : SendTask
  receiver : ReceiverState
  /-- What the application has handed over, in order. -/
  payloads : List Bytes
  /-- The index of the packet last sent under a number. -/
  origin : UInt16 → Nat
  /-- Every media datagram sent. -/
  network : List Flight
  /-- Every control datagram the sender sent, with its destination. -/
  down : List (SocketAddr × Bytes)
  /-- Every control datagram the receiver sent. -/
  up : List (SocketAddr × Bytes)
  /-- The index the receiver's base stands for. -/
  baseIndex : Int
  received : List Nat
  delivered : List Delivery

inductive LinkOp where
  /-- The sender's media arm. -/
  | media (payload : Bytes) (now : Instant)
  /-- The sender's timer. -/
  | senderReport (now : Instant) (wallClock : SystemTime)
  /-- The sender's RTCP arm, for the `k`th datagram of the receiver. -/
  | toSender (k : Nat) (recvAt : Instant) (clock : Nat → Instant)
  /-- The receiver's RTP arm, for a burst. -/
  | rtp (ds : List (Nat × UInt64)) (arrivedAt now : Instant)
  /-- The receiver's RTCP arm, for the `k`th control datagram of the sender. -/
  | toReceiver (k : Nat) (now : Instant) (clock : Nat → Instant)
  /-- The receiver's fast timer. -/
  | pump (now : Instant)
  /-- The receiver's slow timer. -/
  | receiverReport (now : Instant)
  | drain (now : Instant)

namespace Link

def session (l : Link) : Session where
  sender := l.sender.core
  payloads := l.payloads
  origin := l.origin
  network := l.network
  buffer := l.receiver.media.reorder
  baseIndex := l.baseIndex
  delivered := l.delivered

def heard (l : Link) : Heard := ⟨l.session, l.received⟩

/-- The datagrams of a burst that there are. -/
def onWire (l : Link) (ds : List (Nat × UInt64)) : List (Nat × UInt64) :=
  ds.filter fun d => decide (d.1 < l.network.length)

/-- The `d.1`th datagram as the socket hands it over. -/
def datagram (p : Peers) (l : Link) (d : Nat × UInt64) : Datagram :=
  ⟨p.senderRtp, ((l.network[d.1]?).map Flight.bytes).getD [], d.2⟩

/-- The packets of a burst that are read at once. -/
def heardAfter (l : Link) (ds : List (Nat × UInt64)) (now : Instant) : Heard :=
  Run.final (Heard.hear now) l.heard ((l.onWire ds).take maxBatch)

/-- Compounds go out serialised. -/
def onSocket (out : List (SocketAddr × List RtcpPacket)) : List (SocketAddr × Bytes) :=
  out.map fun d => (d.1, RtcpCompound.serialize d.2)

def step (p : Peers) (l : Link) : LinkOp → Link
  | .media payload now =>
    let (sender, _, bytes) := l.sender.mediaArm payload now
    let origin := Function.update l.origin l.sender.core.seq l.payloads.length
    { l with sender, origin, payloads := l.payloads ++ [payload]
             network := l.network ++ [Session.flight origin bytes] }
  | .senderReport now wallClock =>
    let (sender, dest, packets) := l.sender.reportArm p.senderEcho now wallClock
    { l with sender, down := l.down ++ onSocket [(dest, packets)] }
  | .toSender k recvAt clock =>
    match l.up[k]? with
    | none => l
    | some (dest, bytes) =>
      if dest = p.senderRtcp then
        let (sender, work) := l.sender.rtcpArm p.receiverRtcp bytes recvAt clock
        { l with sender, down := l.down ++ work.replies
                 network := l.network ++ work.retransmits.map fun d => Session.flight l.origin d.2 }
      else l
  | .rtp ds arrivedAt now =>
    match l.onWire ds with
    | [] => l
    | first :: queued =>
      let heard := l.heardAfter ds now
      { l with receiver := l.receiver.rtpArm p.pinned (l.datagram p first)
                 (queued.map (l.datagram p)) arrivedAt now
               baseIndex := heard.session.baseIndex
               received := heard.received }
  | .toReceiver k now clock =>
    match l.down[k]? with
    | none => l
    | some (dest, bytes) =>
      if dest = p.receiverRtcp then
        let (receiver, replies) := l.receiver.rtcpArm p.pinned p.receiverSsrc p.senderRtcp bytes now
          clock
        { l with receiver, up := l.up ++ replies }
      else l
  | .pump now =>
    let (receiver, out) := l.receiver.pumpArm p.receiverSsrc now
    { l with receiver, up := l.up ++ onSocket out }
  | .receiverReport now =>
    let (receiver, out) := l.receiver.reportArm p.receiverSsrc p.receiverCname p.receiverEcho now
    { l with receiver, up := l.up ++ onSocket out }
  | .drain now =>
    let (reorder, items) := l.receiver.media.reorder.drainReady now
    { l with receiver := { l.receiver with media.reorder := reorder }
             baseIndex := l.baseIndex
               + Recording.advance l.receiver.media.reorder.baseSeq reorder.baseSeq
             delivered := l.delivered ++ items.filterMap DrainItem.delivery }

/-- A new send task and a new receive task. -/
def start (p : Peers) (ssrc : UInt32) (seq : UInt16) (capacity : Nat) (rtcpInterval : Duration)
    (tsEpoch : Instant) (tsEpochSystem : SystemTime) (bufferSize : Duration)
    (maxNackRetries : UInt32) (now : Instant) : Link where
  sender := SendTask.new ssrc seq capacity rtcpInterval p.receiverRtp p.senderCname tsEpoch
    tsEpochSystem
  receiver := ReceiverState.new bufferSize maxNackRetries rtcpInterval now
  payloads := []
  origin _ := 0
  network := []
  down := []
  up := []
  baseIndex := 0
  received := []
  delivered := []

/-- What the network and the application keep to: payloads that fit a datagram the receiver
reads, and packets that are not half of the number circle away. -/
def Fair (l : Link) : LinkOp → Prop
  | .media payload _ => payload.length ≤ 2036
  | .rtp ds _ now => Run.Along (Heard.hear now) (Heard.Near now) l.heard ((l.onWire ds).take maxBatch)
  | _ => True

end Link

end Rist
