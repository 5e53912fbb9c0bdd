/-
The whole send task: `sender_loop` in `rist-transport/src/sender.rs`, with its reports.

`SenderState` has what answers a request.  The task keeps `RtcpSenderState` beside it,
which counts the media packets and dates the reports, and both take their RTP timestamps
from the one epoch that `RtcpSenderState` holds.  The three arms are the ones of the loop;
its statistics are left out.
-/
import Rist.Protocol.RtcpState
import Rist.Transport.Sender

namespace Rist

/-- `generate_sdes`. -/
def RtcpSenderState.generateSdes (s : RtcpSenderState) : Sdes := ⟨s.ssrc, s.cname⟩

structure SendTask where
  core : SenderState
  reports : RtcpSenderState

/-- A turn of the loop. -/
inductive SendTask.Op where
  | media (payload : Bytes) (now : Instant)
  | rtcp (src : SocketAddr) (bytes : Bytes) (recvAt : Instant) (clock : Nat → Instant)
  | report (now : Instant) (wallClock : SystemTime)

namespace SendTask

/-- The state the loop starts in. -/
def new (ssrc : UInt32) (seq : UInt16) (retransmitBufferCapacity : Nat) (rtcpInterval : Duration)
    (remoteRtpAddr : SocketAddr) (cname : String) (tsEpoch : Instant)
    (tsEpochSystem : SystemTime) : SendTask where
  core := SenderState.new ssrc seq retransmitBufferCapacity rtcpInterval remoteRtpAddr
  reports := RtcpSenderState.new (ssrc &&& ~~~1) cname rtcpInterval tsEpoch tsEpochSystem

/-- The media arm, with the datagram it sends. -/
def mediaArm (t : SendTask) (payload : Bytes) (now : Instant) : SendTask × SocketAddr × Bytes :=
  let rtpTimestamp := ntpToRtp90k t.reports.rtpTsEpochSystem t.reports.rtpTsEpoch now
  let (core, dest, pkt) := t.core.mediaArm payload rtpTimestamp
  (⟨core, t.reports.onPacketSent payload.length rtpTimestamp now⟩, dest, pkt)

/-- The RTCP arm. -/
def rtcpArm (t : SendTask) (src : SocketAddr) (bytes : Bytes) (recvAt : Instant)
    (clock : Nat → Instant) : SendTask × RtcpWork :=
  let (core, work) := t.core.rtcpArm src bytes recvAt clock
  ({ t with core }, work)

/-- The periodic report, with a scheduled echo request in it. -/
def reportArm (rttEchoEnabled : Bool) (t : SendTask) (now : Instant) (wallClock : SystemTime) :
    SendTask × SocketAddr × List RtcpPacket :=
  let (reports, sr) := t.reports.generateSr now wallClock
  let packets : List RtcpPacket := [.senderReport sr, .sdes reports.generateSdes]
  if rttEchoEnabled && t.core.rtt.shouldSendRequest now then
    let (rtt, ts) := t.core.rtt.generateRequest now
    let request := RttEchoRequest.mk t.core.ssrc (ts >>> 32).toUInt32 ts.toUInt32
    (⟨{ t.core with rtt }, reports⟩, t.core.remoteRtcpAddr,
      packets ++ [.app (.rttEchoRequest request)])
  else (⟨t.core, reports⟩, t.core.remoteRtcpAddr, packets)

def turn (rttEchoEnabled : Bool) (t : SendTask) : Op → SendTask
  | .media payload now => (t.mediaArm payload now).1
  | .rtcp src bytes recvAt clock => (t.rtcpArm src bytes recvAt clock).1
  | .report now wallClock => (t.reportArm rttEchoEnabled now wallClock).1

end SendTask

end Rist
