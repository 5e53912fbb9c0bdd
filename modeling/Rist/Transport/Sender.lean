/-
The send task: `sender_loop` in `rist-transport/src/sender.rs`.

As in the receive task, the arms of the loop are functions of the state and of what
comes in.  An arm returns what it puts on the wire.  The RTCP arm also returns the
numbers it looked up in the retransmit ring, which the source counts as `requested`.
The periodic reports and the statistics are left out.
-/
import Rist.Packet.Rtcp
import Rist.Protocol.NackTracker
import Rist.Protocol.Rtt
import Rist.Transport.Guard
import Rist.Transport.Receiver

namespace Rist

/-- `ntp_to_rtp90k`: the data path's own copy of the conversion. -/
def ntpToRtp90k (epochSystem : SystemTime) (epochInstant now : Instant) : UInt32 :=
  let epochUnix := epochSystem.sinceUnixEpoch
  let elapsed : Duration := now - epochInstant
  let ntpUs := (UInt64.ofNat (Duration.asMicros epochUnix) + ntpEpochOffset * 1000000)
    + UInt64.ofNat (Duration.asMicros elapsed)
  (ntpUs * 90 / 1000).toUInt32

/-- `write_rtp_header`: version 2, payload type 33. -/
def writeRtpHeader (ssrc : UInt32) (seq : UInt16) (timestamp : UInt32) : Bytes :=
  [0x80, 33] ++ putU16 seq ++ putU32 timestamp ++ putU32 ssrc

/-- A retransmitted copy: the low bit of the SSRC is the retransmit flag. -/
def retxCopy (pktData : Bytes) : Bytes :=
  if 11 < pktData.length then pktData.modify 11 (· ||| 0x01) else pktData

/-- What serving a request did. -/
structure Served where
  spent : Bool
  budget : NackWorkBudget
  requested : List UInt16
  sent : List (SocketAddr × Bytes)

/-- `serve_nack_entries`.  Every lookup is charged, and so is every packet found. -/
def serveNackEntries (retransmitBuf : RetransmitBuffer) (remoteRtpAddr : SocketAddr) :
    NackWorkBudget → List UInt16 → Served
  | budget, [] => ⟨false, budget, [], []⟩
  | budget, lostSeq :: seqs =>
    match budget.chargeScan with
    | none => ⟨true, budget, [], []⟩
    | some budget =>
      match retransmitBuf.get lostSeq with
      | none =>
        let r := serveNackEntries retransmitBuf remoteRtpAddr budget seqs
        { r with requested := lostSeq :: r.requested }
      | some pktData =>
        match budget.chargeRetx with
        | none => ⟨true, budget, [lostSeq], []⟩
        | some budget =>
          let r := serveNackEntries retransmitBuf remoteRtpAddr budget seqs
          { r with requested := lostSeq :: r.requested
                   sent := (remoteRtpAddr, retxCopy pktData) :: r.sent }

/-- The state of the send task.  Everything but the SSRC and the destination moves. -/
structure SenderState where
  ssrc : UInt32
  remoteRtpAddr : SocketAddr
  seq : UInt16
  retransmitBuf : RetransmitBuffer
  rtt : RttEstimator
  remoteRtcpAddr : SocketAddr
  rtcpPeerLive : Option Instant

/-- What the RTCP arm did for one datagram. -/
structure RtcpWork where
  /-- The numbers looked up in the ring. -/
  lookups : List UInt16 := []
  /-- On the RTP socket. -/
  retransmits : List (SocketAddr × Bytes) := []
  /-- On the RTCP socket. -/
  replies : List (SocketAddr × Bytes) := []

namespace RtcpWork

instance : Append RtcpWork where
  append a b := ⟨a.lookups ++ b.lookups, a.retransmits ++ b.retransmits, a.replies ++ b.replies⟩

@[simp] theorem append_lookups (a b : RtcpWork) : (a ++ b).lookups = a.lookups ++ b.lookups := rfl

@[simp] theorem append_retransmits (a b : RtcpWork) :
    (a ++ b).retransmits = a.retransmits ++ b.retransmits := rfl

end RtcpWork

namespace SenderState

/-- The state the loop starts in.  `ssrc` and `seq` are random; the low bit of the
SSRC is cleared. -/
def new (ssrc : UInt32) (seq : UInt16) (retransmitBufferCapacity : Nat) (rtcpInterval : Duration)
    (remoteRtpAddr : SocketAddr) : SenderState where
  ssrc := ssrc &&& ~~~1
  remoteRtpAddr := remoteRtpAddr
  seq := seq
  retransmitBuf := RetransmitBuffer.new retransmitBufferCapacity
  rtt := RttEstimator.new (rtcpInterval * 10)
  remoteRtcpAddr := rtcpAddrFor remoteRtpAddr
  rtcpPeerLive := none

/-- The media arm, with the datagram it sends. -/
def mediaArm (s : SenderState) (payload : Bytes) (rtpTimestamp : UInt32) :
    SenderState × SocketAddr × Bytes :=
  let pkt := writeRtpHeader s.ssrc s.seq rtpTimestamp ++ payload
  ({ s with retransmitBuf := s.retransmitBuf.insert s.seq pkt, seq := s.seq + 1 },
    s.remoteRtpAddr, pkt)

/-- The numbers a sub-packet asks us to send again: the two request arms. -/
def wanted (ssrc : UInt32) : RtcpPacket → Option (List UInt16)
  | .nack nack => if nackTargetsUs nack.mediaSsrc ssrc then some nack.entries.lostSeqs else none
  | .app (.rangeNack nack) =>
    if nackTargetsUs nack.mediaSsrc ssrc then some (nack.entries.flatMap RangeEntry.lostSeqs)
    else none
  | _ => none

/-- The sub-packet loop from the `k`th on, with the clock at each turn.  A spent
budget ends it. -/
def handlePackets (s : SenderState) (src : SocketAddr) (recvAt : Instant) (clock : Nat → Instant) :
    Nat → NackWorkBudget → RttEstimator → List RtcpPacket → RttEstimator × RtcpWork
  | _, _, rtt, [] => (rtt, {})
  | k, budget, rtt, pkt :: pkts =>
    match wanted s.ssrc pkt with
    | some seqs =>
      let r := serveNackEntries s.retransmitBuf s.remoteRtpAddr budget seqs
      if r.spent then (rtt, { lookups := r.requested, retransmits := r.sent })
      else
        let (rtt, work) := handlePackets s src recvAt clock (k + 1) r.budget rtt pkts
        (rtt, { lookups := r.requested, retransmits := r.sent } ++ work)
    | none =>
      match pkt with
      | .app (.rttEchoRequest req) =>
        let reply := ReceiverState.echoReply s.ssrc req (ReceiverState.elapsedMicros recvAt (clock k))
        let (rtt, work) := handlePackets s src recvAt clock (k + 1) budget rtt pkts
        (rtt, { replies := [(src, reply)] } ++ work)
      | .app (.rttEchoResponse resp) =>
        handlePackets s src recvAt clock (k + 1) budget
          (rtt.onResponse (clock k) resp.timestampMsw resp.timestampLsw resp.processingDelayUs) pkts
      | _ => handlePackets s src recvAt clock (k + 1) budget rtt pkts

/-- The sub-packets of a datagram the RTCP arm goes on to process: none when it does
not decode, is empty or comes from a source that may not take the slot. -/
def admitted (s : SenderState) (src : SocketAddr) (bytes : Bytes) (recvAt : Instant) :
    List RtcpPacket :=
  match RtcpCompound.parse (bytes.take maxUdpRecv) with
  | .error _ => []
  | .ok packets =>
    if packets.isEmpty then []
    else if peerMoveAllowed src s.remoteRtcpAddr s.rtcpPeerLive recvAt then packets
    else []

theorem admitted_ne_nil {s : SenderState} {src : SocketAddr} {bytes : Bytes} {recvAt : Instant}
    (h : s.admitted src bytes recvAt ≠ []) :
    RtcpCompound.parse (bytes.take maxUdpRecv) = .ok (s.admitted src bytes recvAt) ∧
      peerMoveAllowed src s.remoteRtcpAddr s.rtcpPeerLive recvAt = true := by
  unfold admitted at *
  cases hparse : RtcpCompound.parse (bytes.take maxUdpRecv) with
  | error e =>
      rw [hparse] at h
      exact absurd rfl h
  | ok packets =>
      rw [hparse] at h
      simp only at h ⊢
      by_cases hp : packets.isEmpty = true
      · rw [if_pos hp] at h
        exact absurd rfl h
      · rw [if_neg hp] at h ⊢
        by_cases hm : peerMoveAllowed src s.remoteRtcpAddr s.rtcpPeerLive recvAt = true
        · rw [if_pos hm]
          exact ⟨rfl, hm⟩
        · rw [if_neg hm] at h
          exact absurd rfl h

/-- The RTCP arm. -/
def rtcpArm (s : SenderState) (src : SocketAddr) (bytes : Bytes) (recvAt : Instant)
    (clock : Nat → Instant) : SenderState × RtcpWork :=
  let packets := s.admitted src bytes recvAt
  if packets.isEmpty then (s, {})
  else
    let s := { s with remoteRtcpAddr := src, rtcpPeerLive := some recvAt }
    let (rtt, work) := s.handlePackets src recvAt clock 0
      (NackWorkBudget.forCapacity s.retransmitBuf.capacity) s.rtt packets
    ({ s with rtt }, work)

end SenderState

end Rist
