/-
Compound RTCP datagrams: `rist-protocol/src/packet/rtcp.rs`.

A datagram is cut at the lengths its sub-packets declare.  A sub-packet that does
not parse is kept as `unknown`; a header that does not parse, or a panic, ends the
whole datagram.
-/
import Rist.Packet.RtcpReport
import Rist.Packet.RtcpFeedback

namespace Rist

structure RtcpCommonHeader where
  version : UInt8
  padding : Bool
  count : UInt8
  packetType : UInt8
  /-- In 32-bit words, minus one. -/
  length : UInt16
  deriving DecidableEq

namespace RtcpCommonHeader

def parse (buf : Bytes) : Parse RtcpCommonHeader := do
  if buf.length < 4 then fail (.packetTooShort 4 buf.length)
  else
    let (first, r) ← getU8 buf
    let version := (first >>> 6) &&& 0x03
    if version ≠ 2 then fail (.invalidRtpVersion version)
    else
      let (packetType, r) ← getU8 r
      let (length, _) ← getU16 r
      .ok ⟨version, decide ((first >>> 5) &&& 0x01 ≠ 0), first &&& 0x1F, packetType, length⟩

/-- The size in bytes, common header included. -/
def packetSize (h : RtcpCommonHeader) : Nat := (h.length.toNat + 1) * 4

end RtcpCommonHeader

inductive RtcpPacket where
  | senderReport (sr : SenderReport)
  | receiverReport (rr : ReceiverReport)
  | sdes (sdes : Sdes)
  | nack (nack : NackPacket)
  | app (app : RistApp)
  | unknown (packetType : UInt8) (data : Bytes)
  deriving DecidableEq

/-- `MAX_RTCP_SUB_PACKETS`. -/
def maxRtcpSubPackets : Nat := 64

/-- `.map(f).unwrap_or_else(..)`: an error demotes the sub-packet. -/
def demote {α : Type} (f : α → RtcpPacket) (packetType : UInt8) (payload : Bytes) :
    Parse α → Parse RtcpPacket
  | .ok a => .ok (f a)
  | .error (.err _) => .ok (.unknown packetType payload)
  | .error .panic => .error .panic

namespace RtcpPacket

/-- The sub-packet of a header and its payload. -/
def parse (header : RtcpCommonHeader) (payload : Bytes) : Parse RtcpPacket :=
  let pt := header.packetType
  if pt = rtcpPtSr then demote senderReport pt payload (SenderReport.parse payload)
  else if pt = rtcpPtRr then
    demote receiverReport pt payload (ReceiverReport.parse payload header.count)
  else if pt = rtcpPtSdes then demote RtcpPacket.sdes pt payload (Sdes.parse payload)
  else if pt = rtcpPtRtpfb then
    demote RtcpPacket.nack pt payload (NackPacket.parse payload header.count payload.length)
  else if pt = rtcpPtApp then
    demote RtcpPacket.app pt payload (RistApp.parse payload header.count)
  else .ok (.unknown pt payload)

def serialize : RtcpPacket → Bytes
  | .senderReport sr => sr.serialize
  | .receiverReport rr => rr.serialize
  | .sdes s => s.serialize
  | .nack n => n.serialize
  | .app a => a.serialize
  | .unknown _ _ => []

end RtcpPacket

namespace RtcpCompound

/-- The sub-packet loop from `offset` on, for at most `n` more sub-packets. -/
def parseFrom (buf : Bytes) : Nat → Nat → Parse (List RtcpPacket)
  | 0, _ => .ok []
  | n + 1, offset =>
    if offset + 4 ≤ buf.length then do
      let rest ← sliceFrom buf offset
      let header ← RtcpCommonHeader.parse rest
      let size := header.packetSize
      if buf.length < offset + size then .ok []
      else
        let payload ← slice buf (offset + 4) (offset + size)
        let pkt ← RtcpPacket.parse header payload
        let pkts ← parseFrom buf n (offset + size)
        .ok (pkt :: pkts)
    else .ok []

def parse (buf : Bytes) : Parse (List RtcpPacket) := parseFrom buf maxRtcpSubPackets 0

def serialize (packets : List RtcpPacket) : Bytes := packets.flatMap RtcpPacket.serialize

end RtcpCompound

end Rist
