/-
RTP packets: `rist-protocol/src/packet/rtp.rs`.
-/
import Rist.Packet.Wire

namespace Rist

/-- `RTP_HEADER_SIZE`. -/
def rtpHeaderSize : Nat := 12

structure RtpHeader where
  version : UInt8
  padding : Bool
  extension : Bool
  csrcCount : UInt8
  marker : Bool
  payloadType : UInt8
  sequenceNumber : UInt16
  timestamp : UInt32
  ssrc : UInt32
  deriving DecidableEq

namespace RtpHeader

/-- The retransmit flag is the low bit of the SSRC. -/
def isRetransmit (h : RtpHeader) : Bool := decide (h.ssrc &&& 1 ≠ 0)

def logicalSsrc (h : RtpHeader) : UInt32 := h.ssrc &&& ~~~1

/-- The header, and the bytes it takes with its CSRC list. -/
def parse (buf : Bytes) : Parse (RtpHeader × Nat) := do
  if buf.length < rtpHeaderSize then fail (.packetTooShort rtpHeaderSize buf.length)
  else
    let (first, r) ← getU8 buf
    let version := (first >>> 6) &&& 0x03
    if version ≠ 2 then fail (.invalidRtpVersion version)
    else
      let (second, r) ← getU8 r
      let (sequenceNumber, r) ← getU16 r
      let (timestamp, r) ← getU32 r
      let (ssrc, _) ← getU32 r
      let csrcCount := first &&& 0x0F
      let headerSize := rtpHeaderSize + csrcCount.toNat * 4
      if buf.length < headerSize then fail (.packetTooShort headerSize buf.length)
      else
        .ok (⟨version, decide ((first >>> 5) &&& 0x01 ≠ 0), decide ((first >>> 4) &&& 0x01 ≠ 0),
          csrcCount, decide ((second >>> 7) &&& 0x01 ≠ 0), second &&& 0x7F, sequenceNumber,
          timestamp, ssrc⟩, headerSize)

/-- A flag as a number. -/
def bit (b : Bool) : UInt8 := if b then 1 else 0

/-- The fixed part; CSRC entries and extensions are not written. -/
def serialize (h : RtpHeader) : Bytes :=
  let first := (h.version <<< 6) ||| (bit h.padding <<< 5) ||| (bit h.extension <<< 4) |||
    (h.csrcCount &&& 0x0F)
  let second := (bit h.marker <<< 7) ||| (h.payloadType &&& 0x7F)
  [first, second] ++ putU16 h.sequenceNumber ++ putU32 h.timestamp ++ putU32 h.ssrc

/-- `new_ts`: MPEG-2 TS, payload type 33. -/
def newTs (ssrc : UInt32) (seq : UInt16) (timestamp : UInt32) : RtpHeader :=
  ⟨2, false, false, 0, false, 33, seq, timestamp, ssrc⟩

end RtpHeader

structure RtpPacket where
  header : RtpHeader
  payload : Bytes
  deriving DecidableEq

namespace RtpPacket

/-- The bytes the extension header takes, from `offset` on. -/
def extensionSize (buf : Bytes) (offset : Nat) : Parse Nat := do
  if buf.length < offset + 4 then fail (.packetTooShort (offset + 4) buf.length)
  else
    let hi ← byteAt buf (offset + 2)
    let lo ← byteAt buf (offset + 3)
    let extLenWords := hi.toNat * 256 + lo.toNat
    let extTotal := 4 + extLenWords * 4
    if buf.length < offset + extTotal then fail (.packetTooShort (offset + extTotal) buf.length)
    else .ok extTotal

/-- `parse`: the CSRC list and the extension header are skipped. -/
def parse (buf : Bytes) : Parse RtpPacket := do
  let (header, headerSize) ← RtpHeader.parse buf
  let extTotal ← if header.extension then extensionSize buf headerSize else .ok 0
  let payload ← sliceFrom buf (headerSize + extTotal)
  .ok ⟨header, payload⟩

def serialize (p : RtpPacket) : Bytes := p.header.serialize ++ p.payload

end RtpPacket

end Rist
