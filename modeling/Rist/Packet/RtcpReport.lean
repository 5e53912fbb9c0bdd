/-
Sender reports, receiver reports and source descriptions:
`rist-protocol/src/packet/rtcp_sr.rs`, `rtcp_rr.rs` and `rtcp_sdes.rs`.

`parse` starts after the four bytes of the common header, `serialize` writes them.
-/
import Rist.Packet.Wire

namespace Rist

/-! ### Sender report -/

/-- `RTCP_PT_SR`. -/
def rtcpPtSr : UInt8 := 200

structure SenderReport where
  ssrc : UInt32
  ntpMsw : UInt32
  ntpLsw : UInt32
  rtpTimestamp : UInt32
  senderPacketCount : UInt32
  senderOctetCount : UInt32
  deriving DecidableEq

namespace SenderReport

def parse (buf : Bytes) : Parse SenderReport := do
  if buf.length < 24 then fail (.packetTooShort 24 buf.length)
  else
    let (ssrc, r) ← getU32 buf
    let (ntpMsw, r) ← getU32 r
    let (ntpLsw, r) ← getU32 r
    let (rtpTimestamp, r) ← getU32 r
    let (senderPacketCount, r) ← getU32 r
    let (senderOctetCount, _) ← getU32 r
    .ok ⟨ssrc, ntpMsw, ntpLsw, rtpTimestamp, senderPacketCount, senderOctetCount⟩

def serialize (sr : SenderReport) : Bytes :=
  [0x80, rtcpPtSr] ++ putU16 6 ++ putU32 sr.ssrc ++ putU32 sr.ntpMsw ++ putU32 sr.ntpLsw ++
    putU32 sr.rtpTimestamp ++ putU32 sr.senderPacketCount ++ putU32 sr.senderOctetCount

/-- The middle 32 bits of the NTP time. -/
def compactNtp (sr : SenderReport) : UInt32 :=
  ((sr.ntpMsw &&& 0xFFFF) <<< 16) ||| ((sr.ntpLsw >>> 16) &&& 0xFFFF)

end SenderReport

/-! ### Receiver report -/

/-- `RTCP_PT_RR`. -/
def rtcpPtRr : UInt8 := 201

structure ReportBlock where
  ssrc : UInt32
  fractionLost : UInt8
  /-- A signed 24-bit number on the wire. -/
  cumulativeLost : Int32
  extendedHighestSeq : UInt32
  jitter : UInt32
  lastSr : UInt32
  delaySinceLastSr : UInt32
  deriving DecidableEq

namespace ReportBlock

/-- `SIZE`. -/
def size : Nat := 24

def parse (buf : Bytes) : Parse ReportBlock := do
  if buf.length < size then fail (.packetTooShort size buf.length)
  else
    let (ssrc, r) ← getU32 buf
    let (lostWord, r) ← getU32 r
    let fractionLost := (lostWord >>> 24).toUInt8
    let raw := lostWord &&& 0x00FFFFFF
    let cumulativeLost :=
      if raw &&& 0x800000 ≠ 0 then (raw ||| ~~~0x00FFFFFF).toInt32 else raw.toInt32
    let (extendedHighestSeq, r) ← getU32 r
    let (jitter, r) ← getU32 r
    let (lastSr, r) ← getU32 r
    let (delaySinceLastSr, _) ← getU32 r
    .ok ⟨ssrc, fractionLost, cumulativeLost, extendedHighestSeq, jitter, lastSr,
      delaySinceLastSr⟩

def serialize (b : ReportBlock) : Bytes :=
  putU32 b.ssrc ++
  putU32 ((b.fractionLost.toUInt32 <<< 24) ||| (b.cumulativeLost.toUInt32 &&& 0x00FFFFFF)) ++
  putU32 b.extendedHighestSeq ++ putU32 b.jitter ++ putU32 b.lastSr ++ putU32 b.delaySinceLastSr

end ReportBlock

structure ReceiverReport where
  ssrc : UInt32
  reports : List ReportBlock
  deriving DecidableEq

namespace ReceiverReport

/-- The block loop, `for _ in 0..n`. -/
def parseBlocks (buf : Bytes) : Nat → Nat → Parse (List ReportBlock)
  | 0, _ => .ok []
  | n + 1, offset => do
    let rest ← sliceFrom buf offset
    let block ← ReportBlock.parse rest
    let blocks ← parseBlocks buf n (offset + ReportBlock.size)
    .ok (block :: blocks)

def parse (buf : Bytes) (rc : UInt8) : Parse ReceiverReport := do
  if buf.length < 4 then fail (.packetTooShort 4 buf.length)
  else
    let (ssrc, _) ← getU32 buf
    let reports ← parseBlocks buf rc.toNat 4
    .ok ⟨ssrc, reports⟩

def serialize (rr : ReceiverReport) : Bytes :=
  let rc := UInt8.ofNat rr.reports.length
  [0x80 ||| (rc &&& 0x1F), rtcpPtRr] ++ putU16 (1 + rc.toUInt16 * 6) ++ putU32 rr.ssrc ++
    rr.reports.flatMap ReportBlock.serialize

/-- A report without blocks. -/
def empty (ssrc : UInt32) : ReceiverReport := ⟨ssrc, []⟩

end ReceiverReport

/-! ### Source description -/

/-- `RTCP_PT_SDES`. -/
def rtcpPtSdes : UInt8 := 202

/-- `SDES_CNAME`. -/
def sdesCname : UInt8 := 1

/-- Is the byte a UTF-8 continuation byte? -/
def isContinuation (b : UInt8) : Bool := decide (0x80 ≤ b) && decide (b ≤ 0xBF)

/-- The bytes that may follow the first byte of a sequence of three or four, as the
standard's table has them: no overlong forms, no surrogates, nothing past U+10FFFF. -/
def secondAllowed (first second : UInt8) : Bool :=
  if first = 0xE0 then decide (0xA0 ≤ second) && decide (second ≤ 0xBF)
  else if first = 0xED then decide (0x80 ≤ second) && decide (second ≤ 0x9F)
  else if first = 0xF0 then decide (0x90 ≤ second) && decide (second ≤ 0xBF)
  else if first = 0xF4 then decide (0x80 ≤ second) && decide (second ≤ 0x8F)
  else isContinuation second

/-- One step of `String::from_utf8_lossy`: the character decoded at `first`, or
U+FFFD for a maximal invalid prefix, and how many bytes after `first` it takes. -/
def utf8Step (first : UInt8) (rest : Bytes) : Char × Nat :=
  let bad := Char.ofNat 0xFFFD
  let low (b : UInt8) := b.toNat % 64
  if first < 0x80 then (Char.ofNat first.toNat, 0)
  else if 0xC2 ≤ first ∧ first ≤ 0xDF then
    match rest with
    | b :: _ =>
      if isContinuation b then (Char.ofNat (first.toNat % 32 * 64 + low b), 1) else (bad, 0)
    | [] => (bad, 0)
  else if 0xE0 ≤ first ∧ first ≤ 0xEF then
    match rest with
    | b :: c :: _ =>
      if secondAllowed first b then
        if isContinuation c then
          (Char.ofNat ((first.toNat % 16 * 64 + low b) * 64 + low c), 2)
        else (bad, 1)
      else (bad, 0)
    | [b] => (bad, if secondAllowed first b then 1 else 0)
    | [] => (bad, 0)
  else if 0xF0 ≤ first ∧ first ≤ 0xF4 then
    match rest with
    | b :: c :: d :: _ =>
      if secondAllowed first b then
        if isContinuation c then
          if isContinuation d then
            (Char.ofNat (((first.toNat % 8 * 64 + low b) * 64 + low c) * 64 + low d), 3)
          else (bad, 2)
        else (bad, 1)
      else (bad, 0)
    | [b, c] =>
      (bad, if secondAllowed first b then (if isContinuation c then 2 else 1) else 0)
    | [b] => (bad, if secondAllowed first b then 1 else 0)
    | [] => (bad, 0)
  else (bad, 0)

/-- `String::from_utf8_lossy`. -/
def fromUtf8Lossy : Bytes → List Char
  | [] => []
  | b :: rest =>
    let (c, taken) := utf8Step b rest
    c :: fromUtf8Lossy (rest.drop taken)
termination_by bs => bs.length
decreasing_by
  simp only [List.length_drop, List.length_cons]
  omega

structure Sdes where
  ssrc : UInt32
  cname : String
  deriving DecidableEq

namespace Sdes

def parse (buf : Bytes) : Parse Sdes := do
  if buf.length < 6 then fail (.packetTooShort 6 buf.length)
  else
    let (ssrc, _) ← getU32 buf
    let itemType ← byteAt buf 4
    if itemType ≠ sdesCname then
      fail (.other (s!"expected SDES CNAME (type 1), got type {itemType}"))
    else
      let nameLen ← byteAt buf 5
      if buf.length < 6 + nameLen.toNat then
        fail (.packetTooShort (6 + nameLen.toNat) buf.length)
      else
        let name ← slice buf 6 (6 + nameLen.toNat)
        .ok ⟨ssrc, String.ofList (fromUtf8Lossy name)⟩

/-- `as_bytes`. -/
def cnameBytes (sdes : Sdes) : Bytes := sdes.cname.toList.flatMap String.utf8EncodeChar

/-- Padded to a 32-bit boundary with one to four zero bytes. -/
def serialize (sdes : Sdes) : Bytes :=
  let nameLen := sdes.cnameBytes.length
  let chunkLen := 4 + 2 + nameLen
  let padding := (4 - chunkLen % 4) % 4
  let padding := if padding = 0 then 4 else padding
  let lengthWords := (4 + (chunkLen + padding)) / 4 - 1
  [0x81, rtcpPtSdes] ++ putU16 (UInt16.ofNat lengthWords) ++ putU32 sdes.ssrc ++
    [sdesCname, UInt8.ofNat nameLen] ++ sdes.cnameBytes ++ List.replicate padding 0

end Sdes

end Rist
