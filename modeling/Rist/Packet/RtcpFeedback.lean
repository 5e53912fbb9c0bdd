/-
Requests for retransmission and the RIST application packets:
`rist-protocol/src/packet/rtcp_nack.rs` and `rtcp_app.rs`.

A number can be asked for in three ways: by a bit of a bitmask entry, by a range
entry of a PT=205 packet, and by a range entry of a PT=204 "RIST" packet.
-/
import Rist.Packet.Wire

namespace Rist

/-! ### PT=205 feedback -/

/-- `RTCP_PT_RTPFB`. -/
def rtcpPtRtpfb : UInt8 := 205

/-- `NACK_FMT_GENERIC`. -/
def nackFmtGeneric : UInt8 := 1

/-- `NACK_FMT_RANGE`. -/
def nackFmtRange : UInt8 := 15

structure BitmaskNack where
  pid : UInt16
  blp : UInt16
  deriving DecidableEq

/-- The numbers a bitmask entry names: `pid`, and `pid + i + 1` for every bit `i`. -/
def BitmaskNack.lostSeqs (n : BitmaskNack) : List UInt16 :=
  n.pid :: (List.range 16).filterMap fun i =>
    if n.blp &&& (1 <<< UInt16.ofNat i) ≠ 0 then some (n.pid + UInt16.ofNat (i + 1)) else none

/-- A run of numbers: `start` and `extra` more. -/
structure RangeEntry where
  start : UInt16
  extra : UInt16
  deriving DecidableEq

def RangeEntry.lostSeqs (n : RangeEntry) : List UInt16 :=
  (List.range (n.extra.toNat + 1)).map fun i => n.start + UInt16.ofNat i

inductive NackEntries where
  | bitmask (entries : List BitmaskNack)
  | range (entries : List RangeEntry)
  deriving DecidableEq

/-- The numbers the sender walks, in order. -/
def NackEntries.lostSeqs : NackEntries → List UInt16
  | bitmask entries => entries.flatMap BitmaskNack.lostSeqs
  | range entries => entries.flatMap RangeEntry.lostSeqs

structure NackPacket where
  senderSsrc : UInt32
  mediaSsrc : UInt32
  entries : NackEntries
  deriving DecidableEq

namespace NackPacket

/-- The entry loop, `for _ in 0..n`: two numbers an entry. -/
def readEntries {α : Type} (entry : UInt16 → UInt16 → α) : Nat → Bytes → Parse (List α)
  | 0, _ => .ok []
  | n + 1, r => do
    let (x, r) ← getU16 r
    let (y, r) ← getU16 r
    let entries ← readEntries entry n r
    .ok (entry x y :: entries)

def parse (buf : Bytes) (fmt : UInt8) (payloadLen : Nat) : Parse NackPacket := do
  if buf.length < 8 then fail (.packetTooShort 8 buf.length)
  else
    let (senderSsrc, r) ← getU32 buf
    let (mediaSsrc, r) ← getU32 r
    let numEntries := (payloadLen - 8) / 4
    if fmt = nackFmtGeneric then
      let nacks ← readEntries BitmaskNack.mk numEntries r
      .ok ⟨senderSsrc, mediaSsrc, .bitmask nacks⟩
    else if fmt = nackFmtRange then
      let nacks ← readEntries RangeEntry.mk numEntries r
      .ok ⟨senderSsrc, mediaSsrc, .range nacks⟩
    else fail (.invalidNackFormat fmt)

def serialize (n : NackPacket) : Bytes :=
  let (fmt, count, body) := match n.entries with
    | .bitmask v => (nackFmtGeneric, v.length, v.flatMap fun e => putU16 e.pid ++ putU16 e.blp)
    | .range v => (nackFmtRange, v.length, v.flatMap fun e => putU16 e.start ++ putU16 e.extra)
  [0x80 ||| (fmt &&& 0x1F), rtcpPtRtpfb] ++ putU16 (UInt16.ofNat (2 + count)) ++
    putU32 n.senderSsrc ++ putU32 n.mediaSsrc ++ body

end NackPacket

/-! ### Packing a list of lost numbers -/

structure NackListBuilder where
  senderSsrc : UInt32
  mediaSsrc : UInt32

/-- `+` on `u16`, which stops the thread when it overflows. -/
def addU16 (x y : UInt16) : Parse UInt16 :=
  if x.toNat + y.toNat < 65536 then .ok (x + y) else .error .panic

namespace NackListBuilder

/-- The inner loop of `build_bitmask`: the mask after the numbers that fit it, and the
numbers that are left. -/
def fillMask (pid : UInt16) : UInt16 → List UInt16 → UInt16 × List UInt16
  | blp, [] => (blp, [])
  | blp, seq :: lostSeqs =>
    let diff := seq - pid
    if 1 ≤ diff ∧ diff ≤ 16 then fillMask pid (blp ||| (1 <<< (diff - 1))) lostSeqs
    else (blp, seq :: lostSeqs)

theorem fillMask_length (pid : UInt16) (l : List UInt16) :
    ∀ blp, (fillMask pid blp l).2.length ≤ l.length := by
  induction l with
  | nil =>
      intro blp
      exact Nat.le_refl 0
  | cons seq l ih =>
      intro blp
      rw [fillMask]
      split
      · exact Nat.le_succ_of_le (ih _)
      · exact Nat.le_refl _

/-- The outer loop of `build_bitmask`. -/
def packMasks : List UInt16 → List BitmaskNack
  | [] => []
  | pid :: lostSeqs => ⟨pid, (fillMask pid 0 lostSeqs).1⟩ :: packMasks (fillMask pid 0 lostSeqs).2
termination_by l => l.length
decreasing_by exact Nat.lt_succ_of_le (fillMask_length pid lostSeqs 0)

/-- The inner loop of `build_range`: how far the run goes, and the numbers that are
left. -/
def extendRun (start : UInt16) : UInt16 → List UInt16 → Parse (UInt16 × List UInt16)
  | extra, [] => .ok (extra, [])
  | extra, seq :: lostSeqs => do
    let next ← addU16 extra 1
    if seq = start + next then
      let extra ← addU16 extra 1
      extendRun start extra lostSeqs
    else .ok (extra, seq :: lostSeqs)

theorem extendRun_length {start : UInt16} {l : List UInt16} :
    ∀ {extra r}, extendRun start extra l = .ok r → r.2.length ≤ l.length := by
  induction l with
  | nil =>
      intro extra r h
      cases h
      exact Nat.le_refl 0
  | cons seq l ih =>
      intro extra r h
      rw [extendRun] at h
      cases hadd : addU16 extra 1 with
      | error e =>
          rw [hadd] at h
          cases h
      | ok next =>
          simp only [hadd, bind, Except.bind] at h
          split at h
          · exact Nat.le_succ_of_le (ih h)
          · cases h
            exact Nat.le_refl _

/-- The outer loop of `build_range`. -/
def packRanges : List UInt16 → Parse (List RangeEntry)
  | [] => .ok []
  | start :: lostSeqs =>
    match h : extendRun start 0 lostSeqs with
    | .error e => .error e
    | .ok (extra, rest) => do
      have : rest.length ≤ lostSeqs.length := extendRun_length h
      let nacks ← packRanges rest
      .ok (⟨start, extra⟩ :: nacks)
termination_by l => l.length

def buildBitmask (b : NackListBuilder) (lostSeqs : List UInt16) : NackPacket :=
  ⟨b.senderSsrc, b.mediaSsrc, .bitmask (packMasks lostSeqs)⟩

def buildRange (b : NackListBuilder) (lostSeqs : List UInt16) : Parse NackPacket := do
  let nacks ← packRanges lostSeqs
  .ok ⟨b.senderSsrc, b.mediaSsrc, .range nacks⟩

end NackListBuilder

/-! ### PT=204 application packets -/

/-- `RTCP_PT_APP`. -/
def rtcpPtApp : UInt8 := 204

/-- `RIST_APP_RANGE_NACK`. -/
def ristAppRangeNack : UInt8 := 0

/-- `RTT_ECHO_REQUEST`. -/
def rttEchoRequest : UInt8 := 2

/-- `RTT_ECHO_RESPONSE`. -/
def rttEchoResponse : UInt8 := 3

/-- `RIST_APP_NAME`. -/
def ristAppName : Bytes := [0x52, 0x49, 0x53, 0x54]

/-- `MAX_RANGE_NACK_ENTRIES`. -/
def maxRangeNackEntries : Nat := 512

structure RttEchoRequest where
  ssrc : UInt32
  timestampMsw : UInt32
  timestampLsw : UInt32
  deriving DecidableEq

structure RttEchoResponse where
  ssrc : UInt32
  timestampMsw : UInt32
  timestampLsw : UInt32
  processingDelayUs : UInt32
  deriving DecidableEq

/-- The range request inside an application packet. -/
structure AppRangeNack where
  mediaSsrc : UInt32
  entries : List RangeEntry
  deriving DecidableEq

inductive RistApp where
  | rttEchoRequest (req : RttEchoRequest)
  | rttEchoResponse (resp : RttEchoResponse)
  | rangeNack (nack : AppRangeNack)
  | unknown (subtype : UInt8) (data : Bytes)
  deriving DecidableEq

namespace RistApp

/-- The entry loop, `while r.remaining() >= 4 && entries.len() < MAX`. -/
def readRanges : Nat → Bytes → Parse (List RangeEntry)
  | 0, _ => .ok []
  | n + 1, r =>
    if 4 ≤ r.length then do
      let (start, r) ← getU16 r
      let (extra, r) ← getU16 r
      let entries ← readRanges n r
      .ok (⟨start, extra⟩ :: entries)
    else .ok []

def parse (buf : Bytes) (subtype : UInt8) : Parse RistApp := do
  if buf.length < 8 then fail (.packetTooShort 8 buf.length)
  else
    let (ssrc, r) ← getU32 buf
    let name := r.take 4
    let r := r.drop 4
    if name ≠ ristAppName then .ok (.unknown subtype buf)
    else if subtype = ristAppRangeNack then
      let entries ← readRanges maxRangeNackEntries r
      .ok (.rangeNack ⟨ssrc, entries⟩)
    else if subtype = Rist.rttEchoRequest then
      if r.length < 8 then fail (.packetTooShort 16 buf.length)
      else
        let (msw, r) ← getU32 r
        let (lsw, _) ← getU32 r
        .ok (.rttEchoRequest ⟨ssrc, msw, lsw⟩)
    else if subtype = Rist.rttEchoResponse then
      if r.length < 12 then fail (.packetTooShort 20 buf.length)
      else
        let (msw, r) ← getU32 r
        let (lsw, r) ← getU32 r
        let (delay, _) ← getU32 r
        .ok (.rttEchoResponse ⟨ssrc, msw, lsw, delay⟩)
    else .ok (.unknown subtype buf)

/-- The common header and the body of an application packet. -/
def frame (subtype : UInt8) (lengthWords : UInt16) (body : Bytes) : Bytes :=
  [0x80 ||| subtype, rtcpPtApp] ++ putU16 lengthWords ++ body

def serialize : RistApp → Bytes
  | rttEchoRequest req =>
    frame Rist.rttEchoRequest 4
      (putU32 req.ssrc ++ ristAppName ++ putU32 req.timestampMsw ++ putU32 req.timestampLsw)
  | rttEchoResponse resp =>
    frame Rist.rttEchoResponse 5
      (putU32 resp.ssrc ++ ristAppName ++ putU32 resp.timestampMsw ++ putU32 resp.timestampLsw ++
        putU32 resp.processingDelayUs)
  | rangeNack nack =>
    frame ristAppRangeNack (UInt16.ofNat ((12 + 4 * nack.entries.length) / 4 - 1))
      (putU32 nack.mediaSsrc ++ ristAppName ++
        nack.entries.flatMap fun e => putU16 e.start ++ putU16 e.extra)
  | unknown subtype data =>
    frame (subtype &&& 0x1F) (UInt16.ofNat ((4 + data.length) / 4 - 1)) data

end RistApp

end Rist
