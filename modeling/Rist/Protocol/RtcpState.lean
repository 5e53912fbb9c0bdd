/-
The two RTCP states: `RtcpSenderState` and `RtcpReceiverState` in
`rist-protocol/src/protocol/rtcp_state.rs`.

The jitter estimate is a floating-point number, as in the source, and so are the two
quotients of a report.  Nothing below depends on their values.  The counters are
`u32` and wrap as a release build does; an operation whose name ends in `Checked` is the
same operation in a debug build, which stops where a counter leaves its type.
-/
import Rist.Basic
import Rist.Lib.Checked
import Rist.Lib.Serial
import Rist.Packet.RtcpReport

namespace Rist

open Serial

/-! ### The sender's state -/

/-- `NTP_EPOCH_OFFSET`: 70 years in seconds. -/
def ntpEpochOffset : UInt64 := 2208988800

/-- `system_time_to_ntp`: the seconds since 1900 and their fraction in units of `2 ^ -32`. -/
def systemTimeToNtp (time : SystemTime) : UInt32 × UInt32 :=
  let unixDuration := time.sinceUnixEpoch
  let secs := UInt64.ofNat (Duration.asSecs unixDuration) + ntpEpochOffset
  let frac := (UInt64.ofNat (Duration.subsecNanos unixDuration) <<< 32) / 1000000000
  (secs.toUInt32, frac.toUInt32)

structure RtcpSenderState where
  ssrc : UInt32
  cname : String
  packetCount : UInt32
  octetCount : UInt32
  lastRtpTimestamp : UInt32
  lastRtpWallclock : Option Instant
  rtpTsEpoch : Instant
  rtpTsEpochSystem : SystemTime
  lastRtcpTime : Option Instant
  rtcpInterval : Duration

namespace RtcpSenderState

def new (ssrc : UInt32) (cname : String) (rtcpInterval : Duration) (rtpTsEpoch : Instant)
    (rtpTsEpochSystem : SystemTime) : RtcpSenderState where
  ssrc := ssrc
  cname := cname
  packetCount := 0
  octetCount := 0
  lastRtpTimestamp := 0
  lastRtpWallclock := none
  rtpTsEpoch := rtpTsEpoch
  rtpTsEpochSystem := rtpTsEpochSystem
  lastRtcpTime := none
  rtcpInterval := rtcpInterval

/-- `on_packet_sent`.  The size is cut to 32 bits before it is added. -/
def onPacketSent (s : RtcpSenderState) (payloadSize : Nat) (rtpTimestamp : UInt32)
    (now : Instant) : RtcpSenderState :=
  { s with packetCount := s.packetCount + 1
           octetCount := s.octetCount + UInt32.ofNat payloadSize
           lastRtpTimestamp := rtpTimestamp
           lastRtpWallclock := some now }

def onPacketSentChecked (s : RtcpSenderState) (payloadSize : Nat) (rtpTimestamp : UInt32)
    (now : Instant) : Option RtcpSenderState := do
  let packetCount ← Checked.add32 s.packetCount 1
  let octetCount ← Checked.add32 s.octetCount (UInt32.ofNat payloadSize)
  some { s with packetCount, octetCount, lastRtpTimestamp := rtpTimestamp,
                lastRtpWallclock := some now }

/-- `generate_sr`, with the wall clock it reads. -/
def generateSr (s : RtcpSenderState) (now : Instant) (wallClock : SystemTime) :
    RtcpSenderState × SenderReport :=
  let (ntpMsw, ntpLsw) := systemTimeToNtp wallClock
  let elapsed : Duration := now - s.rtpTsEpoch
  let epochUnix := s.rtpTsEpochSystem.sinceUnixEpoch
  let ntpUs := (UInt64.ofNat (Duration.asMicros epochUnix) + ntpEpochOffset * 1000000)
    + UInt64.ofNat (Duration.asMicros elapsed)
  let rtpTimestamp := (ntpUs * 90 / 1000).toUInt32
  ({ s with lastRtcpTime := some now },
    { ssrc := s.ssrc, ntpMsw, ntpLsw, rtpTimestamp, senderPacketCount := s.packetCount,
      senderOctetCount := s.octetCount })

end RtcpSenderState

/-! ### The receiver's state -/

structure RtcpReceiverState where
  senderSsrc : Option UInt32
  extendedMaxSeq : UInt32
  seqCycles : UInt16
  maxSeq : UInt16
  firstPacketReceived : Bool
  baseSeq : UInt16
  packetsReceived : UInt32
  /-- `expected` at the last report. -/
  expectedPrior : UInt32
  /-- `packets_received` at the last report. -/
  receivedPrior : UInt32
  jitter : Float
  lastTransit : Float
  lastSrNtp : UInt32
  lastSrTime : Option Instant

namespace RtcpReceiverState

def new : RtcpReceiverState where
  senderSsrc := none
  extendedMaxSeq := 0
  seqCycles := 0
  maxSeq := 0
  firstPacketReceived := false
  baseSeq := 0
  packetsReceived := 0
  expectedPrior := 0
  receivedPrior := 0
  jitter := 0.0
  lastTransit := 0.0
  lastSrNtp := 0
  lastSrTime := none

/-- The highest number and its cycle. -/
def trackSeq (s : RtcpReceiverState) (seq : UInt16) : RtcpReceiverState :=
  if s.firstPacketReceived = false then
    { s with firstPacketReceived := true, baseSeq := seq, maxSeq := seq,
             extendedMaxSeq := seq.toUInt32 }
  else if 0 < asI16 (seq - s.maxSeq) then
    let cycles := if seq < s.maxSeq then s.seqCycles + 1 else s.seqCycles
    { s with seqCycles := cycles, maxSeq := seq,
             extendedMaxSeq := (cycles.toUInt32 <<< 16) ||| seq.toUInt32 }
  else s

/-- The jitter estimate of RFC 3550 A.8. -/
def trackJitter (s : RtcpReceiverState) (rtpTimestamp : UInt32) (arrivalUs : UInt64) :
    RtcpReceiverState :=
  let arrivalRtp := (arrivalUs.toFloat / 1000000.0 * 90000.0).toUInt32
  let transit := (arrivalRtp - rtpTimestamp).toFloat
  let jitter :=
    if s.lastTransit != 0.0 then s.jitter + ((transit - s.lastTransit).abs - s.jitter) / 16.0
    else s.jitter
  { s with jitter := jitter, lastTransit := transit }

def onPacketReceived (s : RtcpReceiverState) (seq : UInt16) (rtpTimestamp : UInt32)
    (arrivalUs : UInt64) (isDuplicate : Bool) : RtcpReceiverState :=
  if isDuplicate then s
  else
    let s := s.trackSeq seq
    ({ s with packetsReceived := s.packetsReceived + 1 } : RtcpReceiverState).trackJitter
      rtpTimestamp arrivalUs

def trackSeqChecked (s : RtcpReceiverState) (seq : UInt16) : Option RtcpReceiverState :=
  if s.firstPacketReceived = false then
    some { s with firstPacketReceived := true, baseSeq := seq, maxSeq := seq,
                  extendedMaxSeq := seq.toUInt32 }
  else if 0 < asI16 (seq - s.maxSeq) then do
    let cycles ← if seq < s.maxSeq then Checked.add16 s.seqCycles 1 else some s.seqCycles
    some { s with seqCycles := cycles, maxSeq := seq,
                  extendedMaxSeq := (cycles.toUInt32 <<< 16) ||| seq.toUInt32 }
  else some s

def onPacketReceivedChecked (s : RtcpReceiverState) (seq : UInt16) (rtpTimestamp : UInt32)
    (arrivalUs : UInt64) (isDuplicate : Bool) : Option RtcpReceiverState :=
  if isDuplicate then some s
  else do
    let s ← s.trackSeqChecked seq
    let packetsReceived ← Checked.add32 s.packetsReceived 1
    some (({ s with packetsReceived } : RtcpReceiverState).trackJitter rtpTimestamp arrivalUs)

def onSrReceived (s : RtcpReceiverState) (sr : SenderReport) (now : Instant) :
    RtcpReceiverState :=
  { s with senderSsrc := some sr.ssrc, lastSrNtp := sr.compactNtp, lastSrTime := some now }

/-! ### Receiver reports -/

/-- The numbers from `base_seq` to `extended_max_seq`. -/
def expected (s : RtcpReceiverState) : UInt32 := s.extendedMaxSeq - s.baseSeq.toUInt32 + 1

/-- Expected since the last report. -/
def expectedInterval (s : RtcpReceiverState) : UInt32 := s.expected - s.expectedPrior

/-- Received since the last report. -/
def receivedInterval (s : RtcpReceiverState) : UInt32 := s.packetsReceived - s.receivedPrior

/-- In units of 1/256. -/
def fractionLost (s : RtcpReceiverState) : UInt8 :=
  if s.expectedInterval = 0 ∨ s.expectedInterval ≤ s.receivedInterval then 0
  else
    let lostInterval := s.expectedInterval - s.receivedInterval
    (lostInterval.toFloat / s.expectedInterval.toFloat * 256.0).toUInt8

def cumulativeLost (s : RtcpReceiverState) : Int32 :=
  let lost : Int := s.expected.toNat - s.packetsReceived.toNat
  Int32.ofInt (max (-8388608) (min lost 8388607))

/-- In units of 1/65536 s. -/
def delaySinceLastSr (s : RtcpReceiverState) (now : Instant) : UInt32 :=
  match s.lastSrTime with
  | some srTime => (Duration.asSecsF64 (now - srTime) * 65536.0).toUInt32
  | none => 0

/-- `generate_rr`: the report, and the state that remembers it as the last one. -/
def generateRr (s : RtcpReceiverState) (ssrc : UInt32) (now : Instant) :
    RtcpReceiverState × ReceiverReport :=
  if s.firstPacketReceived = false then (s, ReceiverReport.empty ssrc)
  else
    ({ s with expectedPrior := s.expected, receivedPrior := s.packetsReceived },
      ⟨ssrc, [{ ssrc := s.senderSsrc.getD 0, fractionLost := s.fractionLost,
                cumulativeLost := s.cumulativeLost, extendedHighestSeq := s.extendedMaxSeq,
                jitter := s.jitter.toUInt32, lastSr := s.lastSrNtp,
                delaySinceLastSr := s.delaySinceLastSr now }]⟩)

/-- `generate_rr` in a debug build: the four differences and the sum it makes, and then
the report. -/
def generateRrChecked (s : RtcpReceiverState) (ssrc : UInt32) (now : Instant) :
    Option (RtcpReceiverState × ReceiverReport) :=
  if s.firstPacketReceived = false then some (s, ReceiverReport.empty ssrc)
  else do
    let span ← Checked.sub32 s.extendedMaxSeq s.baseSeq.toUInt32
    let expected ← Checked.add32 span 1
    let expectedInterval ← Checked.sub32 expected s.expectedPrior
    let receivedInterval ← Checked.sub32 s.packetsReceived s.receivedPrior
    let _ ← if expectedInterval = 0 ∨ expectedInterval ≤ receivedInterval then some 0
      else Checked.sub32 expectedInterval receivedInterval
    some (s.generateRr ssrc now)

end RtcpReceiverState

end Rist
