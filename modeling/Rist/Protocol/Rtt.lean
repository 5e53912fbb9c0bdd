/-
Round-trip time: `rist-protocol/src/protocol/rtt.rs`.
-/
import Rist.Basic

namespace Rist

structure RttEstimator where
  srtt : Option Duration
  rttvar : Option Duration
  lastRequestTime : Option Instant
  lastRequestTimestamp : Option UInt64
  requestInterval : Duration
  nextRequestAt : Option Instant

namespace RttEstimator

def new (requestInterval : Duration) : RttEstimator :=
  ⟨none, none, none, none, requestInterval, none⟩

/-- `generate_request`: the timestamp to send, in microseconds since the first
request.  The two halves of the wire format are its high and low words. -/
def generateRequest (e : RttEstimator) (now : Instant) : RttEstimator × UInt64 :=
  let elapsed := UInt64.ofNat ((now - e.lastRequestTime.getD now) / 1000)
  let ts := match e.lastRequestTimestamp with
    | none => 0
    | some t => t + elapsed
  ({ e with lastRequestTime := some now, lastRequestTimestamp := some ts,
            nextRequestAt := some (now + e.requestInterval) }, ts)

def shouldSendRequest (e : RttEstimator) (now : Instant) : Bool :=
  match e.nextRequestAt with
  | none => true
  | some next => decide (next ≤ now)

/-- `Duration::abs_diff`. -/
def absDiff (a b : Duration) : Duration := (a - b) + (b - a)

/-- The moving averages of RFC 6298, in whole nanoseconds. -/
def updateRtt (e : RttEstimator) (sample : Duration) : RttEstimator :=
  match e.srtt with
  | none => { e with srtt := some sample, rttvar := some (sample / 2) }
  | some srtt =>
    let rttvar := e.rttvar.getD (sample / 2)
    { e with srtt := some (srtt * 7 / 8 + sample / 8)
             rttvar := some (rttvar * 3 / 4 + absDiff sample srtt / 4) }

/-- `on_response`.  The echoed timestamp is not looked at. -/
def onResponse (e : RttEstimator) (now : Instant) (_requestMsw _requestLsw : UInt32)
    (processingDelayUs : UInt32) : RttEstimator :=
  match e.lastRequestTime with
  | none => e
  | some sent =>
    e.updateRtt ((now - sent) - Duration.fromMicros processingDelayUs.toNat)

end RttEstimator

end Rist
