/-
Retransmission: `rist-protocol/src/protocol/nack_tracker.rs`.

The sender keeps its recent packets in `RetransmitBuffer`.  The receiver detects
gaps and schedules requests in `NackScheduler`, a ring of 4096 slots indexed by the
low bits of the missing number.

`active_count` is a `u32` and wraps as a release build does; a debug build stops there,
which is what the operations whose name ends in `Checked` do.  `nack_count` is only
incremented below `max_retries` and cannot wrap.  `scan_lo` is written and never read.
-/
import Rist.Basic
import Rist.Lib.Checked
import Rist.Lib.Serial
import Rist.Lib.SlotRing
import Mathlib.Data.List.Sort

namespace Rist

open Serial

/-! ### Sender side -/

/-- A slot of the retransmit ring. -/
structure RetransmitSlot where
  seq : UInt16
  data : Bytes

/-- The sender's recent packets, by the low bits of their number. -/
structure RetransmitBuffer where
  slots : SlotRing (Option RetransmitSlot)

namespace RetransmitBuffer

/-- `new`: the next power of two. -/
def new (capacity : Nat) : RetransmitBuffer where
  slots := SlotRing.replicate (Nat.clog 2 capacity) none

def capacity (b : RetransmitBuffer) : Nat := b.slots.capacity

def insert (b : RetransmitBuffer) (seq : UInt16) (data : Bytes) : RetransmitBuffer where
  slots := b.slots.set seq.toNat (some ⟨seq, data⟩)

/-- The packet of a number, unless its slot has been overwritten. -/
def get (b : RetransmitBuffer) (seq : UInt16) : Option Bytes :=
  match b.slots.get seq.toNat with
  | some slot => if slot.seq = seq then some slot.data else none
  | none => none

end RetransmitBuffer

/-! ### Receiver side -/

/-- The state of one missing number. -/
structure NackSlot where
  seq : UInt16
  active : Bool
  nextNackAt : Instant
  nackCount : UInt32
  deriving DecidableEq

structure NackScheduler where
  slots : SlotRing NackSlot
  maxRetries : UInt32
  baseDelay : Duration
  expectedSeq : Option UInt16
  scanLo : UInt16
  activeCount : UInt32

namespace NackScheduler

/-- `MAX_TRACKABLE_GAP`. -/
def maxTrackableGap : UInt16 := 1000

/-- The ring has `2 ^ 12` slots. -/
def ringBits : Nat := 12

/-- `new`, at the time `now`. -/
def new (maxRetries : UInt32) (baseDelay : Duration) (now : Instant) : NackScheduler where
  slots := SlotRing.replicate ringBits ⟨0, false, now, 0⟩
  maxRetries := maxRetries
  baseDelay := baseDelay
  expectedSeq := none
  scanLo := 0
  activeCount := 0

def slot (s : NackScheduler) (seq : UInt16) : NackSlot := s.slots.get seq.toNat

/-- `u32::saturating_sub(1)`. -/
def decrement (n : UInt32) : UInt32 := if n = 0 then 0 else n - 1

/-- Is the slot free for `missing`: not already tracking it? -/
def claimable (slot : NackSlot) (missing : UInt16) : Bool :=
  !slot.active || decide (slot.seq ≠ missing)

/-- The gap loop, `for i in 0..n`: start tracking every number from `expected` on. -/
def trackGaps (s : NackScheduler) (expected : UInt16) (now : Instant) :
    Nat → NackScheduler × List UInt16
  | 0 => (s, [])
  | n + 1 =>
    let (s, newGaps) := trackGaps s expected now n
    let missing := expected + UInt16.ofNat n
    if claimable (s.slot missing) missing then
      ({ s with slots := s.slots.set missing.toNat ⟨missing, true, now + s.baseDelay, 0⟩
                activeCount := s.activeCount + 1 }, newGaps ++ [missing])
    else (s, newGaps)

def deactivate (s : NackScheduler) (seq : UInt16) : NackScheduler :=
  if (s.slot seq).active ∧ (s.slot seq).seq = seq then
    { s with slots := s.slots.set seq.toNat { s.slot seq with active := false }
             activeCount := decrement s.activeCount }
  else s

/-- `on_packet_received`, with the numbers it newly tracks. -/
def onPacketReceived (s : NackScheduler) (seq : UInt16) (now : Instant) :
    NackScheduler × List UInt16 :=
  match s.expectedSeq with
  | none => ({ s with expectedSeq := some (seq + 1), scanLo := seq }, [])
  | some expected =>
    let diff := asI16 (seq - expected)
    if 0 < diff then
      let gap := seq - expected
      let (s, newGaps) :=
        if gap ≤ maxTrackableGap then s.trackGaps expected now gap.toNat else (s, [])
      ({ s with expectedSeq := some (seq + 1) }, newGaps)
    else if diff = 0 then ({ s with expectedSeq := some (seq + 1) }, [])
    else (s.deactivate seq, [])

/-- The gap loop in a debug build. -/
def trackGapsChecked (s : NackScheduler) (expected : UInt16) (now : Instant) :
    Nat → Option (NackScheduler × List UInt16)
  | 0 => some (s, [])
  | n + 1 => do
    let (s, newGaps) ← trackGapsChecked s expected now n
    let missing := expected + UInt16.ofNat n
    if claimable (s.slot missing) missing then
      let activeCount ← Checked.add32 s.activeCount 1
      some ({ s with slots := s.slots.set missing.toNat ⟨missing, true, now + s.baseDelay, 0⟩
                     activeCount }, newGaps ++ [missing])
    else some (s, newGaps)

/-- `on_packet_received` in a debug build. -/
def onPacketReceivedChecked (s : NackScheduler) (seq : UInt16) (now : Instant) :
    Option (NackScheduler × List UInt16) :=
  match s.expectedSeq with
  | none => some ({ s with expectedSeq := some (seq + 1), scanLo := seq }, [])
  | some expected =>
    let diff := asI16 (seq - expected)
    if 0 < diff then do
      let gap := seq - expected
      let (s, newGaps) ←
        if gap ≤ maxTrackableGap then s.trackGapsChecked expected now gap.toNat else some (s, [])
      some ({ s with expectedSeq := some (seq + 1) }, newGaps)
    else if diff = 0 then some ({ s with expectedSeq := some (seq + 1) }, [])
    else some (s.deactivate seq, [])

def onPacketRecovered (s : NackScheduler) (seq : UInt16) : NackScheduler := s.deactivate seq

/-- The scan loop, `for i in 0..n`: retire or request every slot that is due. -/
def scan (s : NackScheduler) (now : Instant) (retryDelay : Duration) :
    Nat → NackScheduler × List UInt16
  | 0 => (s, [])
  | n + 1 =>
    let (s, toNack) := scan s now retryDelay n
    let slot := s.slots.get n
    if slot.active = false then (s, toNack)
    else if slot.nextNackAt ≤ now then
      if s.maxRetries ≤ slot.nackCount then
        ({ s with slots := s.slots.set n { slot with active := false }
                  activeCount := decrement s.activeCount }, toNack)
      else
        ({ s with slots := s.slots.set n { slot with nackCount := slot.nackCount + 1
                                                     nextNackAt := now + retryDelay } },
          toNack ++ [slot.seq])
    else (s, toNack)

/-- `get_pending_nacks`.  The sort is by the number itself. -/
def getPendingNacks (s : NackScheduler) (now : Instant) (rtt : Option Duration) :
    NackScheduler × List UInt16 :=
  if s.activeCount = 0 then (s, [])
  else
    let (s, toNack) := s.scan now (rtt.getD s.baseDelay) s.slots.capacity
    (s, toNack.insertionSort (· ≤ ·))

/-- `pending_count`. -/
def pendingCount (s : NackScheduler) : Nat := s.activeCount.toNat

def updateBaseDelay (s : NackScheduler) (delay : Duration) : NackScheduler :=
  { s with baseDelay := delay }

end NackScheduler

end Rist
