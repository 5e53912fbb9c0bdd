/-
The receiver's reorder buffer: `rist-protocol/src/protocol/reorder.rs`.

A flat ring indexed by the low bits of the sequence number.  `insert` is cut
where the source falls through: `place` is the part that writes the packet's own
slot, `extend` the part that moves `highest_seq` forward and marks what it
skipped.  The two inner loops count their steps down to zero, the last step of
the source's loop being the outermost call.

The counters `new_gaps` and `overflow_flushed` are `u32` and bounded by the
number of steps of a loop over `u16`, so they are plain naturals here.
-/
import Rist.Basic
import Rist.Lib.Checked
import Rist.Lib.Serial
import Rist.Lib.SlotRing

namespace Rist

open Serial

/-- What a ring slot holds. -/
inductive SlotState where
  /-- No packet with this number, and none after it yet. -/
  | empty
  /-- Skipped by a later packet at `firstNoticed`. -/
  | gap (firstNoticed : Instant)
  /-- Waiting for delivery. -/
  | filled (data : Bytes) (arrival : Instant)
  deriving DecidableEq

/-- A slot of the reorder ring, with the number it tracks. -/
@[ext] structure Slot where
  seq : UInt16
  state : SlotState
  deriving DecidableEq

/-- The slot every cleared cell holds.  Its number is a real sequence number. -/
def Slot.cleared : Slot := ⟨0, .empty⟩

/-- `matches!(state, SlotState::Filled { .. })`. -/
def SlotState.isFilled : SlotState → Bool
  | .filled _ _ => true
  | _ => false

/-- What `insert` reports. -/
structure InsertOutcome where
  stale : Bool := false
  duplicate : Bool := false
  recovered : Bool := false
  newGaps : Nat := 0
  overflowFlushed : Nat := 0
  deriving DecidableEq

/-- What `drain_ready` produces. -/
inductive DrainItem where
  | delivered (data : Bytes) (seq : UInt16) (arrival : Instant)
  | lost
  deriving DecidableEq

/-- The reorder buffer.  The slot ring carries its own capacity and mask. -/
structure ReorderBuffer where
  slots : SlotRing Slot
  bufferTime : Duration
  baseSeq : Option UInt16
  highestSeq : Option UInt16

namespace ReorderBuffer

/-- `DEFAULT_CAPACITY`. -/
def defaultCapacity : Nat := 8192

/-- `with_capacity`: the next power of two, and at least 64 slots. -/
def withCapacity (bufferTime : Duration) (capacity : Nat) : ReorderBuffer where
  slots := SlotRing.replicate (max (Nat.clog 2 capacity) 6) Slot.cleared
  bufferTime := bufferTime
  baseSeq := none
  highestSeq := none

def new (bufferTime : Duration) : ReorderBuffer := withCapacity bufferTime defaultCapacity

def capacity (b : ReorderBuffer) : Nat := b.slots.capacity

/-- The slot a sequence number falls on. -/
def slot (b : ReorderBuffer) (seq : UInt16) : Slot := b.slots.get seq.toNat

def setSlot (b : ReorderBuffer) (seq : UInt16) (s : Slot) : ReorderBuffer :=
  { b with slots := b.slots.set seq.toNat s }

/-- How many slots are filled: the counting pass of a reset. -/
def filledCount (b : ReorderBuffer) : Nat := b.slots.count fun s => s.state.isFilled

/-! ### Insert -/

/-- The gap-marking loop, `for i in 1..=n`: every number after `highest` and
before `seq` whose slot is empty, or is another number's, becomes a gap. -/
def markGaps (b : ReorderBuffer) (highest seq : UInt16) (now : Instant) :
    Nat → ReorderBuffer × Nat
  | 0 => (b, 0)
  | n + 1 =>
    let (b, newGaps) := markGaps b highest seq now n
    let gapSeq := highest + UInt16.ofNat (n + 1)
    if gapSeq = seq then (b, newGaps)
    else if (b.slot gapSeq).state = .empty ∨ (b.slot gapSeq).seq ≠ gapSeq then
      (b.setSlot gapSeq ⟨gapSeq, .gap now⟩, newGaps + 1)
    else (b, newGaps)

/-- Extend `highest_seq` forward and mark the newly exposed slots. -/
def extend (b : ReorderBuffer) (highest seq : UInt16) (now : Instant)
    (outcome : InsertOutcome) : ReorderBuffer × InsertOutcome :=
  if 0 < asI16 (seq - highest) then
    let (b, newGaps) := markGaps b highest seq now (seq - highest).toNat
    ({ b with highestSeq := some seq }, { outcome with newGaps := outcome.newGaps + newGaps })
  else (b, outcome)

/-- Write the packet's own slot.  The first arrival is kept. -/
def place (b : ReorderBuffer) (highest seq : UInt16) (data : Bytes) (now : Instant)
    (outcome : InsertOutcome) : ReorderBuffer × InsertOutcome :=
  if (b.slot seq).seq = seq then
    match (b.slot seq).state with
    | .filled _ _ => (b, { outcome with duplicate := true })
    | .gap _ =>
      (b.setSlot seq ⟨seq, .filled data now⟩).extend highest seq now
        { outcome with recovered := true }
    | .empty => (b.setSlot seq ⟨seq, .filled data now⟩).extend highest seq now outcome
  else (b.setSlot seq ⟨seq, .filled data now⟩).extend highest seq now outcome

/-- The minimal-flush loop, `for i in 0..n`: drop the slots of `[base, base + n)`,
counting the packets among them. -/
def flushOldest (b : ReorderBuffer) (base : UInt16) : Nat → ReorderBuffer × Nat
  | 0 => (b, 0)
  | n + 1 =>
    let (b, flushed) := flushOldest b base n
    let s := base + UInt16.ofNat n
    let hit := (b.slot s).seq = s ∧ (b.slot s).state.isFilled
    (b.setSlot s Slot.cleared, if hit then flushed + 1 else flushed)

/-- A buffer holding one packet, which is both ends of the window. -/
def anchor (b : ReorderBuffer) (seq : UInt16) (data : Bytes) (now : Instant) : ReorderBuffer :=
  { b.setSlot seq ⟨seq, .filled data now⟩ with baseSeq := some seq, highestSeq := some seq }

/-- `*slot = Slot { seq: 0, state: Empty }` for every slot. -/
def clearAll (b : ReorderBuffer) : ReorderBuffer :=
  { b with slots := SlotRing.replicate b.slots.bits Slot.cleared }

/-- `self.capacity as u16 - 1`, in wrapping arithmetic. -/
def aheadCapacity (b : ReorderBuffer) : UInt16 := UInt16.ofNat b.capacity - 1

def insert (b : ReorderBuffer) (seq : UInt16) (data : Bytes) (now : Instant) :
    ReorderBuffer × InsertOutcome :=
  match b.baseSeq, b.highestSeq with
  | some base, some highest =>
    if asI16 (seq - base) < 0 then (b, { stale := true })
    else if b.aheadCapacity < seq - base then
      let advance := seq - base - b.aheadCapacity
      if b.capacity ≤ advance.toNat ∨ highest - base < advance then
        -- a discontinuity: nothing buffered survives
        (b.clearAll.anchor seq data now, { overflowFlushed := b.filledCount })
      else
        let (b, flushed) := b.flushOldest base advance.toNat
        ({ b with baseSeq := some (base + advance) } : ReorderBuffer).place highest seq data now
          { overflowFlushed := flushed }
    else b.place highest seq data now {}
  | _, _ => (b.anchor seq data now, {})

/-- `insert` in a debug build: the differences it takes, the insert, and the counters it
has raised on the way. -/
def insertChecked (b : ReorderBuffer) (seq : UInt16) (data : Bytes) (now : Instant) :
    Option (ReorderBuffer × InsertOutcome) :=
  match b.baseSeq, b.highestSeq with
  | some base, some _ =>
    if asI16 (seq - base) < 0 then some (b.insert seq data now)
    else do
      let aheadCapacity ← Checked.sub16 (UInt16.ofNat b.capacity) 1
      let _ ← if aheadCapacity < seq - base then Checked.sub16 (seq - base) aheadCapacity
        else some 0
      let (b, outcome) := b.insert seq data now
      let _ ← Checked.count32 outcome.overflowFlushed
      let _ ← Checked.count32 outcome.newGaps
      some (b, outcome)
  | _, _ => some (b.insert seq data now)

/-! ### Drain -/

/-- One turn of `drain_ready`'s loop; `none` is its `return`. -/
def drainStep (b : ReorderBuffer) (now : Instant) : Option (ReorderBuffer × DrainItem) :=
  match b.baseSeq, b.highestSeq with
  | some base, some highest =>
    if 0 < asI16 (base - highest) then none
    else if (b.slot base).seq ≠ base then
      some ({ b.setSlot base Slot.cleared with baseSeq := some (base + 1) }, .lost)
    else
      match (b.slot base).state with
      | .filled data arrival =>
        if b.bufferTime ≤ now - arrival then
          some ({ b.setSlot base ⟨base, .empty⟩ with baseSeq := some (base + 1) },
            .delivered data base arrival)
        else none
      | .gap firstNoticed =>
        if b.bufferTime ≤ now - firstNoticed then
          some ({ b.setSlot base ⟨base, .empty⟩ with baseSeq := some (base + 1) }, .lost)
        else none
      | .empty => none
  | _, _ => none

/-- `drain_ready`'s loop, for at most `fuel` turns. -/
def drainLoop (now : Instant) : Nat → ReorderBuffer → ReorderBuffer × List DrainItem
  | 0, b => (b, [])
  | fuel + 1, b =>
    match b.drainStep now with
    | none => (b, [])
    | some (b, item) =>
      let (b, items) := drainLoop now fuel b
      (b, item :: items)

/-- How many turns `drain_ready` can take: every turn brings the base one closer
to the highest number, and it stops one past it. -/
def drainFuel (b : ReorderBuffer) : Nat :=
  match b.baseSeq, b.highestSeq with
  | some base, some highest => (highest - base).toNat + 1
  | _, _ => 0

def drainReady (b : ReorderBuffer) (now : Instant) : ReorderBuffer × List DrainItem :=
  drainLoop now b.drainFuel b

/-- `next_drain_time`, with `now` for the clock it reads when the head slot is
not the base's. -/
def nextDrainTime (b : ReorderBuffer) (now : Instant) : Option Instant :=
  match b.baseSeq with
  | none => none
  | some base =>
    if (b.slot base).seq ≠ base then some now
    else
      match (b.slot base).state with
      | .filled _ arrival => some (arrival + b.bufferTime)
      | .gap firstNoticed => some (firstNoticed + b.bufferTime)
      | .empty => none

end ReorderBuffer

end Rist
