/-
Bonding: `rist-protocol/src/protocol/bonding.rs`.

The same packets come over several paths, and each is to be passed on once.  The
merger remembers the last 1024 numbers in a bitmap, one bit a number.

The counters are `u64` and wrap as a release build does.  A number exactly half the
circle away from the highest has the signed distance -32768, whose negation is itself:
a release build drops it as late, a debug build stops there.  `processChecked` is the
debug build.
-/
import Rist.Basic
import Rist.Lib.Bitmap
import Rist.Lib.Checked
import Rist.Lib.Serial

namespace Rist

open Serial

/-- `WINDOW_SIZE`. -/
def windowSize : Nat := 1024

/-- `BITMAP_WORDS`. -/
def bitmapWords : Nat := windowSize / 64

structure BondingMerger where
  bitmap : Bitmap bitmapWords
  highestSeq : Option UInt16
  packetsEmitted : UInt64
  duplicatesDropped : UInt64
  lateDropped : UInt64

namespace BondingMerger

def new : BondingMerger where
  bitmap := Bitmap.empty
  highestSeq := none
  packetsEmitted := 0
  duplicatesDropped := 0
  lateDropped := 0

/-- The bit of a number. -/
def idx (seq : UInt16) : Fin (64 * bitmapWords) := ⟨seq.toNat % windowSize, Nat.mod_lt _ (by decide)⟩

def markSeq (m : BondingMerger) (seq : UInt16) : BondingMerger :=
  { m with bitmap := m.bitmap.mark (idx seq) }

def isSeqMarked (m : BondingMerger) (seq : UInt16) : Bool := m.bitmap.get (idx seq)

def clearBitmap (m : BondingMerger) : BondingMerger := { m with bitmap := Bitmap.empty }

/-- The clearing loop, `for i in 1..=n`. -/
def clearFrom (bitmap : Bitmap bitmapWords) (highest : UInt16) : Nat → Bitmap bitmapWords
  | 0 => bitmap
  | n + 1 => (clearFrom bitmap highest n).clear (idx (highest + UInt16.ofNat (n + 1)))

def advanceWindow (m : BondingMerger) (advance : UInt16) : BondingMerger :=
  if windowSize ≤ advance.toNat then m.clearBitmap
  else { m with bitmap := clearFrom m.bitmap (m.highestSeq.getD 0) advance.toNat }

/-- `process`, with the packet to pass on. -/
def process (m : BondingMerger) (seq : UInt16) (data : Bytes) : BondingMerger × Option Bytes :=
  match m.highestSeq with
  | none =>
    let m := ({ m with highestSeq := some seq }).clearBitmap.markSeq seq
    ({ m with packetsEmitted := m.packetsEmitted + 1 }, some data)
  | some highest =>
    let diff := asI16 (seq - highest)
    if 0 < diff then
      let m := m.advanceWindow (seq - highest)
      let m := ({ m with highestSeq := some seq }).markSeq seq
      ({ m with packetsEmitted := m.packetsEmitted + 1 }, some data)
    else if diff = 0 then ({ m with duplicatesDropped := m.duplicatesDropped + 1 }, none)
    else if windowSize ≤ (-diff).toNat then ({ m with lateDropped := m.lateDropped + 1 }, none)
    else if m.isSeqMarked seq then
      ({ m with duplicatesDropped := m.duplicatesDropped + 1 }, none)
    else
      let m := m.markSeq seq
      ({ m with packetsEmitted := m.packetsEmitted + 1 }, some data)

/-- `process` in a debug build; `none` is a stop. -/
def processChecked (m : BondingMerger) (seq : UInt16) (data : Bytes) :
    Option (BondingMerger × Option Bytes) :=
  match m.highestSeq with
  | none => do
    let m := ({ m with highestSeq := some seq }).clearBitmap.markSeq seq
    let packetsEmitted ← Checked.add64 m.packetsEmitted 1
    some ({ m with packetsEmitted }, some data)
  | some highest =>
    let diff := asI16 (seq - highest)
    if 0 < diff then do
      let m := m.advanceWindow (seq - highest)
      let m := ({ m with highestSeq := some seq }).markSeq seq
      let packetsEmitted ← Checked.add64 m.packetsEmitted 1
      some ({ m with packetsEmitted }, some data)
    else if diff = 0 then do
      let duplicatesDropped ← Checked.add64 m.duplicatesDropped 1
      some ({ m with duplicatesDropped }, none)
    else do
      let behind ← Checked.neg16 diff
      if windowSize ≤ behind.toNat then do
        let lateDropped ← Checked.add64 m.lateDropped 1
        some ({ m with lateDropped }, none)
      else if m.isSeqMarked seq then do
        let duplicatesDropped ← Checked.add64 m.duplicatesDropped 1
        some ({ m with duplicatesDropped }, none)
      else do
        let m := m.markSeq seq
        let packetsEmitted ← Checked.add64 m.packetsEmitted 1
        some ({ m with packetsEmitted }, some data)

end BondingMerger

end Rist
