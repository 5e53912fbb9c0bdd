/-
Sequence numbers as a type: `rist-protocol/src/packet/seq.rs`.

The transport works on bare `u16` numbers.  This is the public type, with the order
its users sort by.
-/
import Rist.Lib.Serial

namespace Rist

open Serial

structure SeqNo where
  val : UInt16
  deriving DecidableEq

namespace SeqNo

/-- The signed distance from `self` to `other`: positive when `other` is ahead. -/
def diff (self other : SeqNo) : Int := asI16 (other.val - self.val)

/-- Does `self` come before `other`? -/
def precedes (self other : SeqNo) : Bool := decide (0 < self.diff other)

def next (self : SeqNo) : SeqNo := ⟨self.val + 1⟩

def add (self : SeqNo) (n : UInt16) : SeqNo := ⟨self.val + n⟩

/-- `Ord::cmp`. -/
def cmp (self other : SeqNo) : Ordering := compare (self.diff other) 0

/-- `self < other`, which `PartialOrd` takes from `cmp`. -/
def lt (self other : SeqNo) : Bool := self.cmp other == .lt

/-- `slice::sort`.  It is stable: `a` stays before `b` unless `b < a`. -/
def sort (l : List SeqNo) : List SeqNo := l.mergeSort fun a b => !b.lt a

end SeqNo

end Rist
