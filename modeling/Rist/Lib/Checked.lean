/-
Machine arithmetic that stops on overflow.

A debug build stops the thread where a sum or a difference leaves its type, and a
release build wraps.  The checked operations are the first kind: `none` is the stop.
Where they give a value it is the wrapped one and the exact one at once.
-/
import Mathlib.Data.Nat.Notation

namespace Checked

def add16 (a b : UInt16) : Option UInt16 := if a.toNat + b.toNat < 65536 then some (a + b) else none

def sub16 (a b : UInt16) : Option UInt16 := if b ≤ a then some (a - b) else none

def add32 (a b : UInt32) : Option UInt32 :=
  if a.toNat + b.toNat < 4294967296 then some (a + b) else none

def sub32 (a b : UInt32) : Option UInt32 := if b ≤ a then some (a - b) else none

def add64 (a b : UInt64) : Option UInt64 :=
  if a.toNat + b.toNat < 18446744073709551616 then some (a + b) else none

/-- The negation of a signed 16-bit number.  The least one has none. -/
def neg16 (x : Int) : Option Int := if x = -32768 then none else some (-x)

/-- A difference of sizes. -/
def subSize (a b : Nat) : Option Nat := if b ≤ a then some (a - b) else none

/-- A 32-bit counter that has gone up by one `n` times, from zero. -/
def count32 (n : Nat) : Option Nat := if n < 4294967296 then some n else none

theorem add32_of_lt {a b : UInt32} (h : a.toNat + b.toNat < 4294967296) :
    add32 a b = some (a + b) := if_pos h

theorem add32_of_not_lt {a b : UInt32} (h : ¬a.toNat + b.toNat < 4294967296) :
    add32 a b = none := if_neg h

theorem add64_of_lt {a b : UInt64} (h : a.toNat + b.toNat < 18446744073709551616) :
    add64 a b = some (a + b) := if_pos h

theorem add64_of_not_lt {a b : UInt64} (h : ¬a.toNat + b.toNat < 18446744073709551616) :
    add64 a b = none := if_neg h

theorem neg16_of_ne {x : Int} (h : x ≠ -32768) : neg16 x = some (-x) := if_neg h

theorem add16_of_lt {a b : UInt16} (h : a.toNat + b.toNat < 65536) : add16 a b = some (a + b) :=
  if_pos h

theorem sub16_of_le {a b : UInt16} (h : b ≤ a) : sub16 a b = some (a - b) := if_pos h

theorem subSize_of_le {a b : Nat} (h : b ≤ a) : subSize a b = some (a - b) := if_pos h

theorem count32_of_lt {n : Nat} (h : n < 4294967296) : count32 n = some n := if_pos h

theorem sub32_of_le {a b : UInt32} (h : b.toNat ≤ a.toNat) : sub32 a b = some (a - b) :=
  if_pos (UInt32.le_iff_toNat_le.mpr h)

theorem toNat_sub32 {a b : UInt32} (h : b.toNat ≤ a.toNat) :
    (a - b).toNat = a.toNat - b.toNat :=
  UInt32.toNat_sub_of_le _ _ (UInt32.le_iff_toNat_le.mpr h)

end Checked
