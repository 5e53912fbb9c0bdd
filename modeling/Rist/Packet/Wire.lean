/-
Reading and writing bytes, and how a parser can end.

The source reads through the `bytes` crate's cursor, whose `get_*` stop the thread
when the buffer is too short, and through slices, which do too.  A parser therefore
ends in one of three ways: a value, a `RistError`, or a panic.  Keeping the panic
apart is what lets safety be stated.

Numbers are big endian.
-/
import Rist.Basic

namespace Rist

/-- `RistError`, as far as the packet modules produce it. -/
inductive RistError where
  | packetTooShort (expected actual : Nat)
  | invalidRtpVersion (version : UInt8)
  | invalidNackFormat (fmt : UInt8)
  | other (message : String)
  deriving DecidableEq

/-- How a parser fails. -/
inductive Fault where
  | err (e : RistError)
  | panic
  deriving DecidableEq

abbrev Parse := Except Fault

/-- `return Err(..)`. -/
def fail {α : Type} (e : RistError) : Parse α := .error (.err e)

/-- `Buf::get_u8`. -/
def getU8 : Bytes → Parse (UInt8 × Bytes)
  | a :: r => .ok (a, r)
  | _ => .error .panic

/-- `Buf::get_u16`. -/
def getU16 : Bytes → Parse (UInt16 × Bytes)
  | a :: b :: r => .ok (UInt16.ofNat (a.toNat * 256 + b.toNat), r)
  | _ => .error .panic

/-- `Buf::get_u32`. -/
def getU32 : Bytes → Parse (UInt32 × Bytes)
  | a :: b :: c :: d :: r =>
    .ok (UInt32.ofNat (((a.toNat * 256 + b.toNat) * 256 + c.toNat) * 256 + d.toNat), r)
  | _ => .error .panic

/-- `&buf[lo..hi]`. -/
def slice (buf : Bytes) (lo hi : Nat) : Parse Bytes :=
  if lo ≤ hi ∧ hi ≤ buf.length then .ok ((buf.take hi).drop lo) else .error .panic

/-- `&buf[lo..]`. -/
def sliceFrom (buf : Bytes) (lo : Nat) : Parse Bytes := slice buf lo buf.length

/-- `buf[i]`. -/
def byteAt (buf : Bytes) (i : Nat) : Parse UInt8 :=
  match buf[i]? with
  | some b => .ok b
  | none => .error .panic

/-- `BufMut::put_u16`. -/
def putU16 (x : UInt16) : Bytes := [UInt8.ofNat (x.toNat / 256), UInt8.ofNat x.toNat]

/-- `BufMut::put_u32`. -/
def putU32 (x : UInt32) : Bytes :=
  [UInt8.ofNat (x.toNat / 16777216), UInt8.ofNat (x.toNat / 65536), UInt8.ofNat (x.toNat / 256),
    UInt8.ofNat x.toNat]

/-! ### What is written is read back -/

@[simp] theorem getU8_cons (a : UInt8) (r : Bytes) : getU8 (a :: r) = .ok (a, r) := rfl

@[simp] theorem getU16_putU16 (x : UInt16) (r : Bytes) : getU16 (putU16 x ++ r) = .ok (x, r) := by
  have hx := x.toNat_lt
  show Except.ok (UInt16.ofNat ((UInt8.ofNat (x.toNat / 256)).toNat * 256
    + (UInt8.ofNat x.toNat).toNat), r) = _
  have hsum : (UInt8.ofNat (x.toNat / 256)).toNat * 256 + (UInt8.ofNat x.toNat).toNat
      = x.toNat := by
    rw [UInt8.toNat_ofNat', UInt8.toNat_ofNat']
    omega
  rw [hsum, UInt16.ofNat_toNat]

@[simp] theorem getU32_putU32 (x : UInt32) (r : Bytes) : getU32 (putU32 x ++ r) = .ok (x, r) := by
  have hx := x.toNat_lt
  show Except.ok (UInt32.ofNat ((((UInt8.ofNat (x.toNat / 16777216)).toNat * 256
    + (UInt8.ofNat (x.toNat / 65536)).toNat) * 256 + (UInt8.ofNat (x.toNat / 256)).toNat) * 256
    + (UInt8.ofNat x.toNat).toNat), r) = _
  have hsum : (((UInt8.ofNat (x.toNat / 16777216)).toNat * 256
      + (UInt8.ofNat (x.toNat / 65536)).toNat) * 256 + (UInt8.ofNat (x.toNat / 256)).toNat) * 256
      + (UInt8.ofNat x.toNat).toNat = x.toNat := by
    rw [UInt8.toNat_ofNat', UInt8.toNat_ofNat', UInt8.toNat_ofNat', UInt8.toNat_ofNat']
    omega
  rw [hsum, UInt32.ofNat_toNat]

@[simp] theorem getU32_putU32_nil (x : UInt32) : getU32 (putU32 x) = .ok (x, []) :=
  getU32_putU32 x []

@[simp] theorem length_putU16 (x : UInt16) : (putU16 x).length = 2 := rfl

@[simp] theorem length_putU32 (x : UInt32) : (putU32 x).length = 4 := rfl

end Rist
