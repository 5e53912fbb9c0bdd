/-
The types every module shares: byte strings, the monotonic clock and the wall clock.

`Instant` and `Duration` are counted in nanoseconds.  `saturating_duration_since`
is then truncated subtraction, and `instant + duration` is addition.
-/
import Mathlib.Data.Nat.Notation

namespace Rist

/-- `bytes::Bytes`, and every byte slice of the source. -/
abbrev Bytes := List UInt8

/-- `std::time::Instant`, in nanoseconds from an arbitrary origin. -/
abbrev Instant := Nat

/-- `std::time::Duration`, in nanoseconds. -/
abbrev Duration := Nat

/-- `Duration::from_millis`. -/
def Duration.fromMillis (ms : Nat) : Duration := ms * 1000000

/-- `Duration::from_secs`. -/
def Duration.fromSecs (s : Nat) : Duration := s * 1000000000

/-- `Duration::from_micros`. -/
def Duration.fromMicros (us : Nat) : Duration := us * 1000

/-- `Duration::as_micros`. -/
def Duration.asMicros (d : Duration) : Nat := d / 1000

/-- `Duration::as_secs`. -/
def Duration.asSecs (d : Duration) : Nat := d / 1000000000

/-- `Duration::subsec_nanos`. -/
def Duration.subsecNanos (d : Duration) : Nat := d % 1000000000

/-- `Duration::as_secs_f64`. -/
def Duration.asSecsF64 (d : Duration) : Float :=
  (d / 1000000000).toFloat + (d % 1000000000).toFloat / 1000000000.0

/-- `std::time::SystemTime`, in nanoseconds from the Unix epoch. -/
abbrev SystemTime := Int

/-- `duration_since(UNIX_EPOCH).unwrap_or_default()`: a time before the epoch is the epoch. -/
def SystemTime.sinceUnixEpoch (t : SystemTime) : Duration := t.toNat

end Rist
