/-
The sender report's clock.

A sender report names one instant twice, as an NTP time and as an RTP timestamp.  The
timestamp comes from two microsecond counts that are rounded down apart, the NTP time
from one nanosecond count rounded down to units of `2 ^ -32` seconds.  Both are turned
into ticks of 90 kHz here.  What they were rounded by is less than a fifth of a tick, so
the two never differ by more than one, and both wrap at a multiple of `2 ^ 32` ticks.
-/
import Mathlib.Data.Int.ModEq
import Mathlib.Data.Rat.Floor
import Rist.Transport.Sender

namespace Rist

/-- The NTP time of the data path, in microseconds: two counts, each rounded down. -/
def ntpMicros (epochSystem : SystemTime) (epochInstant now : Instant) : Nat :=
  Duration.asMicros epochSystem.sinceUnixEpoch + 2208988800000000
    + Duration.asMicros (now - epochInstant)

/-- The data path and the report use one formula. -/
theorem generateSr_rtpTimestamp (s : RtcpSenderState) (now : Instant) (wallClock : SystemTime) :
    (s.generateSr now wallClock).2.rtpTimestamp
      = ntpToRtp90k s.rtpTsEpochSystem s.rtpTsEpoch now := rfl

/-- Without overflow the timestamp is the microsecond count in ticks. -/
theorem ntpToRtp90k_toNat {epochSystem : SystemTime} {epochInstant now : Instant}
    (hfit : ntpMicros epochSystem epochInstant now * 90 < 18446744073709551616) :
    (ntpToRtp90k epochSystem epochInstant now).toNat
      = ntpMicros epochSystem epochInstant now * 90 / 1000 % 4294967296 := by
  have hoffset : (ntpEpochOffset * 1000000).toNat = 2208988800000000 := by decide
  have hus : ((UInt64.ofNat (Duration.asMicros epochSystem.sinceUnixEpoch)
      + ntpEpochOffset * 1000000)
      + UInt64.ofNat (Duration.asMicros (now - epochInstant))).toNat
      = ntpMicros epochSystem epochInstant now := by
    rw [UInt64.toNat_add, UInt64.toNat_add, UInt64.toNat_ofNat', UInt64.toNat_ofNat', hoffset]
    unfold ntpMicros at hfit ⊢
    omega
  unfold ntpToRtp90k
  rw [UInt64.toNat_toUInt32, UInt64.toNat_div, UInt64.toNat_mul, hus]
  show ntpMicros epochSystem epochInstant now * 90 % 18446744073709551616 / 1000 % _ = _
  rw [Nat.mod_eq_of_lt hfit]

/-- The two words of an NTP time. -/
theorem systemTimeToNtp_toNat {time : SystemTime} {ns : Nat} (h : time.sinceUnixEpoch = ns) :
    (systemTimeToNtp time).1.toNat = (ns / 1000000000 + 2208988800) % 4294967296 ∧
      (systemTimeToNtp time).2.toNat = ns % 1000000000 * 4294967296 / 1000000000 := by
  have hoffset : ntpEpochOffset.toNat = 2208988800 := rfl
  unfold systemTimeToNtp
  rw [h]
  constructor
  · rw [UInt64.toNat_toUInt32, UInt64.toNat_add, UInt64.toNat_ofNat', hoffset]
    unfold Duration.asSecs
    omega
  · have hlt : ns % 1000000000 < 1000000000 := Nat.mod_lt ns (by decide)
    rw [UInt64.toNat_toUInt32, UInt64.toNat_div, UInt64.toNat_shiftLeft, UInt64.toNat_ofNat',
      Nat.shiftLeft_eq]
    unfold Duration.subsecNanos
    simp only [UInt64.toNat_ofNat, Nat.reducePow, Nat.reduceMod]
    generalize ns % 1000000000 = n at hlt ⊢
    -- nothing is cut off: thirty bits shifted by 32 fit in 64
    rw [Nat.mod_eq_of_lt (show n < 18446744073709551616 by omega),
      Nat.mod_eq_of_lt (show n * 4294967296 < 18446744073709551616 by omega),
      Nat.mod_eq_of_lt (show n * 4294967296 / 1000000000 < 4294967296 by omega)]

/-- Within a second: `lsw` is the fraction of `n` nanoseconds, and the microseconds that
were counted are those of `n` or one fewer. -/
theorem ticks_close {n lsw : Nat} {us : Int} (hlsw : lsw = n * 4294967296 / 1000000000)
    (hus : us = (n / 1000 : Nat) ∨ us + 1 = (n / 1000 : Nat)) :
    (90000 * lsw / 4294967296 : Nat) ≤ 9 * us / 100 + 1 ∧
      9 * us / 100 ≤ (90000 * lsw / 4294967296 : Nat) + 1 := by
  have hlo : lsw * 1000000000 ≤ n * 4294967296 := by omega
  have hhi : n * 4294967296 < lsw * 1000000000 + 1000000000 := by omega
  clear hlsw
  omega

/-- A fixed-point time in ticks, rounded down. -/
theorem floor_ticks (msw lsw : Nat) :
    ⌊(90000 : ℚ) * (msw + lsw / 2 ^ 32)⌋
      = 90000 * (msw : Int) + (90000 * lsw / 4294967296 : Nat) := by
  have hsplit : (90000 : ℚ) * (msw + lsw / 2 ^ 32)
      = ((90000 * msw : Int) : ℚ) + ((90000 * lsw : Nat) : ℚ) / ((4294967296 : Nat) : ℚ) := by
    push_cast
    ring
  rw [hsplit, Int.floor_intCast_add, Rat.floor_natCast_div_natCast]
  push_cast
  ring

/-- The two counts of ticks, before anything wraps. -/
theorem ticks_of_micros (u d : Nat) :
    ∃ e : Int, |e| ≤ 1 ∧
      (((u / 1000 + 2208988800000000 + d / 1000) * 90 / 1000 : Nat) : Int)
        = 90000 * ((u + d) / 1000000000 + 2208988800 : Nat)
          + (90000 * ((u + d) % 1000000000 * 4294967296 / 1000000000) / 4294967296 : Nat) + e := by
  have hsum := Nat.div_add_mod (u + d) 1000000000
  have hlt := Nat.mod_lt (u + d) (show 0 < 1000000000 by decide)
  generalize (u + d) / 1000000000 = secs at hsum ⊢
  generalize (u + d) % 1000000000 = n at hsum hlt ⊢
  -- the microseconds counted, less the whole seconds
  obtain ⟨us, hus⟩ : ∃ us : Int, us = (u / 1000 + d / 1000 : Nat) - 1000000 * (secs : Int) :=
    ⟨_, rfl⟩
  have hcount : us = (n / 1000 : Nat) ∨ us + 1 = (n / 1000 : Nat) := by omega
  obtain ⟨h1, h2⟩ := ticks_close rfl hcount
  have hticks : (((u / 1000 + 2208988800000000 + d / 1000) * 90 / 1000 : Nat) : Int)
      = 90000 * (secs + 2208988800 : Nat) + 9 * us / 100 := by omega
  refine ⟨9 * us / 100 - (90000 * (n * 4294967296 / 1000000000) / 4294967296 : Nat), ?_, ?_⟩
  · rw [abs_le]
    omega
  · rw [hticks]
    ring

/-- **The report's two clocks agree.**  Its timestamp is the one the data path would write
now, and it is within one tick of its NTP time, modulo a turn of the 32-bit counters. -/
theorem generateSr_mapping (s : RtcpSenderState) (now : Instant)
    (hepoch : 0 ≤ s.rtpTsEpochSystem) (hnow : s.rtpTsEpoch ≤ now)
    (hfit : ntpMicros s.rtpTsEpochSystem s.rtpTsEpoch now * 90 < 2 ^ 64) (sr : SenderReport)
    (hsr : sr = (s.generateSr now (s.rtpTsEpochSystem + (now - s.rtpTsEpoch : Nat))).2) :
    sr.rtpTimestamp = ntpToRtp90k s.rtpTsEpochSystem s.rtpTsEpoch now ∧
    ∃ e : Int, |e| ≤ 1 ∧ (sr.rtpTimestamp.toNat : Int)
      ≡ ⌊(90000 : ℚ) * (sr.ntpMsw.toNat + sr.ntpLsw.toNat / 2 ^ 32)⌋ + e [ZMOD 2 ^ 32] := by
  obtain ⟨u, hu⟩ := Int.eq_ofNat_of_zero_le hepoch
  obtain ⟨d, rfl⟩ := Nat.exists_eq_add_of_le hnow
  have helapsed : s.rtpTsEpoch + d - s.rtpTsEpoch = d := Nat.add_sub_cancel_left _ _
  rw [helapsed, hu] at hsr
  have hrtp : sr.rtpTimestamp = ntpToRtp90k s.rtpTsEpochSystem s.rtpTsEpoch (s.rtpTsEpoch + d) := by
    rw [hsr, generateSr_rtpTimestamp]
  have hwall : SystemTime.sinceUnixEpoch ((u : Int) + d) = u + d := rfl
  obtain ⟨hmsw, hlsw⟩ := systemTimeToNtp_toNat hwall
  have hmicros : ntpMicros s.rtpTsEpochSystem s.rtpTsEpoch (s.rtpTsEpoch + d)
      = u / 1000 + 2208988800000000 + d / 1000 := by
    unfold ntpMicros Duration.asMicros
    rw [hu, helapsed]
    rfl
  have hticks := ntpToRtp90k_toNat hfit
  rw [hmicros] at hticks
  obtain ⟨e, he, heq⟩ := ticks_of_micros u d
  refine ⟨hrtp, e, he, ?_⟩
  have hm : sr.ntpMsw = (systemTimeToNtp ((u : Int) + d)).1 := by rw [hsr]; rfl
  have hl : sr.ntpLsw = (systemTimeToNtp ((u : Int) + d)).2 := by rw [hsr]; rfl
  have hturn : (2 : Int) ^ 32 = (4294967296 : Nat) := rfl
  rw [floor_ticks, hrtp, hticks, hm, hl, hmsw, hlsw, Int.natCast_mod, heq, Int.natCast_mod, hturn]
  -- both sides have lost whole turns only
  refine (Int.mod_modEq _ _).trans (Int.ModEq.add_right e (Int.ModEq.add_right _ ?_))
  exact (Int.mod_modEq _ _).symm.mul_left 90000

/-- A sender started a second before the NTP seconds wrap in 2036, and a report half a
second after. -/
theorem generateSr_mapping_2036 :
    (RtcpSenderState.generateSr (.new 2 "s" 100 7 2085978495000000000) 1500000007
      2085978496500000000).2.ntpMsw = 0 ∧
    ∃ e : Int, |e| ≤ 1 ∧
      ((RtcpSenderState.generateSr (.new 2 "s" 100 7 2085978495000000000) 1500000007
        2085978496500000000).2.rtpTimestamp.toNat : Int)
      ≡ ⌊(90000 : ℚ) * ((RtcpSenderState.generateSr (.new 2 "s" 100 7 2085978495000000000)
            1500000007 2085978496500000000).2.ntpMsw.toNat
          + (RtcpSenderState.generateSr (.new 2 "s" 100 7 2085978495000000000) 1500000007
            2085978496500000000).2.ntpLsw.toNat / 2 ^ 32)⌋ + e [ZMOD 2 ^ 32] :=
  ⟨by decide, (generateSr_mapping (.new 2 "s" 100 7 2085978495000000000) 1500000007 (by decide)
    (by decide) (by decide) _ rfl).2⟩

end Rist
