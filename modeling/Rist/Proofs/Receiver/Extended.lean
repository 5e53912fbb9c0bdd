/-
The extended sequence number and the counts of a receiver report.

The report state keeps its counts in fields that wrap: the highest number in sixteen
bits with its cycles in sixteen more, the packets in thirty-two.  `SeqTotals` adds up
the same events in numbers that do not wrap, and `Tracks` says that every field is its
total cut to its width.  That holds on every run.  As long as the totals fit, the fields
are the totals, so a report's differences are exact and none is negative.
-/
import Rist.Lib.Run
import Rist.Protocol.RtcpState

namespace Rist

open Serial

/-- How far a number lies ahead of the highest one; zero when it does not. -/
def forward (maxSeq seq : UInt16) : Nat := (max 0 (asI16 (seq - maxSeq))).toNat

/-- What the packets and reports of a run add up to. -/
structure SeqTotals where
  /-- The number of the first packet. -/
  first : UInt16 := 0
  /-- The first number and every forward distance since. -/
  extended : Nat := 0
  /-- How often the highest number has wrapped. -/
  wraps : Nat := 0
  received : Nat := 0
  /-- Expected and received at the last report. -/
  expectedAt : Nat := 0
  receivedAt : Nat := 0

namespace SeqTotals

/-- A packet that is not a duplicate, while `maxSeq` is the highest number. -/
def packet (g : SeqTotals) (maxSeq seq : UInt16) : SeqTotals :=
  if g.received = 0 then { g with first := seq, extended := seq.toNat, received := 1 }
  else
    { g with extended := g.extended + forward maxSeq seq
             wraps := g.wraps + if 0 < forward maxSeq seq ∧ seq < maxSeq then 1 else 0
             received := g.received + 1 }

/-- The numbers from the first to the highest. -/
def expected (g : SeqTotals) : Nat := g.extended - g.first.toNat + 1

def report (g : SeqTotals) : SeqTotals :=
  if g.received = 0 then g else { g with expectedAt := g.expected, receivedAt := g.received }

end SeqTotals

namespace RtcpReceiverState

variable {s : RtcpReceiverState} {g : SeqTotals}

/-- Every field is its total, cut to the field's width. -/
structure Tracks (s : RtcpReceiverState) (g : SeqTotals) : Prop where
  started : s.firstPacketReceived = decide (0 < g.received)
  received : s.packetsReceived.toNat = g.received % 4294967296
  base : s.baseSeq = g.first
  cycles : s.seqCycles.toNat = g.wraps % 65536
  place : g.extended = g.wraps * 65536 + s.maxSeq.toNat
  extended : s.extendedMaxSeq.toNat = g.extended % 4294967296
  expectedPrior : s.expectedPrior.toNat = g.expectedAt % 4294967296
  receivedPrior : s.receivedPrior.toNat = g.receivedAt % 4294967296
  first_le : g.first.toNat ≤ g.extended
  expectedAt_le : g.expectedAt ≤ g.expected
  receivedAt_le : g.receivedAt ≤ g.received
  blank : g.received = 0 → g.wraps = 0 ∧ g.extended = 0 ∧ g.expectedAt ≤ 1
  /-- No packet is more than half a turn ahead. -/
  reach : g.extended ≤ 65535 + 32767 * g.received

theorem Tracks.started_iff (h : Tracks s g) : s.firstPacketReceived = true ↔ 0 < g.received := by
  rw [h.started, decide_eq_true_iff]

theorem Tracks.not_started_iff (h : Tracks s g) :
    s.firstPacketReceived = false ↔ g.received = 0 := by
  rw [h.started, decide_eq_false_iff_not, Nat.not_lt, Nat.le_zero]

theorem tracks_new : Tracks new {} where
  started := rfl
  received := rfl
  base := rfl
  cycles := rfl
  place := rfl
  extended := rfl
  expectedPrior := rfl
  receivedPrior := rfl
  first_le := Nat.zero_le _
  expectedAt_le := Nat.zero_le _
  receivedAt_le := Nat.zero_le _
  blank := fun _ => ⟨rfl, rfl, Nat.zero_le _⟩
  reach := Nat.zero_le _

/-- The cycles above, the number below. -/
theorem toNat_shift_or (c x : UInt16) :
    ((c.toUInt32 <<< 16) ||| x.toUInt32).toNat = c.toNat * 65536 + x.toNat := by
  have hc := c.toNat_lt
  have hx := x.toNat_lt
  rw [UInt32.toNat_or, UInt32.toNat_shiftLeft, UInt16.toNat_toUInt32, UInt16.toNat_toUInt32]
  simp only [UInt32.toNat_ofNat, Nat.reducePow, Nat.reduceMod]
  have hlt : c.toNat <<< 16 < 4294967296 := by
    rw [Nat.shiftLeft_eq]
    omega
  rw [Nat.mod_eq_of_lt hlt, ← Nat.shiftLeft_add_eq_or_of_lt hx, Nat.shiftLeft_eq]

/-- **Where a number lies**, seen from the highest one: ahead, and past a wrap exactly when
it is the smaller number; or not ahead. -/
theorem forward_cases (maxSeq seq : UInt16) :
    (0 < asI16 (seq - maxSeq) ∧ 0 < forward maxSeq seq ∧ forward maxSeq seq ≤ 32767 ∧
      maxSeq.toNat + forward maxSeq seq
        = seq.toNat + 65536 * if seq < maxSeq then 1 else 0) ∨
    (¬0 < asI16 (seq - maxSeq) ∧ forward maxSeq seq = 0) := by
  have hb := asI16_bounds (seq - maxSeq)
  by_cases hpos : 0 < asI16 (seq - maxSeq)
  · refine Or.inl ⟨hpos, ?_⟩
    have hnat := toNat_eq_of_asI16_nonneg hpos.le
    have hsub := toNat_sub seq maxSeq
    have h1 := seq.toNat_lt
    have h2 := maxSeq.toNat_lt
    unfold forward
    rw [max_eq_right hpos.le]
    by_cases hlt : seq < maxSeq
    · have hlt' := UInt16.lt_iff_toNat_lt.mp hlt
      rw [if_pos hlt]
      omega
    · have hlt' := mt UInt16.lt_iff_toNat_lt.mpr hlt
      rw [if_neg hlt]
      omega
  · refine Or.inr ⟨hpos, ?_⟩
    unfold forward
    rw [max_eq_left (not_lt.mp hpos)]
    rfl

/-- The fields of a state that `Tracks` speaks of, and no others. -/
theorem Tracks.congr {s' : RtcpReceiverState} (h : Tracks s g)
    (hstart : s'.firstPacketReceived = s.firstPacketReceived)
    (hrecv : s'.packetsReceived = s.packetsReceived) (hbase : s'.baseSeq = s.baseSeq)
    (hcycles : s'.seqCycles = s.seqCycles) (hmax : s'.maxSeq = s.maxSeq)
    (hext : s'.extendedMaxSeq = s.extendedMaxSeq) (hexp : s'.expectedPrior = s.expectedPrior)
    (hprior : s'.receivedPrior = s.receivedPrior) : Tracks s' g where
  started := hstart ▸ h.started
  received := hrecv ▸ h.received
  base := hbase ▸ h.base
  cycles := hcycles ▸ h.cycles
  place := hmax ▸ h.place
  extended := hext ▸ h.extended
  expectedPrior := hexp ▸ h.expectedPrior
  receivedPrior := hprior ▸ h.receivedPrior
  first_le := h.first_le
  expectedAt_le := h.expectedAt_le
  receivedAt_le := h.receivedAt_le
  blank := h.blank
  reach := h.reach

/-- The state after a packet, up to the jitter. -/
def counted (s : RtcpReceiverState) (seq : UInt16) : RtcpReceiverState :=
  { s.trackSeq seq with packetsReceived := (s.trackSeq seq).packetsReceived + 1 }

theorem trackSeq_packetsReceived (s : RtcpReceiverState) (seq : UInt16) :
    (s.trackSeq seq).packetsReceived = s.packetsReceived := by
  unfold trackSeq
  split
  · rfl
  · split <;> rfl

theorem toNat_add_one (x : UInt32) : (x + 1).toNat = (x.toNat + 1) % 4294967296 :=
  UInt32.toNat_add x 1

theorem Tracks.counted_received (h : Tracks s g) (seq : UInt16) :
    (s.counted seq).packetsReceived.toNat = (g.received + 1) % 4294967296 := by
  show ((s.trackSeq seq).packetsReceived + 1).toNat = _
  rw [trackSeq_packetsReceived, toNat_add_one, h.received]
  omega

theorem Tracks.counted_first (h : Tracks s g) (hzero : g.received = 0) (seq : UInt16) :
    Tracks (s.counted seq) { g with first := seq, extended := seq.toNat, received := 1 } := by
  have hseq := seq.toNat_lt
  have hrecv := h.counted_received seq
  have hcycles := h.cycles
  have hrecvAt := h.receivedAt_le
  obtain ⟨hw, -, he⟩ := h.blank hzero
  have hstart := h.not_started_iff.mpr hzero
  have htrack : s.trackSeq seq = { s with firstPacketReceived := true, baseSeq := seq,
                                          maxSeq := seq, extendedMaxSeq := seq.toUInt32 } :=
    if_pos hstart
  rw [hzero] at hrecv
  unfold RtcpReceiverState.counted at hrecv ⊢
  rw [htrack] at hrecv ⊢
  refine ⟨rfl, hrecv, rfl, hcycles, ?_, ?_, h.expectedPrior, h.receivedPrior, Nat.le_refl _, ?_, ?_,
    ?_, ?_⟩
  · simp only [hw, Nat.zero_mul, Nat.zero_add]
  · rw [UInt16.toNat_toUInt32]
    exact (Nat.mod_eq_of_lt (by omega)).symm
  · simp only [SeqTotals.expected]
    omega
  · simp only
    omega
  · intro hc
    exact absurd hc Nat.one_ne_zero
  · simp only
    omega

/-- A packet ahead of the highest number, perhaps in the next cycle. -/
theorem Tracks.counted_ahead (h : Tracks s g) (hstart : s.firstPacketReceived = true)
    {seq : UInt16} {d w : Nat} (hpos : 0 < asI16 (seq - s.maxSeq)) (hd : d ≤ 32767)
    (hw : w = if seq < s.maxSeq then 1 else 0) (hsum : s.maxSeq.toNat + d = seq.toNat + 65536 * w) :
    Tracks (s.counted seq) { g with extended := g.extended + d, wraps := g.wraps + w,
                                    received := g.received + 1 } := by
  have hseq := seq.toNat_lt
  have hrecv := h.counted_received seq
  have hplace := h.place
  have hfirst := h.first_le
  have hexp := h.expectedAt_le
  have hrecvAt := h.receivedAt_le
  have hreach := h.reach
  have hcycles := h.cycles
  simp only [SeqTotals.expected] at hexp
  obtain ⟨c, hc⟩ : ∃ c, c = if seq < s.maxSeq then s.seqCycles + 1 else s.seqCycles := ⟨_, rfl⟩
  have htrack : s.trackSeq seq
      = { s with seqCycles := c, maxSeq := seq,
                 extendedMaxSeq := (c.toUInt32 <<< 16) ||| seq.toUInt32 } := by
    unfold trackSeq
    rw [hstart, if_neg (by decide), if_pos hpos, hc]
  have hcnat : c.toNat = (g.wraps + w) % 65536 := by
    rw [hc, hw]
    split
    · rw [UInt16.toNat_add, hcycles]
      show (g.wraps % 65536 + 1) % 65536 = _
      omega
    · rw [hcycles]
      rfl
  unfold RtcpReceiverState.counted at hrecv ⊢
  rw [htrack] at hrecv ⊢
  refine ⟨?_, hrecv, h.base, hcnat, ?_, ?_, h.expectedPrior, h.receivedPrior, ?_, ?_, ?_, ?_, ?_⟩
  · simp only [hstart]
    exact (decide_eq_true (by omega)).symm
  · simp only
    omega
  · simp only
    rw [toNat_shift_or, hcnat]
    omega
  · simp only
    omega
  · simp only [SeqTotals.expected]
    omega
  · simp only
    omega
  · intro hc
    exact absurd hc (Nat.succ_ne_zero _)
  · simp only
    omega

/-- A packet behind the highest number moves the count alone. -/
theorem Tracks.counted_behind (h : Tracks s g) (hstart : s.firstPacketReceived = true)
    {seq : UInt16} (hpos : ¬0 < asI16 (seq - s.maxSeq)) :
    Tracks (s.counted seq) { g with received := g.received + 1 } := by
  have hrecv := h.counted_received seq
  have hrecvAt := h.receivedAt_le
  have hreach := h.reach
  have htrack : s.trackSeq seq = s := by
    unfold trackSeq
    rw [hstart, if_neg (by decide), if_neg hpos]
  unfold RtcpReceiverState.counted at hrecv ⊢
  rw [htrack] at hrecv ⊢
  refine ⟨?_, hrecv, h.base, h.cycles, h.place, h.extended, h.expectedPrior, h.receivedPrior,
    h.first_le, h.expectedAt_le, ?_, ?_, ?_⟩
  · simp only [hstart]
    exact (decide_eq_true (by omega)).symm
  · simp only
    omega
  · intro hc
    exact absurd hc (Nat.succ_ne_zero _)
  · simp only
    omega

/-- **What a packet does to the totals it does to the fields.** -/
theorem Tracks.counted (h : Tracks s g) (seq : UInt16) :
    Tracks (s.counted seq) (g.packet s.maxSeq seq) := by
  unfold SeqTotals.packet
  by_cases hzero : g.received = 0
  · rw [if_pos hzero]
    exact h.counted_first hzero seq
  · rw [if_neg hzero]
    have hstart := h.started_iff.mpr (Nat.pos_of_ne_zero hzero)
    rcases forward_cases s.maxSeq seq with ⟨hpos, hfwd, hfwd', hsum⟩ | ⟨hpos, hfwd⟩
    · refine h.counted_ahead hstart hpos hfwd' ?_ ?_
      · simp only [hfwd, true_and]
      · simp only [hfwd, true_and]
        exact hsum
    · simp only [hfwd, Nat.lt_irrefl, false_and, if_false, Nat.add_zero]
      exact h.counted_behind hstart hpos

/-- A packet that is not a duplicate is counted; the jitter is nobody's business here. -/
theorem Tracks.packet (h : Tracks s g) (seq : UInt16) (ts : UInt32) (us : UInt64) :
    Tracks (s.onPacketReceived seq ts us false) (g.packet s.maxSeq seq) :=
  (h.counted seq).congr rfl rfl rfl rfl rfl rfl rfl rfl

/-! ### Reports -/

theorem Tracks.expected (h : Tracks s g) : s.expected.toNat = g.expected % 4294967296 := by
  have hfirst := h.first_le
  have hext := h.extended
  have hlt := g.first.toNat_lt
  unfold RtcpReceiverState.expected SeqTotals.expected
  rw [toNat_add_one, UInt32.toNat_sub, UInt16.toNat_toUInt32, h.base]
  omega

theorem Tracks.report (h : Tracks s g) (ssrc : UInt32) (now : Instant) :
    Tracks (s.generateRr ssrc now).1 g.report := by
  unfold generateRr SeqTotals.report
  by_cases hzero : g.received = 0
  · rw [if_pos hzero, if_pos (h.not_started_iff.mpr hzero)]
    exact h
  · rw [if_neg hzero, if_neg (mt h.not_started_iff.mp hzero)]
    exact { h with expectedPrior := h.expected
                   receivedPrior := h.received
                   expectedAt_le := Nat.le_refl _
                   receivedAt_le := Nat.le_refl _
                   blank := fun hc => absurd hc hzero }

/-! ### While the totals fit -/

/-- The totals fit into the fields. -/
structure Fits (g : SeqTotals) : Prop where
  received : g.received < 4294967296
  extended : g.extended < 4294967296
  expected : g.expected < 4294967296

theorem Tracks.fits_of_wraps (h : Tracks s g) (hrecv : g.received < 4294967296)
    (hwraps : g.wraps < 65535) : Fits g := by
  have hplace := h.place
  have hmax := s.maxSeq.toNat_lt
  have hfirst := h.first_le
  refine ⟨hrecv, by omega, ?_⟩
  unfold SeqTotals.expected
  omega

theorem Tracks.extended_eq (h : Tracks s g) (hfits : Fits g) :
    s.extendedMaxSeq.toNat = g.extended := by
  rw [h.extended, Nat.mod_eq_of_lt hfits.extended]

theorem Tracks.received_eq (h : Tracks s g) (hfits : Fits g) :
    s.packetsReceived.toNat = g.received := by
  rw [h.received, Nat.mod_eq_of_lt hfits.received]

theorem Tracks.expected_eq (h : Tracks s g) (hfits : Fits g) : s.expected.toNat = g.expected := by
  rw [h.expected, Nat.mod_eq_of_lt hfits.expected]

theorem Tracks.expectedPrior_eq (h : Tracks s g) (hfits : Fits g) :
    s.expectedPrior.toNat = g.expectedAt := by
  rw [h.expectedPrior, Nat.mod_eq_of_lt (Nat.lt_of_le_of_lt h.expectedAt_le hfits.expected)]

theorem Tracks.receivedPrior_eq (h : Tracks s g) (hfits : Fits g) :
    s.receivedPrior.toNat = g.receivedAt := by
  rw [h.receivedPrior, Nat.mod_eq_of_lt (Nat.lt_of_le_of_lt h.receivedAt_le hfits.received)]

/-- The differences of a report are exact. -/
theorem Tracks.expectedInterval_eq (h : Tracks s g) (hfits : Fits g) :
    s.expectedInterval.toNat = g.expected - g.expectedAt := by
  have hle := h.expectedAt_le
  unfold expectedInterval
  rw [Checked.toNat_sub32 (by rw [h.expected_eq hfits, h.expectedPrior_eq hfits]; exact hle),
    h.expected_eq hfits, h.expectedPrior_eq hfits]

theorem Tracks.receivedInterval_eq (h : Tracks s g) (hfits : Fits g) :
    s.receivedInterval.toNat = g.received - g.receivedAt := by
  have hle := h.receivedAt_le
  unfold receivedInterval
  rw [Checked.toNat_sub32 (by rw [h.received_eq hfits, h.receivedPrior_eq hfits]; exact hle),
    h.received_eq hfits, h.receivedPrior_eq hfits]

/-- The loss is clamped before it is cut to 32 bits. -/
theorem toInt_cumulativeLost (s : RtcpReceiverState) :
    s.cumulativeLost.toInt
      = max (-8388608) (min ((s.expected.toNat : Int) - s.packetsReceived.toNat) 8388607) := by
  unfold cumulativeLost
  rw [Int32.toInt_ofInt_of_le]
  · exact le_trans (by decide) (le_max_left _ _)
  · refine lt_of_le_of_lt (max_le ?_ (min_le_right _ _)) ?_
    · decide
    · decide

theorem Tracks.cumulativeLost_eq (h : Tracks s g) (hfits : Fits g) :
    s.cumulativeLost.toInt
      = max (-8388608) (min ((g.expected : Int) - g.received) 8388607) := by
  rw [toInt_cumulativeLost, h.expected_eq hfits, h.received_eq hfits]

end RtcpReceiverState

/-! ### Runs -/

/-- A call on the report state. -/
inductive CountOp where
  | packet (seq : UInt16) (rtpTimestamp : UInt32) (arrivalUs : UInt64) (isDuplicate : Bool)
  | report (ssrc : UInt32) (now : Instant)

/-- A report state, its totals, and the intervals of its reports so far. -/
structure CountLog where
  state : RtcpReceiverState
  totals : SeqTotals
  intervals : List (UInt32 × UInt32)

namespace CountLog

open RtcpReceiverState

variable {t : CountLog}

def start : CountLog := ⟨RtcpReceiverState.new, {}, []⟩

/-- The two differences a report takes its fraction from. -/
def interval (t : CountLog) : List (UInt32 × UInt32) :=
  if t.state.firstPacketReceived then [(t.state.expectedInterval, t.state.receivedInterval)] else []

def step (t : CountLog) : CountOp → CountLog
  | .packet seq ts us isDuplicate =>
    { t with state := t.state.onPacketReceived seq ts us isDuplicate
             totals := if isDuplicate then t.totals else t.totals.packet t.state.maxSeq seq }
  | .report ssrc now =>
    ⟨(t.state.generateRr ssrc now).1, t.totals.report, t.intervals ++ t.interval⟩

/-- The fields are the totals, and the intervals add up to what the last report knew. -/
structure Exact (t : CountLog) : Prop where
  extended : t.state.extendedMaxSeq.toNat = t.totals.extended
  low : t.state.extendedMaxSeq.toNat % 65536 = t.state.maxSeq.toNat
  expected : (t.intervals.map fun i => i.1.toNat).sum = t.totals.expectedAt
  received : (t.intervals.map fun i => i.2.toNat).sum = t.totals.receivedAt

/-- The part lost of so many packets, in units of 1/256. -/
def lostPart (expected received : Nat) : UInt8 :=
  if expected ≤ received then 0
  else ((UInt32.ofNat (expected - received)).toFloat / (UInt32.ofNat expected).toFloat
    * 256.0).toUInt8

/-- What a report after the first packet says. -/
structure ReportExact (t : CountLog) (rr : ReceiverReport) : Prop where
  block : ∃ b, rr.reports = [b] ∧ b.extendedHighestSeq = t.state.extendedMaxSeq ∧
    b.cumulativeLost.toInt
      = max (-8388608) (min ((t.totals.extended : Int) - t.totals.first.toNat + 1 - t.totals.received)
          8388607) ∧
    b.fractionLost = lostPart (t.totals.expected - t.totals.expectedAt)
      (t.totals.received - t.totals.receivedAt)
  expected : (t.state.expectedInterval.toNat : Int) = t.totals.expected - t.totals.expectedAt
  received : (t.state.receivedInterval.toNat : Int) = t.totals.received - t.totals.receivedAt

/-- After the call everything is exact, nothing has gone back, and a report was right. -/
def StepExact (t : CountLog) (op : CountOp) : Prop :=
  Exact (t.step op) ∧ t.state.extendedMaxSeq ≤ (t.step op).state.extendedMaxSeq ∧
    match op with
    | .report ssrc now =>
      0 < t.totals.received → ReportExact t (t.state.generateRr ssrc now).2
    | _ => True

theorem step_tracks (h : Tracks t.state t.totals) (op : CountOp) :
    Tracks (t.step op).state (t.step op).totals := by
  cases op with
  | report ssrc now => exact h.report ssrc now
  | packet seq ts us isDuplicate =>
      cases isDuplicate with
      | true => exact h
      | false => exact h.packet seq ts us

theorem packet_received (g : SeqTotals) (maxSeq seq : UInt16) :
    (g.packet maxSeq seq).received = g.received + 1 := by
  unfold SeqTotals.packet
  by_cases hzero : g.received = 0
  · rw [if_pos hzero, hzero]
  · rw [if_neg hzero]

theorem report_totals (g : SeqTotals) :
    g.report.received = g.received ∧ g.report.wraps = g.wraps ∧ g.report.extended = g.extended ∧
      g.report.first = g.first := by
  unfold SeqTotals.report
  split
  · exact ⟨rfl, rfl, rfl, rfl⟩
  · exact ⟨rfl, rfl, rfl, rfl⟩

theorem step_received (t : CountLog) (op : CountOp) :
    t.totals.received ≤ (t.step op).totals.received := by
  cases op with
  | report ssrc now => exact (report_totals t.totals).1.ge
  | packet seq ts us isDuplicate =>
      cases isDuplicate with
      | true => exact Nat.le_refl _
      | false =>
          show _ ≤ (t.totals.packet t.state.maxSeq seq).received
          rw [packet_received]
          omega

theorem step_wraps (t : CountLog) (op : CountOp) : t.totals.wraps ≤ (t.step op).totals.wraps := by
  cases op with
  | report ssrc now => exact (report_totals t.totals).2.1.ge
  | packet seq ts us isDuplicate =>
      cases isDuplicate with
      | true => exact Nat.le_refl _
      | false =>
          show _ ≤ (t.totals.packet t.state.maxSeq seq).wraps
          unfold SeqTotals.packet
          split
          · exact Nat.le_refl _
          · exact Nat.le_add_right _ _

theorem step_extended (h : Tracks t.state t.totals) (op : CountOp) :
    t.totals.extended ≤ (t.step op).totals.extended := by
  cases op with
  | report ssrc now => exact (report_totals t.totals).2.2.1.ge
  | packet seq ts us isDuplicate =>
      cases isDuplicate with
      | true => exact Nat.le_refl _
      | false =>
          show _ ≤ (t.totals.packet t.state.maxSeq seq).extended
          unfold SeqTotals.packet
          by_cases hzero : t.totals.received = 0
          · rw [if_pos hzero, (h.blank hzero).2.1]
            exact Nat.zero_le _
          · rw [if_neg hzero]
            exact Nat.le_add_right _ _

/-- What a run keeps. -/
structure Kept (t : CountLog) : Prop where
  tracks : Tracks t.state t.totals
  expected : (t.intervals.map fun i => i.1.toNat).sum = t.totals.expectedAt
  received : (t.intervals.map fun i => i.2.toNat).sum = t.totals.receivedAt

theorem kept_start : Kept start := ⟨tracks_new, rfl, rfl⟩

/-- A report closes the interval since the last one. -/
theorem Kept.report (h : Kept t) (hfits : Fits t.totals) (ssrc : UInt32) (now : Instant) :
    Kept (t.step (.report ssrc now)) := by
  refine ⟨step_tracks h.tracks (.report ssrc now), ?_, ?_⟩
  · have hle := h.tracks.expectedAt_le
    show ((t.intervals ++ t.interval).map fun i => i.1.toNat).sum = t.totals.report.expectedAt
    rw [List.map_append, List.sum_append, h.expected]
    unfold interval SeqTotals.report
    by_cases hzero : t.totals.received = 0
    · rw [h.tracks.started, hzero]
      rfl
    · rw [if_pos (h.tracks.started_iff.mpr (Nat.pos_of_ne_zero hzero)), if_neg hzero]
      simp only [List.map_cons, List.map_nil, List.sum_singleton, h.tracks.expectedInterval_eq hfits]
      omega
  · have hle := h.tracks.receivedAt_le
    show ((t.intervals ++ t.interval).map fun i => i.2.toNat).sum = t.totals.report.receivedAt
    rw [List.map_append, List.sum_append, h.received]
    unfold interval SeqTotals.report
    by_cases hzero : t.totals.received = 0
    · rw [h.tracks.started, hzero]
      rfl
    · rw [if_pos (h.tracks.started_iff.mpr (Nat.pos_of_ne_zero hzero)), if_neg hzero]
      simp only [List.map_cons, List.map_nil, List.sum_singleton, h.tracks.receivedInterval_eq hfits]
      omega

theorem packet_priors (g : SeqTotals) (maxSeq seq : UInt16) :
    (g.packet maxSeq seq).expectedAt = g.expectedAt ∧
      (g.packet maxSeq seq).receivedAt = g.receivedAt := by
  unfold SeqTotals.packet
  split
  · exact ⟨rfl, rfl⟩
  · exact ⟨rfl, rfl⟩

theorem Kept.step (h : Kept t) (hfits : Fits t.totals) (op : CountOp) : Kept (t.step op) := by
  cases op with
  | report ssrc now => exact h.report hfits ssrc now
  | packet seq ts us isDuplicate =>
      cases isDuplicate with
      | true => exact h
      | false =>
          obtain ⟨hexp, hrecv⟩ := packet_priors t.totals t.state.maxSeq seq
          exact ⟨h.tracks.packet seq ts us, h.expected.trans hexp.symm, h.received.trans hrecv.symm⟩

theorem Kept.exact (h : Kept t) (hfits : Fits t.totals) : Exact t := by
  have hext := h.tracks.extended_eq hfits
  have hplace := h.tracks.place
  have hmax := t.state.maxSeq.toNat_lt
  refine ⟨hext, ?_, h.expected, h.received⟩
  rw [hext]
  omega

/-- The fraction is that of the interval since the last report. -/
theorem fractionLost_eq (h : Tracks t.state t.totals) (hfits : Fits t.totals) :
    t.state.fractionLost = lostPart (t.totals.expected - t.totals.expectedAt)
      (t.totals.received - t.totals.receivedAt) := by
  have hexp := h.expectedInterval_eq hfits
  have hrecv := h.receivedInterval_eq hfits
  unfold RtcpReceiverState.fractionLost lostPart
  rw [← hexp, ← hrecv]
  by_cases hle : t.state.expectedInterval.toNat ≤ t.state.receivedInterval.toNat
  · rw [if_pos (Or.inr (UInt32.le_iff_toNat_le.mpr hle)), if_pos hle]
  · have hlost : t.state.expectedInterval - t.state.receivedInterval
        = UInt32.ofNat (t.state.expectedInterval.toNat - t.state.receivedInterval.toNat) := by
      rw [← UInt32.toNat_inj, UInt32.toNat_sub_of_le _ _ (UInt32.le_iff_toNat_le.mpr (by omega)),
        UInt32.toNat_ofNat_of_lt']
      exact (Nat.sub_le _ _).trans_lt t.state.expectedInterval.toNat_lt
    have hnot : ¬(t.state.expectedInterval = 0 ∨
        t.state.expectedInterval ≤ t.state.receivedInterval) := by
      rintro (h0 | hle')
      · exact hle (by rw [h0]; exact Nat.zero_le _)
      · exact hle (UInt32.le_iff_toNat_le.mp hle')
    rw [if_neg hle, if_neg hnot, ← hlost, UInt32.ofNat_toNat]

theorem Kept.reportExact (h : Kept t) (hfits : Fits t.totals) (hpos : 0 < t.totals.received)
    (ssrc : UInt32) (now : Instant) : ReportExact t (t.state.generateRr ssrc now).2 := by
  have hstart := h.tracks.started_iff.mpr hpos
  have hfirst := h.tracks.first_le
  have hexp := h.tracks.expectedAt_le
  have hrecv := h.tracks.receivedAt_le
  refine ⟨?_, ?_, ?_⟩
  · unfold generateRr
    rw [if_neg (by rw [hstart]; decide)]
    refine ⟨_, rfl, rfl, ?_, fractionLost_eq h.tracks hfits⟩
    have hlost := h.tracks.cumulativeLost_eq hfits
    have hspan : (t.totals.expected : Int) = (t.totals.extended : Int) - t.totals.first.toNat + 1 := by
      unfold SeqTotals.expected
      omega
    rw [hspan] at hlost
    exact hlost
  · rw [h.tracks.expectedInterval_eq hfits]
    omega
  · rw [h.tracks.receivedInterval_eq hfits]
    omega

theorem Kept.stepExact (h : Kept t) (hfits : Fits t.totals) {op : CountOp}
    (hfits' : Fits (t.step op).totals) : StepExact t op := by
  have hnext := h.step hfits op
  refine ⟨hnext.exact hfits', ?_, ?_⟩
  · rw [UInt32.le_iff_toNat_le, h.tracks.extended_eq hfits, hnext.tracks.extended_eq hfits']
    exact step_extended h.tracks op
  · cases op with
    | packet seq ts us isDuplicate => trivial
    | report ssrc now => exact fun hpos => h.reportExact hfits hpos ssrc now

/-- **The extended number is exact** along every run of fewer than `2 ^ 32` packets and
65535 wraps, and so is every report. -/
theorem counts_exact (ops : List CountOp)
    (hrecv : (Run.final step start ops).totals.received < 2 ^ 32)
    (hwraps : (Run.final step start ops).totals.wraps < 65535) :
    Run.Along step StepExact start ops := by
  have hr := ((Run.along_lt_iff step_received).mpr hrecv).2
  have hw := ((Run.along_lt_iff step_wraps).mpr hwraps).2
  have hfits : ∀ t op, Kept t →
      (t.step op).totals.received < 2 ^ 32 ∧ (t.step op).totals.wraps < 65535 →
      Fits t.totals ∧ Fits (t.step op).totals := by
    intro t op hk hb
    refine ⟨hk.tracks.fits_of_wraps ?_ ?_, (step_tracks hk.tracks op).fits_of_wraps hb.1 hb.2⟩
    · exact Nat.lt_of_le_of_lt (step_received t op) hb.1
    · exact Nat.lt_of_le_of_lt (step_wraps t op) hb.2
  refine Run.along_of_invariant (fun t op hk hb => ?_) (fun t op hk hb => ?_) kept_start
    (Run.along_and hr hw)
  · exact hk.step (hfits t op hk hb).1 op
  · exact hk.stepExact (hfits t op hk hb).1 (hfits t op hk hb).2

/-- Two packets on either side of the wrap, with a report after each. -/
theorem counts_exact_at_wrap :
    Run.Along step StepExact start
      [.packet 65535 0 0 false, .report 1 5, .packet 1 0 0 false, .packet 1 0 0 true,
        .report 1 9] :=
  counts_exact _ (by decide +kernel) (by decide +kernel)

end CountLog

end Rist
