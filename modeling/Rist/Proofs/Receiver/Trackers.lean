/-
The three trackers of the media path.

The reorder buffer, the receiver-report state and the scheduler each keep the
highest number they have seen, and each decides by a test of its own whether a
packet is ahead.  The buffer measures from its base, which lies behind the highest
number by as much as is still held; the report state measures from the highest
number; the scheduler measures from one past it.  The tests answer alike except
near the far side of the number circle, where what is ahead for one is behind for
another.  `Splits` is that region, read off the state before the packet, and the
trackers agree along a run exactly as long as no packet falls into it.
-/
import Rist.Proofs.Nack.Count
import Rist.Proofs.Reorder.Run
import Rist.Transport.Receiver

namespace Rist

open Serial

/-- The packet moves the end of the window when it lies past it, and only then. -/
theorem Window.insert_high {cap : Int} {w : Window} (h : WF cap w) (p : Int) (data : Bytes)
    (now : Instant) :
    (w.insert cap p data now).1.high = max w.high p ∧
    ((w.insert cap p data now).2.duplicate = true → w.base ≤ p ∧ p ≤ w.high) := by
  have hlo := h.base_le
  have hhi := h.high_lt
  rcases insert_cases h p data now with ⟨h1, ho⟩ | ⟨h1, h2, -, ho⟩ | ⟨h1, h2, -, r, ho⟩ |
    ⟨h1, h2, h3, ho⟩ | ⟨h1, h2, -, ho⟩ | ⟨h1, h2, ho⟩ | ⟨⟨h1, h2, h3⟩, ho⟩
  · rw [ho]
    exact ⟨(max_eq_left (show p ≤ w.high by omega)).symm, by simp⟩
  · rw [ho]
    exact ⟨(max_eq_left h2).symm, fun _ => ⟨h1, h2⟩⟩
  · rw [ho]
    exact ⟨(max_eq_left h2).symm, fun _ => ⟨h1, h2⟩⟩
  · rw [ho]
    exact ⟨(max_eq_right (show w.high ≤ p by omega)).symm, by simp⟩
  · rw [ho]
    exact ⟨(max_eq_right (show w.high ≤ p by omega)).symm, by simp⟩
  · rw [ho]
    exact ⟨(max_eq_right (show w.high ≤ p by omega)).symm, by simp⟩
  · rw [ho]
    exact ⟨(max_eq_right (show w.high ≤ p by omega)).symm, by simp⟩

/-- The scheduler's number after a packet. -/
theorem NackScheduler.onPacketReceived_expectedSeq {s : NackScheduler} {expected : UInt16}
    (h : s.expectedSeq = some expected) (seq : UInt16) (now : Instant) :
    (s.onPacketReceived seq now).1.expectedSeq
      = if 0 ≤ asI16 (seq - expected) then some (seq + 1) else some expected := by
  rcases onPacketReceived_cases s seq now with ⟨he, -⟩ | ⟨e, he, hpos, -, ho⟩ |
    ⟨e, he, hskip, ho⟩ | ⟨e, he, hneg, ho⟩
  · rw [h] at he
    exact absurd he (by simp)
  · obtain rfl := Option.some.inj (he.symm.trans h)
    rw [ho, if_pos (by omega)]
  · obtain rfl := Option.some.inj (he.symm.trans h)
    rw [ho, if_pos (by omega)]
  · obtain rfl := Option.some.inj (he.symm.trans h)
    rw [ho, if_neg (by omega)]
    unfold deactivate
    split <;> exact h

/-- The report state's number after a packet that is no duplicate. -/
theorem RtcpReceiverState.onPacketReceived_maxSeq {s : RtcpReceiverState} (seq : UInt16)
    (ts : UInt32) (us : UInt64) :
    (s.onPacketReceived seq ts us false).firstPacketReceived = true ∧
    (s.onPacketReceived seq ts us false).maxSeq
      = if s.firstPacketReceived = true ∧ ¬0 < asI16 (seq - s.maxSeq) then s.maxSeq else seq := by
  have hframe : (s.onPacketReceived seq ts us false).firstPacketReceived
        = (s.trackSeq seq).firstPacketReceived ∧
      (s.onPacketReceived seq ts us false).maxSeq = (s.trackSeq seq).maxSeq := ⟨rfl, rfl⟩
  rw [hframe.1, hframe.2]
  unfold trackSeq
  by_cases hfirst : s.firstPacketReceived = false
  · rw [if_pos hfirst, if_neg (by simp [hfirst])]
    exact ⟨rfl, rfl⟩
  · have htrue : s.firstPacketReceived = true := by simpa using hfirst
    rw [if_neg hfirst]
    by_cases hpos : 0 < asI16 (seq - s.maxSeq)
    · have hkeep : ¬(s.firstPacketReceived = true ∧ ¬0 < asI16 (seq - s.maxSeq)) :=
        fun hc => hc.2 hpos
      rw [if_neg hkeep, if_pos hpos]
      exact ⟨htrue, rfl⟩
    · rw [if_neg hpos, if_pos ⟨htrue, hpos⟩]
      exact ⟨htrue, rfl⟩

namespace MediaPath

/-! ### The machine -/

/-- One packet of a burst: the buffer first, then the two trackers. -/
def packet (m : MediaPath) (p : ParsedRtp) (now : Instant) : MediaPath :=
  let (reorder, o) := m.reorder.insert p.seq p.payload now
  ⟨reorder, m.rtcp.onPacketReceived p.seq p.rtpTs p.arrivalUs o.duplicate,
    (m.nack.onPacketReceived p.seq now).1⟩

/-- A burst, whose inserts all come before its trackers, is its packets in turn. -/
theorem processBatch_eq_foldl (m : MediaPath) (batch : List ParsedRtp) (now : Instant) :
    m.processBatch batch now = batch.foldl (fun m p => m.packet p now) m := by
  induction batch generalizing m with
  | nil => rfl
  | cons p ps ih =>
      rw [List.foldl_cons, ← ih]
      rfl

inductive Op where
  | packet (p : ParsedRtp) (now : Instant)
  | drain (now : Instant)

def step (m : MediaPath) : Op → MediaPath
  | .packet p now => m.packet p now
  | .drain now => { m with reorder := (m.reorder.drainReady now).1 }

/-- The state a receiver starts in. -/
def new (bufferTime : Duration) (maxRetries : UInt32) (baseDelay : Duration) (now : Instant) :
    MediaPath :=
  ⟨ReorderBuffer.new bufferTime, RtcpReceiverState.new,
    NackScheduler.new maxRetries baseDelay now⟩

/-- **The trackers agree**: one number, as each of them keeps it. -/
def Agree (m : MediaPath) : Prop :=
  ∃ highest, m.reorder.highestSeq = some highest ∧ m.nack.expectedSeq = some (highest + 1) ∧
    m.rtcp.firstPacketReceived = true ∧ m.rtcp.maxSeq + 1 = highest + 1

/-- They agree after the packet. -/
def AgreeAfter (m : MediaPath) : Op → Prop
  | .packet p now => Agree (m.packet p now)
  | .drain _ => True

/-- The packet's number lies where the tests differ: ahead of the highest number by
half the circle, or short of that by no more than what the window holds. -/
def Splits (m : MediaPath) : Op → Prop
  | .packet p _ =>
    ∃ base highest, m.reorder.baseSeq = some base ∧ m.reorder.highestSeq = some highest ∧
      32768 - max (asI16 (highest - base)) 0 ≤ ((p.seq - highest).toNat : Int) ∧
      (p.seq - highest).toNat ≤ 32768
  | .drain _ => False

/-! ### One packet -/

variable {m : MediaPath} {w : Window}

theorem splits_iff (h : ReorderBuffer.Refines m.reorder w) (p : ParsedRtp) (now : Instant) :
    m.Splits (.packet p now) ↔
      32768 - max (w.high - w.base) 0 ≤ (near w.base p.seq - w.high) % 65536 ∧
      (near w.base p.seq - w.high) % 65536 ≤ 32768 := by
  have hcap := ReorderBuffer.capacity_le h.bits
  have hlo := h.wf.base_le
  have hhi := h.wf.high_lt
  have hoff : asI16 (UInt16.ofInt w.high - UInt16.ofInt w.base) = w.high - w.base :=
    asI16_sub_ofInt (by omega) (by omega)
  have hdist := toNat_ofInt_sub_ofInt (near w.base p.seq) w.high
  rw [ofInt_near] at hdist
  unfold Splits
  constructor
  · rintro ⟨base, highest, hb, hh, h1, h2⟩
    obtain rfl := Option.some.inj (h.base.symm.trans hb)
    obtain rfl := Option.some.inj (h.high.symm.trans hh)
    rw [hoff, hdist] at h1
    exact ⟨h1, by omega⟩
  · rintro ⟨h1, h2⟩
    exact ⟨_, _, h.base, h.high, by rw [hoff, hdist]; exact h1, by omega⟩

/-- The number each tracker keeps after a packet.  `d` is how far the packet lies
ahead of the highest number, going forward. -/
theorem Agree.packet (ha : Agree m) (h : ReorderBuffer.Refines m.reorder w) (p : ParsedRtp)
    (now : Instant) {q d : Int} (hq : q = near w.base p.seq) (hd : d = (q - w.high) % 65536) :
    (m.packet p now).reorder.highestSeq = some (UInt16.ofInt (max w.high q)) ∧
    (m.packet p now).nack.expectedSeq
      = some (UInt16.ofInt (if 1 ≤ d ∧ d ≤ 32768 then q else w.high) + 1) ∧
    (m.packet p now).rtcp.firstPacketReceived = true ∧
    (m.packet p now).rtcp.maxSeq
      = UInt16.ofInt (if 1 ≤ d ∧ d ≤ 32767 then q else w.high) := by
  have hcap := ReorderBuffer.capacity_le h.bits
  have hhi := h.wf.high_lt
  have hseq : p.seq = UInt16.ofInt q := by rw [hq, ofInt_near]
  obtain ⟨href, hout⟩ := ReorderBuffer.insert_refines h p.seq p.payload now
  obtain ⟨hhigh, hdup⟩ := Window.insert_high h.wf (near w.base p.seq) p.payload now
  rw [← hout, ← hq] at hdup
  obtain ⟨highest, hh, hexp, hfirst, hmax⟩ := ha
  obtain rfl := Option.some.inj (h.high.symm.trans hh)
  have hmax : m.rtcp.maxSeq = UInt16.ofInt w.high := by simpa using hmax
  refine ⟨?_, ?_, ?_⟩
  · show (m.reorder.insert p.seq p.payload now).1.highestSeq = _
    rw [href.high, hhigh, hq]
  · show (m.nack.onPacketReceived p.seq now).1.expectedSeq = _
    have hdist := toNat_ofInt_sub_ofInt q (w.high + 1)
    rw [← ofInt_add_one] at hdist
    rw [NackScheduler.onPacketReceived_expectedSeq hexp, hseq]
    by_cases hahead : 1 ≤ d ∧ d ≤ 32768
    · rw [if_pos hahead, if_pos (asI16_nonneg_iff.mpr (by omega))]
    · rw [if_neg hahead, if_neg fun hc => hahead (by
        have := asI16_nonneg_iff.mp hc
        omega)]
  · show (m.rtcp.onPacketReceived p.seq p.rtpTs p.arrivalUs
        (m.reorder.insert p.seq p.payload now).2.duplicate).firstPacketReceived = true ∧
      (m.rtcp.onPacketReceived p.seq p.rtpTs p.arrivalUs
        (m.reorder.insert p.seq p.payload now).2.duplicate).maxSeq = _
    cases hflag : (m.reorder.insert p.seq p.payload now).2.duplicate with
    | true =>
        -- a duplicate lies in the window, so it is not ahead of the highest number
        obtain ⟨hq1, hq2⟩ := hdup hflag
        rw [if_neg (by omega)]
        exact ⟨hfirst, hmax⟩
    | false =>
        have hdist := toNat_ofInt_sub_ofInt q w.high
        obtain ⟨h1, h2⟩ := RtcpReceiverState.onPacketReceived_maxSeq (s := m.rtcp) p.seq p.rtpTs
          p.arrivalUs
        refine ⟨h1, ?_⟩
        rw [h2, hmax, hseq]
        by_cases hahead : 1 ≤ d ∧ d ≤ 32767
        · rw [if_pos hahead, if_neg fun hc => hc.2 (asI16_pos_iff.mpr (by omega))]
        · rw [if_neg hahead, if_pos ⟨hfirst, fun hc => hahead (by
            have := asI16_pos_iff.mp hc
            omega)⟩]

/-- **From agreeing trackers a packet keeps them agreeing unless it splits them.** -/
theorem Agree.packet_iff (ha : Agree m) (h : ReorderBuffer.Refines m.reorder w) (p : ParsedRtp)
    (now : Instant) : Agree (m.packet p now) ↔ ¬m.Splits (.packet p now) := by
  have hcap := ReorderBuffer.capacity_le h.bits
  have hlo := h.wf.base_le
  have hhi := h.wf.high_lt
  obtain ⟨hnear1, hnear2⟩ := near_bounds w.base p.seq
  obtain ⟨hreorder, hnack, hfirst, hrtcp⟩ := ha.packet h p now rfl rfl
  rw [splits_iff h]
  set q := near w.base p.seq
  set d := (q - w.high) % 65536 with hd
  -- three numbers, each of `q` or of the old end: they are equal when the positions are
  have hagree : Agree (m.packet p now) ↔
      (if 1 ≤ d ∧ d ≤ 32768 then q else w.high) = max w.high q ∧
      (if 1 ≤ d ∧ d ≤ 32767 then q else w.high) = max w.high q := by
    unfold Agree
    rw [hreorder, hnack, hrtcp]
    constructor
    · rintro ⟨highest, h1, h2, -, h3⟩
      obtain rfl := Option.some.inj h1
      have h2 := ofInt_eq_iff.mp ((UInt16.add_left_inj 1).mp (Option.some.inj h2))
      have h3 := ofInt_eq_iff.mp ((UInt16.add_left_inj 1).mp h3)
      split_ifs at h2 h3 ⊢ <;> omega
    · rintro ⟨h1, h2⟩
      exact ⟨_, rfl, by rw [h1], hfirst, by rw [h2]⟩
  rw [hagree]
  split_ifs <;> omega

/-! ### Runs -/

/-- Nothing has been received. -/
structure Blank (m : MediaPath) : Prop where
  bits : m.reorder.slots.bits ≤ 14
  baseSeq : m.reorder.baseSeq = none
  empty : ∀ q, (m.reorder.slot q).state = .empty
  expectedSeq : m.nack.expectedSeq = none
  firstPacketReceived : m.rtcp.firstPacketReceived = false

theorem new_blank (bufferTime : Duration) (maxRetries : UInt32) (baseDelay : Duration)
    (now : Instant) : Blank (new bufferTime maxRetries baseDelay now) := by
  obtain ⟨h1, h2, h3, -⟩ := Recording.start_fresh bufferTime
    (show ReorderBuffer.defaultCapacity ≤ 16384 by decide)
  exact ⟨h1, h2, h3, rfl, rfl⟩

/-- The first packet sets all three. -/
theorem Blank.packet (h : Blank m) (p : ParsedRtp) (now : Instant) :
    (∃ w, ReorderBuffer.Refines (m.packet p now).reorder w) ∧ Agree (m.packet p now) := by
  have hins := ReorderBuffer.insert_of_none (Or.inl h.baseSeq) p.seq p.payload now
  have href := ReorderBuffer.anchor_refines h.bits (fun q => h.empty _) (p.seq.toNat : Int)
    p.payload now
  rw [Recording.ofInt_toNat] at href
  obtain ⟨h1, h2⟩ := RtcpReceiverState.onPacketReceived_maxSeq (s := m.rtcp) p.seq p.rtpTs
    p.arrivalUs
  rw [if_neg (by simp [h.firstPacketReceived])] at h2
  unfold MediaPath.packet Agree
  rw [hins]
  refine ⟨⟨_, href⟩, p.seq, rfl, ?_, h1, by rw [h2]⟩
  unfold NackScheduler.onPacketReceived
  rw [h.expectedSeq]

/-- What a run keeps: nothing received, or a window and agreeing trackers. -/
def InStep (m : MediaPath) : Prop :=
  Blank m ∨ (∃ w, ReorderBuffer.Refines m.reorder w) ∧ Agree m

theorem InStep.agreeAfter_iff (h : InStep m) (op : Op) : m.AgreeAfter op ↔ ¬m.Splits op := by
  cases op with
  | drain now => exact iff_of_true trivial id
  | packet p now =>
      rcases h with h | ⟨⟨w, hw⟩, ha⟩
      · refine iff_of_true (h.packet p now).2 ?_
        rintro ⟨base, -, hb, -⟩
        rw [h.baseSeq] at hb
        exact absurd hb (by simp)
      · exact ha.packet_iff hw p now

theorem InStep.step (h : InStep m) (op : Op) (hagree : m.AgreeAfter op) : InStep (m.step op) := by
  cases op with
  | packet p now =>
      rcases h with h | ⟨⟨w, hw⟩, -⟩
      · exact Or.inr (h.packet p now)
      · exact Or.inr ⟨⟨_, (ReorderBuffer.insert_refines hw p.seq p.payload now).1⟩, hagree⟩
  | drain now =>
      rcases h with h | ⟨⟨w, hw⟩, highest, hh, ha⟩
      · have hnone : m.reorder.drainStep now = none := by
          unfold ReorderBuffer.drainStep
          rw [h.baseSeq]
        simp only [MediaPath.step, ReorderBuffer.drainReady_of_none hnone]
        exact Or.inl h
      · obtain ⟨href, -⟩ := ReorderBuffer.drainReady_refines hw now
        obtain ⟨-, hhigh, -⟩ := Window.drainLoop_base m.reorder.bufferTime now
          hw.wf m.reorder.drainFuel
        refine Or.inr ⟨⟨_, href⟩, highest, ?_, ha⟩
        rw [← hh, hw.high, ← hhigh]
        exact href.high

/-- **The trackers agree after every packet exactly when no packet splits them.** -/
theorem agree_run_iff (bufferTime : Duration) (maxRetries : UInt32) (baseDelay : Duration)
    (now : Instant) (ops : List Op) :
    Run.Along step AgreeAfter (new bufferTime maxRetries baseDelay now) ops ↔
      Run.Along step (fun m op => ¬m.Splits op) (new bufferTime maxRetries baseDelay now) ops :=
  Run.along_iff_of_invariant (I := InStep) (fun _ op h => h.agreeAfter_iff op)
    (fun _ op h => h.step op) (Or.inl (new_blank bufferTime maxRetries baseDelay now))

/-- A packet with nothing but its number. -/
def bare (seq : UInt16) : ParsedRtp := ⟨seq, 0, 0, [], 0, 0, false⟩

/-- Packets 0, 100 and 32818, all held: the last is stale to the buffer, and a jump
forward to the other two. -/
theorem agree_fails_across_the_circle :
    ¬Run.Along step AgreeAfter (new 5 3 20 0)
      [.packet (bare 0) 0, .packet (bare 100) 0, .packet (bare 32818) 0] := by
  rintro ⟨h1, h2, h3, -⟩
  have hin := ((show InStep _ from Or.inl (new_blank 5 3 20 0)).step _ h1).step _ h2
  refine (hin.agreeAfter_iff _).mp h3 ⟨0, 100, ?_, ?_, by decide +kernel, by decide +kernel⟩
  · decide +kernel
  · decide +kernel

end MediaPath

end Rist
