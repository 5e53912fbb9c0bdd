/-
What a receiver report counts.

A report's loss is the difference of two counts, the numbers of the range seen and the
packets received, so a packet counted twice hides a packet that was lost.  The report
state does not know which packets it has seen.  It is told by the reorder buffer, which
calls a packet a duplicate when its slot is still filled with it, and only then: a copy
that comes after the packet was delivered or flushed is stale or new to the buffer, and
is counted again.  That is `Forgotten`, and the count is right along a run exactly as
long as no packet is.
-/
import Mathlib.Data.Int.Interval
import Rist.Proofs.Receiver.Trackers
import Rist.Proofs.Reorder.Hostile

namespace Rist

open Serial

/-- A packet is a duplicate when its position holds one. -/
theorem Window.insert_duplicate_iff {cap : Int} {w : Window} (h : WF cap w) (p : Int)
    (data : Bytes) (now : Instant) :
    (w.insert cap p data now).2.duplicate = true ↔ (w.cell p).isFilled = true := by
  have hout : p < w.base ∨ w.high < p → ¬(w.cell p).isFilled = true :=
    fun hp => Bool.eq_false_iff.mp (isFilled_outside h hp)
  have hlo := h.base_le
  have hhi := h.high_lt
  rcases insert_cases h p data now with ⟨h1, ho⟩ | ⟨-, -, h3, ho⟩ | ⟨-, -, h3, r, ho⟩ |
    ⟨-, h2, -, ho⟩ | ⟨h1, -, -, ho⟩ | ⟨h1, -, ho⟩ | ⟨h1, ho⟩
  · rw [ho]
    exact iff_of_false (by simp) (hout (Or.inl h1))
  · rw [ho]
    exact iff_of_true rfl h3
  · rw [ho]
    exact iff_of_false (by simp) (by simp [h3])
  · rw [ho]
    exact iff_of_false (by simp) (hout (Or.inr h2))
  · rw [ho]
    exact iff_of_false (by simp) (hout (Or.inr (by omega)))
  · rw [ho]
    exact iff_of_false (by simp) (hout (Or.inr (by omega)))
  · rw [ho]
    exact iff_of_false (by simp) (hout (Or.inr (by have := h1.2.1; omega)))

namespace ReorderBuffer

variable {b : ReorderBuffer} {w : Window} {known : UInt16 → Prop}

/-! ### What the buffer remembers -/

/-- A filled slot holds the packet at the position its number stands for. -/
theorem Refines.holds_iff (h : Refines b w) (seq : UInt16) :
    b.Holds seq ↔ (w.cell (near w.base seq)).isFilled = true := by
  have hcap := capacity_le h.bits
  have hhi := h.wf.high_lt
  obtain ⟨hnear1, hnear2⟩ := near_bounds w.base seq
  unfold Holds
  constructor
  · rintro ⟨hseq, hfilled⟩
    obtain ⟨p, -, -, hshows⟩ := h.shows (near w.base seq)
    rw [ofInt_near] at hshows
    -- the slot carries the number of the position it shows
    have hcell := hshows.isFilled.symm.trans hfilled
    obtain ⟨h1, h2⟩ := h.wf.mem_of_filled hcell
    have hp : UInt16.ofInt p = UInt16.ofInt (near w.base seq) := by
      rw [ofInt_near, ← hseq, hshows.seq_eq hfilled]
    rw [← ofInt_inj (by omega) (by omega) hp]
    exact hcell
  · intro hfilled
    obtain ⟨d, a, hcell⟩ := Cell.isFilled_iff.mp hfilled
    have hslot := h.slot_of_cell hcell
    rw [ofInt_near] at hslot
    rw [hslot]
    exact ⟨rfl, rfl⟩

/-- Everything the buffer holds is `known`. -/
def Remembers (b : ReorderBuffer) (known : UInt16 → Prop) : Prop :=
  (b.slots.bits ≤ 14 ∧ b.baseSeq = none ∧ ∀ q, (b.slot q).state = .empty) ∨
    ∃ w, Refines b w ∧ ∀ x d a, w.cell x = .filled d a → known (UInt16.ofInt x)

theorem remembers_new (bufferTime : Duration) : Remembers (new bufferTime) known := by
  obtain ⟨h1, h2, h3, -⟩ := Recording.start_fresh bufferTime
    (show defaultCapacity ≤ 16384 by decide)
  exact Or.inl ⟨h1, h2, h3⟩

theorem Remembers.mono {known' : UInt16 → Prop} (h : Remembers b known)
    (himp : ∀ q, known q → known' q) : Remembers b known' := by
  rcases h with hblank | ⟨w, hw, hcells⟩
  · exact Or.inl hblank
  · exact Or.inr ⟨w, hw, fun x d a hx => himp _ (hcells x d a hx)⟩

theorem Remembers.of_holds (h : Remembers b known) {seq : UInt16} (hseq : b.Holds seq) :
    known seq := by
  rcases h with ⟨-, -, hempty⟩ | ⟨w, hw, hcells⟩
  · have hfilled := hseq.2
    rw [hempty] at hfilled
    simp [SlotState.isFilled] at hfilled
  · obtain ⟨d, a, hcell⟩ := Cell.isFilled_iff.mp ((hw.holds_iff seq).mp hseq)
    rw [← ofInt_near w.base seq]
    exact hcells _ d a hcell

/-- **The duplicate flag** of an insert says what the buffer holds. -/
theorem Remembers.duplicate_iff (h : Remembers b known) (seq : UInt16) (data : Bytes)
    (now : Instant) : (b.insert seq data now).2.duplicate = true ↔ b.Holds seq := by
  rcases h with ⟨-, hbase, hempty⟩ | ⟨w, hw, -⟩
  · unfold insert Holds
    rw [hbase, hempty]
    exact iff_of_false (by simp) (by simp [SlotState.isFilled])
  · rw [(insert_refines hw seq data now).2, Window.insert_duplicate_iff hw.wf, hw.holds_iff]

theorem Remembers.insert (h : Remembers b known) (seq : UInt16) (data : Bytes) (now : Instant) :
    Remembers (b.insert seq data now).1 fun q => known q ∨ q = seq := by
  rcases h with ⟨hbits, hbase, hempty⟩ | ⟨w, hw, hcells⟩
  · have hins := insert_of_none (Or.inl hbase) seq data now
    have href := anchor_refines hbits (fun q => hempty _) (seq.toNat : Int) data now
    rw [Recording.ofInt_toNat] at href
    rw [hins]
    refine Or.inr ⟨_, href, fun x d a hx => Or.inr ?_⟩
    simp only [Window.anchor] at hx
    split_ifs at hx with heq
    rw [heq, Recording.ofInt_toNat]
  · obtain ⟨href, -⟩ := insert_refines hw seq data now
    refine Or.inr ⟨_, href, fun x d a hx => ?_⟩
    rcases Window.insert_filled hw.wf hx with hold | ⟨rfl, -⟩
    · exact Or.inl (hcells x d a hold)
    · exact Or.inr (ofInt_near w.base seq)

theorem Remembers.drainReady (h : Remembers b known) (now : Instant) :
    Remembers (b.drainReady now).1 known := by
  rcases h with ⟨hbits, hbase, hempty⟩ | ⟨w, hw, hcells⟩
  · have hnone : b.drainStep now = none := by
      unfold drainStep
      rw [hbase]
    rw [drainReady_of_none hnone]
    exact Or.inl ⟨hbits, hbase, hempty⟩
  · obtain ⟨href, -⟩ := drainReady_refines hw now
    obtain ⟨-, hkept⟩ := Window.drainLoop_items b.bufferTime now w b.drainFuel
    exact Or.inr ⟨_, href, fun x d a hx => hcells x d a (hkept x d a hx)⟩

end ReorderBuffer

/-! ### What the report state counts -/

namespace RtcpReceiverState

theorem onPacketReceived_packetsReceived (s : RtcpReceiverState) (seq : UInt16) (ts : UInt32)
    (us : UInt64) :
    (s.onPacketReceived seq ts us false).packetsReceived = s.packetsReceived + 1 := by
  show (s.trackSeq seq).packetsReceived + 1 = s.packetsReceived + 1
  have hkeep : (s.trackSeq seq).packetsReceived = s.packetsReceived := by
    unfold trackSeq
    split
    · rfl
    · split <;> rfl
  rw [hkeep]

theorem generateRr_packetsReceived (s : RtcpReceiverState) (ssrc : UInt32) (now : Instant) :
    (s.generateRr ssrc now).1.packetsReceived = s.packetsReceived := by
  unfold generateRr
  split <;> rfl

/-- The two figures of a report that speak of loss. -/
def lossReported (s : RtcpReceiverState) (ssrc : UInt32) (now : Instant) : List (Int32 × UInt8) :=
  (s.generateRr ssrc now).2.reports.map fun block => (block.cumulativeLost, block.fractionLost)

/-- The count, the loss since the last report, and the loss the next report names. -/
structure SameLoss (s s' : RtcpReceiverState) : Prop where
  packetsReceived : s'.packetsReceived = s.packetsReceived
  interval : s'.expectedInterval - s'.receivedInterval = s.expectedInterval - s.receivedInterval
  lossReported : ∀ ssrc now, s'.lossReported ssrc now = s.lossReported ssrc now

end RtcpReceiverState

/-! ### Runs -/

/-- A call on the media path.  A packet comes with the position its number stands for. -/
inductive ReportOp where
  | packet (pos : Int) (p : ParsedRtp) (now : Instant)
  | drain (now : Instant)
  | report (ssrc : UInt32) (now : Instant)

/-- The packet carries its position's number, and the position is one of the 32768 from
`lo` on. -/
def ReportOp.Within (lo : Int) : ReportOp → Prop
  | packet pos p _ => p.seq = UInt16.ofInt pos ∧ lo ≤ pos ∧ pos < lo + 32768
  | _ => True

instance (lo : Int) : ∀ op : ReportOp, Decidable (op.Within lo)
  | .packet _ _ _ => inferInstanceAs (Decidable (_ ∧ _ ∧ _))
  | .drain _ => inferInstanceAs (Decidable True)
  | .report _ _ => inferInstanceAs (Decidable True)

/-- A media path, and the positions that have arrived. -/
structure Census where
  media : MediaPath
  arrived : Finset Int

namespace Census

variable {lo : Int} {c : Census}

def start (m : MediaPath) : Census := ⟨m, ∅⟩

def step (c : Census) : ReportOp → Census
  | .packet pos p now => ⟨c.media.packet p now, insert pos c.arrived⟩
  | .drain now => { c with media := c.media.step (.drain now) }
  | .report ssrc now => { c with media.rtcp := (c.media.rtcp.generateRr ssrc now).1 }

/-- Every position that has arrived is counted, once. -/
def Exact (c : Census) : Prop := c.media.rtcp.packetsReceived.toNat = c.arrived.card

/-- After the call the count is exact, and a further copy has moved no figure of loss. -/
def CountsOnce (c : Census) (op : ReportOp) : Prop :=
  Exact (c.step op) ∧
    match op with
    | .packet pos p now =>
      pos ∈ c.arrived → RtcpReceiverState.SameLoss c.media.rtcp (c.media.packet p now).rtcp
    | _ => True

/-- A further copy comes when the buffer no longer holds the packet. -/
def Forgotten (c : Census) : ReportOp → Prop
  | .packet pos p _ => pos ∈ c.arrived ∧ ¬c.media.reorder.Holds p.seq
  | _ => False

/-- What a run keeps: everything held has arrived, and everything that has arrived lies
in the span. -/
structure Kept (lo : Int) (c : Census) : Prop where
  remembers : c.media.reorder.Remembers fun q => ∃ pos ∈ c.arrived, UInt16.ofInt pos = q
  span : c.arrived ⊆ Finset.Ico lo (lo + 32768)
  exact : Exact c

theorem Kept.start (bufferTime : Duration) (maxRetries : UInt32) (baseDelay : Duration)
    (now : Instant) : Kept lo (start (MediaPath.new bufferTime maxRetries baseDelay now)) :=
  ⟨ReorderBuffer.remembers_new bufferTime, Finset.empty_subset _, rfl⟩

/-- The flag a packet is counted by. -/
theorem packet_rtcp (m : MediaPath) (p : ParsedRtp) (now : Instant) :
    (m.packet p now).rtcp = m.rtcp.onPacketReceived p.seq p.rtpTs p.arrivalUs
      (m.reorder.insert p.seq p.payload now).2.duplicate := rfl

theorem Kept.card_le (h : Kept lo c) : c.arrived.card ≤ 32768 := by
  have hcard := Finset.card_le_card h.span
  rw [Int.card_Ico] at hcard
  omega

/-- **What a packet does to the count.**  The buffer holds a copy, and nothing changes;
or it does not, and the packet is counted. -/
theorem Kept.packet (h : Kept lo c) {pos : Int} {p : ParsedRtp} {now : Instant}
    (hop : (ReportOp.packet pos p now).Within lo) :
    (c.media.reorder.Holds p.seq ∧ pos ∈ c.arrived ∧
      (c.media.packet p now).rtcp = c.media.rtcp) ∨
    (¬c.media.reorder.Holds p.seq ∧
      (c.media.packet p now).rtcp.packetsReceived.toNat = c.arrived.card + 1) := by
  obtain ⟨hseq, hlo, hhi⟩ := hop
  have hdup := h.remembers.duplicate_iff p.seq p.payload now
  rw [packet_rtcp]
  by_cases hheld : c.media.reorder.Holds p.seq
  · refine Or.inl ⟨hheld, ?_, ?_⟩
    · obtain ⟨pos', hpos', heq⟩ := h.remembers.of_holds hheld
      obtain ⟨hlo', hhi'⟩ := Finset.mem_Ico.mp (h.span hpos')
      rw [hseq] at heq
      rw [← ofInt_inj (by omega) (by omega) heq]
      exact hpos'
    · rw [hdup.mpr hheld]
      rfl
  · refine Or.inr ⟨hheld, ?_⟩
    have hcard := h.card_le
    rw [Bool.eq_false_iff.mpr (mt hdup.mp hheld),
      RtcpReceiverState.onPacketReceived_packetsReceived, ← h.exact, UInt32.toNat_add]
    rw [← h.exact] at hcard
    exact Nat.mod_eq_of_lt (by simp only [UInt32.toNat_one]; omega)

theorem Kept.countsOnce_iff (h : Kept lo c) {op : ReportOp} (hop : op.Within lo) :
    c.CountsOnce op ↔ ¬c.Forgotten op := by
  cases op with
  | drain now => exact iff_of_true ⟨h.exact, trivial⟩ id
  | report ssrc now =>
      refine iff_of_true ⟨?_, trivial⟩ id
      show (c.media.rtcp.generateRr ssrc now).1.packetsReceived.toNat = c.arrived.card
      rw [RtcpReceiverState.generateRr_packetsReceived]
      exact h.exact
  | packet pos p now =>
      rcases h.packet hop with ⟨hheld, hpos, hsame⟩ | ⟨hheld, hcount⟩
      · refine iff_of_true ⟨?_, fun _ => ?_⟩ fun hforgot => hforgot.2 hheld
        · show (c.media.packet p now).rtcp.packetsReceived.toNat = (insert pos c.arrived).card
          rw [hsame, Finset.insert_eq_of_mem hpos]
          exact h.exact
        · rw [hsame]
          exact ⟨rfl, rfl, fun _ _ => rfl⟩
      · by_cases hpos : pos ∈ c.arrived
        · refine iff_of_false ?_ (not_not.mpr ⟨hpos, hheld⟩)
          rintro ⟨hexact, -⟩
          have hmore : (c.media.packet p now).rtcp.packetsReceived.toNat
              = (insert pos c.arrived).card := hexact
          rw [hcount, Finset.insert_eq_of_mem hpos] at hmore
          omega
        · refine iff_of_true ⟨?_, fun hc => absurd hc hpos⟩ fun hforgot => hpos hforgot.1
          show (c.media.packet p now).rtcp.packetsReceived.toNat = (insert pos c.arrived).card
          rw [hcount, Finset.card_insert_of_notMem hpos]

theorem Kept.step (h : Kept lo c) {op : ReportOp} (hop : op.Within lo) (hcount : c.CountsOnce op) :
    Kept lo (c.step op) := by
  cases op with
  | drain now => exact ⟨h.remembers.drainReady now, h.span, hcount.1⟩
  | report ssrc now => exact ⟨h.remembers, h.span, hcount.1⟩
  | packet pos p now =>
      obtain ⟨hseq, hlo, hhi⟩ := hop
      refine ⟨?_, ?_, hcount.1⟩
      · refine (h.remembers.insert p.seq p.payload now).mono ?_
        rintro q (⟨pos', hpos', rfl⟩ | rfl)
        · exact ⟨pos', Finset.mem_insert_of_mem hpos', rfl⟩
        · exact ⟨pos, Finset.mem_insert_self pos c.arrived, hseq.symm⟩
      · exact Finset.insert_subset (Finset.mem_Ico.mpr ⟨hlo, hhi⟩) h.span

/-- **Each packet is counted once** along a run exactly when no packet comes again after
the buffer has forgotten it. -/
theorem counts_once_iff (bufferTime : Duration) (maxRetries : UInt32) (baseDelay : Duration)
    (now : Instant) (lo : Int) (ops : List ReportOp) (hops : ∀ op ∈ ops, op.Within lo) :
    Run.Along step CountsOnce (start (MediaPath.new bufferTime maxRetries baseDelay now)) ops ↔
      Run.Along step (fun c op => ¬c.Forgotten op)
        (start (MediaPath.new bufferTime maxRetries baseDelay now)) ops := by
  refine Run.along_iff_of_env (E := fun _ op => op.Within lo) (I := Kept lo)
    (fun _ _ h hop => h.countsOnce_iff hop) (fun _ _ h hop hcount => h.step hop hcount)
    (Kept.start bufferTime maxRetries baseDelay now) ?_
  rw [Run.along_iff]
  rintro pre op post rfl
  exact hops op (by simp)

/-- Packets 0 and 2, with 1 lost, are delivered, and then 0 comes again: three are counted
where two have arrived, and the loss is gone from the report. -/
theorem copy_after_delivery_hides_loss :
    ¬Run.Along step CountsOnce (start (MediaPath.new 5 3 20 0))
      [.packet 0 (MediaPath.bare 0) 0, .packet 2 (MediaPath.bare 2) 0, .drain 5,
        .packet 0 (MediaPath.bare 0) 6] ∧
    (Run.final step (start (MediaPath.new 5 3 20 0))
      [.packet 0 (MediaPath.bare 0) 0, .packet 2 (MediaPath.bare 2) 0,
        .drain 5]).media.rtcp.cumulativeLost = 1 ∧
    (Run.final step (start (MediaPath.new 5 3 20 0))
      [.packet 0 (MediaPath.bare 0) 0, .packet 2 (MediaPath.bare 2) 0, .drain 5,
        .packet 0 (MediaPath.bare 0) 6]).media.rtcp.cumulativeLost = 0 := by
  refine ⟨?_, by decide +kernel, by decide +kernel⟩
  rintro ⟨-, -, -, ⟨hexact, -⟩, -⟩
  unfold Exact at hexact
  exact absurd hexact (by decide +kernel)

/-- The second copy of 0 comes while the first is held. -/
theorem counts_once_while_held :
    Run.Along step CountsOnce (start (MediaPath.new 5 3 20 0))
      [.packet 0 (MediaPath.bare 0) 0, .packet 0 (MediaPath.bare 0) 1, .report 4 2,
        .packet 2 (MediaPath.bare 2) 3, .drain 5] := by
  refine (counts_once_iff 5 3 20 0 0 _ ?_).mpr ⟨?_, ?_, id, ?_, id, trivial⟩
  · decide +kernel
  · rintro ⟨hpos, -⟩
    exact absurd hpos (Finset.notMem_empty 0)
  · rintro ⟨-, hno⟩
    exact hno (by decide +kernel)
  · rintro ⟨hpos, -⟩
    exact absurd hpos (by decide +kernel)

end Census

end Rist
