/-
What the receiver counts of a stream that has been through a network.

A packet that is flagged as a duplicate is held, and what is held was received.  So a packet
that comes for the first time is always counted, and the highest number counted is that of
the newest packet.  A copy that comes after its packet was delivered is counted again: the
count may be too high, never too low.
-/
import Mathlib.Order.Interval.Finset.Nat
import Rist.Proofs.Link.Burst
import Rist.Proofs.Receiver.Extended
import Rist.Proofs.Receiver.Reports

namespace Rist

/-! ### What is held was received -/

namespace Heard

open Session Serial

variable {ssrc : UInt32} {first : UInt16} {h : Heard} {now : Instant} {d : Nat × UInt64} {f : Flight}

/-- Every packet the buffer holds was received.  With its base fixed a buffer stands for one
window, so it does not matter which one is meant. -/
def Recalls (first : UInt16) (h : Heard) : Prop :=
  ∀ w, ReorderBuffer.Refines h.session.buffer w →
    w.base = (first.toNat : Int) + h.session.baseIndex →
    ∀ x data a, w.cell x = .filled data a → ∃ i ∈ h.received, x = (first.toNat : Int) + i

theorem recalls_of_window {w : Window} (href : ReorderBuffer.Refines h.session.buffer w)
    (hbase : w.base = (first.toNat : Int) + h.session.baseIndex)
    (hcells : ∀ x data a, w.cell x = .filled data a →
      ∃ i ∈ h.received, x = (first.toNat : Int) + i) : Recalls first h := by
  intro w' href' hbase' x data a hx
  exact hcells x data a ((href'.agree href (hbase'.trans hbase.symm)).2 x data a hx)

theorem recalls_of_waits (hw : Waits h.session) : Recalls first h := by
  intro w href
  exact absurd (href.base.symm.trans hw.baseSeq) (by simp)

theorem Recalls.hear (hr : Recalls first h) (hp : Placed first h) (hs : Sends ssrc first h.session)
    (hf : h.session.network[d.1]? = some f) (hnear : Near now h d) :
    Recalls first (hear now h d) := by
  have hreceived := hear_received now hf
  have hnew : f.index ∈ (Heard.hear now h d).received := by
    rw [hreceived]
    exact List.mem_append_right _ List.mem_cons_self
  rcases hp with ⟨hw, -⟩ | ⟨w, hw, -, -⟩
  · obtain ⟨payload, hw'⟩ := hear_waits hw hs hf now
    refine recalls_of_window hw'.refines hw'.base ?_
    intro x data a hx
    simp only [Window.anchor] at hx
    split_ifs at hx with heq
    exact ⟨f.index, hnew, heq⟩
  · obtain ⟨payload, -, hw'⟩ := hear_stands hw hs hf hnear
    refine recalls_of_window hw'.refines hw'.base ?_
    intro x data a hx
    rcases Window.insert_filled hw.refines.wf hx with hold | ⟨rfl, -⟩
    · obtain ⟨i, hi, hx⟩ := hr w hw.refines hw.base x data a hold
      rw [hreceived]
      exact ⟨i, List.mem_append_left _ hi, hx⟩
    · exact ⟨f.index, hnew, rfl⟩

theorem Recalls.drain (hr : Recalls first h) (hp : Placed first h) (now : Instant) :
    Recalls first ⟨h.session.step (.drain now), h.received⟩ := by
  rcases hp with ⟨hw, -⟩ | ⟨w, hw, -, -⟩
  · exact recalls_of_waits (drain_waits hw now)
  · have hw' := drain_stands hw now
    refine recalls_of_window hw'.refines hw'.base ?_
    intro x data a hx
    exact hr w hw.refines hw.base x data a
      ((Window.drainLoop_items h.session.buffer.bufferTime now w _).2 x data a hx)

/-- **A duplicate was received before.** -/
theorem Recalls.duplicate (hr : Recalls first h) (hp : Placed first h)
    (hf : h.session.network[d.1]? = some f) (hnear : Near now h d) {seq : UInt16}
    (hseq : seq = first + UInt16.ofNat f.index) {data : Bytes}
    (hdup : (h.session.buffer.insert seq data now).2.duplicate = true) : f.index ∈ h.received := by
  rcases hp with ⟨hw, -⟩ | ⟨w, hw, -, -⟩
  · rw [ReorderBuffer.insert_of_none (Or.inl hw.baseSeq)] at hdup
    exact absurd hdup (by simp)
  · rw [(ReorderBuffer.insert_refines hw.refines seq data now).2,
      Window.insert_duplicate_iff hw.refines.wf, near_position hw hf hnear hseq] at hdup
    obtain ⟨held, a, hcell⟩ := Cell.isFilled_iff.mp hdup
    obtain ⟨i, hi, hx⟩ := hr w hw.refines hw.base _ held a hcell
    obtain rfl : f.index = i := by omega
    exact hi

end Heard

/-! ### What is counted -/

/-- The totals of the packets received: each is counted, a copy perhaps more than once, and
the numbers run from the first packet to the newest. -/
structure Spans (first : UInt16) (received : List Nat) (g : SeqTotals) : Prop where
  distinct : received.toFinset.card ≤ g.received
  counted : g.received ≤ received.length
  span : ∀ i, received.head? = some i → g.first = first + UInt16.ofNat i ∧
    g.extended = g.first.toNat + (Heard.newest received - i)

namespace Spans

variable {first : UInt16} {received : List Nat} {g : SeqTotals} {i : Nat}

theorem received_eq_zero_iff (h : Spans first received g) : g.received = 0 ↔ received = [] := by
  have hdistinct := h.distinct
  have hcounted := h.counted
  constructor
  · intro hzero
    rw [hzero, Nat.le_zero, Finset.card_eq_zero, List.toFinset_eq_empty_iff] at hdistinct
    exact hdistinct
  · rintro rfl
    exact Nat.le_zero.mp hcounted

/-- A copy that is not counted. -/
theorem again (h : Spans first received g) (hi : i ∈ received) :
    Spans first (received ++ [i]) g := by
  have hsame : (received ++ [i]).toFinset = received.toFinset := by
    ext j
    simp only [List.mem_toFinset, List.mem_append, List.mem_singleton, or_iff_left_iff_imp]
    rintro rfl
    exact hi
  refine ⟨hsame ▸ h.distinct, h.counted.trans (by simp), ?_⟩
  intro j hj
  rw [List.head?_append_of_ne_nil _ (List.ne_nil_of_mem hi)] at hj
  rw [Heard.newest_append, Nat.max_eq_left (Heard.le_newest hi)]
  exact h.span j hj

end Spans

namespace RtcpReceiverState

open Serial

variable {first : UInt16} {received : List Nat} {g : SeqTotals} {s : RtcpReceiverState} {i : Nat}

/-- The highest number is that of the newest packet. -/
theorem Tracks.maxSeq_eq (h : Tracks s g) (hspans : Spans first received g) (hne : received ≠ []) :
    s.maxSeq = first + UInt16.ofNat (Heard.newest received) := by
  obtain ⟨j, hj⟩ : ∃ j, received.head? = some j := ⟨_, List.head?_eq_some_head hne⟩
  obtain ⟨hfirst, hext⟩ := hspans.span j hj
  have hle := Heard.le_newest (List.mem_of_mem_head? hj)
  have hplace := h.place
  have hmax := s.maxSeq.toNat_lt
  rw [hfirst] at hext
  rw [← UInt16.toNat_inj]
  simp only [UInt16.toNat_add, UInt16.toNat_ofNat', Nat.reducePow] at hext ⊢
  omega

/-- How far a packet is ahead of the newest one. -/
theorem forward_newest (first : UInt16) {n : Nat} (h1 : -32767 ≤ (i : Int) - n)
    (h2 : (i : Int) - n ≤ 32767) :
    forward (first + UInt16.ofNat n) (first + UInt16.ofNat i) = i - n := by
  unfold forward
  rw [← Session.ofInt_first_add, ← Session.ofInt_first_add, asI16_sub_ofInt] <;> omega

/-- A packet that is counted. -/
theorem Tracks.spans_packet (h : Tracks s g) (hspans : Spans first received g)
    (hnear : received ≠ [] → -32767 ≤ (i : Int) - Heard.newest received ∧
      (i : Int) - Heard.newest received ≤ 32767) :
    Spans first (received ++ [i]) (g.packet s.maxSeq (first + UInt16.ofNat i)) := by
  have hdistinct := hspans.distinct
  have hcounted := hspans.counted
  have hone : (received ++ [i]).toFinset.card ≤ received.toFinset.card + 1 := by
    rw [List.toFinset_append]
    exact (Finset.card_union_le _ _).trans (by simp)
  by_cases hnil : received = []
  · have hzero := hspans.received_eq_zero_iff.mpr hnil
    unfold SeqTotals.packet
    rw [if_pos hzero]
    subst hnil
    refine ⟨by simp, by simp, ?_⟩
    intro j hj
    obtain rfl : i = j := by simpa using hj
    refine ⟨rfl, ?_⟩
    simp [Heard.newest]
  · have hzero := mt hspans.received_eq_zero_iff.mp hnil
    obtain ⟨hlo, hhi⟩ := hnear hnil
    unfold SeqTotals.packet
    rw [if_neg hzero, h.maxSeq_eq hspans hnil, forward_newest first hlo hhi]
    refine ⟨hone.trans (Nat.succ_le_succ hdistinct), ?_, ?_⟩
    · rw [List.length_append]
      exact Nat.succ_le_succ hcounted
    · intro j hj
      rw [List.head?_append_of_ne_nil _ hnil] at hj
      obtain ⟨hfirst, hext⟩ := hspans.span j hj
      have hle := Heard.le_newest (List.mem_of_mem_head? hj)
      refine ⟨hfirst, ?_⟩
      rw [Heard.newest_append]
      simp only
      omega

/-- **Loss is not made up**: as many packets are missing, at least. -/
theorem Tracks.cumulativeLost_le (h : Tracks s g) (hspans : Spans first received g)
    (hlen : received.length < 4294967296) (hi : received.head? = some i) :
    s.cumulativeLost.toInt
      ≤ ((Finset.Icc i (Heard.newest received) \ received.toFinset).card : Int) := by
  obtain ⟨-, hext⟩ := hspans.span i hi
  have hexpected : s.expected.toNat ≤ Heard.newest received - i + 1 := by
    rw [h.expected]
    refine (Nat.mod_le _ _).trans ?_
    unfold SeqTotals.expected
    omega
  have hreceived : s.packetsReceived.toNat = g.received := by
    rw [h.received]
    exact Nat.mod_eq_of_lt (hspans.counted.trans_lt hlen)
  have hmissing := Finset.le_card_sdiff received.toFinset (Finset.Icc i (Heard.newest received))
  rw [Nat.card_Icc] at hmissing
  have hdistinct := hspans.distinct
  have hle := Heard.le_newest (List.mem_of_mem_head? hi)
  rw [toInt_cumulativeLost]
  omega

end RtcpReceiverState

end Rist
