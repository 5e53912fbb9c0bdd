/-
What the window moves past is delivered, lost or flushed.

Three things move the base: a drain, by one position for every item; a flush of the
oldest positions; and a reset.  A drain accounts for every position.  A flush counts
the packets it drops and not the positions that were still waiting for one, and a
reset skips positions that nothing counts at all.  So the accounts are complete
exactly when every overflow drops nothing but packets (`Flushes`).
-/
import Rist.Proofs.Reorder.Overflow

namespace Rist

open Serial

namespace Window

variable {cap : Int} {w : Window}

theorem filledIn_eq_iff {lo hi : Int} (h : lo ≤ hi) :
    (w.filledIn lo hi : Int) = hi - lo ↔
      ∀ q, lo ≤ q → q < hi → (w.cell q).isFilled = true := by
  have hcard : ((Finset.Ico lo hi).card : Int) = hi - lo := by
    rw [Int.card_Ico]
    omega
  unfold filledIn
  rw [← hcard, Int.natCast_inj, Finset.card_filter_eq_iff]
  constructor
  · intro hall q h1 h2
    exact hall q (Finset.mem_Ico.mpr ⟨h1, h2⟩)
  · intro hall q hq
    obtain ⟨h1, h2⟩ := Finset.mem_Ico.mp hq
    exact hall q h1 h2

theorem filledIn_le {lo hi : Int} (h : lo ≤ hi) : (w.filledIn lo hi : Int) ≤ hi - lo := by
  have hle := Finset.card_filter_le (Finset.Ico lo hi) fun p => (w.cell p).isFilled = true
  rw [Int.card_Ico] at hle
  unfold filledIn
  omega

/-- If the packet at `p` overflows the window, it drops nothing but packets. -/
def Flushes (cap : Int) (w : Window) (p : Int) : Prop :=
  w.base + cap ≤ p → p - (cap - 1) ≤ w.high ∧
    ∀ q, w.base ≤ q → q < p - (cap - 1) → (w.cell q).isFilled = true

/-- **The accounts of an insert.**  The base moves by as many positions as packets are
flushed exactly when nothing else is dropped. -/
theorem insert_flushed_iff (hcap : 2 ≤ cap) (h : WF cap w) (p : Int) (data : Bytes)
    (now : Instant) :
    (w.insert cap p data now).1.base - w.base = (w.insert cap p data now).2.overflowFlushed ↔
      w.Flushes cap p := by
  have hlo := h.base_le
  have hhi := h.high_lt
  rcases insert_cases h p data now with ⟨h1, ho⟩ | ⟨h1, h2, h3, ho⟩ | ⟨h1, h2, h3, rec, ho⟩ |
    ⟨h1, h2, h3, ho⟩ | ⟨h1, h2, h3, ho⟩ | ⟨h1, h2, ho⟩ | ⟨h1, ho⟩
  · rw [ho]
    exact iff_of_true (by simp) fun hc => absurd hc (by omega)
  · rw [ho]
    exact iff_of_true (by simp) fun hc => absurd hc (by omega)
  · rw [ho]
    exact iff_of_true (by simp [fill]) fun hc => absurd hc (by omega)
  · rw [ho]
    exact iff_of_true (by simp [reach]) fun hc => absurd hc (by omega)
  · -- a reset drops at most what the window covers, and skips further than that
    refine iff_of_false ?_ fun hc => absurd (hc h1).1 (by omega)
    rw [ho]
    show ¬(p - w.base = (w.filledIn w.base (w.base + cap) : Int))
    rw [filledIn_eq_held h hhi]
    have hle := filledIn_le (w := w) hlo
    unfold held
    omega
  · rw [ho]
    show p - (cap - 1) - w.base = (w.filledIn w.base (p - (cap - 1)) : Int) ↔ _
    rw [eq_comm, filledIn_eq_iff (by omega)]
    exact ⟨fun hall _ => ⟨h2, hall⟩, fun hc => (hc h1).2⟩
  · obtain ⟨g1, g2, -⟩ := h1
    refine iff_of_false ?_ fun hc => absurd (hc g2).1 (by omega)
    rw [ho]
    show ¬(p - (cap - 1) - w.base = ((0 : Nat) : Int))
    omega

end Window

namespace Recording

variable {r : Recording} {w : Window}

/-- The positions given up as lost. -/
def lost (r : Recording) : Nat := r.releases.countP fun x => !x.item.isDelivered

/-- Every position from the first one up to the base was delivered, lost or flushed. -/
def Accounted (r : Recording) : Prop := r.base - r.first = r.delivered + r.lost + r.flushed

instance (r : Recording) : Decidable (Accounted r) :=
  inferInstanceAs (Decidable (r.base - r.first = r.delivered + r.lost + r.flushed))

/-- If the call overflows, it flushes the oldest numbers without a reset, and every one
of them is a packet. -/
def Flushes (r : Recording) : BufferOp → Prop
  | .insert seq _ _ =>
    ∀ base ∈ r.buf.baseSeq, ∀ highest ∈ r.buf.highestSeq,
      (r.buf.capacity : Int) - 1 < asI16 (seq - base) →
      let advance := seq - base - r.buf.aheadCapacity
      (advance.toNat < r.buf.capacity ∧ advance ≤ highest - base) ∧
        ∀ i < advance.toNat, (r.buf.slot (base + UInt16.ofNat i)).seq = base + UInt16.ofNat i ∧
          (r.buf.slot (base + UInt16.ofNat i)).state.isFilled = true
  | .drain _ => True

theorem delivered_add_lost (r : Recording) : r.delivered + r.lost = r.releases.length := by
  unfold delivered lost
  rw [List.length_eq_countP_add_countP (fun x : Release => x.item.isDelivered)]
  congr 2
  funext x
  simp

/-- A slot holds a packet under its own number exactly when the window does. -/
theorem Tracks.filled_iff (h : Tracks r w) {q : Int} (h1 : w.base ≤ q)
    (h2 : q < w.base + r.buf.capacity) :
    (r.buf.slot (UInt16.ofInt q)).seq = UInt16.ofInt q ∧
        (r.buf.slot (UInt16.ofInt q)).state.isFilled = true ↔
      (w.cell q).isFilled = true := by
  have hshow := h.refines.cells q h1 h2
  rw [hshow.isFilled]
  refine ⟨fun hc => hc.2, fun hc => ⟨?_, hc⟩⟩
  exact hshow.seq_eq (hshow.isFilled.trans hc)

theorem Tracks.flushes_iff (h : Tracks r w) (seq : UInt16) (data : Bytes) (now : Instant) :
    r.Flushes (.insert seq data now) ↔ w.Flushes r.buf.capacity (near w.base seq) := by
  have hlo := h.refines.wf.base_le
  have hhi := h.refines.wf.high_lt
  have hcap := ReorderBuffer.capacity_le h.refines.bits
  have hahead := ReorderBuffer.aheadCapacity_toNat h.refines.bits
  obtain ⟨-, hnear⟩ := near_bounds w.base seq
  have hfrom : asI16 (seq - UInt16.ofInt w.base) = near w.base seq - w.base := by
    unfold near
    omega
  unfold Flushes Window.Flushes
  rw [h.refines.base, h.refines.high]
  simp only [Option.mem_def, Option.some.injEq, forall_eq']
  rw [hfrom]
  by_cases hover : w.base + r.buf.capacity ≤ near w.base seq
  · -- how far the base is to move
    have hseq : ((seq - UInt16.ofInt w.base).toNat : Int) = near w.base seq - w.base := by
      rw [toNat_eq_of_asI16_nonneg (by omega), hfrom]
    have hadvance : ((seq - UInt16.ofInt w.base - r.buf.aheadCapacity).toNat : Int)
        = near w.base seq - (r.buf.capacity - 1) - w.base := by
      rw [toNat_sub, hseq, hahead]
      omega
    have hslot : ∀ i : Nat, i < r.buf.capacity →
        ((r.buf.slot (UInt16.ofInt w.base + UInt16.ofNat i)).seq
            = UInt16.ofInt w.base + UInt16.ofNat i ∧
          (r.buf.slot (UInt16.ofInt w.base + UInt16.ofNat i)).state.isFilled = true ↔
        (w.cell (w.base + i)).isFilled = true) := by
      intro i hi
      rw [ReorderBuffer.ofInt_add_ofNat _ (by omega)]
      exact h.filled_iff (by omega) (by omega)
    constructor
    · intro hc _
      obtain ⟨⟨hlt, hle⟩, hall⟩ := hc (by omega)
      -- a drained window has no packet at its base
      have hbase : w.base ≤ w.high := by
        by_contra hd
        have hfill := (hslot 0 (by omega)).mp (hall 0 (by omega))
        rw [Window.isFilled_outside h.refines.wf (Or.inr (by omega))] at hfill
        cases hfill
      have hspan := toNat_sub_ofInt (p := w.high) (q := w.base) (by omega) (by omega)
      rw [UInt16.le_iff_toNat_le] at hle
      refine ⟨by omega, fun q h1 h2 => ?_⟩
      have hfill := (hslot (q - w.base).toNat (by omega)).mp (hall _ (by omega))
      rwa [show w.base + ((q - w.base).toNat : Int) = q by omega] at hfill
    · intro hc _
      obtain ⟨hle, hall⟩ := hc hover
      have hspan := toNat_sub_ofInt (p := w.high) (q := w.base) (by omega) (by omega)
      refine ⟨⟨by omega, UInt16.le_iff_toNat_le.mpr (by omega)⟩, fun i hi => ?_⟩
      exact (hslot i (by omega)).mpr (hall (w.base + i) (by omega) (by omega))
  · exact iff_of_true (fun hc => absurd hc (by omega)) fun hc => absurd hc hover

/-! ### The accounts over a run -/

theorem Tracks.accounted_insert (h : Tracks r w) (hcap : 2 ≤ r.buf.capacity) (ha : Accounted r)
    (seq : UInt16) (data : Bytes) (now : Instant) :
    Accounted (r.step (.insert seq data now)) ↔ r.Flushes (.insert seq data now) := by
  obtain ⟨htr, hfirst, harr, hrel⟩ := h.insert seq data now
  have hcounts : (r.step (.insert seq data now)).delivered = r.delivered ∧
      (r.step (.insert seq data now)).lost = r.lost := by
    unfold delivered lost
    rw [hrel]
    exact ⟨rfl, rfl⟩
  have hflu : (r.step (.insert seq data now)).flushed = r.flushed
      + (w.insert r.buf.capacity (near w.base seq) data now).2.overflowFlushed := by
    unfold flushed
    rw [harr, List.map_append, List.sum_append]
    simp
  have hbase := h.base
  unfold Accounted at ha ⊢
  rw [h.flushes_iff, ← Window.insert_flushed_iff (by omega) h.refines.wf _ data now, hfirst,
    htr.base, hcounts.1, hcounts.2, hflu]
  omega

theorem Tracks.accounted_drain (h : Tracks r w) (ha : Accounted r) (now : Instant) :
    Accounted (r.step (.drain now)) := by
  obtain ⟨fuel, htr, hfirst, harr, hrel⟩ := h.drain now
  obtain ⟨hmove, -, -⟩ := Window.drainLoop_base r.buf.bufferTime now h.refines.wf fuel
  have hflu : (r.step (.drain now)).flushed = r.flushed := by
    unfold flushed
    rw [harr]
  have hlen := congrArg List.length hrel
  rw [List.length_append, List.length_map] at hlen
  have hbefore := r.delivered_add_lost
  have hafter := (r.step (.drain now)).delivered_add_lost
  have hbase := h.base
  unfold Accounted at ha ⊢
  rw [hfirst, htr.base, hflu]
  omega

theorem Fresh.accounted (h : Fresh r) : Accounted r := by
  unfold Accounted delivered lost flushed
  rw [h.arrivals, h.releases, h.base]
  simp

theorem Fresh.accounted_step (h : Fresh r) (op : BufferOp) : Accounted (r.step op) := by
  cases op with
  | insert seq data now =>
      obtain ⟨htr, -, -, hfirst, harr, hrel⟩ := h.insert seq data now
      unfold Accounted delivered lost flushed
      rw [hfirst, harr, hrel, htr.base]
      simp [Window.anchor]
  | drain now => exact (h.clock_drain now).accounted

theorem Fresh.flushes (h : Fresh r) (op : BufferOp) : r.Flushes op := by
  cases op with
  | insert seq data now =>
      intro base hbase
      rw [h.baseSeq] at hbase
      cases hbase
  | drain now => trivial

theorem Reached.accounted_iff (h : Reached r) (hcap : 2 ≤ r.buf.capacity) (ha : Accounted r)
    (op : BufferOp) : Accounted (r.step op) ↔ r.Flushes op := by
  rcases h with hf | ⟨w, h⟩
  · exact iff_of_true (hf.accounted_step op) (hf.flushes op)
  · cases op with
    | insert seq data now => exact h.accounted_insert hcap ha seq data now
    | drain now => exact iff_of_true (h.accounted_drain ha now) trivial

theorem le_capacity_withCapacity (hold : Duration) (capacity : Nat) :
    64 ≤ (ReorderBuffer.withCapacity hold capacity).capacity :=
  Nat.pow_le_pow_right (n := 2) (by decide) (Nat.le_max_right (Nat.clog 2 capacity) 6)

/-- **Loss accounting, exactly.**  On every run, every position that the window has moved
past is delivered, lost or flushed after every step exactly when every overflow of the
run flushes nothing but packets. -/
theorem loss_accounting_exact (hold : Duration) {capacity : Nat} (hcap : capacity ≤ 16384)
    (ops : List BufferOp) :
    Run.Along step (fun r op => Accounted (r.step op))
        (start (ReorderBuffer.withCapacity hold capacity)) ops ↔
      Run.Along step (fun r op => r.Flushes op)
        (start (ReorderBuffer.withCapacity hold capacity)) ops := by
  have hfresh := start_fresh hold hcap
  refine Run.along_iff_of_invariant
    (I := fun r => Reached r ∧ 2 ≤ r.buf.capacity ∧ Accounted r) ?_ ?_ ?_
  · intro r op ⟨hr, hc, ha⟩
    exact hr.accounted_iff hc ha op
  · intro r op ⟨hr, hc, _⟩ ha
    exact ⟨hr.step op, by rw [capacity_step]; exact hc, ha⟩
  · have h64 := le_capacity_withCapacity hold capacity
    exact ⟨Or.inl hfresh, by simp only [start]; omega, hfresh.accounted⟩

/-- A ring of 64 that overflows by one with a packet at its base. -/
theorem loss_accounting_exact_full_ring :
    Run.Along step (fun r op => r.Flushes op) (start (ReorderBuffer.withCapacity 5 64))
      [.insert 0 [1] 0, .insert 1 [2] 0, .insert 64 [3] 0, .drain 10] :=
  (loss_accounting_exact 5 (by decide) _).mp (by decide +kernel)

/-- Packets 0 and 2, then packet 65: the flush gives up positions 0 and 1 and counts the
packet at 0.  The missing packet 1 is neither lost nor flushed. -/
theorem flushed_gap_unaccounted :
    ¬Accounted (of 5 64 [.insert 0 [1] 0, .insert 2 [2] 0, .insert 65 [3] 0]) ∧
      (of 5 64 [.insert 0 [1] 0, .insert 2 [2] 0, .insert 65 [3] 0]).base = 2 ∧
      (of 5 64 [.insert 0 [1] 0, .insert 2 [2] 0, .insert 65 [3] 0]).flushed = 1 ∧
      (of 5 64 [.insert 0 [1] 0, .insert 2 [2] 0, .insert 65 [3] 0]).releases = [] := by
  refine ⟨by decide +kernel, by decide +kernel, by decide +kernel, ?_⟩
  rfl

end Recording

end Rist
