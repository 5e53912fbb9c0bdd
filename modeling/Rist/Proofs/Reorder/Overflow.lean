/-
What an overflow keeps, and what it costs.

An insert beyond the ring makes room by dropping the oldest positions.  It should
keep the packet that caused it and everything from the new base on (`KeepsTail`),
and then every packet ever accepted is delivered, counted as flushed, or still
held (`Balanced`).

Both hold unless the window is drained and the packet is less than two rings
ahead (`Overruns`).  There the packet is accepted and then overwritten by a gap
marker, so each such insert leaves the books one short.  Counting packets is done
on the window, where a packet is a position and the positions of a step split at
the new base.
-/
import Rist.Proofs.Reorder.Run

namespace Rist

open Serial

namespace Window

variable {cap : Int} {w : Window}

/-! ### Counting packets -/

/-- The packets the window holds. -/
noncomputable def held (w : Window) : Nat := w.filledIn w.base (w.high + 1)

theorem filledIn_split (w : Window) (lo mid hi : Int) (h1 : lo ≤ mid) (h2 : mid ≤ hi) :
    w.filledIn lo hi = w.filledIn lo mid + w.filledIn mid hi := by
  unfold filledIn
  rw [← Finset.Ico_union_Ico_eq_Ico h1 h2, Finset.filter_union, Finset.card_union_of_disjoint]
  exact Finset.disjoint_filter_filter (Finset.Ico_disjoint_Ico_consecutive lo mid hi)

theorem filledIn_congr {w w' : Window} (lo hi : Int)
    (h : ∀ p, lo ≤ p → p < hi → (w.cell p).isFilled = (w'.cell p).isFilled) :
    w.filledIn lo hi = w'.filledIn lo hi := by
  unfold filledIn
  congr 1
  refine Finset.filter_congr fun p hp => ?_
  obtain ⟨h1, h2⟩ := Finset.mem_Ico.mp hp
  rw [h p h1 h2]

theorem filledIn_eq_zero (lo hi : Int)
    (h : ∀ p, lo ≤ p → p < hi → (w.cell p).isFilled = false) : w.filledIn lo hi = 0 := by
  unfold filledIn
  rw [Finset.card_eq_zero, Finset.filter_eq_empty_iff]
  intro p hp
  obtain ⟨h1, h2⟩ := Finset.mem_Ico.mp hp
  rw [h p h1 h2]
  simp

theorem filledIn_one (w : Window) (p : Int) :
    w.filledIn p (p + 1) = if (w.cell p).isFilled = true then 1 else 0 := by
  have hico : Finset.Ico p (p + 1) = {p} := by
    ext q
    simp only [Finset.mem_Ico, Finset.mem_singleton]
    omega
  unfold filledIn
  rw [hico, Finset.filter_singleton]
  split <;> simp

/-- Nothing is held outside the window. -/
theorem isFilled_outside (h : WF cap w) {p : Int} (hp : p < w.base ∨ w.high < p) :
    (w.cell p).isFilled = false := by
  rw [h.outside p hp]
  rfl

theorem filledIn_eq_held (h : WF cap w) {hi : Int} (hhi : w.high < hi) :
    w.filledIn w.base hi = w.held := by
  have hlo := h.base_le
  rw [filledIn_split w _ (w.high + 1) _ (by omega) (by omega),
    filledIn_eq_zero (w.high + 1) _ fun p h1 _ => isFilled_outside h (Or.inr (by omega))]
  rfl

/-- A window that differs from another at one position, where it has a packet and
the other has none, holds one more. -/
theorem filledIn_add_one {w w' : Window} {lo hi p : Int} (h1 : lo ≤ p) (h2 : p < hi)
    (hnew : (w'.cell p).isFilled = true) (hold : (w.cell p).isFilled = false)
    (hne : ∀ q, q ≠ p → (w'.cell q).isFilled = (w.cell q).isFilled) :
    w'.filledIn lo hi = w.filledIn lo hi + 1 := by
  rw [filledIn_split w' lo p hi h1 (by omega), filledIn_split w lo p hi h1 (by omega),
    filledIn_split w' p (p + 1) hi (by omega) (by omega),
    filledIn_split w p (p + 1) hi (by omega) (by omega),
    filledIn_one, filledIn_one, if_pos hnew, if_neg (by rw [hold]; simp),
    filledIn_congr lo p fun q _ hq => hne q (by omega),
    filledIn_congr (p + 1) hi fun q hq _ => hne q (by omega)]
  omega

theorem anchor_held (p : Int) (data : Bytes) (now : Instant) : (anchor p data now).held = 1 := by
  unfold held
  rw [show (anchor p data now).base = p from rfl, show (anchor p data now).high = p from rfl,
    filledIn_one, if_pos (by simp [anchor, Cell.isFilled])]

theorem fill_held {p : Int} (h1 : w.base ≤ p) (h2 : p ≤ w.high)
    (hcell : (w.cell p).isFilled = false) (data : Bytes) (now : Instant) :
    (w.fill p data now).held = w.held + 1 := by
  unfold held
  refine filledIn_add_one h1 (Int.lt_add_one_of_le h2) ?_ hcell ?_
  · simp [fill, Cell.isFilled]
  · intro q hq
    simp only [fill]
    rw [Function.update_of_ne hq]

theorem reach_held (h : WF cap w) {p : Int} (h1 : w.high < p) (data : Bytes) (now : Instant) :
    (w.reach p data now).held = w.held + 1 := by
  have hlo := h.base_le
  rw [← filledIn_eq_held h (show w.high < p + 1 by omega)]
  unfold held
  refine filledIn_add_one (by simp only [reach]; omega) (Int.lt_succ p) ?_ ?_ ?_
  · simp [reach, Cell.isFilled]
  · exact isFilled_outside h (Or.inr h1)
  · intro q hq
    simp only [reach]
    rw [if_neg hq]
    split
    · rename_i hgap
      rw [isFilled_outside h (Or.inr hgap.1)]
      rfl
    · rfl

theorem slide_held (lo : Int) (h1 : w.base ≤ lo) (h2 : lo ≤ w.high + 1) :
    w.held = (w.slide lo).held + w.filledIn w.base lo := by
  unfold held
  rw [filledIn_split w _ _ _ h1 h2, Nat.add_comm]
  congr 1
  refine filledIn_congr _ _ fun p hp _ => ?_
  simp only [slide]
  rw [if_neg (by omega)]

theorem overrun_held (lo p : Int) (now : Instant) : (overrun lo p now).held = 0 := by
  refine filledIn_eq_zero _ _ fun q _ _ => ?_
  simp only [overrun]
  split_ifs <;> rfl

theorem insert_of_overruns (h : WF cap w) {p : Int} (ho : w.Overruns cap p) {data : Bytes}
    {now : Instant} : w.insert cap p data now
      = (overrun (p - (cap - 1)) p now, { newGaps := (p - w.base).toNat }) := by
  have hc := ho
  obtain ⟨h1, h2, h3⟩ := hc
  rcases insert_cases h p data now with ⟨g, -⟩ | ⟨g1, g2, -⟩ | ⟨g1, g2, -⟩ | ⟨g1, g2, g3, -⟩ |
    ⟨-, -, hno, -⟩ | ⟨g1, g2, -⟩ | ⟨-, heq⟩
  · omega
  · omega
  · omega
  · omega
  · exact absurd ho hno
  · omega
  · exact heq

/-- **The books of an insert.**  A packet that is neither stale nor a duplicate is
held afterwards, unless it overran; what was held before is held or flushed. -/
theorem insert_held (h : WF cap w) (p : Int) (data : Bytes) (now : Instant) :
    (w.Overruns cap p ∧ w.held = 0 ∧ (w.insert cap p data now).1.held = 0 ∧
      (w.insert cap p data now).2.stale = false ∧
      (w.insert cap p data now).2.duplicate = false ∧
      (w.insert cap p data now).2.overflowFlushed = 0) ∨
    (¬w.Overruns cap p ∧
      w.held + (if (w.insert cap p data now).2.stale || (w.insert cap p data now).2.duplicate
          then 0 else 1)
        = (w.insert cap p data now).1.held + (w.insert cap p data now).2.overflowFlushed) := by
  have hlo := h.base_le
  have hhi := h.high_lt
  rcases insert_cases h p data now with ⟨h1, ho⟩ | ⟨h1, h2, h3, ho⟩ | ⟨h1, h2, h3, rec, ho⟩ |
    ⟨h1, h2, h3, ho⟩ | ⟨h1, h2, h3, ho⟩ | ⟨h1, h2, ho⟩ | ⟨h1, ho⟩
  · refine Or.inr ⟨fun hc => by have := hc.2.1; omega, ?_⟩
    rw [ho]
    rfl
  · refine Or.inr ⟨fun hc => by have := hc.1; omega, ?_⟩
    rw [ho]
    rfl
  · refine Or.inr ⟨fun hc => by have := hc.1; omega, ?_⟩
    rw [ho]
    exact (fill_held h1 h2 h3 data now).symm
  · refine Or.inr ⟨fun hc => by have := hc.2.1; omega, ?_⟩
    rw [ho]
    exact (reach_held h h2 data now).symm
  · refine Or.inr ⟨h3, ?_⟩
    rw [ho]
    show w.held + 1 = (anchor p data now).held + w.filledIn w.base (w.base + cap)
    rw [anchor_held, filledIn_eq_held h hhi, Nat.add_comm]
  · refine Or.inr ⟨fun hc => by have := hc.1; omega, ?_⟩
    rw [ho]
    show w.held + 1 = ((w.slide (p - (cap - 1))).reach p data now).held
      + w.filledIn w.base (p - (cap - 1))
    rw [slide_held (p - (cap - 1)) (by omega) (by omega),
      reach_held (slide_wf h (by omega) (by omega)) (by simp only [slide]; omega)]
    omega
  · refine Or.inl ⟨h1, ?_, ?_, ?_, ?_, ?_⟩
    · exact filledIn_eq_zero _ _ fun q hq1 hq2 => by have := h1.1; omega
    · rw [ho]
      exact overrun_held _ _ _
    · rw [ho]
    · rw [ho]
    · rw [ho]

end Window

/-- Is the item a packet? -/
def DrainItem.isDelivered : DrainItem → Bool
  | .delivered _ _ _ => true
  | .lost => false

namespace Window

variable {cap : Int} {w : Window}

/-- **The books of a drain.**  A packet that is no longer held was delivered. -/
theorem drainLoop_held (hold : Duration) (now : Instant) (h : WF cap w) (fuel : Nat) :
    w.held = (w.drainLoop hold now fuel).1.held
      + (w.drainLoop hold now fuel).2.countP DrainItem.isDelivered := by
  have hloop := drainLoop_invariant hold now
    (I := fun w' out => WF cap w' ∧ w.held = w'.held + out.countP DrainItem.isDelivered)
    (by
      intro w₁ out w₂ item ⟨hwf, hheld⟩ hs
      obtain ⟨hle, rfl, hitem⟩ := drainStep_cases hs
      refine ⟨slide_wf hwf (by omega) (by omega), ?_⟩
      rw [hheld, slide_held (w₁.base + 1) (by omega) (by omega), filledIn_one,
        List.countP_append, List.countP_singleton]
      rcases hitem with ⟨d, a, hcell, -, rfl⟩ | ⟨rfl, hcell⟩
      · rw [hcell]
        simp only [Cell.isFilled, DrainItem.isDelivered, if_true]
        omega
      · rw [hcell]
        simp [DrainItem.isDelivered])
    fuel w [] ⟨h, by simp⟩
  simpa using hloop.2

/-! ### What an overflow should keep -/

/-- The window `w'` comes out of `w` by an overflow that kept the fresh packet and
the tail. -/
structure KeepsTail (w w' : Window) (p : Int) (data : Bytes) (now : Instant)
    (outcome : InsertOutcome) : Prop where
  forward : w.base < w'.base
  inside : w'.base ≤ p ∧ p ≤ w'.high
  fresh : w'.cell p = .filled data now
  kept : ∀ x, w'.base ≤ x → (w.cell x).isFilled = true → w'.cell x = w.cell x
  flushed : outcome.overflowFlushed = w.filledIn w.base w'.base

theorem insert_keepsTail (hcap : 0 < cap) (h : WF cap w) {p : Int} (hp : w.base + cap ≤ p)
    (hno : ¬w.Overruns cap p) (data : Bytes) (now : Instant) :
    (w.insert cap p data now).1.high = p ∧
    w.KeepsTail (w.insert cap p data now).1 p data now (w.insert cap p data now).2 := by
  have hlo := h.base_le
  have hhi := h.high_lt
  rcases insert_cases h p data now with ⟨h1, ho⟩ | ⟨h1, h2, h3, ho⟩ | ⟨h1, h2, h3, rec, ho⟩ |
    ⟨h1, h2, h3, ho⟩ | ⟨h1, h2, h3, ho⟩ | ⟨h1, h2, ho⟩ | ⟨h1, ho⟩
  · omega
  · omega
  · omega
  · omega
  · rw [ho]
    refine ⟨rfl, by simp only [anchor]; omega, ⟨le_rfl, le_rfl⟩, by simp [anchor], ?_, ?_⟩
    · intro x hx hfill
      rw [isFilled_outside h (Or.inr (by simp only [anchor] at hx; omega))] at hfill
      exact absurd hfill (by simp)
    · show w.filledIn w.base (w.base + cap) = w.filledIn w.base p
      rw [filledIn_eq_held h hhi, filledIn_eq_held h (by omega)]
  · rw [ho]
    refine ⟨rfl, by simp only [reach, slide]; omega, ⟨by simp only [reach, slide]; omega, le_rfl⟩,
      by simp [reach], ?_, rfl⟩
    intro x hx hfill
    have hxhi := (h.mem_of_filled hfill).2
    simp only [reach, slide] at hx
    simp only [reach]
    rw [if_neg (by omega), if_neg (by simp only [slide]; omega)]
    simp only [slide]
    rw [if_neg (by omega)]
  · exact absurd h1 hno

end Window

namespace ReorderBuffer

variable {b : ReorderBuffer} {w : Window}

/-- How many packets of `b` are no longer where they were in `b'`. -/
def removed (b b' : ReorderBuffer) : Nat :=
  ((Finset.range b.capacity).filter fun k =>
    (b.slots.get k).state.isFilled = true ∧ b'.slots.get k ≠ b.slots.get k).card

/-- The buffer `b'` comes out of `b` by an overflow that kept the fresh packet and
the tail of the window. -/
structure KeepsTail (b b' : ReorderBuffer) (seq : UInt16) (data : Bytes) (now : Instant)
    (outcome : InsertOutcome) (base base' highest' : UInt16) : Prop where
  baseSeq : b.baseSeq = some base ∧ b'.baseSeq = some base' ∧ b'.highestSeq = some highest'
  /-- The base moved forward. -/
  forward : 0 < asI16 (base' - base)
  /-- The number lies in the window. -/
  inside : 0 ≤ asI16 (seq - base') ∧ 0 ≤ asI16 (highest' - seq)
  /-- The fresh packet is in its slot. -/
  fresh : b'.slot seq = ⟨seq, .filled data now⟩
  /-- A packet from the new base on is still there. -/
  kept : ∀ q d a, b.slot q = ⟨q, .filled d a⟩ → 0 ≤ asI16 (q - base') →
    b'.slot q = ⟨q, .filled d a⟩
  /-- A packet below the new base is gone. -/
  gone : ∀ q d a, b.slot q = ⟨q, .filled d a⟩ → asI16 (q - base') < 0 →
    ∀ d' a', b'.slot q ≠ ⟨q, .filled d' a'⟩
  /-- The packets removed are counted. -/
  flushed : outcome.overflowFlushed = removed b b'

/-- A packet in the ring is a packet of the window. -/
theorem Refines.position_of_slot (h : Refines b w) {q : UInt16} {d : Bytes} {a : Instant}
    (hq : b.slot q = ⟨q, .filled d a⟩) :
    ∃ x, w.base ≤ x ∧ x ≤ w.high ∧ UInt16.ofInt x = q ∧ w.cell x = .filled d a := by
  obtain ⟨x, -, -, hshow⟩ := h.shows (q.toNat : Int)
  rw [Recording.ofInt_toNat, hq] at hshow
  obtain ⟨d', a', hcell⟩ := Cell.isFilled_iff.mp hshow.isFilled.symm
  obtain ⟨h1, h2⟩ := h.wf.mem_of_filled (p := x) (by rw [hcell]; rfl)
  rw [hcell] at hshow
  simp only [Cell.Shows, Slot.mk.injEq, SlotState.filled.injEq] at hshow
  obtain ⟨hseq, rfl, rfl⟩ := hshow
  exact ⟨x, h1, h2, hseq.symm, hcell⟩

/-- A packet of the window is in the ring, in its own slot. -/
theorem Refines.slot_of_cell (h : Refines b w) {x : Int} {d : Bytes} {a : Instant}
    (hcell : w.cell x = .filled d a) :
    b.slot (UInt16.ofInt x) = ⟨UInt16.ofInt x, .filled d a⟩ := by
  have hlt := h.wf.high_lt
  obtain ⟨h1, h2⟩ := h.wf.mem_of_filled (p := x) (by rw [hcell]; rfl)
  have hshow := h.cells x h1 (by omega)
  rw [hcell] at hshow
  exact hshow

/-- **An overflow of the ring keeps what the window keeps.** -/
theorem Refines.keepsTail {b b' : ReorderBuffer} {w w' : Window} (h : Refines b w)
    (h' : Refines b' w') (hcap : b'.capacity = b.capacity) {p : Int} {data : Bytes}
    {now : Instant} {outcome : InsertOutcome} (hp : p - w.base < 32768) (hhigh : w'.high = p)
    (hk : w.KeepsTail w' p data now outcome) :
    KeepsTail b b' (UInt16.ofInt p) data now outcome (UInt16.ofInt w.base)
      (UInt16.ofInt w'.base) (UInt16.ofInt w'.high) := by
  have hwhi := h.wf.high_lt
  have hcapLe := capacity_le h.bits
  have hforward := hk.forward
  obtain ⟨hin1, hin2⟩ := hk.inside
  -- a number held by both buffers is one position, and it is not below the new base
  have hsame : ∀ x d a d' a', w.cell x = .filled d a →
      b'.slot (UInt16.ofInt x) = ⟨UInt16.ofInt x, .filled d' a'⟩ → w'.base ≤ x := by
    intro x d a d' a' hcell hslot
    obtain ⟨y, hy1, hy2, heq, -⟩ := h'.position_of_slot hslot
    have hx := h.wf.mem_of_filled (p := x) (by rw [hcell]; rfl)
    have : y = x := ofInt_inj (by omega) (by omega) heq
    omega
  have hkept : ∀ x d a, w.cell x = .filled d a → w'.base ≤ x →
      b'.slot (UInt16.ofInt x) = ⟨UInt16.ofInt x, .filled d a⟩ := by
    intro x d a hcell hx
    refine h'.slot_of_cell ?_
    rw [hk.kept x hx (by rw [hcell]; rfl), hcell]
  refine ⟨⟨h.base, h'.base, h'.high⟩, ?_, ?_, h'.slot_of_cell hk.fresh, ?_, ?_, ?_⟩
  · rw [asI16_sub_ofInt (by omega) (by omega)]
    omega
  · rw [asI16_sub_ofInt (by omega) (by omega), asI16_sub_ofInt (by omega) (by omega)]
    omega
  · intro q d a hq hge
    obtain ⟨x, h1, h2, rfl, hcell⟩ := h.position_of_slot hq
    rw [asI16_sub_ofInt (by omega) (by omega)] at hge
    exact hkept x d a hcell (by omega)
  · intro q d a hq hlt d' a' hc
    obtain ⟨x, h1, h2, rfl, hcell⟩ := h.position_of_slot hq
    rw [asI16_sub_ofInt (by omega) (by omega)] at hlt
    have := hsame x d a d' a' hcell hc
    omega
  · rw [hk.flushed]
    unfold removed Window.filledIn
    rw [SlotRing.card_filter_range b.capacity_pos _ w.base]
    congr 1
    ext x
    have hget : b.slots.get (x % (b.capacity : Int)).toNat = b.slot (UInt16.ofInt x) :=
      (slot_eq_get h.bits x).symm
    have hget' : b'.slots.get (x % (b.capacity : Int)).toNat = b'.slot (UInt16.ofInt x) := by
      rw [← hcap]
      exact (slot_eq_get h'.bits x).symm
    simp only [Finset.mem_filter, Finset.mem_Ico, hget, hget']
    constructor
    · rintro ⟨⟨hx1, hx2⟩, hcell⟩
      have hxhi := (h.wf.mem_of_filled hcell).2
      obtain ⟨d, a, hc⟩ := Cell.isFilled_iff.mp hcell
      refine ⟨⟨hx1, by omega⟩, by rw [h.slot_of_cell hc]; rfl, fun heq => ?_⟩
      rw [h.slot_of_cell hc] at heq
      have := hsame x d a d a hc heq
      omega
    · rintro ⟨⟨hx1, hx2⟩, hfill, hne⟩
      rw [(h.cells x hx1 hx2).isFilled] at hfill
      refine ⟨⟨hx1, ?_⟩, hfill⟩
      by_contra hge
      obtain ⟨d, a, hc⟩ := Cell.isFilled_iff.mp hfill
      apply hne
      rw [hkept x d a hc (by omega), h.slot_of_cell hc]

end ReorderBuffer

namespace Recording

variable {r : Recording} {w : Window}

/-- The call is an insert out of a drained window, less than two rings ahead. -/
def Overruns (r : Recording) : BufferOp → Prop
  | .insert seq _ _ =>
    ∃ base highest, r.buf.baseSeq = some base ∧ r.buf.highestSeq = some highest ∧
      base = highest + 1 ∧ (r.buf.capacity : Int) - 1 < asI16 (seq - base) ∧
      asI16 (seq - base) < 2 * r.buf.capacity - 1
  | .drain _ => False

/-- The call keeps the fresh packet and the tail. -/
def KeepsTail (r : Recording) : BufferOp → Prop
  | .insert seq data now =>
    ∃ base base' highest', ReorderBuffer.KeepsTail r.buf (r.buf.insert seq data now).1 seq data
      now (r.buf.insert seq data now).2 base base' highest'
  | .drain _ => True

/-- Inserts reported neither stale nor duplicate. -/
def accepted (r : Recording) : Nat :=
  r.arrivals.countP fun a => !(a.outcome.stale || a.outcome.duplicate)

def delivered (r : Recording) : Nat := r.releases.countP fun x => x.item.isDelivered

def flushed (r : Recording) : Nat := (r.arrivals.map fun a => a.outcome.overflowFlushed).sum

/-- Every packet accepted was delivered, flushed, or is still held. -/
def Balanced (r : Recording) : Prop := r.accepted = r.delivered + r.flushed + r.buf.filledCount

/-! ### Reading the conditions off the window -/

theorem Tracks.overflows_iff (h : Tracks r w) (seq : UInt16) (data : Bytes) (now : Instant) :
    r.Overflows (.insert seq data now) ↔ w.base + r.buf.capacity ≤ near w.base seq := by
  unfold Overflows near
  rw [h.refines.base]
  constructor
  · rintro ⟨b, hb, hlt⟩
    rw [← Option.some.inj hb] at hlt
    omega
  · intro hle
    exact ⟨_, rfl, by omega⟩

theorem Tracks.overruns_iff (h : Tracks r w) (seq : UInt16) (data : Bytes) (now : Instant) :
    r.Overruns (.insert seq data now) ↔ w.Overruns r.buf.capacity (near w.base seq) := by
  have hlo := h.refines.wf.base_le
  have hhi := h.refines.wf.high_lt
  have hcap := ReorderBuffer.capacity_le h.refines.bits
  unfold Overruns Window.Overruns near
  rw [h.refines.base, h.refines.high]
  constructor
  · rintro ⟨base, highest, hb, hh, hdr, h1, h2⟩
    rw [← Option.some.inj hb] at h1 h2 hdr
    rw [← Option.some.inj hh, ofInt_add_one] at hdr
    have : w.base = w.high + 1 := ofInt_inj (by omega) (by omega) hdr
    omega
  · rintro ⟨hd, h1, h2⟩
    refine ⟨_, _, rfl, rfl, ?_, by omega, by omega⟩
    rw [ofInt_add_one]
    congr 1
    omega

/-- **An overflow keeps the fresh packet and the tail, unless it overruns.** -/
theorem Tracks.keepsTail_iff (h : Tracks r w) {op : BufferOp} (hover : r.Overflows op) :
    r.KeepsTail op ↔ ¬r.Overruns op := by
  cases op with
  | drain now => exact absurd hover id
  | insert seq data now =>
      have hcap : (0 : Int) < r.buf.capacity := by exact_mod_cast r.buf.capacity_pos
      rw [h.overflows_iff] at hover
      obtain ⟨href, hout⟩ := ReorderBuffer.insert_refines h.refines seq data now
      obtain ⟨-, hnear⟩ := near_bounds w.base seq
      have hseq := ofInt_near w.base seq
      have hshape := (ReorderBuffer.insert_shape (b := r.buf) seq data now).capacity
      rw [h.overruns_iff]
      constructor
      · -- after an overrun the packet's slot carries another number
        rintro ⟨base, base', highest', hk⟩ hc
        rw [Window.insert_of_overruns h.refines.wf hc] at href
        have hshow := href.cells (near w.base seq) (by simp only [Window.overrun]; omega)
          (by rw [hshape]; simp only [Window.overrun]; omega)
        simp only [Window.overrun, if_true, hseq, hk.fresh] at hshow
        exact hshow.1 rfl
      · intro hno
        obtain ⟨hhigh, hk⟩ := Window.insert_keepsTail hcap h.refines.wf hover hno data now
        rw [← hout] at hk
        have hkeep := h.refines.keepsTail href hshape (by omega) hhigh hk
        rw [hseq] at hkeep
        exact ⟨_, _, _, hkeep⟩

/-! ### The books over a run -/

theorem Tracks.filledCount (h : Tracks r w) : r.buf.filledCount = w.held := by
  rw [h.refines.filledCount]
  exact Window.filledIn_eq_held h.refines.wf h.refines.wf.high_lt

theorem Tracks.balanced_insert (h : Tracks r w) (hb : Balanced r) (seq : UInt16) (data : Bytes)
    (now : Instant) :
    Balanced (r.step (.insert seq data now)) ↔ ¬r.Overruns (.insert seq data now) := by
  obtain ⟨htr, -, harr, hrel⟩ := h.insert seq data now
  have hdel : (r.step (.insert seq data now)).delivered = r.delivered := by
    unfold delivered
    rw [hrel]
  have hacc : (r.step (.insert seq data now)).accepted = r.accepted
      + (if (w.insert r.buf.capacity (near w.base seq) data now).2.stale ||
          (w.insert r.buf.capacity (near w.base seq) data now).2.duplicate then 0 else 1) := by
    unfold accepted
    rw [harr, List.countP_append, List.countP_singleton]
    congr 1
    split <;> simp_all
  have hflu : (r.step (.insert seq data now)).flushed = r.flushed
      + (w.insert r.buf.capacity (near w.base seq) data now).2.overflowFlushed := by
    unfold flushed
    rw [harr, List.map_append, List.sum_append]
    simp
  unfold Balanced at hb ⊢
  rw [h.filledCount] at hb
  rw [htr.filledCount, hdel, hacc, hflu, hb, h.overruns_iff]
  rcases Window.insert_held h.refines.wf (near w.base seq) data now with
    ⟨ho, h1, h2, h3, h4, h5⟩ | ⟨ho, heq⟩
  · refine iff_of_false ?_ (not_not.mpr ho)
    rw [h1, h2, h3, h4, h5]
    simp
  · refine iff_of_true ?_ ho
    omega

theorem Tracks.balanced_drain (h : Tracks r w) (hb : Balanced r) (now : Instant) :
    Balanced (r.step (.drain now)) := by
  obtain ⟨fuel, htr, -, harr, hrel⟩ := h.drain now
  have hheld := Window.drainLoop_held r.buf.bufferTime now h.refines.wf fuel
  have hdel : (r.step (.drain now)).delivered = r.delivered
      + (w.drainLoop r.buf.bufferTime now fuel).2.countP DrainItem.isDelivered := by
    unfold delivered
    rw [hrel, List.countP_append, List.countP_map]
    rfl
  unfold Balanced accepted flushed at hb ⊢
  rw [h.filledCount] at hb
  rw [htr.filledCount, hdel, harr]
  omega

/-- A state a run can be in. -/
def Reached (r : Recording) : Prop := Fresh r ∨ ∃ w, Tracks r w

theorem Fresh.clock_drain (h : Fresh r) (now : Instant) : Fresh (r.step (.drain now)) := by
  rw [h.drain]
  exact ⟨h.bits, h.baseSeq, h.empty, h.arrivals, h.releases, h.base⟩

theorem Reached.step (h : Reached r) (op : BufferOp) : Reached (r.step op) := by
  rcases h with hf | ⟨w, h⟩
  · cases op with
    | insert seq data now => exact Or.inr ⟨_, (hf.insert seq data now).1⟩
    | drain now => exact Or.inl (hf.clock_drain now)
  · cases op with
    | insert seq data now => exact Or.inr ⟨_, (h.insert seq data now).1⟩
    | drain now =>
        obtain ⟨fuel, htr, -⟩ := h.drain now
        exact Or.inr ⟨_, htr⟩

theorem Fresh.balanced (h : Fresh r) : Balanced r := by
  have hzero : r.buf.filledCount = 0 := by
    unfold ReorderBuffer.filledCount
    rw [SlotRing.count_eq_card_range, Finset.card_eq_zero, Finset.filter_eq_empty_iff]
    intro k hk
    have hlt : k < r.buf.capacity := Finset.mem_range.mp hk
    have hcap := ReorderBuffer.capacity_le h.bits
    have hempty : (r.buf.slots.get k).state = .empty := by
      have := h.empty (UInt16.ofNat k)
      unfold ReorderBuffer.slot at this
      rwa [ofNat_toNat_of_lt (by omega)] at this
    rw [hempty]
    simp [SlotState.isFilled]
  unfold Balanced accepted delivered flushed
  rw [h.arrivals, h.releases, hzero]
  rfl

theorem Fresh.not_overruns (h : Fresh r) (op : BufferOp) : ¬r.Overruns op := by
  cases op with
  | insert seq data now =>
      rintro ⟨base, highest, hb, -⟩
      rw [h.baseSeq] at hb
      exact absurd hb (by simp)
  | drain now => exact id

theorem Fresh.balanced_step (h : Fresh r) (op : BufferOp) : Balanced (r.step op) := by
  cases op with
  | insert seq data now =>
      obtain ⟨htr, -, -, -, harr, hrel⟩ := h.insert seq data now
      unfold Balanced accepted delivered flushed
      rw [htr.filledCount, Window.anchor_held, harr, hrel]
      rfl
  | drain now => exact (h.clock_drain now).balanced

/-- The books stay balanced through a step exactly when it does not overrun. -/
theorem Reached.balanced_iff (h : Reached r) (hb : Balanced r) (op : BufferOp) :
    Balanced (r.step op) ↔ ¬r.Overruns op := by
  rcases h with hf | ⟨w, h⟩
  · exact iff_of_true (hf.balanced_step op) (hf.not_overruns op)
  · cases op with
    | insert seq data now => exact h.balanced_insert hb seq data now
    | drain now => exact iff_of_true (h.balanced_drain hb now) id

theorem Reached.keepsTail_iff (h : Reached r) {op : BufferOp} (hover : r.Overflows op) :
    r.KeepsTail op ↔ ¬r.Overruns op := by
  rcases h with hf | ⟨w, h⟩
  · cases op with
    | insert seq data now =>
        obtain ⟨b, hb, -⟩ := hover
        rw [hf.baseSeq] at hb
        exact absurd hb (by simp)
    | drain now => exact absurd hover id
  · exact h.keepsTail_iff hover

/-- **Overflow, exactly.**  On every run, every overflow keeps the fresh packet and
the tail unless it overruns, and the books balance after every step exactly when no
step of the run overruns. -/
theorem overflow_exact (hold : Duration) {capacity : Nat} (hcap : capacity ≤ 16384)
    (ops : List BufferOp) :
    Run.Along step (fun r op => r.Overflows op → (r.KeepsTail op ↔ ¬r.Overruns op))
      (start (ReorderBuffer.withCapacity hold capacity)) ops ∧
    (Run.Along step (fun r op => Balanced (r.step op))
        (start (ReorderBuffer.withCapacity hold capacity)) ops ↔
      Run.Along step (fun r op => ¬r.Overruns op)
        (start (ReorderBuffer.withCapacity hold capacity)) ops) := by
  have hfresh := start_fresh hold hcap
  constructor
  · rw [Run.along_iff]
    intro pre op post _ hover
    refine Reached.keepsTail_iff ?_ hover
    exact Run.invariant_of_step (I := Reached) (fun r op h => h.step op) (Or.inl hfresh) pre
  · refine Run.along_iff_of_invariant (I := fun r => Reached r ∧ Balanced r) ?_ ?_
      ⟨Or.inl hfresh, hfresh.balanced⟩
    · intro r op ⟨hr, hb⟩
      exact hr.balanced_iff hb op
    · intro r op ⟨hr, _⟩ hb
      exact ⟨hr.step op, hb⟩

/-- A full ring overflowing by one. -/
theorem overflow_exact_full_ring :
    Run.Along step (fun r op => r.Overflows op → (r.KeepsTail op ↔ ¬r.Overruns op))
      (start (ReorderBuffer.withCapacity 5 64)) [.insert 0 [1] 0, .insert 63 [2] 0,
        .insert 64 [3] 0] ∧
    (Run.Along step (fun r op => Balanced (r.step op))
        (start (ReorderBuffer.withCapacity 5 64)) [.insert 0 [1] 0, .insert 63 [2] 0,
          .insert 64 [3] 0] ↔
      Run.Along step (fun r op => ¬r.Overruns op)
        (start (ReorderBuffer.withCapacity 5 64)) [.insert 0 [1] 0, .insert 63 [2] 0,
          .insert 64 [3] 0]) :=
  overflow_exact 5 (by decide) _

/-- One packet, drained, then the packet 65 numbers on, in a ring of 64: it is
neither held nor counted. -/
theorem overflow_out_of_drained_window :
    ¬Run.Along step (fun r op => (r.Overflows op → r.KeepsTail op) ∧ Balanced (r.step op))
      (start (ReorderBuffer.withCapacity 5 64))
      [.insert 0 [1] 0, .drain 10, .insert 65 [2] 11] := by
  rintro ⟨-, -, ⟨hk, -⟩, -⟩
  obtain ⟨base, base', highest', hk⟩ := hk (by decide +kernel)
  have hslot := congrArg Slot.seq hk.fresh
  exact absurd hslot (by decide +kernel)

end Recording

end Rist
