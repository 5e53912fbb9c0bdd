/-
`insert` refines the window.

A buffer of at most 2^14 slots stands for a window (`Refines`), and inserting a
number does to the buffer what inserting the position it stands for does to the
window, outcome included.  The bound on the ring is what makes the wrapped
comparisons right: a window and the jump out of it together span less than half
of the number circle.

The two loops are specified first, each by what it leaves in every slot.  The
gap-marking loop starts from the highest number *before* the flush.  When the
window is not empty that number is kept by a minimal flush and the loop covers
less than one ring.  When the window is drained it is not: the loop then runs over
more positions than there are slots, and the one that shares its slot with the
fresh packet overwrites it.  That is the `overrun` case.
-/
import Rist.Proofs.Reorder.Window

namespace Rist

open Serial

namespace ReorderBuffer

variable {b : ReorderBuffer}

/-! ### Slots by position -/

@[simp] theorem setSlot_capacity (seq : UInt16) (s : Slot) :
    (b.setSlot seq s).capacity = b.capacity := rfl

@[simp] theorem setSlot_baseSeq (seq : UInt16) (s : Slot) :
    (b.setSlot seq s).baseSeq = b.baseSeq := rfl

@[simp] theorem setSlot_highestSeq (seq : UInt16) (s : Slot) :
    (b.setSlot seq s).highestSeq = b.highestSeq := rfl

theorem capacity_pos (b : ReorderBuffer) : 0 < b.capacity := b.slots.capacity_pos

theorem capacity_le (h : b.slots.bits ≤ 14) : b.capacity ≤ 16384 :=
  Nat.pow_le_pow_right (by omega) h

/-- The capacity is read off the ring's bits alone. -/
theorem capacity_of_bits {b' : ReorderBuffer} (h : b'.slots.bits = b.slots.bits) :
    b'.capacity = b.capacity := by
  unfold ReorderBuffer.capacity SlotRing.capacity
  rw [h]

theorem slot_setSlot (hb : b.slots.bits ≤ 14) (p q : Int) (s : Slot) :
    (b.setSlot (UInt16.ofInt p) s).slot (UInt16.ofInt q)
      = if p % (b.capacity : Int) = q % (b.capacity : Int) then s
        else b.slot (UInt16.ofInt q) := by
  have hiff : (UInt16.ofInt p).toNat % b.slots.capacity = (UInt16.ofInt q).toNat % b.slots.capacity
      ↔ p % (b.capacity : Int) = q % (b.capacity : Int) := ofInt_mod_eq_iff (by omega)
  show (b.slots.set _ s).get _ = _
  rw [SlotRing.get_set]
  exact if_congr hiff rfl rfl

theorem slot_setSlot_self (seq : UInt16) (s : Slot) : (b.setSlot seq s).slot seq = s :=
  b.slots.get_set_self seq.toNat s

/-- Positions less than a ring apart do not share a slot. -/
theorem slot_setSlot_ne (hb : b.slots.bits ≤ 14) {p q : Int} (s : Slot) (hne : p ≠ q)
    (h1 : p - q < b.capacity) (h2 : q - p < b.capacity) :
    (b.setSlot (UInt16.ofInt p) s).slot (UInt16.ofInt q) = b.slot (UInt16.ofInt q) := by
  rw [slot_setSlot hb, if_neg]
  exact fun hc => hne (Int.eq_of_emod_eq_of_lt hc h1 h2)

theorem slot_congr (hb : b.slots.bits ≤ 14) {p q : Int}
    (h : p % (b.capacity : Int) = q % (b.capacity : Int)) :
    b.slot (UInt16.ofInt p) = b.slot (UInt16.ofInt q) :=
  b.slots.get_congr ((ofInt_mod_eq_iff (by omega)).mpr h)

/-! ### The gap-marking loop -/

/-- A slot the loop will claim for `q`. -/
def Free (b : ReorderBuffer) (q : Int) : Prop :=
  (b.slot (UInt16.ofInt q)).state = .empty ∨ (b.slot (UInt16.ofInt q)).seq ≠ UInt16.ofInt q

/-- What `n` steps of the loop leave behind, when every slot they meet is free. -/
structure Marked (b b' : ReorderBuffer) (high seq : Int) (now : Instant) (n : Nat) : Prop where
  bits : b'.slots.bits = b.slots.bits
  bufferTime : b'.bufferTime = b.bufferTime
  baseSeq : b'.baseSeq = b.baseSeq
  /-- A slot is as it was, or carries the marker of one of the positions marked. -/
  slots : ∀ x, b'.slot (UInt16.ofInt x) = b.slot (UInt16.ofInt x) ∨
    ∃ q, high < q ∧ q ≤ high + n ∧ q ≠ seq ∧ q % (b.capacity : Int) = x % (b.capacity : Int) ∧
      b'.slot (UInt16.ofInt x) = ⟨UInt16.ofInt q, .gap now⟩
  /-- The last position marked in a slot is the one it carries. -/
  last : ∀ q, high < q → q ≤ high + n → q ≠ seq →
    (∀ x, q < x → x ≤ high + n → x ≠ seq → x % (b.capacity : Int) ≠ q % (b.capacity : Int)) →
    b'.slot (UInt16.ofInt q) = ⟨UInt16.ofInt q, .gap now⟩

theorem Marked.capacity {b b' : ReorderBuffer} {high seq : Int} {now : Instant} {n : Nat}
    (h : Marked b b' high seq now n) : b'.capacity = b.capacity :=
  capacity_of_bits h.bits

/-- Slots no marked position falls on are untouched. -/
theorem Marked.untouched {b b' : ReorderBuffer} {high seq : Int} {now : Instant} {n : Nat}
    (h : Marked b b' high seq now n) {x : Int}
    (hx : ∀ q, high < q → q ≤ high + n → q ≠ seq →
      q % (b.capacity : Int) ≠ x % (b.capacity : Int)) :
    b'.slot (UInt16.ofInt x) = b.slot (UInt16.ofInt x) := by
  rcases h.slots x with hs | ⟨q, h1, h2, h3, h4, -⟩
  · exact hs
  · exact absurd h4 (hx q h1 h2 h3)

/-- One more free position: its slot takes the marker, whatever it held. -/
theorem Marked.step {b b' : ReorderBuffer} {high seq : Int} {now : Instant} {n : Nat}
    (hb : b.slots.bits ≤ 14) (h : Marked b b' high seq now n) (hne : high + n + 1 ≠ seq) :
    Marked b (b'.setSlot (UInt16.ofInt (high + n + 1)) ⟨UInt16.ofInt (high + n + 1), .gap now⟩)
      high seq now (n + 1) := by
  have hb' : b'.slots.bits ≤ 14 := by rw [h.bits]; exact hb
  refine ⟨h.bits, h.bufferTime, h.baseSeq, ?_, ?_⟩
  · intro x
    rw [slot_setSlot hb', h.capacity]
    by_cases hx : (high + n + 1) % (b.capacity : Int) = x % (b.capacity : Int)
    · rw [if_pos hx]
      exact Or.inr ⟨high + n + 1, by omega, by omega, hne, hx, rfl⟩
    · rw [if_neg hx]
      rcases h.slots x with hs | ⟨q, h1, h2, h3, h4, h5⟩
      · exact Or.inl hs
      · exact Or.inr ⟨q, h1, by omega, h3, h4, h5⟩
  · intro q h1 h2 h3 h4
    rw [slot_setSlot hb', h.capacity]
    by_cases hq : q = high + n + 1
    · subst hq
      rw [if_pos rfl]
    · rw [if_neg (h4 (high + n + 1) (by omega) (by omega) hne)]
      exact h.last q h1 (by omega) h3 fun x hx1 hx2 => h4 x hx1 (by omega)

/-- A step that skips the packet's own number marks nothing. -/
theorem Marked.skip {b b' : ReorderBuffer} {high seq : Int} {now : Instant} {n : Nat}
    (h : Marked b b' high seq now n) (heq : high + n + 1 = seq) :
    Marked b b' high seq now (n + 1) := by
  refine ⟨h.bits, h.bufferTime, h.baseSeq, ?_, ?_⟩
  · intro x
    rcases h.slots x with hs | ⟨q, h1, h2, h3, h4, h5⟩
    · exact Or.inl hs
    · exact Or.inr ⟨q, h1, by omega, h3, h4, h5⟩
  · intro q h1 h2 h3 h4
    exact h.last q h1 (by omega) h3 fun x hx1 hx2 => h4 x hx1 (by omega)

theorem ofInt_add_ofNat (p : Int) {n : Nat} (h : n < 65536) :
    UInt16.ofInt p + UInt16.ofNat n = UInt16.ofInt (p + n) := by
  rw [ofInt_add, ofNat_toNat_of_lt h]

/-- **The gap-marking loop.**  Every position it passes is marked and counted, the
packet's own excepted. -/
theorem markGaps_spec (hb : b.slots.bits ≤ 14) {high seq : Int} (hlt : high < seq)
    (hspan : seq - high < 65536) (now : Instant) :
    ∀ n : Nat, high + n ≤ seq →
      (∀ q, high < q → q ≤ high + n → q ≠ seq → Free b q) →
      Marked b (b.markGaps (UInt16.ofInt high) (UInt16.ofInt seq) now n).1 high seq now n ∧
      ((b.markGaps (UInt16.ofInt high) (UInt16.ofInt seq) now n).2 : Int)
        = if high + n < seq then (n : Int) else seq - high - 1 := by
  intro n
  induction n with
  | zero =>
      intro _ _
      refine ⟨⟨rfl, rfl, rfl, fun x => Or.inl rfl, fun q h1 h2 => by omega⟩, ?_⟩
      simp only [markGaps]
      split <;> omega
  | succ n ih =>
      intro hle hfree
      obtain ⟨hm, hcount⟩ := ih (by omega) (fun q h1 h2 => hfree q h1 (by omega))
      have hq : UInt16.ofInt high + UInt16.ofNat (n + 1) = UInt16.ofInt (high + n + 1) := by
        rw [ofInt_add_ofNat high (by omega)]
        congr 1
        omega
      rw [if_pos (by omega)] at hcount
      simp only [markGaps, hq]
      by_cases hself : high + n + 1 = seq
      · rw [if_pos (by rw [hself]), if_neg (by omega)]
        exact ⟨hm.skip hself, by omega⟩
      · -- the slot met is free: it is as it was, or carries an earlier marker
        have hfree' : Free (b.markGaps (UInt16.ofInt high) (UInt16.ofInt seq) now n).1
            (high + n + 1) := by
          rcases hm.slots (high + n + 1) with hs | ⟨q, h1, h2, h3, h4, h5⟩
          · unfold Free
            rw [hs]
            exact hfree (high + n + 1) (by omega) (by omega) hself
          · refine Or.inr ?_
            rw [h5]
            exact ofInt_ne (by omega) (by omega) (by omega)
        unfold Free at hfree'
        rw [if_neg (ofInt_ne (by omega) (by omega) hself), if_pos hfree',
          if_pos (by push_cast; omega)]
        exact ⟨hm.step hb hself, by push_cast; omega⟩

/-- `extend` with a number ahead of the highest marks everything in between. -/
theorem extend_spec (hb : b.slots.bits ≤ 14) (high p : Int) (hlt : high < p)
    (hspan : p - high < 32768) (now : Instant) (o : InsertOutcome)
    (hfree : ∀ q, high < q → q < p → Free b q) :
    Marked b (b.extend (UInt16.ofInt high) (UInt16.ofInt p) now o).1 high p now
      (p - high).toNat ∧
    (b.extend (UInt16.ofInt high) (UInt16.ofInt p) now o).1.highestSeq
      = some (UInt16.ofInt p) ∧
    (b.extend (UInt16.ofInt high) (UInt16.ofInt p) now o).2
      = { o with newGaps := o.newGaps + (p - high - 1).toNat } := by
  have hdiff : (UInt16.ofInt p - UInt16.ofInt high).toNat = (p - high).toNat := by
    have := toNat_sub_ofInt (p := p) (q := high) (by omega) (by omega)
    omega
  have hsigned : asI16 (UInt16.ofInt p - UInt16.ofInt high) = p - high :=
    asI16_sub_ofInt (by omega) (by omega)
  obtain ⟨hm, hcount⟩ := markGaps_spec hb hlt (by omega) now (p - high).toNat (by omega)
    (fun q h1 h2 h3 => hfree q h1 (by omega))
  rw [if_neg (by omega)] at hcount
  unfold extend
  rw [hsigned, if_pos (by omega), hdiff]
  refine ⟨⟨hm.bits, hm.bufferTime, hm.baseSeq, hm.slots, hm.last⟩, rfl, ?_⟩
  show ({ o with newGaps := o.newGaps + (b.markGaps _ _ now _).2 } : InsertOutcome) = _
  congr 2
  omega

/-! ### The flush loop -/

/-- What the flush loop has done to `b` after the first `n` positions from `base` on. -/
structure Flushed (b b' : ReorderBuffer) (base : Int) (n : Nat) : Prop where
  bits : b'.slots.bits = b.slots.bits
  bufferTime : b'.bufferTime = b.bufferTime
  highestSeq : b'.highestSeq = b.highestSeq
  cleared : ∀ q, base ≤ q → q < base + n → b'.slot (UInt16.ofInt q) = Slot.cleared
  kept : ∀ q, base + n ≤ q → q < base + b.capacity →
    b'.slot (UInt16.ofInt q) = b.slot (UInt16.ofInt q)

/-- One more position, while the loop has not been once around the ring. -/
theorem Flushed.step {b b' : ReorderBuffer} {base : Int} {n : Nat} (hb : b.slots.bits ≤ 14)
    (h : Flushed b b' base n) (hn : n < b.capacity) :
    Flushed b (b'.setSlot (UInt16.ofInt (base + n)) Slot.cleared) base (n + 1) := by
  have hbits : b'.slots.bits ≤ 14 := by rw [h.bits]; exact hb
  have hcap : b'.capacity = b.capacity := capacity_of_bits h.bits
  refine ⟨h.bits, h.bufferTime, h.highestSeq, ?_, ?_⟩
  · intro q h1 h2
    by_cases hq : q = base + n
    · rw [hq]
      exact slot_setSlot_self _ _
    · rw [slot_setSlot_ne hbits Slot.cleared (fun h => hq h.symm) (by omega) (by omega)]
      exact h.cleared q h1 (by push_cast at h2; omega)
  · intro q h1 h2
    push_cast at h1
    rw [slot_setSlot_ne hbits Slot.cleared (by omega) (by omega) (by omega)]
    exact h.kept q (by omega) h2

/-- One more position is counted when it satisfies the predicate. -/
theorem card_filter_Ico_succ (p : Int → Prop) [DecidablePred p] (base : Int) (n : Nat) :
    ((Finset.Ico base (base + ((n + 1 : Nat) : Int))).filter p).card
      = ((Finset.Ico base (base + n)).filter p).card + if p (base + n) then 1 else 0 := by
  have hico : Finset.Ico base (base + ((n + 1 : Nat) : Int))
      = Insert.insert (base + (n : Int)) (Finset.Ico base (base + n)) := by
    ext q
    simp only [Finset.mem_insert, Finset.mem_Ico]
    omega
  rw [hico, Finset.filter_insert]
  split
  · exact Finset.card_insert_of_notMem (by simp)
  · rfl

/-- **The flush loop.**  The slots it passes are cleared, and it counts the packets
it drops, provided it meets no packet under another number. -/
theorem flushOldest_spec (hb : b.slots.bits ≤ 14) (base : Int) :
    ∀ n : Nat, n ≤ b.capacity →
      (∀ q, base ≤ q → q < base + n → (b.slot (UInt16.ofInt q)).state.isFilled = true →
        (b.slot (UInt16.ofInt q)).seq = UInt16.ofInt q) →
      Flushed b (b.flushOldest (UInt16.ofInt base) n).1 base n ∧
      (b.flushOldest (UInt16.ofInt base) n).2
        = ((Finset.Ico base (base + n)).filter fun q =>
            (b.slot (UInt16.ofInt q)).state.isFilled = true).card := by
  intro n
  induction n with
  | zero =>
      intro _ _
      refine ⟨⟨rfl, rfl, rfl, fun q h1 h2 => by omega, fun q _ _ => rfl⟩, ?_⟩
      simp [flushOldest]
  | succ n ih =>
      intro hn hown
      obtain ⟨hflushed, hcount⟩ := ih (by omega) (fun q h1 h2 => hown q h1 (by omega))
      have hcap := capacity_le hb
      have hs : UInt16.ofInt base + UInt16.ofNat n = UInt16.ofInt (base + n) :=
        ofInt_add_ofNat base (by omega)
      simp only [flushOldest, hs]
      refine ⟨hflushed.step hb (by omega), ?_⟩
      -- the slot is as it was, and a packet in it is its own
      rw [hflushed.kept (base + n) (by omega) (by omega), card_filter_Ico_succ, hcount]
      by_cases hf : (b.slot (UInt16.ofInt (base + n))).state.isFilled = true
      · rw [if_pos ⟨hown (base + n) (by omega) (by push_cast; omega) hf, hf⟩, if_pos hf]
      · rw [if_neg (fun h => hf h.2), if_neg hf, Nat.add_zero]

/-! ### The first packet, stale packets and duplicates -/

theorem insert_of_none (hnone : b.baseSeq = none ∨ b.highestSeq = none) (seq : UInt16)
    (data : Bytes) (now : Instant) : b.insert seq data now = (b.anchor seq data now, {}) := by
  unfold ReorderBuffer.insert
  rcases hnone with hc | hc
  · rw [hc]
  · rw [hc]
    cases b.baseSeq <;> rfl

theorem insert_of_stale {base highest : UInt16} (hbase : b.baseSeq = some base)
    (hhigh : b.highestSeq = some highest) {seq : UInt16} (hstale : asI16 (seq - base) < 0)
    (data : Bytes) (now : Instant) : b.insert seq data now = (b, { stale := true }) := by
  unfold ReorderBuffer.insert
  simp only [hbase, hhigh, if_pos hstale]

/-- The packet with this number has been put in, and neither delivered nor flushed. -/
def Holds (b : ReorderBuffer) (seq : UInt16) : Prop :=
  (b.slot seq).seq = seq ∧ (b.slot seq).state.isFilled = true

instance (b : ReorderBuffer) (seq : UInt16) : Decidable (b.Holds seq) :=
  inferInstanceAs (Decidable (_ ∧ _))

/-! ### Ring size and hold time never change -/

/-- Two buffers with the same ring size and hold time. -/
def SameShape (b b' : ReorderBuffer) : Prop :=
  b'.slots.bits = b.slots.bits ∧ b'.bufferTime = b.bufferTime

theorem markGaps_shape (highest seq : UInt16) (now : Instant) (n : Nat) :
    SameShape b (b.markGaps highest seq now n).1 := by
  induction n with
  | zero => exact ⟨rfl, rfl⟩
  | succ n ih =>
      simp only [markGaps]
      split
      · exact ih
      · split <;> exact ih

theorem extend_shape (highest seq : UInt16) (now : Instant) (o : InsertOutcome) :
    SameShape b (b.extend highest seq now o).1 := by
  unfold extend
  split
  · exact markGaps_shape (b := b) highest seq now _
  · exact ⟨rfl, rfl⟩

theorem place_shape (highest seq : UInt16) (data : Bytes) (now : Instant) (o : InsertOutcome) :
    SameShape b (b.place highest seq data now o).1 := by
  have hext : ∀ o', SameShape b ((b.setSlot seq ⟨seq, .filled data now⟩).extend highest seq now
      o').1 := extend_shape (b := b.setSlot seq ⟨seq, .filled data now⟩) highest seq now
  unfold place
  split
  · split
    · exact ⟨rfl, rfl⟩
    · exact hext _
    · exact hext _
  · exact hext _

theorem flushOldest_shape (base : UInt16) (n : Nat) :
    SameShape b (b.flushOldest base n).1 := by
  induction n with
  | zero => exact ⟨rfl, rfl⟩
  | succ n ih => exact ih

theorem insert_shape (seq : UInt16) (data : Bytes) (now : Instant) :
    SameShape b (b.insert seq data now).1 := by
  unfold ReorderBuffer.insert
  split
  · rename_i base highest _ _
    split
    · exact ⟨rfl, rfl⟩
    · split
      · simp only
        split
        · exact ⟨rfl, rfl⟩
        · obtain ⟨h1, h2⟩ := flushOldest_shape (b := b) base
            (seq - base - b.aheadCapacity).toNat
          obtain ⟨h3, h4⟩ := place_shape (b := { (b.flushOldest base
            (seq - base - b.aheadCapacity).toNat).1 with
              baseSeq := some (base + (seq - base - b.aheadCapacity)) })
            highest seq data now
            { overflowFlushed := (b.flushOldest base (seq - base - b.aheadCapacity).toNat).2 }
          exact ⟨h3.trans h1, h4.trans h2⟩
      · exact place_shape (b := b) highest seq data now {}
  · exact ⟨rfl, rfl⟩

theorem SameShape.capacity {b b' : ReorderBuffer} (h : SameShape b b') :
    b'.capacity = b.capacity :=
  capacity_of_bits h.1

/-! ### The refinement relation -/

/-- The buffer stands for the window: same ends, and slot by slot the same cells. -/
structure Refines (b : ReorderBuffer) (w : Window) : Prop where
  bits : b.slots.bits ≤ 14
  wf : w.WF b.capacity
  base : b.baseSeq = some (UInt16.ofInt w.base)
  high : b.highestSeq = some (UInt16.ofInt w.high)
  cells : ∀ p, w.base ≤ p → p < w.base + b.capacity →
    (w.cell p).Shows (UInt16.ofInt p) (b.slot (UInt16.ofInt p))

variable {w : Window}

theorem emod_ne_of_near {c p q : Int} (hne : p ≠ q) (h1 : p - q < c) (h2 : q - p < c) :
    p % c ≠ q % c :=
  fun hc => hne (Int.eq_of_emod_eq_of_lt hc h1 h2)

theorem slot_eq_get (hb : b.slots.bits ≤ 14) (p : Int) :
    b.slot (UInt16.ofInt p) = b.slots.get (p % (b.slots.capacity : Int)).toNat := by
  refine b.slots.get_congr ?_
  have hcap : (0 : Int) < b.slots.capacity := by exact_mod_cast b.slots.capacity_pos
  have h1 := Int.emod_nonneg p (ne_of_gt hcap)
  have h2 := Int.emod_lt_of_pos p hcap
  have h3 : (((UInt16.ofInt p).toNat % b.slots.capacity : Nat) : Int)
      = p % (b.slots.capacity : Int) := ofInt_mod_two_pow (by omega) p
  rw [Nat.mod_eq_of_lt (show (p % (b.slots.capacity : Int)).toNat < b.slots.capacity by omega)]
  omega

/-- The ring holds as many packets as the window. -/
theorem Refines.filledCount (h : Refines b w) :
    b.filledCount = w.filledIn w.base (w.base + b.capacity) := by
  unfold ReorderBuffer.filledCount Window.filledIn
  rw [SlotRing.count_eq_card _ _ w.base]
  congr 1
  refine Finset.filter_congr fun p hp => ?_
  obtain ⟨h1, h2⟩ := Finset.mem_Ico.mp hp
  rw [← slot_eq_get h.bits p, (h.cells p h1 h2).isFilled]

/-- Writing a packet into a position the window covers. -/
theorem Refines.fill (h : Refines b w) {p : Int} (h1 : w.base ≤ p) (h2 : p ≤ w.high)
    (data : Bytes) (now : Instant) :
    Refines (b.setSlot (UInt16.ofInt p) ⟨UInt16.ofInt p, .filled data now⟩)
      (w.fill p data now) := by
  have hlt := h.wf.high_lt
  refine ⟨h.bits, Window.fill_wf h.wf h1 h2 data now, h.base, h.high, ?_⟩
  intro q hq1 hq2
  simp only [Window.fill, setSlot_capacity] at hq1 hq2 ⊢
  by_cases hqp : q = p
  · subst hqp
    rw [Function.update_self, slot_setSlot_self]
    rfl
  · rw [Function.update_of_ne hqp, slot_setSlot_ne h.bits _ (fun hc => hqp hc.symm)
      (by omega) (by omega)]
    exact h.cells q hq1 hq2

/-- Writing a packet past the end, then marking the gap. -/
theorem Refines.reach (h : Refines b w) {p : Int} (h1 : w.high < p)
    (h2 : p < w.base + b.capacity) (data : Bytes) (now : Instant) (o : InsertOutcome) :
    Refines ((b.setSlot (UInt16.ofInt p) ⟨UInt16.ofInt p, .filled data now⟩).extend
        (UInt16.ofInt w.high) (UInt16.ofInt p) now o).1 (w.reach p data now) ∧
    ((b.setSlot (UInt16.ofInt p) ⟨UInt16.ofInt p, .filled data now⟩).extend
        (UInt16.ofInt w.high) (UInt16.ofInt p) now o).2
      = { o with newGaps := o.newGaps + (p - w.high - 1).toNat } := by
  have hcap := capacity_le h.bits
  have hbase := h.wf.base_le
  set b₀ := b.setSlot (UInt16.ofInt p) ⟨UInt16.ofInt p, .filled data now⟩ with hb₀
  have hcap₀ : b₀.capacity = b.capacity := rfl
  -- between the old end and the packet every slot is still empty
  have hfree : ∀ q, w.high < q → q < p → Free b₀ q := by
    intro q hq1 hq2
    refine Or.inl ?_
    rw [hb₀, slot_setSlot_ne h.bits _ (by omega) (by omega) (by omega)]
    have hc := h.cells q (by omega) (by omega)
    rwa [h.wf.outside q (Or.inr hq1)] at hc
  obtain ⟨hm, hhigh, ho⟩ := extend_spec (b := b₀) h.bits _ _ h1 (by omega) now o hfree
  set b' := (b₀.extend (UInt16.ofInt w.high) (UInt16.ofInt p) now o).1 with hb'
  have hcap' : b'.capacity = b.capacity := hm.capacity
  refine ⟨⟨by rw [hm.bits]; exact h.bits, ?_, by rw [hm.baseSeq]; exact h.base, hhigh, ?_⟩, ho⟩
  · rw [hcap']
    exact Window.reach_wf h.wf h1 h2 data now
  · intro q hq1 hq2
    rw [hcap'] at hq2
    simp only [Window.reach] at hq1 hq2 ⊢
    by_cases hqp : q = p
    · subst hqp
      rw [if_pos rfl, hm.untouched, hb₀, slot_setSlot_self]
      · rfl
      · intro x hx1 hx2 hx3
        rw [hcap₀]
        exact emod_ne_of_near hx3 (by omega) (by omega)
    · rw [if_neg hqp]
      by_cases hgap : w.high < q ∧ q < p
      · rw [if_pos hgap, hm.last q hgap.1 (by omega) hqp]
        · rfl
        · intro x hx1 hx2 hx3
          rw [hcap₀]
          exact emod_ne_of_near (by omega) (by omega) (by omega)
      · rw [if_neg hgap, hm.untouched, hb₀,
          slot_setSlot_ne h.bits _ (fun hc => hqp hc.symm) (by omega) (by omega)]
        · exact h.cells q hq1 hq2
        · intro x hx1 hx2 hx3
          rw [hcap₀]
          exact emod_ne_of_near (by omega) (by omega) (by omega)

/-- A packet inside the window, or just past its end. -/
theorem Refines.place (h : Refines b w) {p : Int} (h1 : w.base ≤ p)
    (h2 : p < w.base + b.capacity) (data : Bytes) (now : Instant) (o : InsertOutcome) :
    Refines (b.place (UInt16.ofInt w.high) (UInt16.ofInt p) data now o).1
      (w.place p data now o).1 ∧
    (b.place (UInt16.ofInt w.high) (UInt16.ofInt p) data now o).2 = (w.place p data now o).2 := by
  have hcap := capacity_le h.bits
  have hc := h.cells p h1 h2
  by_cases hp : p ≤ w.high
  · -- the window does not grow, so `extend` does nothing
    have hlt := h.wf.high_lt
    have hback : ∀ (b' : ReorderBuffer) (o' : InsertOutcome),
        b'.extend (UInt16.ofInt w.high) (UInt16.ofInt p) now o' = (b', o') := by
      intro b' o'
      unfold extend
      rw [asI16_sub_ofInt (by omega) (by omega), if_neg (by omega)]
    unfold Window.place ReorderBuffer.place
    rw [if_pos hp]
    cases hcell : w.cell p with
    | empty => exact absurd hcell (h.wf.inside p h1 hp)
    | filled d a =>
        rw [hcell] at hc
        rw [show b.slot (UInt16.ofInt p) = ⟨UInt16.ofInt p, .filled d a⟩ from hc]
        simp only [if_true, and_true]
        exact h
    | gap t =>
        rw [hcell] at hc
        rw [show b.slot (UInt16.ofInt p) = ⟨UInt16.ofInt p, .gap t⟩ from hc]
        simp only [if_true, hback, and_true]
        exact h.fill h1 hp data now
    | hole =>
        rw [hcell] at hc
        rw [if_neg hc.1, hback]
        exact ⟨h.fill h1 hp data now, rfl⟩
  · -- a fresh position: its slot is empty, whatever number it carries
    have hempty : (b.slot (UInt16.ofInt p)).state = .empty := by
      rwa [h.wf.outside p (Or.inr (by omega))] at hc
    have hplace : b.place (UInt16.ofInt w.high) (UInt16.ofInt p) data now o
        = (b.setSlot (UInt16.ofInt p) ⟨UInt16.ofInt p, .filled data now⟩).extend
            (UInt16.ofInt w.high) (UInt16.ofInt p) now o := by
      unfold ReorderBuffer.place
      rw [hempty]
      simp
    have hw : w.place p data now o
        = (w.reach p data now, { o with newGaps := o.newGaps + (p - w.high - 1).toNat }) := by
      unfold Window.place
      rw [if_neg hp]
    rw [hplace, hw]
    exact h.reach (by omega) h2 data now o

/-! ### Overflow -/

theorem anchor_refines {b : ReorderBuffer} (hb : b.slots.bits ≤ 14)
    (hempty : ∀ q, (b.slot (UInt16.ofInt q)).state = .empty) (p : Int) (data : Bytes)
    (now : Instant) : Refines (b.anchor (UInt16.ofInt p) data now) (Window.anchor p data now) := by
  have hpos : (0 : Int) < b.capacity := by exact_mod_cast b.capacity_pos
  refine ⟨hb, Window.anchor_wf hpos p data now, rfl, rfl, ?_⟩
  intro q hq1 hq2
  replace hq2 : q < p + b.capacity := hq2
  show Cell.Shows _ _ ((b.setSlot _ _).slot _)
  simp only [Window.anchor] at hq1 ⊢
  by_cases hqp : q = p
  · subst hqp
    rw [if_pos rfl, slot_setSlot_self]
    rfl
  · rw [if_neg hqp, slot_setSlot_ne hb _ (fun hc => hqp hc.symm) (by omega) (by omega)]
    exact hempty q

theorem clearAll_slot (b : ReorderBuffer) (seq : UInt16) : b.clearAll.slot seq = Slot.cleared :=
  SlotRing.get_replicate _ _ _

theorem reset_refines (hb : b.slots.bits ≤ 14) (p : Int) (data : Bytes) (now : Instant) :
    Refines (b.clearAll.anchor (UInt16.ofInt p) data now) (Window.anchor p data now) := by
  refine anchor_refines (b := b.clearAll) hb (fun q => ?_) p data now
  rw [clearAll_slot]
  rfl

/-- The buffer after the flush loop, with its base moved. -/
theorem Refines.slide (h : Refines b w) (lo : Int) (h1 : w.base ≤ lo) (h2 : lo ≤ w.high + 1) :
    Refines { (b.flushOldest (UInt16.ofInt w.base) (lo - w.base).toNat).1 with
        baseSeq := some (UInt16.ofInt lo) } (w.slide lo) ∧
    (b.flushOldest (UInt16.ofInt w.base) (lo - w.base).toNat).2 = w.filledIn w.base lo := by
  have hlt := h.wf.high_lt
  have hend : w.base + ((lo - w.base).toNat : Int) = lo := by omega
  obtain ⟨⟨hbits, -, hhigh, hclear, hkeep⟩, hcount⟩ := flushOldest_spec (b := b) h.bits w.base
    (lo - w.base).toNat (by omega)
    (fun q hq1 hq2 hf => (h.cells q hq1 (by omega)).seq_eq hf)
  rw [hend] at hclear hkeep hcount
  set b₁ := (b.flushOldest (UInt16.ofInt w.base) (lo - w.base).toNat).1 with hb₁
  have hcap₁ : b₁.capacity = b.capacity := capacity_of_bits hbits
  have hb₁bits : b₁.slots.bits ≤ 14 := by rw [hbits]; exact h.bits
  refine ⟨⟨hb₁bits, ?_, rfl, ?_, ?_⟩, ?_⟩
  · show Window.WF (b₁.capacity) _
    rw [hcap₁]
    exact Window.slide_wf h.wf h1 h2
  · show b₁.highestSeq = _
    rw [hhigh]
    exact h.high
  · intro q hq1 hq2
    replace hq1 : lo ≤ q := hq1
    replace hq2 : q < lo + b.capacity := by
      rw [← hcap₁]
      exact hq2
    show Cell.Shows _ _ (b₁.slot _)
    simp only [Window.slide]
    rw [if_neg (by omega)]
    rcases lt_or_ge q (w.base + b.capacity) with hq | hq
    · rw [hkeep q hq1 hq]
      exact h.cells q (by omega) hq
    · -- past the old ring: the slot was one of the flushed ones
      have hmod : q % (b₁.capacity : Int) = (q - b.capacity) % (b₁.capacity : Int) := by
        rw [hcap₁, Int.sub_emod_right]
      rw [slot_congr hb₁bits hmod, hclear (q - b.capacity) (by omega) (by omega),
        h.wf.outside q (Or.inr (by omega))]
      rfl
  · rw [hcount]
    unfold Window.filledIn
    congr 1
    refine Finset.filter_congr fun q hq => ?_
    obtain ⟨hq1, hq2⟩ := Finset.mem_Ico.mp hq
    rw [(h.cells q hq1 (by omega)).isFilled]

/-- A jump out of a drained window by less than a ring.  The gap marker of the
position one ring below the packet lands on the packet's own slot. -/
theorem overrun_refines {b : ReorderBuffer} (hb : b.slots.bits ≤ 14)
    (hempty : ∀ q, (b.slot (UInt16.ofInt q)).state = .empty) (base p : Int) {lo : UInt16}
    (hbase : b.baseSeq = some lo) (hlo : lo = UInt16.ofInt (p - (b.capacity - 1)))
    (h1 : base + b.capacity ≤ p) (h2 : p - (b.capacity - 1) < base + b.capacity)
    (data : Bytes) (now : Instant) :
    Refines (b.place (UInt16.ofInt (base - 1)) (UInt16.ofInt p) data now {}).1
      (Window.overrun (p - (b.capacity - 1)) p now) ∧
    (b.place (UInt16.ofInt (base - 1)) (UInt16.ofInt p) data now {}).2
      = { newGaps := (p - base).toNat } := by
  have hcap := capacity_le hb
  have hpos : (0 : Int) < b.capacity := by exact_mod_cast b.capacity_pos
  set b₀ := b.setSlot (UInt16.ofInt p) ⟨UInt16.ofInt p, .filled data now⟩ with hb₀
  have hplace : b.place (UInt16.ofInt (base - 1)) (UInt16.ofInt p) data now {}
      = b₀.extend (UInt16.ofInt (base - 1)) (UInt16.ofInt p) now {} := by
    unfold ReorderBuffer.place
    rw [hempty]
    simp [hb₀]
  have hcap₀ : b₀.capacity = b.capacity := rfl
  have hfree : ∀ q, base - 1 < q → q < p → Free b₀ q := by
    intro q hq1 hq2
    unfold Free
    rw [hb₀, slot_setSlot hb]
    split
    · exact Or.inr (ofInt_ne (by omega) (by omega) (by omega))
    · exact Or.inl (hempty q)
  obtain ⟨hm, hhigh, ho⟩ := extend_spec (b := b₀) hb (base - 1) p (by omega)
    (by omega) now {} hfree
  rw [hplace]
  set b' := (b₀.extend (UInt16.ofInt (base - 1)) (UInt16.ofInt p) now {}).1 with hb'
  have hcap' : b'.capacity = b.capacity := hm.capacity
  have hbits' : b'.slots.bits ≤ 14 := by rw [hm.bits]; exact hb
  refine ⟨⟨hbits', ?_, ?_, hhigh, ?_⟩, ?_⟩
  · rw [hcap']
    exact Window.overrun_wf (by omega) (by omega) now
  · rw [hm.baseSeq, hb₀, setSlot_baseSeq, hbase, hlo]
    rfl
  · intro q hq1 hq2
    rw [hcap'] at hq2
    simp only [Window.overrun] at hq1 hq2 ⊢
    by_cases hqp : q = p
    · -- the last marker in the packet's slot is the one a ring below it
      subst hqp
      have hmod : (q - b.capacity) % (b.capacity : Int) = q % (b.capacity : Int) :=
        Int.sub_emod_right _ _
      have hslot : b'.slot (UInt16.ofInt (q - b.capacity))
          = ⟨UInt16.ofInt (q - b.capacity), .gap now⟩ := by
        refine hm.last (q - b.capacity) (by omega) (by omega) (by omega) ?_
        intro x hx1 hx2 hx3
        rw [hcap₀, hmod]
        exact emod_ne_of_near hx3 (by omega) (by omega)
      have hsame : b'.slot (UInt16.ofInt (q - b.capacity)) = b'.slot (UInt16.ofInt q) :=
        slot_congr hbits' (by rw [hcap']; exact hmod)
      rw [if_pos rfl, ← hsame, hslot]
      exact ⟨ofInt_ne (by omega) (by omega) (by omega), now, rfl⟩
    · rw [if_neg hqp, if_pos (by omega), hm.last q (by omega) (by omega) hqp]
      · rfl
      · intro x hx1 hx2 hx3
        rw [hcap₀]
        exact emod_ne_of_near (by omega) (by omega) (by omega)
  · rw [ho, show base - 1 = base + -1 from rfl, show p - (base + -1) - 1 = p - base by omega]
    simp

/-! ### Insert -/

theorem aheadCapacity_toNat (hb : b.slots.bits ≤ 14) :
    (b.aheadCapacity.toNat : Int) = b.capacity - 1 := by
  have hcap := capacity_le hb
  have hpos := b.capacity_pos
  unfold aheadCapacity
  rw [Serial.toNat_sub, ofNat_toNat_of_lt (by omega)]
  show ((b.capacity : Int) - ((1 : Nat) : Int)) % 65536 = _
  omega

/-- Every slot shows a position of the ring that starts at the base. -/
theorem Refines.shows (h : Refines b w) (q : Int) :
    ∃ p, w.base ≤ p ∧ p < w.base + b.capacity ∧
      (w.cell p).Shows (UInt16.ofInt p) (b.slot (UInt16.ofInt q)) := by
  have hpos : (0 : Int) < b.capacity := by exact_mod_cast b.capacity_pos
  have h1 := Int.emod_nonneg (q - w.base) (ne_of_gt hpos)
  have h2 := Int.emod_lt_of_pos (q - w.base) hpos
  have hmod : q % (b.capacity : Int)
      = (w.base + (q - w.base) % (b.capacity : Int)) % (b.capacity : Int) := by
    rw [Int.add_emod_emod, add_sub_cancel]
  refine ⟨w.base + (q - w.base) % (b.capacity : Int), by omega, by omega, ?_⟩
  rw [slot_congr h.bits hmod]
  exact h.cells _ (by omega) (by omega)

/-- A drained window holds nothing anywhere in the ring. -/
theorem Refines.drained_empty (h : Refines b w) (hd : w.high < w.base) (q : Int) :
    (b.slot (UInt16.ofInt q)).state = .empty := by
  obtain ⟨p, h1, -, hshows⟩ := h.shows q
  rwa [h.wf.outside p (Or.inr (by omega))] at hshows

/-- Flushing a ring that holds nothing counts nothing and leaves it holding nothing. -/
theorem flushOldest_of_empty (hb : b.slots.bits ≤ 14)
    (hempty : ∀ q, (b.slot (UInt16.ofInt q)).state = .empty) (base : Int) :
    ∀ n : Nat, n < 65536 →
      (b.flushOldest (UInt16.ofInt base) n).1.slots.bits = b.slots.bits ∧
      (∀ q, ((b.flushOldest (UInt16.ofInt base) n).1.slot (UInt16.ofInt q)).state = .empty) ∧
      (b.flushOldest (UInt16.ofInt base) n).2 = 0 := by
  intro n
  induction n with
  | zero => intro _; exact ⟨rfl, hempty, rfl⟩
  | succ n ih =>
      intro hn
      obtain ⟨hbits, hslots, hcount⟩ := ih (by omega)
      rw [flushOldest]
      simp only [ofInt_add_ofNat base (show n < 65536 by omega), hcount, hslots]
      refine ⟨hbits, fun q => ?_, by simp [SlotState.isFilled]⟩
      rw [slot_setSlot (by rw [hbits]; exact hb)]
      split
      · rfl
      · exact hslots q

/-- The overflow branch out of a drained window: the flush meets only empty slots,
and the packet is lost to the gap loop. -/
theorem Refines.overrun (h : Refines b w) (hd : w.high < w.base) (lo p : Int)
    (hlo : lo = p - ((b.capacity : Int) - 1)) (h1 : w.base + b.capacity ≤ p)
    (h2 : lo < w.base + b.capacity) (data : Bytes) (now : Instant) :
    Refines ((({ (b.flushOldest (UInt16.ofInt w.base) (lo - w.base).toNat).1 with
        baseSeq := some (UInt16.ofInt lo) } : ReorderBuffer).place (UInt16.ofInt (w.base - 1))
        (UInt16.ofInt p) data now
        { overflowFlushed := (b.flushOldest (UInt16.ofInt w.base) (lo - w.base).toNat).2 }).1)
      (Window.overrun lo p now) ∧
    (({ (b.flushOldest (UInt16.ofInt w.base) (lo - w.base).toNat).1 with
        baseSeq := some (UInt16.ofInt lo) } : ReorderBuffer).place (UInt16.ofInt (w.base - 1))
        (UInt16.ofInt p) data now
        { overflowFlushed := (b.flushOldest (UInt16.ofInt w.base) (lo - w.base).toNat).2 }).2
      = { newGaps := (p - w.base).toNat } := by
  have hcap := capacity_le h.bits
  obtain ⟨hbits, hslots, hcount⟩ := flushOldest_of_empty h.bits (h.drained_empty hd) w.base
    (lo - w.base).toNat (by omega)
  have hcap₁ := (flushOldest_shape (b := b) (UInt16.ofInt w.base) (lo - w.base).toNat).capacity
  set b₁ : ReorderBuffer := { (b.flushOldest (UInt16.ofInt w.base) (lo - w.base).toNat).1 with
    baseSeq := some (UInt16.ofInt lo) } with hb₁
  have hcapb₁ : b₁.capacity = b.capacity := hcap₁
  have hlo₁ : lo = p - ((b₁.capacity : Int) - 1) := by rw [hcapb₁]; exact hlo
  have hbits₁ : b₁.slots.bits ≤ 14 := le_of_eq_of_le hbits h.bits
  have hdone := overrun_refines (b := b₁) hbits₁ hslots w.base p rfl
    (by rw [← hlo₁]) (by rw [hcapb₁]; exact h1) (by rw [← hlo₁, hcapb₁]; exact h2)
    data now
  rw [← hlo₁] at hdone
  rw [hcount]
  exact hdone

/-- **`insert` refines the window.**  The position is the one the number stands for
as seen from the base. -/
theorem insert_refines (h : Refines b w) (seq : UInt16) (data : Bytes) (now : Instant) :
    Refines (b.insert seq data now).1
      (w.insert b.capacity (near w.base seq) data now).1 ∧
    (b.insert seq data now).2 = (w.insert b.capacity (near w.base seq) data now).2 := by
  have hcap := capacity_le h.bits
  have hpos : (0 : Int) < b.capacity := by exact_mod_cast b.capacity_pos
  obtain ⟨hlo, hhi⟩ := near_bounds w.base seq
  have hseq := ofInt_near w.base seq
  set p := near w.base seq with hp
  rw [← hseq]
  have hsigned : asI16 (UInt16.ofInt p - UInt16.ofInt w.base) = p - w.base :=
    asI16_sub_ofInt hlo hhi
  have hahead := aheadCapacity_toNat h.bits
  have hwlo := h.wf.base_le
  have hwhi := h.wf.high_lt
  unfold ReorderBuffer.insert Window.insert
  rw [h.base, h.high]
  simp only [hsigned]
  by_cases hstale : p < w.base
  · rw [if_pos (by omega), if_pos hstale]
    exact ⟨h, rfl⟩
  rw [if_neg (by omega), if_neg hstale]
  have hdist : ((UInt16.ofInt p - UInt16.ofInt w.base).toNat : Int) = p - w.base :=
    toNat_sub_ofInt (by omega) (by omega)
  by_cases hin : p < w.base + b.capacity
  · rw [if_neg (by rw [UInt16.lt_iff_toNat_lt]; omega), if_pos hin]
    exact h.place (by omega) hin data now {}
  rw [if_pos (by rw [UInt16.lt_iff_toNat_lt]; omega), if_neg hin]
  -- the overflow branch: `advance` is how far the base has to move
  set lo := p - ((b.capacity : Int) - 1) with hlodef
  have hadv : (((UInt16.ofInt p - UInt16.ofInt w.base) - b.aheadCapacity).toNat : Int)
      = lo - w.base := by
    rw [Serial.toNat_sub, hdist, hahead]
    omega
  have hadvNat : ((UInt16.ofInt p - UInt16.ofInt w.base) - b.aheadCapacity).toNat
      = (lo - w.base).toNat := by omega
  have hnewBase : UInt16.ofInt w.base + ((UInt16.ofInt p - UInt16.ofInt w.base) - b.aheadCapacity)
      = UInt16.ofInt lo := by
    rw [ofInt_add, hadv]
    congr 1
    omega
  by_cases hempty : w.high < w.base
  · -- drained: the wrapped offset of the highest number is 65535
    have hoff : ((UInt16.ofInt w.high - UInt16.ofInt w.base).toNat : Int)
        = w.high - w.base + 65536 := toNat_sub_ofInt_neg (by omega) (by omega)
    by_cases hreset : w.base + b.capacity ≤ lo
    · rw [if_pos (Or.inl (by omega)), if_pos (Or.inl hreset)]
      exact ⟨reset_refines h.bits p data now, by rw [h.filledCount]⟩
    · rw [if_neg (by rw [UInt16.lt_iff_toNat_lt]; omega), if_neg (by omega), if_neg (by omega)]
      rw [hadvNat, hnewBase]
      have hdone := h.overrun hempty lo p hlodef (by omega) (by omega) data now
      have hhigh : w.high = w.base - 1 := by omega
      rw [hhigh]
      exact hdone
  · have hoff : ((UInt16.ofInt w.high - UInt16.ofInt w.base).toNat : Int) = w.high - w.base :=
      toNat_sub_ofInt (by omega) (by omega)
    by_cases hreset : w.base + b.capacity ≤ lo ∨ (w.base ≤ w.high ∧ w.high < lo)
    · rw [if_pos (by rw [UInt16.lt_iff_toNat_lt]; omega), if_pos hreset]
      exact ⟨reset_refines h.bits p data now, by rw [h.filledCount]⟩
    · rw [if_neg (by rw [UInt16.lt_iff_toNat_lt]; omega), if_neg hreset, if_pos (by omega)]
      obtain ⟨hslide, hflushed⟩ := h.slide lo (by omega) (by omega)
      rw [hadvNat, hnewBase]
      have hcapSlide : (({ (b.flushOldest (UInt16.ofInt w.base) (lo - w.base).toNat).1 with
          baseSeq := some (UInt16.ofInt lo) } : ReorderBuffer)).capacity = b.capacity :=
        (flushOldest_shape (b := b) _ _).capacity
      have hdone := hslide.place (p := p) (by simp only [Window.slide]; omega)
        (by rw [hcapSlide]; simp only [Window.slide]; omega) data now
        { overflowFlushed := w.filledIn w.base lo }
      rw [← hflushed] at hdone ⊢
      exact hdone

end ReorderBuffer

end Rist
