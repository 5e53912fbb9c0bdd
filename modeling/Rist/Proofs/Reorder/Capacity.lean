/-
Rings of every size.

`with_capacity` rounds its argument up to a power of two and checks no upper limit, and
`insert` takes `capacity as u16 - 1`.  From 65536 slots on the cast gives zero and the
difference underflows.  A ring of 32768 slots passes, but reaches just to the far end of
the half circle: a packet that far ahead of a drained window is put into its slot and
left outside the window.  Smaller rings have the overrun of a drained window.  Every
other packet that is accepted lies in the window with its slot its own, and a drain that
comes late enough delivers it.

What a drain needs of a buffer is less than that it stands for a window, and it is all
that the ring of 32768 slots has to offer: `Spanned`.
-/
import Rist.Proofs.Reorder.Overflow

namespace Rist

open Serial

/-- When the hold of a slot began. -/
def SlotState.since : SlotState → Instant
  | .empty => 0
  | .gap firstNoticed => firstNoticed
  | .filled _ arrival => arrival

namespace ReorderBuffer

variable {b : ReorderBuffer}

/-! ### The arithmetic of an insert -/

theorem markGaps_le (b : ReorderBuffer) (highest seq : UInt16) (now : Instant) (n : Nat) :
    (b.markGaps highest seq now n).2 ≤ n := by
  induction n with
  | zero => exact Nat.le_refl 0
  | succ n ih =>
      simp only [markGaps]
      split
      · exact Nat.le_succ_of_le ih
      · split
        · exact Nat.succ_le_succ ih
        · exact Nat.le_succ_of_le ih

theorem flushOldest_le (b : ReorderBuffer) (base : UInt16) (n : Nat) :
    (b.flushOldest base n).2 ≤ n := by
  induction n with
  | zero => exact Nat.le_refl 0
  | succ n ih =>
      simp only [flushOldest]
      split
      · exact Nat.succ_le_succ ih
      · exact Nat.le_succ_of_le ih

/-- The counters of an outcome fit 16 bits. -/
def Modest (outcome : InsertOutcome) : Prop :=
  outcome.newGaps ≤ 65535 ∧ outcome.overflowFlushed ≤ 65535

theorem extend_modest (b : ReorderBuffer) (highest seq : UInt16) (now : Instant)
    {outcome : InsertOutcome} (hgaps : outcome.newGaps = 0) (h : Modest outcome) :
    Modest (b.extend highest seq now outcome).2 := by
  unfold extend
  split
  · have hle := markGaps_le b highest seq now (seq - highest).toNat
    have hlt := (seq - highest).toNat_lt
    refine ⟨?_, h.2⟩
    show outcome.newGaps + _ ≤ _
    omega
  · exact h

theorem place_modest (b : ReorderBuffer) (highest seq : UInt16) (data : Bytes) (now : Instant)
    {outcome : InsertOutcome} (hgaps : outcome.newGaps = 0) (h : Modest outcome) :
    Modest (b.place highest seq data now outcome).2 := by
  unfold place
  split
  · split
    · exact h
    · exact extend_modest _ highest seq now hgaps h
    · exact extend_modest _ highest seq now hgaps h
  · exact extend_modest _ highest seq now hgaps h

theorem filledCount_le (b : ReorderBuffer) : b.filledCount ≤ b.capacity := by
  unfold filledCount capacity SlotRing.count
  exact Vector.countP_le_size

/-- What an insert counts fits its counters. -/
theorem insert_modest (hcap : b.capacity < 65536) (seq : UInt16) (data : Bytes)
    (now : Instant) : Modest (b.insert seq data now).2 := by
  unfold insert
  split
  · rename_i base highest _ _
    split
    · exact ⟨Nat.zero_le _, Nat.zero_le _⟩
    · split
      · simp only
        split
        · refine ⟨Nat.zero_le _, ?_⟩
          show b.filledCount ≤ 65535
          have := filledCount_le b
          omega
        · have hle := flushOldest_le b base (seq - base - b.aheadCapacity).toNat
          have hlt := (seq - base - b.aheadCapacity).toNat_lt
          refine place_modest _ highest seq data now rfl ⟨Nat.zero_le _, ?_⟩
          show (b.flushOldest base (seq - base - b.aheadCapacity).toNat).2 ≤ 65535
          omega
      · exact place_modest b highest seq data now rfl ⟨Nat.zero_le _, Nat.zero_le _⟩
  · exact ⟨Nat.zero_le _, Nat.zero_le _⟩

/-- **An insert is safe**, whatever the number and wherever the base is, in a ring whose
capacity fits 16 bits. -/
theorem insertChecked_eq (hcap : b.capacity < 65536) (seq : UInt16) (data : Bytes)
    (now : Instant) : b.insertChecked seq data now = some (b.insert seq data now) := by
  obtain ⟨hgaps, hflushed⟩ := insert_modest hcap seq data now
  unfold insertChecked
  split
  · split
    · rfl
    · have hpos := b.capacity_pos
      have hone : (1 : UInt16) ≤ UInt16.ofNat b.capacity := by
        rw [UInt16.le_iff_toNat_le, ofNat_toNat_of_lt hcap]
        exact hpos
      simp only [Checked.sub16_of_le hone, bind, Option.bind_some]
      rw [Checked.count32_of_lt (by omega), Option.bind_some, Checked.count32_of_lt (by omega)]
      split
      · rename_i hlt
        rw [Checked.sub16_of_le (UInt16.le_of_lt hlt)]
        rfl
      · rfl
  · rfl

/-- The capacity of a larger ring is cut to zero, and nothing can be taken off it. -/
theorem insertChecked_of_large (hcap : 32768 < b.capacity) {base highest : UInt16}
    (hbase : b.baseSeq = some base) (hhigh : b.highestSeq = some highest) {seq : UInt16}
    (hfresh : 0 ≤ asI16 (seq - base)) (data : Bytes) (now : Instant) :
    b.insertChecked seq data now = none := by
  have hbits : 15 < b.slots.bits := (Nat.pow_lt_pow_iff_right (by decide : 1 < 2)).mp hcap
  have hzero : UInt16.ofNat b.capacity = 0 := by
    rw [← UInt16.toNat_inj, UInt16.toNat_ofNat']
    exact Nat.mod_eq_zero_of_dvd (Nat.pow_dvd_pow 2 hbits)
  unfold insertChecked
  simp only [hbase, hhigh, if_neg (not_lt.mpr hfresh), hzero]
  rfl

theorem insert_capacity (b : ReorderBuffer) (seq : UInt16) (data : Bytes) (now : Instant) :
    (b.insert seq data now).1.capacity = b.capacity :=
  (insert_shape seq data now).capacity

/-! ### What a drain needs -/

/-- A number of `[base_seq, highest_seq]`. -/
def InWindow (b : ReorderBuffer) (q : UInt16) : Prop :=
  ∃ base highest, b.baseSeq = some base ∧ b.highestSeq = some highest ∧
    0 ≤ asI16 (q - base) ∧ asI16 (q - base) ≤ asI16 (highest - base)

/-- The slot of `q` is not empty under the number `q`, where a drain would wait. -/
def Live (b : ReorderBuffer) (q : UInt16) : Prop :=
  (b.slot q).seq = q → (b.slot q).state ≠ .empty

/-- A window of at most a ring, possibly empty, in which a drain waits for nothing but
the clock. -/
structure Spanned (b : ReorderBuffer) : Prop where
  span : ∀ base highest, b.baseSeq = some base → b.highestSeq = some highest →
    -1 ≤ asI16 (highest - base) ∧ asI16 (highest - base) < b.capacity
  live : ∀ q, b.InWindow q → b.Live q

/-- A write leaves the slots of numbers less than a ring ahead alone. -/
theorem slot_setSlot_of_near {p q : UInt16} (s : Slot) (hne : q ≠ p)
    (hlt : (q - p).toNat < b.capacity) : (b.setSlot p s).slot q = b.slot q :=
  b.slots.get_set_of_ne s (mod_ne_of_near hne hlt).symm

theorem slot_setSlot_cases (p q : UInt16) (s : Slot) :
    (b.setSlot p s).slot q = s ∨ (b.setSlot p s).slot q = b.slot q := by
  show (b.slots.set _ s).get _ = _ ∨ (b.slots.set _ s).get _ = _
  rw [SlotRing.get_set]
  split
  · exact Or.inl rfl
  · exact Or.inr rfl

/-- Giving up the head keeps the rest. -/
theorem Spanned.pop (h : Spanned b) {base highest : UInt16} (hbase : b.baseSeq = some base)
    (hhigh : b.highestSeq = some highest) (hne : 0 ≤ asI16 (highest - base)) (s : Slot) :
    Spanned { b.setSlot base s with baseSeq := some (base + 1) } := by
  obtain ⟨-, hspan⟩ := h.span base highest hbase hhigh
  refine ⟨?_, ?_⟩
  · intro base' highest' hbase' hhigh'
    obtain rfl := Option.some.inj hbase'
    obtain rfl := Option.some.inj (hhigh.symm.trans hhigh')
    rw [asI16_sub_succ (by omega)]
    show _ ∧ _ < (b.capacity : Int)
    omega
  · intro q hq
    obtain ⟨base', highest', hbase', hhigh', hlo, hhi⟩ := hq
    obtain rfl := Option.some.inj hbase'
    obtain rfl := Option.some.inj (hhigh.symm.trans hhigh')
    have hbounds := asI16_bounds (highest - base)
    rw [asI16_sub_succ (x := highest) (by omega)] at hhi
    have hold : asI16 (q - base) = asI16 (q - (base + 1)) + 1 := asI16_sub_of_succ (by omega)
    have hdist := toNat_eq_of_asI16_nonneg (x := q - base) (by omega)
    have hlive := h.live q ⟨base, highest, hbase, hhigh, by omega, by omega⟩
    have hne : q ≠ base := by
      intro hc
      subst hc
      rw [asI16_self] at hold
      omega
    unfold Live at hlive ⊢
    rw [show slot { b.setSlot base s with baseSeq := some (base + 1) } q = b.slot q from
      slot_setSlot_of_near s hne (by omega)]
    exact hlive

theorem Spanned.drainStep (h : Spanned b) {now : Instant} {b' : ReorderBuffer} {item : DrainItem}
    (hs : b.drainStep now = some (b', item)) : Spanned b' := by
  obtain ⟨base, highest, s, hbase, hhigh, hle, rfl⟩ := drainStep_cases hs
  obtain ⟨hlo, -⟩ := h.span base highest hbase hhigh
  have hbounds := asI16_bounds (highest - base)
  have hself := asI16_self base
  rw [asI16_sub_sub (z := base) (by omega) (by omega)] at hle
  exact h.pop hbase hhigh (by omega) s

theorem Spanned.drainLoop (now : Instant) : ∀ (fuel : Nat) {b : ReorderBuffer}, Spanned b →
    Spanned (ReorderBuffer.drainLoop now fuel b).1 := by
  intro fuel
  induction fuel with
  | zero =>
      intro b h
      exact h
  | succ fuel ih =>
      intro b h
      rw [ReorderBuffer.drainLoop]
      split
      · exact h
      · rename_i b' item hs
        exact ih (h.drainStep hs)

/-! ### A late drain delivers -/

/-- Everything the ring holds is due. -/
def Due (b : ReorderBuffer) (t : Instant) : Prop :=
  ∀ q, (b.slot q).state.since + b.bufferTime ≤ t

/-- Late enough, everything is due. -/
theorem exists_due (b : ReorderBuffer) : ∃ t, ∀ t', t ≤ t' → b.Due t' := by
  refine ⟨(Finset.range 65536).sup (fun n => (b.slot (UInt16.ofNat n)).state.since)
    + b.bufferTime, fun t' ht q => ?_⟩
  have hq := Finset.le_sup (f := fun n => (b.slot (UInt16.ofNat n)).state.since)
    (Finset.mem_range.mpr q.toNat_lt)
  simp only [UInt16.ofNat_toNat] at hq
  exact (Nat.add_le_add_right hq _).trans ht

/-- The head of a window that is due is given up, and delivered if it is a packet. -/
theorem drainStep_of_due {t : Instant} {base highest : UInt16} (hdue : b.Due t)
    (hbase : b.baseSeq = some base) (hhigh : b.highestSeq = some highest)
    (hle : asI16 (base - highest) ≤ 0) (hlive : b.Live base) :
    ∃ s item, b.drainStep t = some ({ b.setSlot base s with baseSeq := some (base + 1) }, item) ∧
      s.state = .empty ∧
      ∀ data arrival, b.slot base = ⟨base, .filled data arrival⟩ →
        item = .delivered data base arrival := by
  have hripe := hdue base
  unfold ReorderBuffer.drainStep
  simp only [hbase, hhigh, if_neg (not_lt.mpr hle)]
  by_cases hseq : (b.slot base).seq = base
  · rw [if_neg (not_not.mpr hseq)]
    cases hstate : (b.slot base).state with
    | empty => exact absurd hstate (hlive hseq)
    | gap firstNoticed =>
        rw [hstate] at hripe
        have hheld : b.bufferTime ≤ t - firstNoticed := Nat.le_sub_of_add_le' hripe
        simp only [if_pos hheld]
        refine ⟨_, _, rfl, rfl, fun data arrival hslot => ?_⟩
        rw [hslot] at hstate
        cases hstate
    | filled data arrival =>
        rw [hstate] at hripe
        have hheld : b.bufferTime ≤ t - arrival := Nat.le_sub_of_add_le' hripe
        simp only [if_pos hheld]
        refine ⟨_, _, rfl, rfl, fun data' arrival' hslot => ?_⟩
        rw [hslot] at hstate
        cases hstate
        rfl
  · rw [if_pos hseq]
    refine ⟨_, _, rfl, rfl, fun data arrival hslot => ?_⟩
    rw [hslot] at hseq
    exact absurd rfl hseq

/-- One turn of a drain that is late enough. -/
theorem Spanned.turn (h : Spanned b) {t : Instant} {base highest : UInt16} (hdue : b.Due t)
    (hbase : b.baseSeq = some base) (hhigh : b.highestSeq = some highest)
    (hne : 0 ≤ asI16 (highest - base)) :
    ∃ s item, b.drainStep t = some ({ b.setSlot base s with baseSeq := some (base + 1) }, item) ∧
      Due { b.setSlot base s with baseSeq := some (base + 1) } t ∧
      ∀ data arrival, b.slot base = ⟨base, .filled data arrival⟩ →
        item = .delivered data base arrival := by
  have hbounds := asI16_bounds (highest - base)
  have hself := asI16_self base
  have hle : asI16 (base - highest) ≤ 0 := by
    rw [asI16_sub_sub (z := base) (by omega) (by omega)]
    omega
  have hlive := h.live base ⟨base, highest, hbase, hhigh, by omega, by omega⟩
  obtain ⟨s, item, hstep, hempty, hitem⟩ := drainStep_of_due hdue hbase hhigh hle hlive
  refine ⟨s, item, hstep, fun q => ?_, hitem⟩
  have hq := hdue q
  rcases slot_setSlot_cases (b := b) base q s with hs | hs
  · show ((b.setSlot base s).slot q).state.since + b.bufferTime ≤ t
    rw [hs, hempty]
    exact (Nat.add_le_add_right (Nat.zero_le _) _).trans hq
  · show ((b.setSlot base s).slot q).state.since + b.bufferTime ≤ t
    rw [hs]
    exact hq

/-- **A drain gets to every packet of the window.**  The head moves up to it one number a
turn, and finds the packet where it was put. -/
theorem drainLoop_delivers {t : Instant} {seq : UInt16} {data : Bytes} {arrival : Instant} :
    ∀ (n fuel : Nat) {b : ReorderBuffer} {base highest : UInt16}, Spanned b → b.Due t →
      b.baseSeq = some base → b.highestSeq = some highest → asI16 (seq - base) = n →
      (n : Int) ≤ asI16 (highest - base) → b.slot seq = ⟨seq, .filled data arrival⟩ → n < fuel →
      DrainItem.delivered data seq arrival ∈ (drainLoop t fuel b).2 := by
  intro n
  induction n with
  | zero =>
      intro fuel b base highest h hdue hbase hhigh hseq hle hslot hfuel
      obtain rfl : seq = base := eq_of_asI16_sub_eq_zero hseq
      obtain ⟨s, item, hstep, -, hitem⟩ := h.turn hdue hbase hhigh hle
      obtain ⟨fuel, rfl⟩ := Nat.exists_eq_succ_of_ne_zero (Nat.ne_of_gt hfuel)
      rw [drainLoop, hstep, hitem data arrival hslot]
      exact List.mem_cons_self
  | succ n ih =>
      intro fuel b base highest h hdue hbase hhigh hseq hle hslot hfuel
      have hbounds := asI16_bounds (highest - base)
      obtain ⟨-, hspan⟩ := h.span base highest hbase hhigh
      obtain ⟨s, item, hstep, hdue', -⟩ := h.turn hdue hbase hhigh (by omega)
      obtain ⟨fuel, rfl⟩ := Nat.exists_eq_succ_of_ne_zero (Nat.ne_of_gt (Nat.zero_lt_of_lt hfuel))
      have hne : seq ≠ base := by
        intro hc
        rw [hc, asI16_self] at hseq
        omega
      have hdist := toNat_eq_of_asI16_nonneg (x := seq - base) (by omega)
      rw [drainLoop, hstep]
      refine List.mem_cons_of_mem _ (ih fuel (h.drainStep hstep) hdue' rfl hhigh ?_ ?_ ?_
        (Nat.lt_of_succ_lt_succ hfuel))
      · rw [asI16_sub_succ (by omega), hseq]
        push_cast
        omega
      · rw [asI16_sub_succ (by omega)]
        push_cast at hle
        omega
      · exact (slot_setSlot_of_near s hne (by omega)).trans hslot

/-- The packet lies in the window, its slot is its own, and from some time on a drain
delivers it. -/
structure Drainable (b : ReorderBuffer) (seq : UInt16) (data : Bytes) (arrival : Instant) :
    Prop where
  inWindow : b.InWindow seq
  slot : b.slot seq = ⟨seq, .filled data arrival⟩
  drained : ∃ t, ∀ t', t ≤ t' → DrainItem.delivered data seq arrival ∈ (b.drainReady t').2

theorem Spanned.drainable (h : Spanned b) {seq : UInt16} {data : Bytes} {arrival : Instant}
    (hin : b.InWindow seq) (hslot : b.slot seq = ⟨seq, .filled data arrival⟩) :
    b.Drainable seq data arrival := by
  refine ⟨hin, hslot, ?_⟩
  obtain ⟨t, ht⟩ := b.exists_due
  obtain ⟨base, highest, hbase, hhigh, hlo, hhi⟩ := hin
  refine ⟨t, fun t' hle => ?_⟩
  have hdist := toNat_eq_of_asI16_nonneg (x := highest - base) (by omega)
  unfold drainReady
  refine drainLoop_delivers (asI16 (seq - base)).toNat _ h (ht t' hle) hbase hhigh (by omega)
    (by omega) hslot ?_
  unfold drainFuel
  simp only [hbase, hhigh]
  omega

/-! ### Rings of at most 16384 slots -/

variable {w : Window}

theorem Refines.inWindow (h : Refines b w) {p : Int} (h1 : w.base ≤ p) (h2 : p ≤ w.high) :
    b.InWindow (UInt16.ofInt p) := by
  have hcap := capacity_le h.bits
  have hhi := h.wf.high_lt
  refine ⟨_, _, h.base, h.high, ?_, ?_⟩
  · rw [asI16_sub_ofInt (by omega) (by omega)]
    omega
  · rw [asI16_sub_ofInt (by omega) (by omega), asI16_sub_ofInt (by omega) (by omega)]
    omega

/-- A buffer that stands for a window has what a drain needs. -/
theorem Refines.spanned (h : Refines b w) : Spanned b := by
  have hcap := capacity_le h.bits
  have hlo := h.wf.base_le
  have hhi := h.wf.high_lt
  have hlen : asI16 (UInt16.ofInt w.high - UInt16.ofInt w.base) = w.high - w.base :=
    asI16_sub_ofInt (by omega) (by omega)
  refine ⟨?_, ?_⟩
  · intro base highest hbase hhigh
    obtain rfl := Option.some.inj (h.base.symm.trans hbase)
    obtain rfl := Option.some.inj (h.high.symm.trans hhigh)
    rw [hlen]
    omega
  · intro q ⟨base, highest, hbase, hhigh, h1, h2⟩
    obtain rfl := Option.some.inj (h.base.symm.trans hbase)
    obtain rfl := Option.some.inj (h.high.symm.trans hhigh)
    rw [hlen] at h2
    have hq := ofInt_near w.base q
    unfold near at hq
    have hshow := h.cells (w.base + asI16 (q - UInt16.ofInt w.base)) (by omega) (by omega)
    have hinside := h.wf.inside (w.base + asI16 (q - UInt16.ofInt w.base)) (by omega) (by omega)
    rw [hq] at hshow
    intro hseq
    cases hcell : w.cell (w.base + asI16 (q - UInt16.ofInt w.base)) with
    | empty => exact absurd hcell hinside
    | gap t =>
        rw [hcell] at hshow
        rw [show b.slot q = _ from hshow]
        exact SlotState.noConfusion
    | hole =>
        rw [hcell] at hshow
        exact absurd hseq hshow.1
    | filled d a =>
        rw [hcell] at hshow
        rw [show b.slot q = _ from hshow]
        exact SlotState.noConfusion

theorem Refines.drainable (h : Refines b w) {p : Int} {data : Bytes} {arrival : Instant}
    (hcell : w.cell p = .filled data arrival) : b.Drainable (UInt16.ofInt p) data arrival := by
  obtain ⟨h1, h2⟩ := h.wf.mem_of_filled (p := p) (by rw [hcell]; rfl)
  exact h.spanned.drainable (h.inWindow h1 h2) (h.slot_of_cell hcell)

/-- What an insert owes its caller: the capacity is not truncated where it is used, no
difference underflows, and a packet that is accepted can be drained. -/
structure Accommodates (b : ReorderBuffer) (seq : UInt16) (data : Bytes) (now : Instant) :
    Prop where
  exact : ∀ base highest, b.baseSeq = some base → b.highestSeq = some highest →
    0 ≤ asI16 (seq - base) → (UInt16.ofNat b.capacity).toNat = b.capacity
  checked : b.insertChecked seq data now = some (b.insert seq data now)
  held : (b.insert seq data now).2.stale = false → (b.insert seq data now).2.duplicate = false →
    (b.insert seq data now).1.Drainable seq data now

/-- The ring has at most 32768 slots, and if the window is drained the packet is not one
ring ahead but less than two; nor, in a ring that reaches it, at the far end of the half
circle, unless it has been put there before. -/
def Roomy (b : ReorderBuffer) (seq : UInt16) : Prop :=
  ∀ base highest, b.baseSeq = some base → b.highestSeq = some highest → 0 ≤ asI16 (seq - base) →
    b.capacity ≤ 32768 ∧ (base = highest + 1 →
      ¬((b.capacity : Int) ≤ asI16 (seq - base) ∧ asI16 (seq - base) < 2 * b.capacity - 1) ∧
      ¬(b.capacity = 32768 ∧ asI16 (seq - base) = 32767 ∧ ¬b.Holds seq))

/-- Up to 32768 slots the arithmetic is right, and only the packet is in question. -/
theorem accommodates_iff_held (hcap : b.capacity < 65536) (seq : UInt16) (data : Bytes)
    (now : Instant) : b.Accommodates seq data now ↔
      ((b.insert seq data now).2.stale = false → (b.insert seq data now).2.duplicate = false →
        (b.insert seq data now).1.Drainable seq data now) := by
  refine ⟨fun hacc => hacc.held, fun hheld => ⟨fun _ _ _ _ _ => ?_, ?_, hheld⟩⟩
  · exact ofNat_toNat_of_lt hcap
  · exact insertChecked_eq hcap seq data now

/-- One packet alone, in a ring of any size. -/
theorem anchor_drainable (b : ReorderBuffer) (seq : UInt16) (data : Bytes) (now : Instant) :
    Spanned (b.anchor seq data now) ∧ (b.anchor seq data now).Drainable seq data now := by
  have hpos : (0 : Int) < b.capacity := by exact_mod_cast b.capacity_pos
  have hslot : (b.anchor seq data now).slot seq = ⟨seq, .filled data now⟩ :=
    slot_setSlot_self seq _
  have hspanned : Spanned (b.anchor seq data now) := by
    refine ⟨fun base highest hbase hhigh => ?_, fun q ⟨base, highest, hbase, hhigh, h1, h2⟩ => ?_⟩
    · obtain rfl := Option.some.inj hbase
      obtain rfl := Option.some.inj hhigh
      rw [asI16_self]
      exact ⟨by decide, hpos⟩
    · obtain rfl := Option.some.inj hbase
      obtain rfl := Option.some.inj hhigh
      rw [asI16_self] at h2
      obtain rfl := eq_of_asI16_sub_eq_zero (le_antisymm h2 h1)
      intro _
      rw [hslot]
      exact SlotState.noConfusion
  refine ⟨hspanned, hspanned.drainable ⟨seq, seq, rfl, rfl, ?_, ?_⟩ hslot⟩ <;> rw [asI16_self]

/-- The first packet of all is accommodated by every ring. -/
theorem accommodates_iff_of_none (hnone : b.baseSeq = none ∨ b.highestSeq = none)
    (seq : UInt16) (data : Bytes) (now : Instant) :
    b.Accommodates seq data now ↔ b.Roomy seq := by
  have hno : ∀ base highest, b.baseSeq = some base → b.highestSeq ≠ some highest := by
    intro base highest hbase hhigh
    rcases hnone with hc | hc
    · cases hbase.symm.trans hc
    · cases hhigh.symm.trans hc
  refine iff_of_true ⟨fun base highest hbase hhigh => absurd hhigh (hno base highest hbase), ?_, ?_⟩
    fun base highest hbase hhigh => absurd hhigh (hno base highest hbase)
  · unfold insertChecked
    split
    · rename_i hbase hhigh
      exact absurd hhigh (hno _ _ hbase)
    · rfl
  · rw [insert_of_none hnone]
    exact fun _ _ => (anchor_drainable b seq data now).2

theorem started (h : ¬(b.baseSeq = none ∨ b.highestSeq = none)) :
    (∃ base, b.baseSeq = some base) ∧ ∃ highest, b.highestSeq = some highest := by
  obtain ⟨hbase, hhigh⟩ := not_or.mp h
  exact ⟨Option.ne_none_iff_exists'.mp hbase, Option.ne_none_iff_exists'.mp hhigh⟩

/-- A packet behind the base is stale, in every ring. -/
theorem accommodates_iff_of_stale {base highest : UInt16} (hbase : b.baseSeq = some base)
    (hhigh : b.highestSeq = some highest) {seq : UInt16} (hstale : asI16 (seq - base) < 0)
    (data : Bytes) (now : Instant) : b.Accommodates seq data now ↔ b.Roomy seq := by
  refine iff_of_true ⟨fun base' _ hc _ hfresh => ?_, ?_, fun hc => ?_⟩ fun base' _ hc _ hfresh => ?_
  · obtain rfl := Option.some.inj (hbase.symm.trans hc)
    omega
  · unfold insertChecked
    simp only [hbase, hhigh, if_pos hstale]
  · rw [insert_of_stale hbase hhigh hstale] at hc
    cases hc
  · obtain rfl := Option.some.inj (hbase.symm.trans hc)
    omega

/-- **A ring of 65536 slots or more** stops at every packet that is not stale. -/
theorem accommodates_iff_of_large (hcap : 32768 < b.capacity) {base highest : UInt16}
    (hbase : b.baseSeq = some base) (hhigh : b.highestSeq = some highest) {seq : UInt16}
    (hfresh : 0 ≤ asI16 (seq - base)) (data : Bytes) (now : Instant) :
    b.Accommodates seq data now ↔ b.Roomy seq := by
  refine iff_of_false (fun hacc => ?_) fun hroomy => ?_
  · have hchecked := hacc.checked
    rw [insertChecked_of_large hcap hbase hhigh hfresh] at hchecked
    cases hchecked
  · have := (hroomy base highest hbase hhigh hfresh).1
    omega

theorem Refines.roomy_iff (h : Refines b w) (seq : UInt16) :
    b.Roomy seq ↔ ¬w.Overruns b.capacity (near w.base seq) := by
  have hcap := capacity_le h.bits
  have hlo := h.wf.base_le
  have hhi := h.wf.high_lt
  unfold Roomy Window.Overruns near
  constructor
  · intro hroomy ⟨hd, h1, h2⟩
    have hpos : (0 : Int) < b.capacity := by exact_mod_cast b.capacity_pos
    obtain ⟨-, hdrained⟩ := hroomy _ _ h.base h.high (by omega)
    refine (hdrained ?_).1 ⟨by omega, by omega⟩
    rw [ofInt_add_one]
    congr 1
    omega
  · intro hno base highest hbase hhigh hfresh
    obtain rfl := Option.some.inj (h.base.symm.trans hbase)
    obtain rfl := Option.some.inj (h.high.symm.trans hhigh)
    refine ⟨by omega, fun hdrained => ⟨fun hc => hno ?_, fun hc => by omega⟩⟩
    rw [ofInt_add_one] at hdrained
    have : w.base = w.high + 1 := ofInt_inj (by omega) (by omega) hdrained
    omega

/-- **A ring of at most 16384 slots** accommodates a packet unless it overruns. -/
theorem Refines.accommodates_iff (h : Refines b w) (seq : UInt16) (data : Bytes)
    (now : Instant) : b.Accommodates seq data now ↔ b.Roomy seq := by
  have hcap := capacity_le h.bits
  obtain ⟨href, hout⟩ := insert_refines h seq data now
  have hseq := ofInt_near w.base seq
  rw [h.roomy_iff, accommodates_iff_held (by omega), hout]
  constructor
  · intro hheld hover
    have hins : w.insert b.capacity (near w.base seq) data now = _ :=
      Window.insert_of_overruns h.wf hover
    rw [hins] at hheld href
    have hheld := hheld rfl rfl
    obtain ⟨-, h1, h2⟩ := hover
    have hpos : (0 : Int) < b.capacity := by exact_mod_cast b.capacity_pos
    -- the slot carries the number of the gap one ring below
    have hshow := href.cells (near w.base seq) (by simp only [Window.overrun]; omega) (by
      rw [insert_capacity]
      simp only [Window.overrun]
      omega)
    simp only [Window.overrun, if_true, hseq, hheld.slot] at hshow
    exact hshow.1 rfl
  · intro hno hstale hdup
    have hcell : (w.insert b.capacity (near w.base seq) data now).1.cell (near w.base seq)
        = .filled data now := by
      rcases Window.insert_cases h.wf (near w.base seq) data now with ⟨-, ho⟩ | ⟨-, -, -, ho⟩ |
        ⟨-, -, -, r, ho⟩ | ⟨-, -, -, ho⟩ | ⟨-, -, -, ho⟩ | ⟨-, -, ho⟩ | ⟨hover, -⟩
      · rw [ho] at hstale
        cases hstale
      · rw [ho] at hdup
        cases hdup
      · rw [ho]
        exact Function.update_self _ _ _
      · rw [ho]
        exact if_pos rfl
      · rw [ho]
        exact if_pos rfl
      · rw [ho]
        exact if_pos rfl
      · exact absurd hover hno
    have hdrainable := href.drainable hcell
    rwa [hseq] at hdrainable

/-! ### The ring of 32768 slots -/

theorem Live.setSlot {q : UInt16} (h : b.Live q) (p : UInt16) {s : Slot}
    (hs : s.state ≠ .empty) : (b.setSlot p s).Live q := by
  unfold Live
  rcases slot_setSlot_cases (b := b) p q s with heq | heq
  · rw [heq]
    exact fun _ => hs
  · rw [heq]
    exact h

theorem live_setSlot_self (p : UInt16) {s : Slot} (hs : s.state ≠ .empty) :
    (b.setSlot p s).Live p := by
  unfold Live
  rw [slot_setSlot_self]
  exact fun _ => hs

/-- What the gap-marking loop leaves after `n` numbers, whatever it meets: the slot of
`seq` as it was, and nothing it has passed empty. -/
structure Passed (b b' : ReorderBuffer) (highest seq : UInt16) (n : Nat) : Prop where
  baseSeq : b'.baseSeq = b.baseSeq
  bits : b'.slots.bits = b.slots.bits
  own : b'.slot seq = b.slot seq
  kept : ∀ q, b.Live q → b'.Live q
  passed : ∀ i, 1 ≤ i → i ≤ n → highest + UInt16.ofNat i ≠ seq →
    b'.Live (highest + UInt16.ofNat i)

/-- The step that finds the number it is at live, or makes it so. -/
theorem Passed.next {b b' b'' : ReorderBuffer} {highest seq : UInt16} {n : Nat}
    (h : Passed b b' highest seq n) (hnext : Passed b' b'' highest seq 0)
    (hlive : highest + UInt16.ofNat (n + 1) ≠ seq → b''.Live (highest + UInt16.ofNat (n + 1))) :
    Passed b b'' highest seq (n + 1) := by
  refine ⟨hnext.baseSeq.trans h.baseSeq, hnext.bits.trans h.bits, hnext.own.trans h.own,
    fun q hq => hnext.kept q (h.kept q hq), fun i h1 h2 hne => ?_⟩
  rcases Nat.lt_or_eq_of_le h2 with hlt | rfl
  · exact hnext.kept _ (h.passed i h1 (Nat.le_of_lt_succ hlt) hne)
  · exact hlive hne

theorem Passed.refl (b : ReorderBuffer) (highest seq : UInt16) : Passed b b highest seq 0 :=
  ⟨rfl, rfl, rfl, fun _ h => h, fun i h1 h2 => absurd h1 (by omega)⟩

/-- The numbers between `highest` and `seq` have slots of their own. -/
theorem markGaps_passed (highest seq : UInt16) (now : Instant)
    (hring : (seq - highest).toNat ≤ b.capacity) : ∀ n : Nat, n ≤ (seq - highest).toNat →
    Passed b (b.markGaps highest seq now n).1 highest seq n := by
  intro n
  induction n with
  | zero => exact fun _ => Passed.refl b highest seq
  | succ n ih =>
      intro hle
      have h := ih (Nat.le_of_succ_le hle)
      simp only [markGaps]
      split
      · rename_i hself
        exact h.next (Passed.refl _ _ _) fun hc => absurd hself hc
      · rename_i hne
        have hlt := (seq - highest).toNat_lt
        have hdist : (seq - (highest + UInt16.ofNat (n + 1))).toNat < b.capacity := by
          have hone := ofNat_toNat_of_lt (n := n + 1) (by omega)
          have hsub := toNat_sub seq highest
          have hgap := toNat_sub seq (highest + UInt16.ofNat (n + 1))
          rw [toNat_add, hone] at hgap
          omega
        split
        · refine h.next ⟨rfl, rfl, ?_, fun q hq => hq.setSlot _ SlotState.noConfusion,
            fun i h1 h2 => absurd h1 (by omega)⟩ fun _ => live_setSlot_self _ SlotState.noConfusion
          refine slot_setSlot_of_near _ (Ne.symm hne) ?_
          rwa [capacity_of_bits h.bits]
        · rename_i hfree
          refine h.next (Passed.refl _ _ _) fun _ _ hc => hfree (Or.inl hc)

/-- A packet that is held is a duplicate; any other is written and the window is
extended. -/
theorem place_cases (b : ReorderBuffer) (highest seq : UInt16) (data : Bytes) (now : Instant)
    (o : InsertOutcome) :
    (b.Holds seq ∧ b.place highest seq data now o = (b, { o with duplicate := true })) ∨
    (¬b.Holds seq ∧ ∃ o' : InsertOutcome, o'.stale = o.stale ∧ o'.duplicate = o.duplicate ∧
      b.place highest seq data now o
        = (b.setSlot seq ⟨seq, .filled data now⟩).extend highest seq now o') := by
  unfold place Holds
  by_cases hseq : (b.slot seq).seq = seq
  · rw [if_pos hseq]
    cases hstate : (b.slot seq).state with
    | filled d a => exact Or.inl ⟨⟨hseq, rfl⟩, rfl⟩
    | gap t =>
        exact Or.inr ⟨fun hc => Bool.noConfusion hc.2, { o with recovered := true }, rfl, rfl, rfl⟩
    | empty => exact Or.inr ⟨fun hc => Bool.noConfusion hc.2, o, rfl, rfl, rfl⟩
  · rw [if_neg hseq]
    exact Or.inr ⟨fun hc => hseq hc.1, o, rfl, rfl, rfl⟩

theorem extend_outcome (highest seq : UInt16) (now : Instant) (o : InsertOutcome) :
    (b.extend highest seq now o).2.stale = o.stale ∧
    (b.extend highest seq now o).2.duplicate = o.duplicate := by
  unfold extend
  split <;> exact ⟨rfl, rfl⟩

/-- The ring reaches to the end of the half circle, so nothing is ever flushed. -/
theorem insert_of_half (hcap : b.capacity = 32768) {base highest : UInt16}
    (hbase : b.baseSeq = some base) (hhigh : b.highestSeq = some highest) {seq : UInt16}
    (hfresh : 0 ≤ asI16 (seq - base)) (data : Bytes) (now : Instant) :
    b.insert seq data now = b.place highest seq data now {} := by
  have hahead : b.aheadCapacity = 32767 := by
    unfold aheadCapacity
    rw [hcap]
    rfl
  have hreach : ¬b.aheadCapacity < seq - base := by
    have hlt := asI16_nonneg_iff.mp hfresh
    rw [hahead, UInt16.lt_iff_toNat_lt, show (32767 : UInt16).toNat = 32767 from rfl]
    omega
  unfold insert
  simp only [hbase, hhigh, if_neg (not_lt.mpr hfresh), if_neg hreach]

/-- A write into its slot keeps a buffer spanned, wherever the number lies. -/
theorem Spanned.setSlot (h : Spanned b) (p : UInt16) {s : Slot} (hs : s.state ≠ .empty) :
    Spanned (b.setSlot p s) := by
  refine ⟨h.span, fun q hq => ?_⟩
  exact (h.live q hq).setSlot p hs

/-- Extending a window to a number less than a ring ahead of the base, whose slot is
written. -/
theorem Spanned.extend (h : Spanned b) {base highest seq : UInt16} (hbase : b.baseSeq = some base)
    (hhigh : b.highestSeq = some highest) (hlo : 0 ≤ asI16 (seq - base))
    (hhi : asI16 (seq - base) < b.capacity) (hahead : asI16 (highest - base) < asI16 (seq - base))
    (hreach : asI16 (seq - base) - asI16 (highest - base) < 32768) {data : Bytes} {now : Instant}
    (hslot : b.slot seq = ⟨seq, .filled data now⟩) (o : InsertOutcome) :
    Spanned (b.extend highest seq now o).1 ∧ (b.extend highest seq now o).1.InWindow seq ∧
    (b.extend highest seq now o).1.slot seq = ⟨seq, .filled data now⟩ := by
  have hdist := asI16_sub_sub (x := seq) (y := highest) (z := base) (by omega) hreach
  have hback := toNat_eq_of_asI16_nonneg (x := seq - highest) (by omega)
  obtain ⟨hspan, -⟩ := h.span base highest hbase hhigh
  have hpassed := markGaps_passed (b := b) highest seq now (by omega) _ le_rfl
  unfold ReorderBuffer.extend
  simp only [if_pos (show 0 < asI16 (seq - highest) by omega)]
  have hslot' : (b.markGaps highest seq now (seq - highest).toNat).1.slot seq
      = ⟨seq, .filled data now⟩ := hpassed.own.trans hslot
  refine ⟨⟨fun base' highest' hbase' hhigh' => ?_, fun q hq => ?_⟩,
    ⟨base, seq, hpassed.baseSeq.trans hbase, rfl, hlo, le_rfl⟩, hslot'⟩
  · obtain rfl := Option.some.inj (hbase.symm.trans (hpassed.baseSeq.symm.trans hbase'))
    obtain rfl := Option.some.inj hhigh'
    refine ⟨by omega, ?_⟩
    show _ < ((b.markGaps highest seq now (seq - highest).toNat).1.capacity : Int)
    rwa [capacity_of_bits hpassed.bits]
  · obtain ⟨base', highest', hbase', hhigh', h1, h2⟩ := hq
    obtain rfl := Option.some.inj (hbase.symm.trans (hpassed.baseSeq.symm.trans hbase'))
    obtain rfl := Option.some.inj hhigh'
    show (b.markGaps highest seq now (seq - highest).toNat).1.Live q
    rcases le_or_gt (asI16 (q - base)) (asI16 (highest - base)) with hle | hgt
    · exact hpassed.kept q (h.live q ⟨base, highest, hbase, hhigh, h1, hle⟩)
    · by_cases hself : q = seq
      · subst hself
        intro _
        rw [hslot']
        exact SlotState.noConfusion
      · -- one of the numbers the loop has passed
        have hq := asI16_sub_sub (x := q) (y := highest) (z := base) (by omega) (by omega)
        have hcount := toNat_eq_of_asI16_nonneg (x := q - highest) (by omega)
        have hname : highest + UInt16.ofNat (q - highest).toNat = q := by
          rw [UInt16.ofNat_toNat, UInt16.add_comm, UInt16.sub_add_cancel]
        have := hpassed.passed (q - highest).toNat (by omega) (by omega) (by rwa [hname])
        rwa [hname] at this

/-- The insert that leaves the packet outside the window, and those that do not. -/
theorem Spanned.place (h : Spanned b) (hcap : b.capacity = 32768) {base highest seq : UInt16}
    (hbase : b.baseSeq = some base) (hhigh : b.highestSeq = some highest)
    (hfresh : 0 ≤ asI16 (seq - base)) (data : Bytes) (now : Instant) (o : InsertOutcome) :
    Spanned ((b.setSlot seq ⟨seq, .filled data now⟩).extend highest seq now o).1 ∧
    (((b.setSlot seq ⟨seq, .filled data now⟩).extend highest seq now o).1.InWindow seq ↔
      ¬(base = highest + 1 ∧ asI16 (seq - base) = 32767)) ∧
    ((b.setSlot seq ⟨seq, .filled data now⟩).extend highest seq now o).1.slot seq
      = ⟨seq, .filled data now⟩ := by
  obtain ⟨hlo, hhi⟩ := h.span base highest hbase hhigh
  have hbounds := asI16_bounds (seq - base)
  have hspanned := h.setSlot seq (s := ⟨seq, .filled data now⟩) SlotState.noConfusion
  have hslot := slot_setSlot_self (b := b) seq ⟨seq, .filled data now⟩
  rw [eq_succ_iff]
  by_cases hahead : asI16 (highest - base) < asI16 (seq - base) ∧
      asI16 (seq - base) - asI16 (highest - base) < 32768
  · obtain ⟨hs, hin, hs'⟩ := hspanned.extend hbase hhigh hfresh
      (show _ < (b.capacity : Int) by omega) hahead.1 hahead.2 hslot o
    exact ⟨hs, iff_of_true hin (by omega), hs'⟩
  · -- the highest number stays where it is
    have hstays : ¬0 < asI16 (seq - highest) := by
      have hturn := asI16_sub_emod seq highest base
      have := asI16_bounds (seq - highest)
      omega
    unfold ReorderBuffer.extend
    rw [if_neg hstays]
    refine ⟨hspanned, ?_, hslot⟩
    constructor
    · intro ⟨base', highest', hbase', hhigh', h1, h2⟩
      obtain rfl := Option.some.inj (hbase.symm.trans hbase')
      obtain rfl := Option.some.inj (hhigh.symm.trans hhigh')
      omega
    · intro hno
      exact ⟨base, highest, hbase, hhigh, hfresh, by omega⟩

theorem Spanned.insert (h : Spanned b) (hcap : b.capacity = 32768) (seq : UInt16) (data : Bytes)
    (now : Instant) : Spanned (b.insert seq data now).1 := by
  by_cases hnone : b.baseSeq = none ∨ b.highestSeq = none
  · rw [insert_of_none hnone]
    exact (anchor_drainable b seq data now).1
  · obtain ⟨⟨base, hbase⟩, ⟨highest, hhigh⟩⟩ := started hnone
    rcases lt_or_ge (asI16 (seq - base)) 0 with hstale | hfresh
    · rw [insert_of_stale hbase hhigh hstale]
      exact h
    · rw [insert_of_half hcap hbase hhigh hfresh]
      rcases place_cases b highest seq data now {} with ⟨-, hplace⟩ | ⟨-, o, -, -, hplace⟩
      · rw [hplace]
        exact h
      · rw [hplace]
        exact (h.place hcap hbase hhigh hfresh data now o).1

theorem roomy_iff_of_half (hcap : b.capacity = 32768) {base highest : UInt16}
    (hbase : b.baseSeq = some base) (hhigh : b.highestSeq = some highest) {seq : UInt16}
    (hfresh : 0 ≤ asI16 (seq - base)) :
    b.Roomy seq ↔ ¬(base = highest + 1 ∧ asI16 (seq - base) = 32767 ∧ ¬b.Holds seq) := by
  have hbounds := asI16_bounds (seq - base)
  constructor
  · rintro hroomy ⟨hdrained, hfar, hholds⟩
    exact ((hroomy base highest hbase hhigh hfresh).2 hdrained).2 ⟨hcap, hfar, hholds⟩
  · intro hno base' highest' hbase' hhigh' _
    obtain rfl := Option.some.inj (hbase.symm.trans hbase')
    obtain rfl := Option.some.inj (hhigh.symm.trans hhigh')
    refine ⟨by omega, fun hdrained => ⟨by omega, fun hc => ?_⟩⟩
    exact hno ⟨hdrained, hc.2.1, hc.2.2⟩

/-- **A ring of 32768 slots** accommodates a packet unless it is at the far end of the
half circle, seen from a drained window. -/
theorem Spanned.accommodates_iff (h : Spanned b) (hcap : b.capacity = 32768)
    {base highest : UInt16} (hbase : b.baseSeq = some base) (hhigh : b.highestSeq = some highest)
    {seq : UInt16} (hfresh : 0 ≤ asI16 (seq - base)) (data : Bytes) (now : Instant) :
    b.Accommodates seq data now ↔ b.Roomy seq := by
  have hins := insert_of_half hcap hbase hhigh hfresh data now
  rw [accommodates_iff_held (by omega), roomy_iff_of_half hcap hbase hhigh hfresh, hins]
  rcases place_cases b highest seq data now {} with ⟨hholds, hplace⟩ | ⟨hholds, o, ho, ho', hplace⟩
  · rw [hplace]
    refine iff_of_true (fun _ hc => Bool.noConfusion hc) fun hc => hc.2.2 hholds
  · obtain ⟨hspanned, hin, hslot⟩ := h.place hcap hbase hhigh hfresh data now o
    obtain ⟨hs, hd⟩ := extend_outcome (b := b.setSlot seq ⟨seq, .filled data now⟩) highest seq now o
    rw [hplace]
    constructor
    · rintro hheld ⟨h1, h2, -⟩
      exact hin.mp (hheld (hs.trans ho) (hd.trans ho')).inWindow ⟨h1, h2⟩
    · intro hno _ _
      refine hspanned.drainable (hin.mpr fun hc => hno ⟨hc.1, hc.2, hholds⟩) hslot

/-- One packet alone is delivered when its time has come, and leaves the window drained. -/
theorem drainReady_anchor (b : ReorderBuffer) (seq : UInt16) (data : Bytes) (arrival now : Instant)
    (hdue : b.bufferTime ≤ now - arrival) :
    (b.anchor seq data arrival).drainReady now =
      ({ (b.anchor seq data arrival).setSlot seq ⟨seq, .empty⟩ with baseSeq := some (seq + 1) },
        [.delivered data seq arrival]) := by
  have hslot : (b.anchor seq data arrival).slot seq = ⟨seq, .filled data arrival⟩ :=
    slot_setSlot_self seq _
  have hstep : (b.anchor seq data arrival).drainStep now = some
      ({ (b.anchor seq data arrival).setSlot seq ⟨seq, .empty⟩ with baseSeq := some (seq + 1) },
        .delivered data seq arrival) := by
    have hbase : (b.anchor seq data arrival).baseSeq = some seq := rfl
    have hhigh : (b.anchor seq data arrival).highestSeq = some seq := rfl
    unfold drainStep
    simp only [hbase, hhigh, asI16_self, lt_irrefl, if_false, hslot, ne_eq, not_true_eq_false]
    exact if_pos hdue
  have hfuel : (b.anchor seq data arrival).drainFuel = 1 := by
    simp [drainFuel, anchor]
  rw [drainReady, hfuel, drainLoop, hstep]
  rfl
end ReorderBuffer

/-! ### Runs in rings of every size -/

namespace Recording

variable {r : Recording}

/-- What a run keeps: up to 16384 slots a window, in 32768 what a drain needs. -/
def Sized (r : Recording) : Prop :=
  Reached r ∨ (r.buf.capacity = 32768 ∧ r.buf.Spanned) ∨ 32768 < r.buf.capacity

theorem capacity_withCapacity (hold : Duration) (capacity : Nat) :
    (ReorderBuffer.withCapacity hold capacity).capacity = 2 ^ max (Nat.clog 2 capacity) 6 := rfl

theorem start_sized (hold : Duration) (capacity : Nat) :
    Sized (start (ReorderBuffer.withCapacity hold capacity)) := by
  have hpow := capacity_withCapacity hold capacity
  rcases Nat.lt_trichotomy (Nat.clog 2 capacity) 15 with hlt | heq | hgt
  · refine Or.inl (Or.inl (start_fresh hold ?_))
    exact Nat.clog_le_iff_le_pow (by decide) |>.mp (Nat.le_of_lt_succ hlt)
  · rw [heq] at hpow
    refine Or.inr (Or.inl ⟨hpow, ?_, ?_⟩)
    · intro base highest hbase
      cases hbase
    · rintro q ⟨base, highest, hbase, -⟩
      cases hbase
  · refine Or.inr (Or.inr ?_)
    show 32768 < (ReorderBuffer.withCapacity hold capacity).capacity
    rw [hpow]
    exact Nat.pow_lt_pow_right (a := 2) (m := 15) (by decide) (by omega)

theorem Sized.step (h : Sized r) (op : BufferOp) : Sized (r.step op) := by
  rcases h with hreached | ⟨hcap, hspanned⟩ | hcap
  · exact Or.inl (hreached.step op)
  · refine Or.inr (Or.inl ⟨(capacity_step r op).trans hcap, ?_⟩)
    cases op with
    | insert seq data now =>
        rw [buf_step_insert]
        exact hspanned.insert hcap seq data now
    | drain now => exact ReorderBuffer.Spanned.drainLoop now _ hspanned
  · refine Or.inr (Or.inr ?_)
    rwa [capacity_step]

theorem Sized.accommodates_iff (h : Sized r) (seq : UInt16) (data : Bytes) (now : Instant) :
    r.buf.Accommodates seq data now ↔ r.buf.Roomy seq := by
  by_cases hnone : r.buf.baseSeq = none ∨ r.buf.highestSeq = none
  · exact ReorderBuffer.accommodates_iff_of_none hnone seq data now
  · obtain ⟨⟨base, hbase⟩, ⟨highest, hhigh⟩⟩ := ReorderBuffer.started hnone
    rcases lt_or_ge (asI16 (seq - base)) 0 with hstale | hfresh
    · exact ReorderBuffer.accommodates_iff_of_stale hbase hhigh hstale data now
    · rcases h with (hf | ⟨w, htracks⟩) | ⟨hcap, hspanned⟩ | hcap
      · exact absurd (Or.inl hf.baseSeq) hnone
      · exact htracks.refines.accommodates_iff seq data now
      · exact hspanned.accommodates_iff hcap hbase hhigh hfresh data now
      · exact ReorderBuffer.accommodates_iff_of_large hcap hbase hhigh hfresh data now

/-- **Which packets a ring has room for.**  In every state that calls on a new buffer of
any size can bring about, an insert does its capacity arithmetic right and holds what it
accepts where a drain gets to it, exactly when the buffer has room for the packet. -/
theorem accommodates_iff_roomy (hold : Duration) (capacity : Nat) (ops : List BufferOp)
    (seq : UInt16) (data : Bytes) (now : Instant) :
    (of hold capacity ops).buf.Accommodates seq data now ↔
      (of hold capacity ops).buf.Roomy seq := by
  have hsized : Sized (of hold capacity ops) :=
    Run.invariant_of_step (fun r op h => h.step op) (start_sized hold capacity) ops
  exact hsized.accommodates_iff seq data now

/-- In a ring of 65536 slots the second packet stops `insert`.  In a ring of 32768, after
one packet and a drain, the packet half a circle on is left outside the window. -/
theorem rings_without_room :
    ¬(of 5 65536 [.insert 0 [1] 0]).buf.Accommodates 1 [2] 0 ∧
    ¬(of 5 32768 [.insert 0 [1] 0, .drain 10]).buf.Accommodates 32768 [2] 11 := by
  constructor
  · intro hacc
    have hcap : 32768 < (of 5 65536 [.insert 0 [1] 0]).buf.capacity := by
      show 32768 < (ReorderBuffer.withCapacity 5 65536).capacity
      rw [capacity_withCapacity, show 65536 = 2 ^ 16 from rfl, Nat.clog_pow 2 16 (by decide)]
      decide
    have hstops : (of 5 65536 [.insert 0 [1] 0]).buf.insertChecked 1 [2] 0 = none :=
      ReorderBuffer.insertChecked_of_large hcap
        (show (of 5 65536 [.insert 0 [1] 0]).buf.baseSeq = some 0 from rfl) rfl (by decide) [2] 0
    cases hstops.symm.trans hacc.checked
  · have hcap : (ReorderBuffer.withCapacity 5 32768).capacity = 32768 := by
      rw [capacity_withCapacity, show 32768 = 2 ^ 15 from rfl, Nat.clog_pow 2 15 (by decide)]
      rfl
    have hsized : Sized (of 5 32768 [.insert 0 [1] 0, .drain 10]) :=
      Run.invariant_of_step (fun r op h => h.step op) (start_sized 5 32768) _
    have hbuf : (of 5 32768 [.insert 0 [1] 0, .drain 10]).buf = _ := congrArg Prod.fst
      (ReorderBuffer.drainReady_anchor (ReorderBuffer.withCapacity 5 32768) 0 [1] 0 10 (by decide))
    rw [hsized.accommodates_iff]
    intro hroomy
    refine ((hroomy 1 0 (by rw [hbuf]; rfl) (by rw [hbuf]; rfl) (by decide)).2 (by decide)).2
      ⟨by rw [hbuf]; exact hcap, by decide, fun hholds => ?_⟩
    have hslot : (of 5 32768 [.insert 0 [1] 0, .drain 10]).buf.slot 32768 = ⟨0, .empty⟩ := by
      rw [hbuf]
      refine SlotRing.get_set_of_eq _ _ ?_
      show _ % (ReorderBuffer.withCapacity 5 32768).capacity
        = _ % (ReorderBuffer.withCapacity 5 32768).capacity
      rw [hcap]
      rfl
    exact absurd hholds.1 (by rw [hslot]; decide)

end Recording

end Rist
