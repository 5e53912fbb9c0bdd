/-
The scheduler's counter against its slots.

`active_count` is kept beside the flags it counts, and four places adjust it.
`Surplus s d` says the counter is `d` more than the number of active slots.  Giving
up a slot keeps the surplus, and so does a scan.  The gap loop raises it by the
slots it takes from another number that was still active, which it counts up
without counting the old one down.
-/
import Rist.Protocol.NackTracker
import Rist.Lib.Run

namespace Rist

open Serial

/-- A call on the scheduler. -/
inductive NackOp where
  | received (seq : UInt16) (now : Instant)
  | recovered (seq : UInt16)
  | pending (now : Instant) (rtt : Option Duration)
  | baseDelay (delay : Duration)

namespace NackScheduler

def step (s : NackScheduler) : NackOp → NackScheduler
  | .received seq now => (s.onPacketReceived seq now).1
  | .recovered seq => s.onPacketRecovered seq
  | .pending now rtt => (s.getPendingNacks now rtt).1
  | .baseDelay delay => s.updateBaseDelay delay

/-- The number of slots whose flag is set. -/
def activeSlots (s : NackScheduler) : Nat := s.slots.count fun slot => slot.active

def Surplus (s : NackScheduler) (d : Nat) : Prop := s.activeCount.toNat = s.activeSlots + d

variable {s : NackScheduler}

/-- **Everything a packet can do to the scheduler.** -/
theorem onPacketReceived_cases (s : NackScheduler) (seq : UInt16) (now : Instant) :
    (s.expectedSeq = none ∧
      s.onPacketReceived seq now = ({ s with expectedSeq := some (seq + 1), scanLo := seq }, [])) ∨
    (∃ expected, s.expectedSeq = some expected ∧ 0 < asI16 (seq - expected) ∧
      seq - expected ≤ maxTrackableGap ∧
      s.onPacketReceived seq now
        = ({ (s.trackGaps expected now (seq - expected).toNat).1 with
              expectedSeq := some (seq + 1) },
          (s.trackGaps expected now (seq - expected).toNat).2)) ∨
    (∃ expected, s.expectedSeq = some expected ∧
      (asI16 (seq - expected) = 0 ∨
        0 < asI16 (seq - expected) ∧ ¬seq - expected ≤ maxTrackableGap) ∧
      s.onPacketReceived seq now = ({ s with expectedSeq := some (seq + 1) }, [])) ∨
    (∃ expected, s.expectedSeq = some expected ∧ asI16 (seq - expected) < 0 ∧
      s.onPacketReceived seq now = (s.deactivate seq, [])) := by
  unfold onPacketReceived
  cases he : s.expectedSeq with
  | none => exact Or.inl ⟨rfl, rfl⟩
  | some expected =>
      simp only
      by_cases hpos : 0 < asI16 (seq - expected)
      · rw [if_pos hpos]
        by_cases hgap : seq - expected ≤ maxTrackableGap
        · refine Or.inr (Or.inl ⟨expected, rfl, hpos, hgap, ?_⟩)
          rw [if_pos hgap]
        · refine Or.inr (Or.inr (Or.inl ⟨expected, rfl, Or.inr ⟨hpos, hgap⟩, ?_⟩))
          rw [if_neg hgap]
      · rw [if_neg hpos]
        by_cases hzero : asI16 (seq - expected) = 0
        · rw [if_pos hzero]
          exact Or.inr (Or.inr (Or.inl ⟨expected, rfl, Or.inl hzero, rfl⟩))
        · rw [if_neg hzero]
          exact Or.inr (Or.inr (Or.inr ⟨expected, rfl, by omega, rfl⟩))

/-! ### Slots -/

theorem decrement_toNat {n : UInt32} (h : 0 < n.toNat) : (decrement n).toNat + 1 = n.toNat := by
  have hne : n ≠ 0 := by
    rintro rfl
    simp at h
  have hlt := n.toNat_lt
  unfold decrement
  rw [if_neg hne, UInt32.toNat_sub]
  simp only [UInt32.toNat_one]
  omega

theorem decrement_le (n : UInt32) : (decrement n).toNat ≤ n.toNat := by
  rcases Nat.eq_zero_or_pos n.toNat with h | h
  · have hz : n = 0 := UInt32.toNat_inj.mp h
    rw [hz]
    exact Nat.le_refl _
  · have := decrement_toNat h
    omega

theorem activeSlots_le (s : NackScheduler) : s.activeSlots ≤ s.slots.capacity := by
  unfold activeSlots
  rw [SlotRing.count_eq_card_range]
  exact (Finset.card_filter_le _ _).trans (by rw [Finset.card_range])

/-- A slot goes from active to inactive, and the counter goes down with it. -/
theorem Surplus.release {d k : Nat} (h : Surplus s d) {slot : NackSlot}
    (hold : (s.slots.get k).active = true) (hnew : slot.active = false) :
    Surplus { s with slots := s.slots.set k slot, activeCount := decrement s.activeCount } d := by
  have hcount := s.slots.count_set k slot fun x => x.active
  simp only [hold, hnew, if_true, Bool.false_eq_true, if_false] at hcount
  unfold Surplus activeSlots at h ⊢
  have hdec := decrement_toNat (n := s.activeCount) (by omega)
  simp only
  omega

/-- A write that keeps the flag keeps the surplus. -/
theorem Surplus.keep {d k : Nat} (h : Surplus s d) {slot : NackSlot}
    (hflag : slot.active = (s.slots.get k).active) :
    Surplus { s with slots := s.slots.set k slot } d := by
  have hcount := s.slots.count_set k slot fun x => x.active
  rw [hflag] at hcount
  unfold Surplus activeSlots at h ⊢
  simp only
  omega

theorem Surplus.deactivate {d : Nat} (h : Surplus s d) (seq : UInt16) :
    Surplus (s.deactivate seq) d := by
  unfold NackScheduler.deactivate
  split
  · rename_i hact
    exact h.release hact.1 rfl
  · exact h

theorem deactivate_bits (s : NackScheduler) (seq : UInt16) :
    (s.deactivate seq).slots.bits = s.slots.bits := by
  unfold NackScheduler.deactivate
  split <;> rfl

theorem Surplus.scan {d : Nat} (h : Surplus s d) (now : Instant) (delay : Duration) (n : Nat) :
    Surplus (s.scan now delay n).1 d ∧ (s.scan now delay n).1.slots.bits = s.slots.bits := by
  induction n with
  | zero => exact ⟨h, rfl⟩
  | succ n ih =>
      simp only [NackScheduler.scan]
      split
      · exact ih
      · rename_i hact
        split
        · split
          · exact ⟨ih.1.release (by simpa using hact) rfl, ih.2⟩
          · exact ⟨ih.1.keep rfl, ih.2⟩
        · exact ih

theorem Surplus.getPendingNacks {d : Nat} (h : Surplus s d) (now : Instant)
    (rtt : Option Duration) :
    Surplus (s.getPendingNacks now rtt).1 d ∧
      (s.getPendingNacks now rtt).1.slots.bits = s.slots.bits := by
  unfold NackScheduler.getPendingNacks
  split
  · exact ⟨h, rfl⟩
  · exact h.scan now _ _

/-! ### The gap loop -/

theorem capacity_eq (hb : s.slots.bits = ringBits) : s.slots.capacity = 4096 := by
  unfold SlotRing.capacity
  rw [hb]
  rfl

theorem trackGaps_bits (s : NackScheduler) (expected : UInt16) (now : Instant) (n : Nat) :
    (s.trackGaps expected now n).1.slots.bits = s.slots.bits := by
  induction n with
  | zero => rfl
  | succ n ih =>
      simp only [trackGaps]
      split <;> exact ih

/-- The slot of the `i`th missing number. -/
theorem missing_mod (expected : UInt16) {i : Nat} (hi : i < 65536) :
    (expected + UInt16.ofNat i).toNat % 4096 = (expected.toNat + i) % 4096 := by
  rw [UInt16.toNat_add, ofNat_toNat_of_lt hi]
  omega

/-- The loop keeps the slots it does not reach. -/
theorem trackGaps_untouched (hb : s.slots.bits = ringBits) (expected : UInt16) (now : Instant)
    (q : UInt16) :
    ∀ n : Nat, (∀ i < n, (expected + UInt16.ofNat i).toNat % 4096 ≠ q.toNat % 4096) →
      (s.trackGaps expected now n).1.slot q = s.slot q := by
  intro n
  induction n with
  | zero => intro _; rfl
  | succ n ih =>
      intro hne
      have hslot := ih fun i hi => hne i (by omega)
      simp only [trackGaps]
      split
      · rw [← hslot]
        refine SlotRing.get_set_of_ne _ _ ?_
        rw [capacity_eq ((trackGaps_bits s expected now n).trans hb)]
        exact hne n (by omega)
      · exact hslot

/-- Within a ring the loop meets every slot as it was before the loop. -/
theorem trackGaps_head (hb : s.slots.bits = ringBits) (expected : UInt16) (now : Instant) {n : Nat}
    (hn : n < 4096) :
    (s.trackGaps expected now n).1.slot (expected + UInt16.ofNat n)
      = s.slot (expected + UInt16.ofNat n) := by
  refine trackGaps_untouched hb expected now _ n fun i hi => ?_
  rw [missing_mod expected (by omega), missing_mod expected (by omega)]
  omega

/-- The slots among the first `n` that another number is still active in. -/
def evicted (s : NackScheduler) (expected : UInt16) : Nat → Nat
  | 0 => 0
  | n + 1 =>
    let missing := expected + UInt16.ofNat n
    s.evicted expected n
      + if (s.slot missing).active = true ∧ (s.slot missing).seq ≠ missing then 1 else 0

theorem evicted_eq_zero_iff (expected : UInt16) (n : Nat) :
    s.evicted expected n = 0 ↔ ¬∃ i < n, (s.slot (expected + UInt16.ofNat i)).active = true ∧
      (s.slot (expected + UInt16.ofNat i)).seq ≠ expected + UInt16.ofNat i := by
  induction n with
  | zero => simp [evicted]
  | succ n ih =>
      rw [evicted, Nat.add_eq_zero_iff, ih]
      constructor
      · rintro ⟨h1, h2⟩ ⟨i, hi, hact⟩
        rcases Nat.lt_succ_iff_lt_or_eq.mp hi with hlt | rfl
        · exact h1 ⟨i, hlt, hact⟩
        · rw [if_pos hact] at h2
          omega
      · intro h
        refine ⟨fun ⟨i, hi, hact⟩ => h ⟨i, by omega, hact⟩, ?_⟩
        rw [if_neg fun hact => h ⟨n, by omega, hact⟩]

theorem evicted_le (expected : UInt16) (n : Nat) : s.evicted expected n ≤ n := by
  induction n with
  | zero => exact Nat.le_refl 0
  | succ n ih =>
      rw [evicted]
      split <;> omega

/-- **The gap loop raises the surplus by what it evicts.** -/
theorem Surplus.trackGaps {d : Nat} (hb : s.slots.bits = ringBits) (h : Surplus s d)
    (hd : d < 2 ^ 31) (expected : UInt16) (now : Instant) :
    ∀ n : Nat, n ≤ 4096 →
      Surplus (s.trackGaps expected now n).1 (d + s.evicted expected n) := by
  intro n
  induction n with
  | zero => intro _; exact h
  | succ n ih =>
      intro hn
      have hs := ih (by omega)
      have hhead := trackGaps_head hb expected now (show n < 4096 by omega)
      have hbits := trackGaps_bits s expected now n
      have hev := evicted_le (s := s) expected n
      have hle := activeSlots_le (s.trackGaps expected now n).1
      rw [capacity_eq (hbits.trans hb)] at hle
      simp only [NackScheduler.trackGaps, evicted, hhead]
      set missing := expected + UInt16.ofNat n with hmissing
      by_cases hclaim : claimable (s.slot missing) missing = true
      · rw [if_pos hclaim]
        have hcount := (s.trackGaps expected now n).1.slots.count_set missing.toNat
          ⟨missing, true, now + (s.trackGaps expected now n).1.baseDelay, 0⟩ fun x => x.active
        have hget : (s.trackGaps expected now n).1.slots.get missing.toNat = s.slot missing := hhead
        rw [hget] at hcount
        unfold Surplus activeSlots at hs ⊢
        unfold activeSlots at hle
        simp only at hcount ⊢
        have hadd : ((s.trackGaps expected now n).1.activeCount + 1).toNat
            = (s.trackGaps expected now n).1.activeCount.toNat + 1 := by
          rw [UInt32.toNat_add]
          simp only [UInt32.toNat_one]
          omega
        rw [hadd]
        by_cases hact : (s.slot missing).active = true
        · have hseq : (s.slot missing).seq ≠ missing := by
            simpa [claimable, hact] using hclaim
          rw [if_pos ⟨hact, hseq⟩]
          rw [if_pos hact] at hcount
          simp only [if_true] at hcount
          omega
        · rw [if_neg fun hc => hact hc.1]
          rw [if_neg hact] at hcount
          simp only [if_true] at hcount
          omega
      · rw [if_neg hclaim]
        have hown : ¬((s.slot missing).active = true ∧ (s.slot missing).seq ≠ missing) := by
          intro hc
          apply hclaim
          simp [claimable, hc.2]
        rw [if_neg hown]
        exact hs

/-! ### The counter over a run -/

/-- The counter is the number of active slots. -/
def CountExact (s : NackScheduler) : Prop := s.pendingCount = s.activeSlots

/-- The call's gap loop takes over a slot that another number is still active in. -/
def Evicts (s : NackScheduler) : NackOp → Prop
  | .received seq _ =>
    ∃ expected, s.expectedSeq = some expected ∧ 0 < asI16 (seq - expected) ∧
      seq - expected ≤ maxTrackableGap ∧
      ∃ i < (seq - expected).toNat, (s.slot (expected + UInt16.ofNat i)).active = true ∧
        (s.slot (expected + UInt16.ofNat i)).seq ≠ expected + UInt16.ofNat i
  | _ => False

theorem Surplus.step {d : Nat} (hb : s.slots.bits = ringBits) (h : Surplus s d)
    (hd : d < 2 ^ 31) (op : NackOp) :
    (s.step op).slots.bits = s.slots.bits ∧
      ((¬s.Evicts op ∧ Surplus (s.step op) d) ∨
        (s.Evicts op ∧ ∃ e, 0 < e ∧ Surplus (s.step op) (d + e))) := by
  cases op with
  | recovered seq => exact ⟨deactivate_bits s seq, Or.inl ⟨id, h.deactivate seq⟩⟩
  | pending now rtt =>
      obtain ⟨h1, h2⟩ := h.getPendingNacks now rtt
      exact ⟨h2, Or.inl ⟨id, h1⟩⟩
  | baseDelay delay => exact ⟨rfl, Or.inl ⟨id, h⟩⟩
  | received seq now =>
      simp only [NackScheduler.step]
      rcases onPacketReceived_cases s seq now with ⟨he, ho⟩ | ⟨expected, he, hdiff, hgap, ho⟩ |
        ⟨expected, he, hskip, ho⟩ | ⟨expected, he, hneg, ho⟩
      · rw [ho]
        refine ⟨rfl, Or.inl ⟨?_, h⟩⟩
        rintro ⟨expected, he', -⟩
        rw [he] at he'
        exact absurd he' (by simp)
      · rw [ho]
        have hle : (seq - expected).toNat ≤ 1000 := UInt16.le_iff_toNat_le.mp hgap
        have hs := h.trackGaps hb hd expected now (seq - expected).toNat (by omega)
        have hbits := trackGaps_bits s expected now (seq - expected).toNat
        refine ⟨hbits, ?_⟩
        by_cases hz : s.evicted expected (seq - expected).toNat = 0
        · refine Or.inl ⟨?_, by rw [hz] at hs; exact hs⟩
          rintro ⟨expected', he', -, -, hex⟩
          rw [he] at he'
          obtain rfl := Option.some.inj he'
          exact (evicted_eq_zero_iff expected _).mp hz hex
        · refine Or.inr ⟨?_, _, Nat.pos_of_ne_zero hz, hs⟩
          refine ⟨expected, he, hdiff, hgap, ?_⟩
          by_contra hc
          exact hz ((evicted_eq_zero_iff expected _).mpr hc)
      · rw [ho]
        refine ⟨rfl, Or.inl ⟨?_, h⟩⟩
        rintro ⟨expected', he', hdiff, hgap, -⟩
        rw [he] at he'
        obtain rfl := Option.some.inj he'
        rcases hskip with hzero | hlarge
        · omega
        · exact hlarge.2 hgap
      · rw [ho]
        refine ⟨deactivate_bits s seq, Or.inl ⟨?_, h.deactivate seq⟩⟩
        rintro ⟨expected', he', hdiff, -⟩
        rw [he] at he'
        obtain rfl := Option.some.inj he'
        omega

theorem countExact_iff : CountExact s ↔ Surplus s 0 := Iff.rfl

/-- From an exact counter, a step keeps it exact unless it evicts. -/
theorem countExact_step_iff (hb : s.slots.bits = ringBits) (h : CountExact s) (op : NackOp) :
    CountExact (s.step op) ↔ ¬s.Evicts op := by
  obtain ⟨-, ⟨hno, hs⟩ | ⟨hev, e, he, hs⟩⟩ :=
    Surplus.step hb (countExact_iff.mp h) (by decide) op
  · exact iff_of_true hs hno
  · refine iff_of_false ?_ (not_not.mpr hev)
    unfold CountExact pendingCount
    unfold Surplus at hs
    omega

theorem new_countExact (maxRetries : UInt32) (baseDelay : Duration) (now : Instant) :
    CountExact (new maxRetries baseDelay now) := by
  show (0 : UInt32).toNat = SlotRing.count (SlotRing.replicate _ _) _
  rw [SlotRing.count_replicate _ _ _ rfl]
  rfl

/-- **The counter is right exactly as long as no gap loop takes over an active slot.** -/
theorem countExact_run_iff (maxRetries : UInt32) (baseDelay : Duration) (now : Instant)
    (ops : List NackOp) :
    Run.Along step (fun s op => CountExact (s.step op)) (new maxRetries baseDelay now) ops ↔
      Run.Along step (fun s op => ¬s.Evicts op) (new maxRetries baseDelay now) ops := by
  refine Run.along_iff_of_invariant (I := fun s => s.slots.bits = ringBits ∧ CountExact s) ?_ ?_
    ⟨rfl, new_countExact maxRetries baseDelay now⟩
  · intro s op ⟨hb, hc⟩
    exact countExact_step_iff hb hc op
  · intro s op ⟨hb, hc⟩ hc'
    exact ⟨(Surplus.step hb (countExact_iff.mp hc) (by decide) op).1.trans hb, hc'⟩

/-- Packets 0, 2, 4096 and 4098: number 4097 takes the slot of number 1. -/
theorem countExact_fails_on_eviction :
    ¬Run.Along step (fun s op => CountExact (s.step op)) (new 3 20 0)
      [.received 0 0, .received 2 0, .received 4096 0, .received 4098 0] := by
  rintro ⟨-, -, h3, h4, -⟩
  refine (countExact_step_iff rfl h3 (.received 4098 0)).mp h4 ?_
  exact ⟨4097, by decide +kernel, by decide +kernel, by decide +kernel, 0, by decide +kernel,
    by decide +kernel, by decide +kernel⟩

end NackScheduler

end Rist
