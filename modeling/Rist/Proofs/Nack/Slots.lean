/-
What each call on the scheduler does to the slot of a number.

The loops are specified slot by slot: the gap loop writes a fresh request for every
missing number it may claim, and the scan treats every slot on its own (`scanned`).
A number is *open* when its own slot is active under it, and in every state a run
reaches an active slot is the slot of the number it carries (`Owned`), so that the
numbers a scan returns are distinct.
-/
import Rist.Proofs.Nack.Count

namespace Rist

open Serial

namespace NackScheduler

variable {s : NackScheduler}

/-- A request for `q` is being tracked. -/
def Open (s : NackScheduler) (q : UInt16) : Prop :=
  (s.slot q).active = true ∧ (s.slot q).seq = q

/-- Every active slot is the slot of the number it carries. -/
def Owned (s : NackScheduler) : Prop :=
  ∀ k < 4096, (s.slots.get k).active = true → (s.slots.get k).seq.toNat % 4096 = k

theorem slot_eq_get (hb : s.slots.bits = ringBits) (q : UInt16) :
    s.slot q = s.slots.get (q.toNat % 4096) := by
  refine s.slots.get_congr ?_
  rw [capacity_eq hb, Nat.mod_mod]

theorem new_inactive (maxRetries : UInt32) (baseDelay : Duration) (now : Instant) (k : Nat) :
    ((new maxRetries baseDelay now).slots.get k).active = false := by
  unfold new
  simp only [SlotRing.get_replicate]

/-- Numbers with the same slot read the same. -/
theorem slot_congr (hb : s.slots.bits = ringBits) {p q : UInt16}
    (h : p.toNat % 4096 = q.toNat % 4096) : s.slot p = s.slot q := by
  rw [slot_eq_get hb, slot_eq_get hb, h]

/-! ### Giving up a number -/

theorem deactivate_fields (s : NackScheduler) (seq : UInt16) :
    (s.deactivate seq).expectedSeq = s.expectedSeq ∧
    (s.deactivate seq).maxRetries = s.maxRetries := by
  unfold deactivate
  split <;> exact ⟨rfl, rfl⟩

theorem deactivate_slot (hb : s.slots.bits = ringBits) (seq q : UInt16) :
    (s.deactivate seq).slot q = s.slot q ∧ (s.Open q → q ≠ seq) ∨
    s.Open seq ∧ q.toNat % 4096 = seq.toNat % 4096 ∧
      (s.deactivate seq).slot q = { s.slot seq with active := false } := by
  unfold deactivate
  split
  · rename_i hopen
    by_cases hq : seq.toNat % 4096 = q.toNat % 4096
    · refine Or.inr ⟨hopen, hq.symm, ?_⟩
      exact SlotRing.get_set_of_eq _ _ (by rw [capacity_eq hb]; exact hq)
    · refine Or.inl ⟨?_, fun _ hc => hq (by rw [hc])⟩
      exact SlotRing.get_set_of_ne _ _ (by rw [capacity_eq hb]; exact hq)
  · rename_i hclosed
    exact Or.inl ⟨rfl, fun hq hc => hclosed (hc ▸ hq)⟩

theorem deactivate_open_iff (hb : s.slots.bits = ringBits) (seq q : UInt16) :
    (s.deactivate seq).Open q ↔ s.Open q ∧ q ≠ seq := by
  unfold Open
  rcases deactivate_slot hb seq q with ⟨hslot, hne⟩ | ⟨hopen, hcong, hslot⟩
  · rw [hslot]
    exact ⟨fun h => ⟨h, hne h⟩, fun h => h.1⟩
  · rw [hslot]
    refine iff_of_false (by simp) ?_
    rintro ⟨⟨-, hq⟩, hne⟩
    rw [slot_congr hb hcong, hopen.2] at hq
    exact hne hq.symm

/-- What stays open is untouched. -/
theorem deactivate_slot_of_open (hb : s.slots.bits = ringBits) {seq q : UInt16}
    (h : (s.deactivate seq).Open q) : (s.deactivate seq).slot q = s.slot q := by
  rcases deactivate_slot hb seq q with ⟨hslot, -⟩ | ⟨-, -, hslot⟩
  · exact hslot
  · have hact := h.1
    rw [hslot] at hact
    simp at hact

theorem Owned.deactivate (hb : s.slots.bits = ringBits) (h : s.Owned) (seq : UInt16) :
    (s.deactivate seq).Owned := by
  intro k hk hact
  unfold NackScheduler.deactivate at hact ⊢
  split at hact
  · rename_i hopen
    rw [if_pos hopen]
    simp only [SlotRing.get_set, capacity_eq hb] at hact ⊢
    split at hact
    · simp at hact
    · rename_i hne
      rw [if_neg hne]
      exact h k hk hact
  · rename_i hclosed
    rw [if_neg hclosed]
    exact h k hk hact

/-! ### The gap loop -/

theorem trackGaps_fields (s : NackScheduler) (expected : UInt16) (now : Instant) (n : Nat) :
    (s.trackGaps expected now n).1.baseDelay = s.baseDelay ∧
    (s.trackGaps expected now n).1.maxRetries = s.maxRetries := by
  induction n with
  | zero => exact ⟨rfl, rfl⟩
  | succ n ih =>
      simp only [trackGaps]
      split <;> exact ih

/-- **The gap loop** over numbers that are not tracked: every one of them gets a
fresh request, and the counter counts them. -/
theorem trackGaps_fresh (hb : s.slots.bits = ringBits) (expected : UInt16) (now : Instant) :
    ∀ n : Nat, n ≤ 4096 →
      (∀ i < n, claimable (s.slot (expected + UInt16.ofNat i)) (expected + UInt16.ofNat i)
        = true) →
      (∀ i < n, (s.trackGaps expected now n).1.slot (expected + UInt16.ofNat i)
        = ⟨expected + UInt16.ofNat i, true, now + s.baseDelay, 0⟩) ∧
      (s.trackGaps expected now n).1.activeCount = s.activeCount + UInt32.ofNat n := by
  intro n
  induction n with
  | zero => intro _ _; exact ⟨fun i hi => by omega, by simp [trackGaps]⟩
  | succ n ih =>
      intro hn hfree
      obtain ⟨hslots, hcount⟩ := ih (by omega) fun i hi => hfree i (by omega)
      have hhead := trackGaps_head hb expected now (show n < 4096 by omega)
      have hbits := (trackGaps_bits s expected now n).trans hb
      obtain ⟨hdelay, -⟩ := trackGaps_fields s expected now n
      simp only [trackGaps, hhead]
      rw [if_pos (hfree n (by omega))]
      refine ⟨fun i hi => ?_, ?_⟩
      · show SlotRing.get (SlotRing.set _ _ _) _ = _
        rw [SlotRing.get_set, capacity_eq hbits, missing_mod expected (by omega),
          missing_mod expected (by omega), hdelay]
        by_cases hin : i = n
        · subst hin
          rw [if_pos rfl]
        · rw [if_neg (by omega)]
          exact hslots i (by omega)
      · simp only [hcount]
        rw [UInt32.add_assoc]
        congr 1
        rw [UInt32.ofNat_add]
        rfl

theorem Owned.trackGaps (hb : s.slots.bits = ringBits) (h : s.Owned) (expected : UInt16)
    (now : Instant) (n : Nat) : (s.trackGaps expected now n).1.Owned := by
  induction n with
  | zero => exact h
  | succ n ih =>
      have hbits := (trackGaps_bits s expected now n).trans hb
      simp only [NackScheduler.trackGaps]
      split
      · intro k hk hact
        simp only [SlotRing.get_set, capacity_eq hbits] at hact ⊢
        split
        · rename_i heq
          rw [Nat.mod_eq_of_lt hk] at heq
          exact heq
        · rename_i hne
          rw [if_neg hne] at hact
          exact ih k hk hact
      · exact ih

/-! ### The scan -/

/-- The slot is asked for again by a scan at `now`. -/
def requested (maxRetries : UInt32) (now : Instant) (slot : NackSlot) : Bool :=
  slot.active && decide (slot.nextNackAt ≤ now) && decide (slot.nackCount < maxRetries)

/-- What a scan makes of a slot. -/
def scanned (maxRetries : UInt32) (now : Instant) (retryDelay : Duration) (slot : NackSlot) :
    NackSlot :=
  if requested maxRetries now slot then
    { slot with nackCount := slot.nackCount + 1, nextNackAt := now + retryDelay }
  else if slot.active = true ∧ slot.nextNackAt ≤ now then { slot with active := false }
  else slot

theorem scan_fields (s : NackScheduler) (now : Instant) (delay : Duration) (n : Nat) :
    (s.scan now delay n).1.slots.bits = s.slots.bits ∧
    (s.scan now delay n).1.maxRetries = s.maxRetries ∧
    (s.scan now delay n).1.expectedSeq = s.expectedSeq ∧
    (s.scan now delay n).1.activeCount.toNat ≤ s.activeCount.toNat := by
  induction n with
  | zero => exact ⟨rfl, rfl, rfl, Nat.le_refl _⟩
  | succ n ih =>
      simp only [scan]
      split
      · exact ih
      · split
        · split
          · exact ⟨ih.1, ih.2.1, ih.2.2.1, (decrement_le _).trans ih.2.2.2⟩
          · exact ih
        · exact ih

/-- **One turn of the scan** writes what `scanned` makes of the slot, and asks for its
number when the slot is `requested`. -/
theorem scan_turn (hb : s.slots.bits = ringBits) (now : Instant) (delay : Duration) {n : Nat}
    (hn : n < 4096) :
    (∀ k < 4096, (s.scan now delay (n + 1)).1.slots.get k
      = if n = k then scanned s.maxRetries now delay ((s.scan now delay n).1.slots.get n)
        else (s.scan now delay n).1.slots.get k) ∧
    (s.scan now delay (n + 1)).2 = (s.scan now delay n).2
      ++ (if requested s.maxRetries now ((s.scan now delay n).1.slots.get n) then
        [((s.scan now delay n).1.slots.get n).seq] else []) := by
  obtain ⟨hbits, hmax, -, -⟩ := scan_fields s now delay n
  have hcap := capacity_eq (hbits.trans hb)
  simp only [scan, hmax]
  generalize hslot : (s.scan now delay n).1.slots.get n = slot
  have hwrite : ∀ x : NackSlot, ∀ k < 4096, ((s.scan now delay n).1.slots.set n x).get k
      = if n = k then x else (s.scan now delay n).1.slots.get k := by
    intro x k hk
    rw [SlotRing.get_set, hcap, Nat.mod_eq_of_lt hn, Nat.mod_eq_of_lt hk]
  have hkeep : ∀ k < 4096, (s.scan now delay n).1.slots.get k
      = if n = k then slot else (s.scan now delay n).1.slots.get k := by
    intro k _
    split
    · rename_i heq
      rw [← heq, hslot]
    · rfl
  by_cases hact : slot.active = true
  · rw [if_neg (by simp [hact])]
    by_cases hdue : slot.nextNackAt ≤ now
    · rw [if_pos hdue]
      by_cases hmore : slot.nackCount < s.maxRetries
      · have hreq : requested s.maxRetries now slot = true := by
          simp [requested, hact, hdue, hmore]
        rw [if_neg (UInt32.not_le.mpr hmore), scanned, if_pos hreq, if_pos hreq]
        exact ⟨hwrite _, rfl⟩
      · have hreq : ¬requested s.maxRetries now slot = true := by
          simp [requested, hmore]
        rw [if_pos (UInt32.not_lt.mp hmore), scanned, if_neg hreq, if_neg hreq,
          if_pos ⟨hact, hdue⟩, List.append_nil]
        exact ⟨hwrite _, rfl⟩
    · have hreq : ¬requested s.maxRetries now slot = true := by
        simp [requested, hdue]
      rw [if_neg hdue, scanned, if_neg hreq, if_neg hreq, if_neg fun hc => hdue hc.2,
        List.append_nil]
      exact ⟨hkeep, rfl⟩
  · have hreq : ¬requested s.maxRetries now slot = true := by
      simp [requested, hact]
    rw [if_pos (by simpa using hact), scanned, if_neg hreq, if_neg hreq,
      if_neg fun hc => hact hc.1, List.append_nil]
    exact ⟨hkeep, rfl⟩

/-- **The scan**, slot by slot. -/
theorem scan_spec (hb : s.slots.bits = ringBits) (now : Instant) (delay : Duration) :
    ∀ n : Nat, n ≤ 4096 →
      (∀ k < 4096, (s.scan now delay n).1.slots.get k
        = if k < n then scanned s.maxRetries now delay (s.slots.get k) else s.slots.get k) ∧
      (s.scan now delay n).2 = (((List.range n).filter fun k =>
        requested s.maxRetries now (s.slots.get k)).map fun k => (s.slots.get k).seq) := by
  intro n
  induction n with
  | zero => intro _; exact ⟨fun k hk => by simp [scan], by simp [scan]⟩
  | succ n ih =>
      intro hn
      obtain ⟨hslots, hlist⟩ := ih (by omega)
      obtain ⟨hturn, hask⟩ := scan_turn hb now delay (show n < 4096 by omega)
      -- the turns before this one have not touched its slot
      have hget : (s.scan now delay n).1.slots.get n = s.slots.get n := by
        rw [hslots n (by omega), if_neg (by omega)]
      rw [hget] at hturn hask
      constructor
      · intro k hk
        rw [hturn k hk, hslots k hk]
        by_cases hkn : n = k
        · rw [if_pos hkn, if_pos (by omega), hkn]
        · rw [if_neg hkn]
          exact if_congr (by omega) rfl rfl
      · rw [hask, hlist, List.range_succ, List.filter_append, List.map_append,
          List.filter_singleton]
        cases requested s.maxRetries now (s.slots.get n) with
        | true => rfl
        | false => rfl

theorem scanned_inactive {maxRetries : UInt32} {now : Instant} {delay : Duration}
    {slot : NackSlot} (h : slot.active = false) : scanned maxRetries now delay slot = slot := by
  unfold scanned requested
  simp [h]

theorem scanned_seq (maxRetries : UInt32) (now : Instant) (delay : Duration) (slot : NackSlot) :
    (scanned maxRetries now delay slot).seq = slot.seq := by
  unfold scanned
  split
  · rfl
  · split <;> rfl

theorem scanned_active {maxRetries : UInt32} {now : Instant} {delay : Duration} {slot : NackSlot}
    (h : (scanned maxRetries now delay slot).active = true) : slot.active = true := by
  cases hact : slot.active with
  | true => rfl
  | false => rw [scanned_inactive hact, hact] at h; exact h

theorem requested_iff {maxRetries : UInt32} {now : Instant} {slot : NackSlot}
    (h : slot.active = true) : requested maxRetries now slot = true ↔
      slot.nextNackAt ≤ now ∧ slot.nackCount.toNat < maxRetries.toNat := by
  unfold requested
  rw [h, ← UInt32.lt_iff_toNat_lt]
  simp

theorem scanned_of_requested {maxRetries : UInt32} {now : Instant} {slot : NackSlot}
    (h : requested maxRetries now slot = true) (delay : Duration) :
    scanned maxRetries now delay slot
      = { slot with nackCount := slot.nackCount + 1, nextNackAt := now + delay } := by
  unfold scanned
  rw [if_pos h]

/-- A slot that is not asked for and stays active is not touched. -/
theorem scanned_of_active {maxRetries : UInt32} {now : Instant} {delay : Duration}
    {slot : NackSlot} (h : ¬requested maxRetries now slot = true)
    (hact : (scanned maxRetries now delay slot).active = true) :
    scanned maxRetries now delay slot = slot := by
  unfold scanned at hact ⊢
  rw [if_neg h] at hact ⊢
  split at hact
  · simp at hact
  · rename_i hne
    rw [if_neg hne]

theorem scanned_of_early {maxRetries : UInt32} {now : Instant} {delay : Duration}
    {slot : NackSlot} (h : ¬slot.nextNackAt ≤ now) :
    scanned maxRetries now delay slot = slot := by
  unfold scanned requested
  simp [h]

/-- What one call of `get_pending_nacks` does. -/
structure Polled (s s' : NackScheduler) (now : Instant) (delay : Duration)
    (returned : List UInt16) : Prop where
  bits : s'.slots.bits = s.slots.bits
  maxRetries : s'.maxRetries = s.maxRetries
  expectedSeq : s'.expectedSeq = s.expectedSeq
  activeCount : s'.activeCount.toNat ≤ s.activeCount.toNat
  slots : ∀ q, s'.slot q = scanned s.maxRetries now delay (s.slot q)
  returned_iff : ∀ q, q ∈ returned ↔ s.Open q ∧ requested s.maxRetries now (s.slot q) = true
  sorted : returned.Pairwise (· < ·)

theorem mem_scan_iff (hb : s.slots.bits = ringBits) (howned : s.Owned) (now : Instant)
    (delay : Duration) (q : UInt16) :
    q ∈ (s.scan now delay s.slots.capacity).2 ↔
      s.Open q ∧ requested s.maxRetries now (s.slot q) = true := by
  rw [(scan_spec hb now delay _ (capacity_eq hb).le).2, capacity_eq hb]
  simp only [List.mem_map, List.mem_filter, List.mem_range]
  constructor
  · rintro ⟨k, ⟨hk, hreq⟩, rfl⟩
    have hact : (s.slots.get k).active = true := by
      simp only [requested, Bool.and_eq_true] at hreq
      exact hreq.1.1
    have hslot : s.slot (s.slots.get k).seq = s.slots.get k := by
      rw [slot_eq_get hb, howned k hk hact]
    unfold Open
    rw [hslot]
    exact ⟨⟨hact, rfl⟩, hreq⟩
  · rintro ⟨⟨hact, hseq⟩, hreq⟩
    rw [slot_eq_get hb] at hreq hseq
    exact ⟨q.toNat % 4096, ⟨Nat.mod_lt _ (by decide), hreq⟩, hseq⟩

theorem scan_nodup (hb : s.slots.bits = ringBits) (howned : s.Owned) (now : Instant)
    (delay : Duration) : (s.scan now delay s.slots.capacity).2.Nodup := by
  rw [(scan_spec hb now delay _ (capacity_eq hb).le).2, capacity_eq hb]
  refine List.Nodup.map_on ?_ (List.nodup_range.filter _)
  -- the slot is the low bits of the number it carries
  intro j hj k hk heq
  have hown : ∀ i ∈ (List.range 4096).filter (fun k => requested s.maxRetries now (s.slots.get k)),
      (s.slots.get i).seq.toNat % 4096 = i := by
    intro i hi
    simp only [List.mem_filter, List.mem_range, requested, Bool.and_eq_true] at hi
    exact howned i hi.1 hi.2.1.1
  rw [← hown j hj, ← hown k hk, heq]

theorem pairwise_lt_insertionSort {l : List UInt16} (h : l.Nodup) :
    (l.insertionSort (· ≤ ·)).Pairwise (· < ·) := by
  have hnodup := (List.perm_insertionSort (· ≤ ·) l).nodup_iff.mpr h
  have hsorted := List.pairwise_insertionSort (· ≤ ·) l
  exact (hsorted.and hnodup).imp fun hab => UInt16.lt_of_le_of_ne hab.1 hab.2

/-- An empty counter means no slot is active. -/
theorem inactive_of_activeCount (hb : s.slots.bits = ringBits) {d : Nat} (h : Surplus s d)
    (hz : s.activeCount = 0) (q : UInt16) : (s.slot q).active = false := by
  have hzero : s.activeSlots = 0 := by
    unfold Surplus at h
    rw [hz] at h
    simp only [UInt32.toNat_zero] at h
    omega
  unfold activeSlots at hzero
  rw [SlotRing.count_eq_card_range, Finset.card_eq_zero, Finset.filter_eq_empty_iff,
    capacity_eq hb] at hzero
  rw [slot_eq_get hb]
  have := hzero (Finset.mem_range.mpr (Nat.mod_lt q.toNat (show 0 < 4096 by decide)))
  simpa using this

/-- A scan of the whole ring, whatever the counter says. -/
theorem scan_polled (hb : s.slots.bits = ringBits) (howned : s.Owned) (now : Instant)
    (delay : Duration) :
    Polled s (s.scan now delay s.slots.capacity).1 now delay
      ((s.scan now delay s.slots.capacity).2.insertionSort (· ≤ ·)) := by
  obtain ⟨h1, h2, h3, h4⟩ := scan_fields s now delay s.slots.capacity
  obtain ⟨hslots, -⟩ := scan_spec hb now delay _ (capacity_eq hb).le
  have hnodup := scan_nodup hb howned now delay
  refine ⟨h1, h2, h3, h4, fun q => ?_, fun q => ?_, pairwise_lt_insertionSort hnodup⟩
  · rw [slot_eq_get (h1.trans hb), slot_eq_get hb, hslots _ (Nat.mod_lt _ (by decide)),
      if_pos (by rw [capacity_eq hb]; exact Nat.mod_lt _ (by decide))]
  · rw [List.mem_insertionSort]
    exact mem_scan_iff hb howned now delay q

/-- **`get_pending_nacks`.**  The early exit is right because the counter is never
below the number of active slots. -/
theorem getPendingNacks_spec (hb : s.slots.bits = ringBits) (howned : s.Owned) {d : Nat}
    (h : Surplus s d) (now : Instant) (rtt : Option Duration) :
    Polled s (s.getPendingNacks now rtt).1 now (rtt.getD s.baseDelay)
      (s.getPendingNacks now rtt).2 := by
  unfold getPendingNacks
  split
  · rename_i hz
    have hoff := inactive_of_activeCount hb h hz
    refine ⟨rfl, rfl, rfl, Nat.le_refl _, fun q => ?_, fun q => ?_, List.Pairwise.nil⟩
    · rw [scanned_inactive (hoff q)]
    · refine iff_of_false (by simp) ?_
      rintro ⟨⟨hact, -⟩, -⟩
      rw [hoff q] at hact
      simp at hact
  · exact scan_polled hb howned now (rtt.getD s.baseDelay)

/-- Without knowing the counter to be right: the call scans the ring, or does nothing. -/
theorem getPendingNacks_cases (hb : s.slots.bits = ringBits) (howned : s.Owned) (now : Instant)
    (rtt : Option Duration) :
    s.getPendingNacks now rtt = (s, []) ∨
      Polled s (s.getPendingNacks now rtt).1 now (rtt.getD s.baseDelay)
        (s.getPendingNacks now rtt).2 := by
  unfold getPendingNacks
  split
  · exact Or.inl rfl
  · exact Or.inr (scan_polled hb howned now (rtt.getD s.baseDelay))

/-- The numbers come out in order, each of them once. -/
theorem getPendingNacks_sorted (hb : s.slots.bits = ringBits) (howned : s.Owned) (now : Instant)
    (rtt : Option Duration) : (s.getPendingNacks now rtt).2.Pairwise (· < ·) := by
  rcases getPendingNacks_cases hb howned now rtt with hnone | hpoll
  · rw [hnone]
    exact List.Pairwise.nil
  · exact hpoll.sorted

theorem Polled.owned (hb : s.slots.bits = ringBits) (howned : s.Owned) {s' : NackScheduler}
    {now : Instant} {delay : Duration} {returned : List UInt16}
    (h : Polled s s' now delay returned) : s'.Owned := by
  intro k hk hact
  have hslot := h.slots (UInt16.ofNat k)
  have hmod : (UInt16.ofNat k).toNat % 4096 = k := by
    rw [ofNat_toNat_of_lt (by omega), Nat.mod_eq_of_lt hk]
  rw [slot_eq_get (h.bits.trans hb), slot_eq_get hb, hmod] at hslot
  rw [hslot] at hact ⊢
  rw [scanned_seq]
  exact howned k hk (scanned_active hact)

/-! ### Runs -/

theorem owned_step (h : s.slots.bits = ringBits ∧ s.Owned) (op : NackOp) :
    (s.step op).slots.bits = ringBits ∧ (s.step op).Owned := by
  obtain ⟨hb, howned⟩ := h
  cases op with
  | received seq now =>
      show (s.onPacketReceived seq now).1.slots.bits = _ ∧ (s.onPacketReceived seq now).1.Owned
      obtain ⟨-, heq⟩ | ⟨expected, -, -, -, heq⟩ | ⟨expected, -, -, heq⟩ | ⟨expected, -, -, heq⟩ :=
        onPacketReceived_cases s seq now
      · rw [heq]
        exact ⟨hb, howned⟩
      · rw [heq]
        exact ⟨(trackGaps_bits s expected now _).trans hb, howned.trackGaps hb expected now _⟩
      · rw [heq]
        exact ⟨hb, howned⟩
      · rw [heq]
        exact ⟨(deactivate_bits s seq).trans hb, howned.deactivate hb seq⟩
  | recovered seq => exact ⟨(deactivate_bits s seq).trans hb, howned.deactivate hb seq⟩
  | pending now rtt =>
      show (s.getPendingNacks now rtt).1.slots.bits = _ ∧ (s.getPendingNacks now rtt).1.Owned
      rcases getPendingNacks_cases hb howned now rtt with hnone | hpoll
      · rw [hnone]
        exact ⟨hb, howned⟩
      · exact ⟨hpoll.bits.trans hb, hpoll.owned hb howned⟩
  | baseDelay delay => exact ⟨hb, howned⟩

theorem owned_run (maxRetries : UInt32) (baseDelay : Duration) (now : Instant)
    (ops : List NackOp) :
    (Run.final step (new maxRetries baseDelay now) ops).slots.bits = ringBits ∧
      (Run.final step (new maxRetries baseDelay now) ops).Owned := by
  refine Run.invariant_of_step (I := fun s : NackScheduler => s.slots.bits = ringBits ∧ s.Owned)
    (fun s op h => owned_step h op) ⟨rfl, fun k _ hact => ?_⟩ ops
  rw [new_inactive] at hact
  exact absurd hact (by decide)

/-! ### The base delay -/

theorem deactivate_baseDelay (s : NackScheduler) (seq : UInt16) :
    (s.deactivate seq).baseDelay = s.baseDelay := by
  unfold deactivate
  split <;> rfl

theorem getPendingNacks_baseDelay (s : NackScheduler) (now : Instant) (rtt : Option Duration) :
    (s.getPendingNacks now rtt).1.baseDelay = s.baseDelay := by
  have hscan : ∀ (delay : Duration) (n : Nat), (s.scan now delay n).1.baseDelay = s.baseDelay := by
    intro delay n
    induction n with
    | zero => rfl
    | succ n ih =>
        simp only [scan]
        split
        · exact ih
        · split
          · split <;> exact ih
          · exact ih
  unfold getPendingNacks
  split
  · rfl
  · exact hscan _ _

/-- Only `update_base_delay` changes the base delay. -/
theorem step_baseDelay (s : NackScheduler) (op : NackOp) :
    (s.step op).baseDelay = match op with
      | .baseDelay delay => delay
      | _ => s.baseDelay := by
  cases op with
  | received seq now =>
      show (s.onPacketReceived seq now).1.baseDelay = s.baseDelay
      rcases onPacketReceived_cases s seq now with ⟨-, heq⟩ | ⟨e, -, -, -, heq⟩ | ⟨e, -, -, heq⟩ |
        ⟨e, -, -, heq⟩
      · rw [heq]
      · rw [heq]
        exact (trackGaps_fields s e now _).1
      · rw [heq]
      · rw [heq]
        exact deactivate_baseDelay s seq
  | recovered seq => exact deactivate_baseDelay s seq
  | pending now rtt => exact getPendingNacks_baseDelay s now rtt
  | baseDelay delay => rfl

end NackScheduler

end Rist
