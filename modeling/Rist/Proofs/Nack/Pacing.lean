/-
How far apart the requests for one number are.

A slot that has been asked for is not asked for again before its `next_nack_at`, so
what keeps requests apart is what the slot was armed with.  A gap is armed with the
base delay, a retry with the delay the scan was called with.  `Paced` says that both
have been at least `floor`: an open slot with requests left waits until `floor` after
every request already made for its number.

A scan keeps this unless it arms a slot that can still be asked for with less than the
floor, which is `Rash`, and a rash scan is one after which the floor does not hold.
-/
import Rist.Proofs.Nack.Slots

namespace Rist

open Serial

/-- A request: when it was made, and for which numbers. -/
structure Asked where
  time : Instant
  seqs : List UInt16

/-- Requests for one number are at least `floor` apart. -/
def Spaced (floor : Duration) (log : List Asked) : Prop :=
  log.Pairwise fun a b => ∀ q ∈ a.seqs, q ∈ b.seqs → a.time + floor ≤ b.time

namespace NackScheduler

variable {s s' : NackScheduler} {floor : Duration} {log : List Asked} {clock now : Instant}

/-! ### What the calls leave of a slot -/

/-- The gap loop leaves a slot alone or arms it with the base delay. -/
theorem trackGaps_slot (s : NackScheduler) (expected q : UInt16) (now : Instant) (n : Nat) :
    (s.trackGaps expected now n).1.slot q = s.slot q ∨
      ((s.trackGaps expected now n).1.slot q).nextNackAt = now + s.baseDelay := by
  induction n with
  | zero => exact Or.inl rfl
  | succ n ih =>
      obtain ⟨hdelay, -⟩ := trackGaps_fields s expected now n
      simp only [trackGaps]
      split
      · unfold slot
        rw [SlotRing.get_set]
        split
        · exact Or.inr (by rw [hdelay])
        · exact ih
      · exact ih

/-! ### The invariant -/

/-- Every request in the log was made by `clock`, and no slot will be asked for again
within `floor` of one. -/
structure Paced (floor : Duration) (s : NackScheduler) (log : List Asked) (clock : Instant) :
    Prop where
  bits : s.slots.bits = ringBits
  owned : s.Owned
  baseDelay : floor ≤ s.baseDelay
  past : ∀ a ∈ log, a.time ≤ clock
  waits : ∀ a ∈ log, ∀ q ∈ a.seqs, s.Open q → (s.slot q).nackCount < s.maxRetries →
    a.time + floor ≤ (s.slot q).nextNackAt
  spaced : Spaced floor log

theorem Paced.new (maxRetries : UInt32) {baseDelay : Duration} (h : floor ≤ baseDelay)
    (start : Instant) : Paced floor (new maxRetries baseDelay start) [] clock where
  bits := rfl
  owned := by
    intro k _ hact
    rw [new_inactive] at hact
    exact absurd hact (by simp)
  baseDelay := h
  past := by simp
  waits := by simp
  spaced := List.Pairwise.nil

/-- Time passes. -/
theorem Paced.wait (h : Paced floor s log clock) (hnow : clock ≤ now) : Paced floor s log now :=
  { h with past := fun a ha => (h.past a ha).trans hnow }

theorem Paced.of_append {more : List Asked} (h : Paced floor s (log ++ more) clock) :
    Paced floor s log clock where
  bits := h.bits
  owned := h.owned
  baseDelay := h.baseDelay
  past := fun a ha => h.past a (List.mem_append_left more ha)
  waits := fun a ha => h.waits a (List.mem_append_left more ha)
  spaced := (List.pairwise_append.mp h.spaced).1

/-- One more request, made now. -/
theorem Paced.concat (h : Paced floor s log clock) {seqs : List UInt16}
    (hwaits : ∀ q ∈ seqs, s.Open q → (s.slot q).nackCount < s.maxRetries →
      clock + floor ≤ (s.slot q).nextNackAt)
    (hspaced : ∀ a ∈ log, ∀ q ∈ a.seqs, q ∈ seqs → a.time + floor ≤ clock) :
    Paced floor s (log ++ [⟨clock, seqs⟩]) clock := by
  refine ⟨h.bits, h.owned, h.baseDelay, ?_, ?_, ?_⟩
  · intro a ha
    rcases List.mem_append.mp ha with ha | ha
    · exact h.past a ha
    · rw [List.mem_singleton.mp ha]
  · intro a ha q hq
    rcases List.mem_append.mp ha with ha | ha
    · exact h.waits a ha q hq
    · rw [List.mem_singleton.mp ha] at hq ⊢
      exact hwaits q hq
  · refine List.pairwise_append.mpr ⟨h.spaced, List.pairwise_singleton _ _, ?_⟩
    intro a ha b hb q hqa hqb
    rw [List.mem_singleton.mp hb] at hqb ⊢
    exact hspaced a ha q hqa hqb

/-- **The frame rule.**  What a call at `now` leaves open and may be asked for again is
as it was, or waits for at least the floor from now on. -/
theorem Paced.frame (h : Paced floor s log clock) (hnow : clock ≤ now)
    (hbits : s'.slots.bits = s.slots.bits) (howned : s'.Owned) (hbase : floor ≤ s'.baseDelay)
    (hmax : s'.maxRetries = s.maxRetries)
    (hslot : ∀ q, s'.Open q → (s'.slot q).nackCount < s'.maxRetries →
      s'.slot q = s.slot q ∨ now + floor ≤ (s'.slot q).nextNackAt) :
    Paced floor s' log now where
  bits := hbits.trans h.bits
  owned := howned
  baseDelay := hbase
  past := fun a ha => (h.past a ha).trans hnow
  waits := by
    intro a ha q hq hopen hleft
    rcases hslot q hopen hleft with heq | hlate
    · unfold Open at hopen
      rw [heq, hmax] at hleft
      rw [heq] at hopen ⊢
      exact h.waits a ha q hq hopen hleft
    · have hpast := (h.past a ha).trans hnow
      exact (Nat.add_le_add_right hpast floor).trans hlate
  spaced := h.spaced

/-! ### Packets and delays -/

theorem Paced.onPacketReceived (h : Paced floor s log clock) (hnow : clock ≤ now) (seq : UInt16) :
    Paced floor (s.onPacketReceived seq now).1 log now := by
  have hsame : ∀ expectedSeq scanLo,
      Paced floor { s with expectedSeq := expectedSeq, scanLo := scanLo } log now :=
    fun _ _ => h.frame hnow rfl h.owned h.baseDelay rfl fun _ _ _ => Or.inl rfl
  rcases onPacketReceived_cases s seq now with ⟨-, ho⟩ | ⟨expected, -, -, -, ho⟩ |
    ⟨expected, -, -, ho⟩ | ⟨expected, -, -, ho⟩
  · rw [ho]
    exact hsame _ _
  · rw [ho]
    obtain ⟨hbase, hmax⟩ := trackGaps_fields s expected now (seq - expected).toNat
    have howned := h.owned.trackGaps h.bits expected now (seq - expected).toNat
    refine h.frame hnow (trackGaps_bits s expected now _) howned ?_ hmax ?_
    · exact hbase.symm ▸ h.baseDelay
    · intro q _ _
      refine (trackGaps_slot s expected q now (seq - expected).toNat).imp_right fun hnext => ?_
      exact (Nat.add_le_add_left h.baseDelay now).trans hnext.ge
  · rw [ho]
    exact hsame _ _
  · rw [ho]
    refine h.frame hnow (deactivate_bits s seq) (h.owned.deactivate h.bits seq) ?_
      (deactivate_fields s seq).2 ?_
    · rw [deactivate_baseDelay]
      exact h.baseDelay
    · intro q hopen _
      exact Or.inl (deactivate_slot_of_open h.bits hopen)

theorem Paced.updateBaseDelay (h : Paced floor s log clock) {delay : Duration}
    (hdelay : floor ≤ delay) : Paced floor (s.updateBaseDelay delay) log clock :=
  ⟨h.bits, h.owned, hdelay, h.past, h.waits, h.spaced⟩

/-! ### Scans -/

/-- The scan is about to arm a slot that can be asked for once more, with less than the
floor. -/
def Rash (floor : Duration) (s : NackScheduler) (now : Instant) (rtt : Option Duration) : Prop :=
  (∃ delay, rtt = some delay ∧ delay < floor) ∧
    ∃ q, s.Open q ∧ (s.slot q).nextNackAt ≤ now ∧
      (s.slot q).nackCount.toNat + 1 < s.maxRetries.toNat

/-- The retry that is armed counts one more. -/
theorem nackCount_succ {n m : UInt32} (h : n.toNat < m.toNat) :
    (n + 1).toNat = n.toNat + 1 := by
  have hlt := m.toNat_lt
  rw [UInt32.toNat_add]
  exact Nat.mod_eq_of_lt (by simp only [UInt32.toNat_one]; omega)

/-- **A scan that is not rash** keeps the requests apart, its own included. -/
theorem Polled.paced {delay : Duration} {returned : List UInt16} (h : Paced floor s log clock)
    (hnow : clock ≤ now) (hpoll : Polled s s' now delay returned)
    (hbase : s'.baseDelay = s.baseDelay)
    (hdelay : floor ≤ delay ∨ ∀ q, s.Open q → (s.slot q).nextNackAt ≤ now →
      ¬(s.slot q).nackCount.toNat + 1 < s.maxRetries.toNat) :
    Paced floor s' (log ++ [⟨now, returned⟩]) now := by
  -- the slots that were asked for, and can be once more, wait for the floor
  have hasked : ∀ q, requested s.maxRetries now (s.slot q) = true → s.Open q →
      (s'.slot q).nackCount < s'.maxRetries → now + floor ≤ (s'.slot q).nextNackAt := by
    intro q hreq hopen hleft
    obtain ⟨hdue, hcount⟩ := (requested_iff hopen.1).mp hreq
    rw [hpoll.slots, scanned_of_requested hreq, hpoll.maxRetries, UInt32.lt_iff_toNat_lt,
      nackCount_succ hcount] at hleft
    rw [hpoll.slots, scanned_of_requested hreq]
    rcases hdelay with hfloor | hspent
    · exact Nat.add_le_add_left hfloor now
    · exact absurd hleft (hspent q hopen hdue)
  have hold : Paced floor s' log now := by
    refine h.frame hnow hpoll.bits (hpoll.owned h.bits h.owned) (hbase.symm ▸ h.baseDelay)
      hpoll.maxRetries ?_
    intro q hopen hleft
    obtain ⟨hact, hseq⟩ := hopen
    rw [hpoll.slots] at hact hseq
    rw [scanned_seq] at hseq
    by_cases hreq : requested s.maxRetries now (s.slot q) = true
    · exact Or.inr (hasked q hreq ⟨scanned_active hact, hseq⟩ hleft)
    · exact Or.inl ((hpoll.slots q).trans (scanned_of_active hreq hact))
  refine hold.concat ?_ ?_
  · intro q hq _ hleft
    obtain ⟨hopen, hreq⟩ := (hpoll.returned_iff q).mp hq
    exact hasked q hreq hopen hleft
  · intro a ha q hqa hq
    -- the slot was due, and the invariant says since when it may be
    obtain ⟨hopen, hreq⟩ := (hpoll.returned_iff q).mp hq
    obtain ⟨hdue, hcount⟩ := (requested_iff hopen.1).mp hreq
    exact (h.waits a ha q hqa hopen (UInt32.lt_iff_toNat_lt.mpr hcount)).trans hdue

theorem Paced.getPendingNacks (h : Paced floor s log clock) (hnow : clock ≤ now)
    {rtt : Option Duration} (hcalm : ¬s.Rash floor now rtt) :
    Paced floor (s.getPendingNacks now rtt).1
      (log ++ [⟨now, (s.getPendingNacks now rtt).2⟩]) now := by
  rcases getPendingNacks_cases h.bits h.owned now rtt with hnone | hpoll
  · rw [hnone]
    exact (h.wait hnow).concat (by simp) (by simp)
  · refine Polled.paced h hnow hpoll (getPendingNacks_baseDelay s now rtt) ?_
    cases rtt with
    | none => exact Or.inl h.baseDelay
    | some delay =>
        rcases Nat.lt_or_ge delay floor with hlt | hge
        · refine Or.inr fun q hopen hdue hleft => hcalm ?_
          exact ⟨⟨delay, rfl, hlt⟩, q, hopen, hdue, hleft⟩
        · exact Or.inl hge

/-- **A rash scan** arms a number for less than the floor, and a scan at that time asks
for it again. -/
theorem Rash.asks_again {d : Nat} (hb : s.slots.bits = ringBits) (howned : s.Owned)
    (hcount : Surplus s d) {delay : Duration} (h : s.Rash floor now (some delay))
    (rtt : Option Duration) :
    delay < floor ∧ ∃ q ∈ (s.getPendingNacks now (some delay)).2,
      q ∈ ((s.getPendingNacks now (some delay)).1.getPendingNacks (now + delay) rtt).2 := by
  obtain ⟨⟨delay, heq, hlt⟩, q, hopen, hdue, hleft⟩ := h
  obtain rfl := Option.some.inj heq
  have hpoll := getPendingNacks_spec hb howned hcount now (some delay)
  obtain ⟨hcount', hbits'⟩ := hcount.getPendingNacks now (some delay)
  have hreq : requested s.maxRetries now (s.slot q) = true :=
    (requested_iff hopen.1).mpr ⟨hdue, Nat.lt_of_succ_lt hleft⟩
  have hslot := (hpoll.slots q).trans (scanned_of_requested hreq _)
  refine ⟨hlt, q, (hpoll.returned_iff q).mpr ⟨hopen, hreq⟩, ?_⟩
  have hpoll' := getPendingNacks_spec (hbits'.trans hb) (hpoll.owned hb howned) hcount'
    (now + delay) rtt
  have hopen' : (s.getPendingNacks now (some delay)).1.Open q := by
    unfold Open
    rw [hslot]
    exact hopen
  refine (hpoll'.returned_iff q).mpr ⟨hopen', (requested_iff hopen'.1).mpr ?_⟩
  rw [hslot, hpoll.maxRetries, nackCount_succ (Nat.lt_of_succ_lt hleft)]
  exact ⟨Nat.le_refl _, hleft⟩

end NackScheduler

end Rist
