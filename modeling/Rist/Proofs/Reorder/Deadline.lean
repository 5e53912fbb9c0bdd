/-
The wake-up deadline of the delivery thread.

`drain_ready` and `next_drain_time` read the same head slot, but only the first
compares the base with the highest number.  Where the window is not empty the two
agree, whatever the slot holds.  Where it is drained, `drain_ready` never produces
anything again, and `next_drain_time` still answers unless the head slot happens to
be empty under the base's own number (`HeadAgrees`).  The thread then does not
block: it asks again at once, for as long as nothing is inserted.

Nothing here needs the window of a run.  The head slot decides, in any buffer.
-/
import Rist.Proofs.Reorder.Run
import Rist.Transport.Delivery

namespace Rist

open Serial

namespace ReorderBuffer

variable {b : ReorderBuffer}

/-- Nothing comes out at any time. -/
def Idle (b : ReorderBuffer) : Prop := ∀ t, (b.drainReady t).2 = []

/-- Something comes out exactly from `d` on. -/
def ReadyFrom (b : ReorderBuffer) (d : Instant) : Prop := ∀ t, (b.drainReady t).2 ≠ [] ↔ d ≤ t

/-- After a drain that produced nothing, the deadline says what a later drain would
do. -/
def DeadlineExact (b : ReorderBuffer) (now : Instant) : Prop :=
  (b.drainReady now).2 = [] →
    match (b.drainReady now).1.nextDrainTime now with
    | none => Idle (b.drainReady now).1
    | some d => now < d ∧ ReadyFrom (b.drainReady now).1 d

/-- The window is not empty, or its head slot is empty under the head's number. -/
def HeadAgrees (b : ReorderBuffer) : Prop :=
  ∀ base, b.baseSeq = some base →
    (∃ highest, b.highestSeq = some highest ∧ asI16 (base - highest) ≤ 0) ∨
      b.slot base = ⟨base, .empty⟩

/-! ### The head slot decides -/

/-- With a hold time that is not over at `now`, it is over once `since + hold` is
reached. -/
theorem held_iff {hold now since t : Nat} (hnow : ¬hold ≤ now - since) :
    hold ≤ t - since ↔ since + hold ≤ t := by
  omega

theorem idle_of_drainStep (h : ∀ t, b.drainStep t = none) : Idle b :=
  fun t => (drainReady_nil_iff b t).mpr (h t)

theorem idle_of_base_none (h : b.baseSeq = none) : Idle b := by
  refine idle_of_drainStep fun t => ?_
  unfold drainStep
  rw [h]

/-- A drained window is idle. -/
theorem idle_of_drained {base : UInt16} (hbase : b.baseSeq = some base)
    (h : ¬∃ highest, b.highestSeq = some highest ∧ asI16 (base - highest) ≤ 0) : Idle b := by
  refine idle_of_drainStep fun t => ?_
  unfold drainStep
  rw [hbase]
  cases hhigh : b.highestSeq with
  | none => rfl
  | some highest =>
      have hpos : 0 < asI16 (base - highest) := by
        by_contra hc
        exact h ⟨highest, hhigh, by omega⟩
      simp only [hpos, if_true]

theorem idle_of_head_empty {base : UInt16} (hbase : b.baseSeq = some base)
    (hslot : b.slot base = ⟨base, .empty⟩) : Idle b := by
  refine idle_of_drainStep fun t => ?_
  unfold drainStep
  rw [hbase]
  cases hhigh : b.highestSeq with
  | none => rfl
  | some highest => simp [hslot]

/-- A time the head waits for: its packet's arrival, or when its gap was noticed. -/
def SlotState.Waits (s : SlotState) (since : Instant) : Prop :=
  (∃ data, s = .filled data since) ∨ s = .gap since

/-- With a head that waits since `since`, a turn produces something as soon as the
hold time is over. -/
theorem drainStep_of_waits {base highest : UInt16} {state : SlotState} {since : Instant}
    (hbase : b.baseSeq = some base) (hhigh : b.highestSeq = some highest)
    (hle : asI16 (base - highest) ≤ 0) (hslot : b.slot base = ⟨base, state⟩)
    (hw : SlotState.Waits state since) (t : Instant) :
    b.drainStep t = none ↔ ¬b.bufferTime ≤ t - since := by
  have hnot : ¬0 < asI16 (base - highest) := by omega
  unfold drainStep
  rw [hbase, hhigh]
  simp only [hnot, if_false, hslot, ne_eq, not_true_eq_false]
  rcases hw with ⟨data, rfl⟩ | rfl
  · by_cases ht : b.bufferTime ≤ t - since <;> simp [ht]
  · by_cases ht : b.bufferTime ≤ t - since <;> simp [ht]

theorem nextDrainTime_of_waits {base : UInt16} {state : SlotState} {since : Instant}
    (hbase : b.baseSeq = some base) (hslot : b.slot base = ⟨base, state⟩)
    (hw : SlotState.Waits state since) (now : Instant) :
    b.nextDrainTime now = some (since + b.bufferTime) := by
  unfold nextDrainTime
  rw [hbase]
  simp only [hslot, ne_eq, not_true_eq_false, if_false]
  rcases hw with ⟨data, rfl⟩ | rfl
  · rfl
  · rfl

theorem nextDrainTime_of_base_none (h : b.baseSeq = none) (now : Instant) :
    b.nextDrainTime now = none := by
  unfold nextDrainTime
  rw [h]

theorem nextDrainTime_of_head_empty {base : UInt16} (hbase : b.baseSeq = some base)
    (hslot : b.slot base = ⟨base, .empty⟩) (now : Instant) : b.nextDrainTime now = none := by
  unfold nextDrainTime
  rw [hbase]
  simp [hslot]

/-- A head that is not an empty slot under its own number always has a deadline. -/
theorem nextDrainTime_isSome {base : UInt16} (hbase : b.baseSeq = some base)
    (hslot : b.slot base ≠ ⟨base, .empty⟩) (now : Instant) :
    ∃ d, b.nextDrainTime now = some d := by
  unfold nextDrainTime
  rw [hbase]
  simp only
  split
  · exact ⟨_, rfl⟩
  · rename_i hseq
    cases hstate : (b.slot base).state with
    | filled data arrival => exact ⟨_, rfl⟩
    | gap noticed => exact ⟨_, rfl⟩
    | empty =>
        exact absurd (Slot.ext (not_not.mp hseq) hstate) hslot

/-- **Where the head agrees, the deadline is exact**, whatever the clock shows inside
`next_drain_time`. -/
theorem HeadAgrees.exact (h : HeadAgrees b) {now : Instant} (hnil : b.drainStep now = none)
    (inner : Instant) :
    (b.nextDrainTime inner = none ∧ Idle b) ∨
      ∃ d, b.nextDrainTime inner = some d ∧ now < d ∧ ReadyFrom b d := by
  cases hbase : b.baseSeq with
  | none => exact Or.inl ⟨nextDrainTime_of_base_none hbase inner, idle_of_base_none hbase⟩
  | some base =>
      by_cases hslot : b.slot base = ⟨base, .empty⟩
      · exact Or.inl ⟨nextDrainTime_of_head_empty hbase hslot inner,
          idle_of_head_empty hbase hslot⟩
      obtain ⟨highest, hhigh, hle⟩ : ∃ highest, b.highestSeq = some highest ∧
          asI16 (base - highest) ≤ 0 := (h base hbase).resolve_right hslot
      -- another number's slot at the head would have been given up just now
      have hseq : (b.slot base).seq = base := by
        by_contra hne
        have hnot : ¬0 < asI16 (base - highest) := by omega
        unfold drainStep at hnil
        rw [hbase, hhigh] at hnil
        simp only [hnot, if_false, ne_eq, hne, not_false_eq_true, if_true] at hnil
        exact absurd hnil (by simp)
      have hown : b.slot base = ⟨base, (b.slot base).state⟩ := Slot.ext hseq rfl
      obtain ⟨since, hw⟩ : ∃ since, SlotState.Waits (b.slot base).state since := by
        cases hstate : (b.slot base).state with
        | filled data arrival => exact ⟨arrival, Or.inl ⟨data, rfl⟩⟩
        | gap noticed => exact ⟨noticed, Or.inr rfl⟩
        | empty => exact absurd (by rw [hown, hstate]) hslot
      have hnow := (drainStep_of_waits hbase hhigh hle hown hw now).mp hnil
      refine Or.inr ⟨since + b.bufferTime, nextDrainTime_of_waits hbase hown hw inner, ?_, ?_⟩
      · exact (held_iff hnow).not.mp hnow |> Nat.lt_of_not_le
      · intro t
        rw [ne_eq, drainReady_nil_iff, drainStep_of_waits hbase hhigh hle hown hw, not_not]
        exact held_iff hnow

/-- **Where it does not, a drain produces nothing and there is a deadline all the
same.** -/
theorem not_headAgrees (h : ¬HeadAgrees b) (inner : Instant) :
    Idle b ∧ ∃ d, b.nextDrainTime inner = some d := by
  unfold HeadAgrees at h
  push Not at h
  obtain ⟨base, hbase, hdrained, hslot⟩ := h
  refine ⟨idle_of_drained hbase ?_, nextDrainTime_isSome hbase hslot inner⟩
  rintro ⟨highest, hhigh, hle⟩
  have := hdrained highest hhigh
  omega

theorem deadlineExact_iff (b : ReorderBuffer) (now : Instant) :
    DeadlineExact b now ↔ HeadAgrees b := by
  constructor
  · intro h
    by_contra hc
    obtain ⟨hidle, d, hd⟩ := not_headAgrees hc now
    have hsame := drainReady_of_none ((drainReady_nil_iff b now).mp (hidle now))
    have hbad := h (hidle now)
    rw [hsame] at hbad
    simp only [hd] at hbad
    exact (hbad.2 d).mpr le_rfl (hidle d)
  · intro h hnil
    have hstep := (drainReady_nil_iff b now).mp hnil
    rw [drainReady_of_none hstep]
    rcases h.exact hstep now with ⟨hnone, hidle⟩ | ⟨d, hd, hlt, hready⟩
    · simp only [hnone]
      exact hidle
    · simp only [hd]
      exact ⟨hlt, hready⟩

end ReorderBuffer

/-! ### The delivery thread -/

namespace DeliveryTurn

open ReorderBuffer

/-- A turn ends as it should: it forwards something, or blocks until exactly the
time something is ready, or loops because the deadline passed between its clock
readings. -/
def Sound (b : ReorderBuffer) (later : Instant) : DeliveryTurn → Prop
  | forward items => items ≠ []
  | wait => Idle b
  | waitTimeout timeout => ReadyFrom b (later + timeout)
  | again => ∀ t, later ≤ t → (b.drainReady t).2 ≠ []

end DeliveryTurn

/-- What a step of the delivery thread should satisfy.  An insert is never at
fault. -/
def Punctual (b : ReorderBuffer) : DeliveryOp → Prop
  | .insert _ _ _ => True
  | .turn now inner later =>
    b.DeadlineExact now ∧
      (deliveryTurn b now inner later).2.Sound (deliveryTurn b now inner later).1 later

/-- The head of the buffer the thread looks at is one both functions agree on. -/
def HeadAgrees (b : ReorderBuffer) : DeliveryOp → Prop
  | .insert _ _ _ => True
  | .turn _ _ _ => b.HeadAgrees

theorem deliveryTurn_of_nil {b : ReorderBuffer} {now : Instant} (h : b.drainStep now = none)
    (inner later : Instant) :
    deliveryTurn b now inner later = match b.nextDrainTime inner with
      | none => (b, .wait)
      | some deadline =>
        if later < deadline then (b, .waitTimeout (deadline - later)) else (b, .again) := by
  unfold deliveryTurn
  rw [ReorderBuffer.drainReady_of_none h]
  rfl

theorem deliveryTurn_sound {b : ReorderBuffer} (h : b.HeadAgrees) (now inner later : Instant) :
    (deliveryTurn b now inner later).2.Sound (deliveryTurn b now inner later).1 later := by
  cases hstep : b.drainStep now with
  | some out =>
      have hne : (b.drainReady now).2 ≠ [] := by
        rw [ne_eq, ReorderBuffer.drainReady_nil_iff, hstep]
        simp
      unfold deliveryTurn
      simp only [hne, if_false]
      exact hne
  | none =>
      rw [deliveryTurn_of_nil hstep]
      rcases h.exact hstep inner with ⟨hnone, hidle⟩ | ⟨d, hd, -, hready⟩
      · simp only [hnone]
        exact hidle
      · simp only [hd]
        by_cases hlt : later < d
        · rw [if_pos hlt]
          show b.ReadyFrom (later + (d - later))
          rw [Nat.add_sub_cancel' (Nat.le_of_lt hlt)]
          exact hready
        · rw [if_neg hlt]
          intro t ht
          exact (hready t).mpr ((Nat.le_of_not_lt hlt).trans ht)

theorem punctual_iff (b : ReorderBuffer) (op : DeliveryOp) : Punctual b op ↔ HeadAgrees b op := by
  cases op with
  | insert seq data now => exact Iff.rfl
  | turn now inner later =>
      constructor
      · intro h
        exact (b.deadlineExact_iff now).mp h.1
      · intro h
        exact ⟨(b.deadlineExact_iff now).mpr h, deliveryTurn_sound h now inner later⟩

/-- **The delivery thread is punctual exactly when the head agrees**: on every run of
inserts and turns, every deadline is exact and every turn forwards, blocks until the
right time, or loops into a drain that produces something, if and only if no turn
meets a drained window whose head slot is not empty under the base's number. -/
theorem delivery_punctual_iff (hold : Duration) (capacity : Nat) (ops : List DeliveryOp) :
    Run.Along deliveryStep Punctual (ReorderBuffer.withCapacity hold capacity) ops ↔
      Run.Along deliveryStep HeadAgrees (ReorderBuffer.withCapacity hold capacity) ops :=
  Run.along_iff_of_invariant (I := fun _ => True) (fun b op _ => punctual_iff b op)
    (fun _ _ _ _ => trivial) trivial

/-- One packet, delivered; the next turn finds nothing and does not block. -/
theorem delivery_spins_when_drained :
    ¬Run.Along deliveryStep Punctual (ReorderBuffer.withCapacity 5 64)
      [.insert 0 [1] 0, .turn 10 10 10, .turn 11 11 11] := by
  rintro ⟨-, -, ⟨-, hsound⟩, -⟩
  have hagain : (deliveryTurn (deliveryStep (deliveryStep (ReorderBuffer.withCapacity 5 64)
      (.insert 0 [1] 0)) (.turn 10 10 10)) 11 11 11).2 = .again := by decide +kernel
  rw [hagain] at hsound
  exact hsound 11 le_rfl (by decide +kernel)

end Rist
