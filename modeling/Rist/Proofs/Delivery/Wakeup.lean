/-
Sleeping and waking of the delivery thread.

The thread waits under the same lock the receive task inserts under, so no insert falls
between its look at the buffer and its sleep.  What it saw then still holds while it
sleeps: before its deadline nothing is due.  That is an instance of the monitor's
rule, and what a turn establishes when it goes to sleep is all that has to be shown here.

Cancellation is different.  The token is set without the lock and read only when the
thread enters, and the receive task's last `notify_all` is sent without the lock too.
If both fall into a turn that ends in a sleep without a deadline, the notification is
gone before the thread waits for it, and the join never returns.
-/
import Rist.Proofs.Reorder.Deadline
import Rist.Transport.DrainThread

namespace Rist

open Monitor

namespace ReorderBuffer

variable {b : ReorderBuffer}

/-- The head slot, if there is a window, is empty under the head's own number. -/
def Dormant (b : ReorderBuffer) : Prop := ∀ base ∈ b.baseSeq, b.slot base = ⟨base, .empty⟩

instance (b : ReorderBuffer) : Decidable b.Dormant :=
  inferInstanceAs (Decidable (∀ base ∈ b.baseSeq, b.slot base = ⟨base, .empty⟩))

/-- There is no deadline exactly in a dormant buffer, whatever the clock shows. -/
theorem nextDrainTime_none_iff (inner : Instant) : b.nextDrainTime inner = none ↔ b.Dormant := by
  cases hbase : b.baseSeq with
  | none =>
      refine iff_of_true (nextDrainTime_of_base_none hbase inner) fun base hmem => ?_
      rw [hbase] at hmem
      cases hmem
  | some base =>
      constructor
      · intro hnone base' hmem
        rw [hbase] at hmem
        cases hmem
        by_contra hslot
        obtain ⟨d, hd⟩ := nextDrainTime_isSome hbase hslot inner
        rw [hnone] at hd
        cases hd
      · intro h
        exact nextDrainTime_of_head_empty hbase (h base hbase) inner

theorem Dormant.idle (h : b.Dormant) : Idle b := by
  cases hbase : b.baseSeq with
  | none => exact idle_of_base_none hbase
  | some base => exact idle_of_head_empty hbase (h base hbase)

end ReorderBuffer

open ReorderBuffer

/-- Nothing is due before the deadline, or ever if there is none. -/
def Quiet (b : ReorderBuffer) (deadline : Option Instant) : Prop :=
  ∀ t, (∀ d ∈ deadline, t < d) → (b.drainReady t).2 = []

/-- A turn that goes to sleep leaves nothing that is due before its deadline. -/
theorem drainShared_turn_sleep {b : ReorderBuffer} {clock : TurnClock} {d : Option Instant}
    (h : (drainShared.turn b clock).2 = .sleep d) : Quiet (drainShared.turn b clock).1 d := by
  simp only [drainShared] at h ⊢
  cases hstep : b.drainStep clock.now with
  | some out =>
      have hne : (b.drainReady clock.now).2 ≠ [] := by
        rw [ne_eq, drainReady_nil_iff, hstep]
        simp
      unfold deliveryTurn at h
      simp only [hne, if_false] at h
      cases h
  | none =>
      rw [deliveryTurn_of_nil hstep] at h ⊢
      by_cases hagrees : b.HeadAgrees
      · rcases hagrees.exact hstep clock.inner with ⟨hnone, hidle⟩ | ⟨u, hu, -, hready⟩
        · simp only [hnone]
          exact fun t _ => hidle t
        · simp only [hu] at h ⊢
          split at h
          · rename_i hlt
            rw [if_pos hlt]
            cases h
            intro t ht
            by_contra hdue
            have hle : u ≤ t := (hready t).mp hdue
            have hdead := ht _ rfl
            rw [Nat.add_sub_cancel' (Nat.le_of_lt hlt)] at hdead
            exact absurd hle (Nat.not_le_of_lt hdead)
          · cases h
      · -- the head disagrees only in a window with nothing left in it
        obtain ⟨hidle, u, hu⟩ := not_headAgrees hagrees clock.inner
        simp only [hu]
        split
        · exact fun t _ => hidle t
        · exact fun t _ => hidle t

/-- A turn sleeps for good exactly on a dormant buffer. -/
theorem drainShared_turn_forever {b : ReorderBuffer} {clock : TurnClock} :
    (drainShared.turn b clock).2 = .sleep none ↔ b.Dormant := by
  simp only [drainShared]
  constructor
  · intro h
    have hstep : b.drainStep clock.now = none := by
      by_contra hne
      have hout : (b.drainReady clock.now).2 ≠ [] := by
        rwa [ne_eq, drainReady_nil_iff]
      unfold deliveryTurn at h
      simp only [hout, if_false] at h
      cases h
    rw [deliveryTurn_of_nil hstep] at h
    rw [← nextDrainTime_none_iff clock.inner]
    cases hd : b.nextDrainTime clock.inner with
    | none => rfl
    | some d =>
        simp only [hd] at h
        split at h <;> cases h
  · intro h
    have hstep := (drainReady_nil_iff b clock.now).mp (h.idle clock.now)
    rw [deliveryTurn_of_nil hstep, (nextDrainTime_none_iff clock.inner).mpr h]
    rfl

namespace ReceivePipe

variable {s : ReceivePipe}

/-! ### The threads are a monitor -/

theorem forward_shared (s : ReceivePipe) (item : DrainItem) : (s.forward item).shared = s.shared := by
  cases item with
  | delivered data seq arrival =>
      simp only [forward]
      split <;> rfl
  | lost => rfl

/-- An operation does nothing to the lock and the delivery thread, or one thing. -/
theorem shared_step (s : ReceivePipe) (op : PipeOp) :
    (s.step op).shared = s.shared ∨
      ∃ o, (s.step op).shared = s.shared.step drainShared o := by
  cases op with
  | burst batch now =>
      simp only [step]
      split
      · exact .inr ⟨.write (batch, now), rfl⟩
      · exact .inl rfl
  | notify => exact .inr ⟨.notify, rfl⟩
  | count =>
      simp only [step]
      split <;> exact .inl rfl
  | enter => exact .inr ⟨.enter, rfl⟩
  | turn clock => exact .inr ⟨.turn clock, rfl⟩
  | forward =>
      simp only [step]
      split
      · refine .inr ⟨.hand, ?_⟩
        simp only [sync, forward_shared]
      · exact .inr ⟨.hand, rfl⟩
  | timeout now => exact .inr ⟨.timeout now, rfl⟩
  | spurious => exact .inr ⟨.spurious, rfl⟩
  | resume => exact .inr ⟨.resume, rfl⟩
  | cancel => exact .inr ⟨.stop, rfl⟩
  | shutdown =>
      simp only [step]
      split
      · exact .inr ⟨.tell, rfl⟩
      · exact .inl rfl
  | recv =>
      simp only [step]
      split <;> exact .inl rfl
  | hangUp => exact .inl rfl

/-- What every step of the monitor keeps holds in every run of the threads. -/
theorem shared_invariant {I : Monitor.State ReorderBuffer DrainItem → Prop}
    (hstep : ∀ m op, I m → I (m.step drainShared op)) (hs : I s.shared) (ops : List PipeOp) :
    I (Run.final step s ops).shared := by
  refine Run.invariant_of_step (I := fun s : ReceivePipe => I s.shared) (fun s op h => ?_) hs ops
  rcases s.shared_step op with heq | ⟨o, heq⟩
  · rw [heq]
    exact h
  · rw [heq]
    exact hstep _ o h

/-! ### No insert is slept through -/

/-- **What is due is seen.**  In every interleaving, with any readings of the clock: if
the head of the reorder buffer is due at `t`, then the delivery thread is not asleep,
or a notification is on its way to it, or its timer ends by `t`. -/
theorem due_is_seen (bufferSize : Duration) (maxNackRetries : UInt32) (start : Instant)
    (ops : List PipeOp) (t : Instant)
    (hdue : ((Run.final step (new bufferSize maxNackRetries start) ops).shared.value.drainReady
      t).2 ≠ []) :
    (∀ d, (Run.final step (new bufferSize maxNackRetries start) ops).shared.phase ≠ .parked d) ∨
      (Run.final step (new bufferSize maxNackRetries start) ops).shared.owes = true ∨
      ∃ d ≤ t, (Run.final step (new bufferSize maxNackRetries start) ops).shared.phase
        = .parked (some d) := by
  have hrests : (Run.final step (new bufferSize maxNackRetries start) ops).shared.Rests Quiet := by
    refine shared_invariant (fun m op h => ?_) (fun d hd => by cases hd) ops
    exact h.step (fun v i d hd => drainShared_turn_sleep hd) op
  generalize (Run.final step (new bufferSize maxNackRetries start) ops).shared = m at *
  by_cases hp : ∃ d, m.phase = .parked d
  · obtain ⟨d, hp⟩ := hp
    cases ho : m.owes with
    | true => exact .inr (.inl rfl)
    | false =>
        have hquiet := hrests d hp ho t
        cases d with
        | none => exact absurd (hquiet fun d hd => by cases hd) hdue
        | some d =>
            refine .inr (.inr ⟨d, ?_, hp⟩)
            by_contra hlt
            refine hdue (hquiet fun u hu => ?_)
            cases hu
            exact Nat.lt_of_not_le hlt
  · exact .inl fun d hd => hp ⟨d, hd⟩

/-- The delivery thread has looked at a packet that is due at 5, and sleeps until then. -/
theorem due_is_seen_first :
    let s := Run.final step (new 5 3 0)
      [.burst [⟨7, 2, 0, [1], 0, 1, false⟩] 0, .notify, .enter, .turn ⟨0, 0, 0⟩]
    (s.shared.value.drainReady 9).2 ≠ [] ∧ s.shared.phase = .parked (some 5) ∧
      ∃ d ≤ 9, s.shared.phase = .parked (some d) := by
  intro s
  have hdue : (s.shared.value.drainReady 9).2 ≠ [] := by decide +kernel
  have hsleeps : s.shared.phase = .parked (some 5) := rfl
  refine ⟨hdue, hsleeps, ?_⟩
  rcases due_is_seen 5 3 0 _ 9 hdue with hawake | howes | htimer
  · exact absurd hsleeps (hawake (some 5))
  · exact absurd howes (by decide +kernel)
  · exact htimer

/-! ### The join -/

/-- **When the join returns.**  The receive task leaves its loop in any state of any
interleaving.  From there the delivery thread ends, however the rest goes, exactly when
it is not at that moment between its look at the token and a sleep on a dormant buffer;
if it is, it sleeps for good. -/
theorem shutdown_joins_iff (bufferSize : Duration) (maxNackRetries : UInt32) (start : Instant)
    (ops : List PipeOp)
    (hleave : (Run.final step (new bufferSize maxNackRetries start) ops).MayShutdown) :
    ((Run.final step (new bufferSize maxNackRetries start) ops).step .shutdown).shared.Stops
        drainShared ↔
      ¬((Run.final step (new bufferSize maxNackRetries start) ops).shared.phase = .inside ∧
        (Run.final step (new bufferSize maxNackRetries start) ops).shared.value.Dormant) := by
  generalize Run.final step (new bufferSize maxNackRetries start) ops = s at *
  have : Nonempty TurnClock := ⟨⟨0, 0, 0⟩⟩
  have hstep : (s.step .shutdown).shared = s.shared.step drainShared .tell := by
    simp only [step, if_pos hleave]
    rfl
  have hleft : (s.shared.step drainShared .tell).Left := hleave.1.left
  rw [hstep, hleft.stops_iff]
  simp only [Monitor.State.step, if_pos hleave.1, Monitor.State.Stuck]
  rw [not_iff_not]
  constructor
  · rintro (hp | ⟨hp, clock, hc⟩)
    · exact absurd hp (Phase.wake_ne_parked _ _)
    · exact ⟨Phase.wake_eq_inside.mp hp, drainShared_turn_forever.mp hc⟩
  · rintro ⟨hp, hd⟩
    exact .inr ⟨Phase.wake_eq_inside.mpr hp, ⟨0, 0, 0⟩, drainShared_turn_forever.mpr hd⟩

/-- The receiver is closed while the delivery thread takes its first turn: it never
ends. -/
theorem shutdown_joins_lost :
    (Run.final step (new 5 3 0) [.enter, .cancel]).MayShutdown ∧
      ¬((Run.final step (new 5 3 0) [.enter, .cancel]).step .shutdown).shared.Stops drainShared := by
  have hleave : (Run.final step (new 5 3 0) [.enter, .cancel]).MayShutdown :=
    ⟨⟨rfl, rfl, rfl⟩, rfl⟩
  refine ⟨hleave, ?_⟩
  rw [shutdown_joins_iff 5 3 0 [.enter, .cancel] hleave, not_not]
  refine ⟨rfl, fun base hmem => ?_⟩
  cases hmem

end ReceivePipe

end Rist
