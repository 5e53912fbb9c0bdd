/-
The two threads of the receiver, in the order of the lock.

Every change of the reorder buffer happens under the lock, a whole burst at a time or a
whole drain.  The trackers belong to the receive task alone and follow its bursts with a
delay.  So an interleaving is as good as the sequence of its critical sections: the
packets of each burst one after the other, and the drains between the bursts.  That
sequence is a run of the plain media path, in which nothing is concurrent, and it is what
the results about the trackers and the reorder buffer are stated for.
-/
import Rist.Proofs.Delivery.Wakeup
import Rist.Proofs.Receiver.Trackers
import Rist.Proofs.Reorder.Hostile

namespace Rist

open Monitor

/-- The call on the reorder buffer. -/
def MediaPath.Op.toBuffer : MediaPath.Op → BufferOp
  | .packet p now => .insert p.seq p.payload now
  | .drain now => .drain now

namespace ReceivePipe

variable {s : ReceivePipe}

/-- The critical section of an operation, if it has one. -/
def critical (s : ReceivePipe) : PipeOp → List MediaPath.Op
  | .burst batch now =>
    if s.MayBurst ∧ batch.isEmpty = false then batch.map fun p => .packet p now else []
  | .turn clock => if s.shared.phase.locked then [.drain clock.now] else []
  | _ => []

/-- The critical sections of a run, in the order of the lock. -/
def lockOrder (s : ReceivePipe) (ops : List PipeOp) : List MediaPath.Op :=
  Run.emitted step critical s ops

/-- The media path once the receive task is through with its burst. -/
def settled (s : ReceivePipe) : MediaPath :=
  let (rtcp, nack) := MediaPath.trackAll s.rtcp s.nack s.burstAt s.counting
  ⟨s.shared.value, rtcp, nack⟩

theorem settled_of_empty (h : s.counting = []) : s.settled = ⟨s.shared.value, s.rtcp, s.nack⟩ := by
  simp only [settled, h, MediaPath.trackAll]

/-! ### What a step does -/

/-- What the turn of the delivery thread does to the buffer. -/
theorem deliveryTurn_buffer (b : ReorderBuffer) (now inner later : Instant) :
    (deliveryTurn b now inner later).1 = (b.drainReady now).1 := by
  unfold deliveryTurn
  by_cases h : (b.drainReady now).2 = []
  · simp only [h, if_true]
    cases (b.drainReady now).1.nextDrainTime inner with
    | none => rfl
    | some deadline => simp only [apply_ite Prod.fst, ite_self]
  · simp only [h, if_false]

/-- A step of the threads that neither writes nor drains leaves the media path alone. -/
theorem settled_sync (o : Monitor.Op (List ParsedRtp × Instant) TurnClock)
    (hturn : ∀ i, o ≠ .turn i) (hwrite : ∀ w, o ≠ .write w) : (s.sync o).settled = s.settled := by
  simp only [settled, sync, Monitor.State.step_value o hturn hwrite]

theorem settled_forward (item : DrainItem) : (s.forward item).settled = s.settled := by
  cases item with
  | delivered data seq arrival =>
      simp only [forward]
      split <;> rfl
  | lost => rfl

/-- The burst as a run of the media path. -/
theorem settled_burst (h : s.MayBurst) (batch : List ParsedRtp) (now : Instant)
    (hne : batch.isEmpty = false) :
    (s.step (.burst batch now)).settled
      = Run.final MediaPath.step s.settled (batch.map fun p => .packet p now) := by
  have hcounting : s.counting = [] := List.isEmpty_iff.mp h.2
  have hrun : ∀ (batch : List ParsedRtp) (m : MediaPath),
      Run.final MediaPath.step m (batch.map fun p => .packet p now)
        = batch.foldl (fun m p => m.packet p now) m := by
    intro batch
    induction batch with
    | nil => intro m; rfl
    | cons p ps ih => intro m; exact ih (m.packet p now)
  rw [settled_of_empty hcounting, hrun, ← MediaPath.processBatch_eq_foldl]
  simp only [step, if_pos (And.intro h hne), settled, sync, Monitor.State.step, if_pos h.1]
  rfl

/-- The delivery thread's turn as a drain. -/
theorem settled_turn (clock : TurnClock) :
    (s.step (.turn clock)).settled
      = Run.final MediaPath.step s.settled (s.critical (.turn clock)) := by
  simp only [step, critical, settled, sync, Monitor.State.step]
  cases hp : s.shared.phase with
  | inside =>
      simp only [Phase.locked, if_true, Run.final_cons, Run.final_nil, MediaPath.step, drainShared,
        deliveryTurn_buffer]
  | _ => rfl

theorem settled_count : (s.step .count).settled = s.settled := by
  simp only [step]
  split
  · rename_i p o rest _ hc
    simp only [settled, countPacket, hc, MediaPath.trackAll]
  · rfl

/-- **Every step is its critical section.** -/
theorem settled_step (s : ReceivePipe) (op : PipeOp) :
    (s.step op).settled = Run.final MediaPath.step s.settled (s.critical op) := by
  cases op with
  | burst batch now =>
      by_cases h : s.MayBurst ∧ batch.isEmpty = false
      · rw [settled_burst h.1 batch now h.2]
        simp only [critical, if_pos h]
      · simp only [step, critical, if_neg h, Run.final_nil]
  | notify => exact settled_sync .notify (by simp) (by simp)
  | count => exact settled_count
  | enter => exact settled_sync .enter (by simp) (by simp)
  | turn clock => exact settled_turn clock
  | forward =>
      simp only [step]
      split
      · exact (settled_sync .hand (by simp) (by simp)).trans (settled_forward _)
      · exact settled_sync .hand (by simp) (by simp)
  | timeout now => exact settled_sync (.timeout now) (by simp) (by simp)
  | spurious => exact settled_sync .spurious (by simp) (by simp)
  | resume => exact settled_sync .resume (by simp) (by simp)
  | cancel => exact settled_sync .stop (by simp) (by simp)
  | shutdown =>
      simp only [step]
      split
      · exact settled_sync .tell (by simp) (by simp)
      · rfl
  | recv =>
      simp only [step]
      split <;> rfl
  | hangUp => rfl

end ReceivePipe

end Rist
