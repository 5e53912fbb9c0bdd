/-
The receiver's books.

Every packet read off the socket is counted in `packets_received`, and ends up in one of
a few places: it was a duplicate, or stale, or flushed, or it waits in the reorder buffer,
or in the delivery thread's hands, or in the channel, or the channel refused it, or the
application has it.  The counters and the stores add up to what was received in every
interleaving of the two threads, with one exception: a packet that overran a drained
window is in none of them (`Overruns`).

A run is logged with the calls on the reorder buffer in the order of the lock, and with
what each thread has counted and forwarded so far.
-/
import Rist.Proofs.Delivery.LockOrder

namespace Rist

open Serial Monitor

/-! ### The reorder buffer's books -/

namespace Recording

variable {r : Recording} {w : Window}

instance (r : Recording) (op : BufferOp) : Decidable (r.Overruns op) :=
  match op with
  | .insert seq _ _ =>
    match hb : r.buf.baseSeq, hh : r.buf.highestSeq with
    | some base, some highest =>
      decidable_of_iff (base = highest + 1 ∧ (r.buf.capacity : Int) - 1 < asI16 (seq - base) ∧
          asI16 (seq - base) < 2 * r.buf.capacity - 1)
        ⟨fun h => ⟨base, highest, hb, hh, h⟩, fun ⟨base', highest', hb', hh', h⟩ => by
          obtain rfl := Option.some.inj (hb.symm.trans hb')
          obtain rfl := Option.some.inj (hh.symm.trans hh')
          exact h⟩
    | none, _ => .isFalse fun ⟨_, _, hb', _⟩ => nomatch hb.symm.trans hb'
    | _, none => .isFalse fun ⟨_, _, _, hh', _⟩ => nomatch hh.symm.trans hh'
  | .drain _ => .isFalse id

/-- How many packets the call loses without a trace. -/
def overrun (r : Recording) (op : BufferOp) : Nat := if r.Overruns op then 1 else 0

/-- Every packet accepted was delivered, flushed, is still held, or is one of `n` that
overran. -/
def BalancedBut (r : Recording) (n : Nat) : Prop :=
  r.accepted = r.delivered + r.flushed + r.buf.filledCount + n

theorem Tracks.balancedBut_insert (h : Tracks r w) {n : Nat} (hb : r.BalancedBut n)
    (seq : UInt16) (data : Bytes) (now : Instant) :
    (r.step (.insert seq data now)).BalancedBut (n + r.overrun (.insert seq data now)) := by
  obtain ⟨htr, -, harr, hrel⟩ := h.insert seq data now
  have hdel : (r.step (.insert seq data now)).delivered = r.delivered := by
    unfold delivered
    rw [hrel]
  have hacc : (r.step (.insert seq data now)).accepted = r.accepted
      + (if (w.insert r.buf.capacity (near w.base seq) data now).2.stale ||
          (w.insert r.buf.capacity (near w.base seq) data now).2.duplicate then 0 else 1) := by
    unfold accepted
    rw [harr, List.countP_append, List.countP_singleton]
    congr 1
    split <;> simp_all
  have hflu : (r.step (.insert seq data now)).flushed = r.flushed
      + (w.insert r.buf.capacity (near w.base seq) data now).2.overflowFlushed := by
    unfold flushed
    rw [harr, List.map_append, List.sum_append]
    simp
  unfold BalancedBut at hb ⊢
  rw [h.filledCount] at hb
  rw [htr.filledCount, hdel, hacc, hflu, hb]
  unfold overrun
  rcases Window.insert_held h.refines.wf (near w.base seq) data now with
    ⟨ho, h1, h2, h3, h4, h5⟩ | ⟨ho, heq⟩
  · rw [if_pos ((h.overruns_iff seq data now).mpr ho), h1, h2, h3, h4, h5]
    simp only [Bool.or_false, Bool.false_eq_true, if_false]
    omega
  · rw [if_neg fun hc => ho ((h.overruns_iff seq data now).mp hc)]
    omega

theorem Tracks.balancedBut_drain (h : Tracks r w) {n : Nat} (hb : r.BalancedBut n)
    (now : Instant) : (r.step (.drain now)).BalancedBut n := by
  obtain ⟨fuel, htr, -, harr, hrel⟩ := h.drain now
  have hheld := Window.drainLoop_held r.buf.bufferTime now h.refines.wf fuel
  have hdel : (r.step (.drain now)).delivered = r.delivered
      + (w.drainLoop r.buf.bufferTime now fuel).2.countP DrainItem.isDelivered := by
    unfold delivered
    rw [hrel, List.countP_append, List.countP_map]
    rfl
  unfold BalancedBut accepted flushed at hb ⊢
  rw [h.filledCount] at hb
  rw [htr.filledCount, hdel, harr]
  omega

theorem Fresh.balancedBut (h : Fresh r) : r.BalancedBut 0 := h.balanced

/-- **The books of a call.** -/
theorem Reached.balancedBut (h : Reached r) {n : Nat} (hb : r.BalancedBut n) (op : BufferOp) :
    (r.step op).BalancedBut (n + r.overrun op) := by
  rcases h with hf | ⟨w, h⟩
  · have hzero : n = 0 := by
      have hbal := hf.balanced
      unfold Balanced at hbal
      unfold BalancedBut at hb
      omega
    have hover : r.overrun op = 0 := if_neg (hf.not_overruns op)
    rw [hzero, hover]
    exact hf.balanced_step op
  · cases op with
    | insert seq data now => exact h.balancedBut_insert hb seq data now
    | drain now => exact h.balancedBut_drain hb now

/-- No insert is both stale and a duplicate. -/
def Exclusive (r : Recording) : Prop :=
  ∀ a ∈ r.arrivals, a.outcome.stale = true → a.outcome.duplicate = false

end Recording

theorem ReorderBuffer.place_stale (b : ReorderBuffer) (highest seq : UInt16) (data : Bytes)
    (now : Instant) (o : InsertOutcome) :
    (b.place highest seq data now o).2.stale = o.stale := by
  have hextend : ∀ (b : ReorderBuffer) (o : InsertOutcome),
      (b.extend highest seq now o).2.stale = o.stale := by
    intro b o
    unfold extend
    split <;> rfl
  unfold place
  split
  · split
    · rfl
    · exact hextend _ _
    · exact hextend _ _
  · exact hextend _ _

/-- A packet behind the window is stale, and nothing else is reported of it. -/
theorem ReorderBuffer.insert_exclusive (b : ReorderBuffer) (seq : UInt16) (data : Bytes)
    (now : Instant) (h : (b.insert seq data now).2.stale = true) :
    (b.insert seq data now).2.duplicate = false := by
  revert h
  unfold insert
  split
  · split
    · intro _
      rfl
    · split
      · dsimp only
        split
        · intro h
          cases h
        · intro h
          rw [place_stale] at h
          cases h
      · intro h
        rw [place_stale] at h
        cases h
  · intro h
    cases h

/-- A drain keeps the hold time, and delivers nothing before it is over. -/
theorem ReorderBuffer.drainLoop_due (now : Instant) : ∀ (fuel : Nat) (b : ReorderBuffer),
    (drainLoop now fuel b).1.bufferTime = b.bufferTime ∧
      ∀ d q a, .delivered d q a ∈ (drainLoop now fuel b).2 → b.bufferTime ≤ now - a := by
  intro fuel
  induction fuel with
  | zero => intro b; exact ⟨rfl, fun d q a h => absurd h List.not_mem_nil⟩
  | succ fuel ih =>
      intro b
      simp only [drainLoop]
      cases hstep : b.drainStep now with
      | none => exact ⟨rfl, fun d q a h => absurd h List.not_mem_nil⟩
      | some out =>
          obtain ⟨b', item⟩ := out
          have htime := drainStep_bufferTime hstep
          obtain ⟨h1, h2⟩ := ih b'
          refine ⟨h1.trans htime, fun d q a hmem => ?_⟩
          rcases List.mem_cons.mp hmem with rfl | hmem
          · unfold drainStep at hstep
            split at hstep
            · split at hstep
              · cases hstep
              · split at hstep
                · cases hstep
                · split at hstep
                  · split at hstep
                    · rename_i hdue
                      cases hstep
                      exact hdue
                    · cases hstep
                  · split at hstep <;> cases hstep
                  · cases hstep
            · cases hstep
          · rw [← htime]
            exact h2 d q a hmem

/-! ### The log of a run -/

/-- The calls on the reorder buffer in the order of the lock, and how many packets they
lost without a trace. -/
structure Ledger where
  trace : Trace
  overruns : Nat

namespace Ledger

def step (l : Ledger) (op : BufferOp) : Ledger :=
  ⟨l.trace.step op, l.overruns + l.trace.diary.overrun op⟩

/-- What a ledger keeps. -/
structure Kept (hold : Duration) (l : Ledger) : Prop where
  reached : l.trace.Reached
  balanced : l.trace.diary.BalancedBut l.overruns
  exclusive : l.trace.diary.Exclusive
  /-- The positions are those of the releases. -/
  out : l.trace.out.map Prod.snd = l.trace.diary.releases.map Release.item
  bufferTime : l.trace.diary.buf.bufferTime = hold
  due : ∀ x ∈ l.trace.diary.releases, ∀ d q a, x.item = .delivered d q a → hold ≤ x.time - a

end Ledger

/-- The packet of an item. -/
def DrainItem.packet : DrainItem → Option RistDelivered
  | .delivered data seq arrival => some ⟨data, arrival, seq⟩
  | .lost => none

/-- The two threads and the log of what they have done. -/
structure PipeLog where
  pipe : ReceivePipe
  ledger : Ledger
  counted : List (ParsedRtp × InsertOutcome)
  forwarded : List DrainItem
  /-- How many of the forwarded packets the channel refused. -/
  refused : Nat

namespace ReceivePipe

variable {s : ReceivePipe}

/-- The packet an operation counts. -/
def counts (s : ReceivePipe) : PipeOp → List (ParsedRtp × InsertOutcome)
  | .count => if s.shared.owes then [] else s.counting.take 1
  | _ => []

/-- The item an operation forwards. -/
def forwards (s : ReceivePipe) : PipeOp → List DrainItem
  | .forward => s.shared.pending.take 1
  | _ => []

/-- The packets among them the channel has no room for. -/
def refusals (s : ReceivePipe) (op : PipeOp) : Nat :=
  ((s.forwards op).filterMap DrainItem.packet).countP fun x => (s.channel.trySend x).isNone

end ReceivePipe

namespace PipeLog

def start (bufferSize : Duration) (maxNackRetries : UInt32) (now : Instant) : PipeLog :=
  ⟨ReceivePipe.new bufferSize maxNackRetries now,
    ⟨Trace.start (ReorderBuffer.new bufferSize), 0⟩, [], [], 0⟩

def step (l : PipeLog) (op : PipeOp) : PipeLog where
  pipe := l.pipe.step op
  ledger := Run.final Ledger.step l.ledger ((l.pipe.critical op).map MediaPath.Op.toBuffer)
  counted := l.counted ++ l.pipe.counts op
  forwarded := l.forwarded ++ l.pipe.forwards op
  refused := l.refused + l.pipe.refusals op

end PipeLog

namespace Ledger

variable {l : Ledger}

theorem exclusive_step {r : Recording} (h : r.Exclusive) (op : BufferOp) :
    (r.step op).Exclusive := by
  cases op with
  | insert seq data now =>
      have hout : ∀ pos base, ∀ a ∈ r.arrivals ++
          [⟨pos, base, seq, data, now, (r.buf.insert seq data now).2⟩],
          a.outcome.stale = true → a.outcome.duplicate = false := by
        intro pos base a ha
        rcases List.mem_append.mp ha with ha | ha
        · exact h a ha
        · rw [List.mem_singleton.mp ha]
          exact r.buf.insert_exclusive seq data now
      unfold Recording.Exclusive
      simp only [Recording.step]
      split
      · exact hout _ _
      · exact hout _ _
  | drain now => exact h

theorem reached_diary {t : Trace} (h : t.Reached) : t.diary.Reached := by
  rcases h with ⟨hf, -⟩ | ⟨w, hs⟩
  · exact .inl hf
  · exact .inr ⟨w, hs.tracks⟩

theorem Kept.step {hold : Duration} (h : l.Kept hold) (op : BufferOp) : (l.step op).Kept hold := by
  refine ⟨h.reached.step op, (reached_diary h.reached).balancedBut h.balanced op,
    exclusive_step h.exclusive op, ?_, ?_, ?_⟩
  · cases op with
    | insert seq data now =>
        show l.trace.out.map Prod.snd
          = (l.trace.diary.step (.insert seq data now)).releases.map Release.item
        simp only [Recording.step]
        split <;> exact h.out
    | drain now =>
        simp only [Ledger.step, Trace.step, Recording.step, List.map_append, h.out, List.map_map]
        congr 1
        rw [show (Release.item ∘ fun item => (⟨item, now⟩ : Release)) = id from rfl, List.map_id]
        exact List.zipIdx_map_fst 0 _
  · rw [← h.bufferTime]
    cases op with
    | insert seq data now =>
        show (l.trace.diary.step _).buf.bufferTime = _
        rw [Recording.buf_step_insert]
        exact (ReorderBuffer.insert_shape seq data now).2
    | drain now => exact (ReorderBuffer.drainLoop_due now _ l.trace.diary.buf).1
  · cases op with
    | insert seq data now =>
        show ∀ x ∈ (l.trace.diary.step (.insert seq data now)).releases, _
        simp only [Recording.step]
        split <;> exact h.due
    | drain now =>
        intro x hx d q a hitem
        simp only [Ledger.step, Trace.step, Recording.step] at hx
        rcases List.mem_append.mp hx with hx | hx
        · exact h.due x hx d q a hitem
        · obtain ⟨item, hmem, rfl⟩ := List.mem_map.mp hx
          simp only at hitem
          rw [hitem] at hmem
          rw [← h.bufferTime]
          exact (ReorderBuffer.drainLoop_due now _ l.trace.diary.buf).2 d q a hmem

theorem Kept.run {hold : Duration} (h : l.Kept hold) (ops : List BufferOp) :
    (Run.final Ledger.step l ops).Kept hold :=
  Run.invariant_of_step (fun _ op h => h.step op) h ops

/-- The ledger and the media path run over the same buffer. -/
theorem buf_run (ops : List MediaPath.Op) : ∀ (l : Ledger) (m : MediaPath),
    l.trace.diary.buf = m.reorder →
      (Run.final Ledger.step l (ops.map MediaPath.Op.toBuffer)).trace.diary.buf
        = (Run.final MediaPath.step m ops).reorder := by
  induction ops with
  | nil => intro l m h; exact h
  | cons op ops ih =>
      intro l m h
      refine ih _ _ ?_
      cases op with
      | packet p now =>
          show (l.trace.diary.step (.insert p.seq p.payload now)).buf = _
          rw [Recording.buf_step_insert, h]
          rfl
      | drain now =>
          show (l.trace.diary.buf.drainReady now).1 = _
          rw [h]
          rfl

/-- What a burst adds to the ledger. -/
theorem outcomes_burst (now : Instant) : ∀ (batch : List ParsedRtp) (l : Ledger),
    let l' := Run.final Ledger.step l
      ((batch.map fun p => MediaPath.Op.packet p now).map MediaPath.Op.toBuffer)
    l'.trace.diary.arrivals.map Arrival.outcome = l.trace.diary.arrivals.map Arrival.outcome
        ++ (MediaPath.insertAll l.trace.diary.buf now batch).2 ∧
      l'.trace.diary.releases = l.trace.diary.releases := by
  intro batch
  induction batch with
  | nil => intro l; exact ⟨(List.append_nil _).symm, rfl⟩
  | cons p ps ih =>
      intro l
      obtain ⟨h1, h2⟩ := ih (l.step (.insert p.seq p.payload now))
      have hbuf : (l.step (.insert p.seq p.payload now)).trace.diary.buf
          = (l.trace.diary.buf.insert p.seq p.payload now).1 := Recording.buf_step_insert _ _ _ _
      have hone : (l.step (.insert p.seq p.payload now)).trace.diary.arrivals.map Arrival.outcome
            = l.trace.diary.arrivals.map Arrival.outcome
              ++ [(l.trace.diary.buf.insert p.seq p.payload now).2] ∧
          (l.step (.insert p.seq p.payload now)).trace.diary.releases
            = l.trace.diary.releases := by
        simp only [step, Trace.step, Recording.step]
        split <;> exact ⟨by simp, rfl⟩
      refine ⟨h1.trans ?_, h2.trans hone.2⟩
      rw [hone.1, hbuf, List.append_assoc]
      rfl

end Ledger

/-! ### The log matches the threads -/

namespace ReceivePipe

variable {s : ReceivePipe}

/-- Counting and forwarding apart, the counters and the channel are left alone, but for
the application taking a packet. -/
theorem step_quiet (s : ReceivePipe) (op : PipeOp) (hcount : op ≠ .count) (hforward : op ≠ .forward) :
    (s.step op).stats = s.stats ∧
      (s.step op).got ++ (s.step op).channel.queue = s.got ++ s.channel.queue := by
  cases op with
  | count => exact absurd rfl hcount
  | forward => exact absurd rfl hforward
  | burst batch now =>
      simp only [step]
      split <;> exact ⟨rfl, rfl⟩
  | shutdown =>
      simp only [step]
      split <;> exact ⟨rfl, rfl⟩
  | recv =>
      simp only [step]
      split
      · rename_i x queue _ hq
        refine ⟨rfl, ?_⟩
        rw [hq, List.append_assoc]
        rfl
      · exact ⟨rfl, rfl⟩
  | notify => exact ⟨rfl, rfl⟩
  | enter => exact ⟨rfl, rfl⟩
  | turn clock => exact ⟨rfl, rfl⟩
  | timeout now => exact ⟨rfl, rfl⟩
  | spurious => exact ⟨rfl, rfl⟩
  | resume => exact ⟨rfl, rfl⟩
  | cancel => exact ⟨rfl, rfl⟩
  | hangUp => exact ⟨rfl, rfl⟩

theorem counts_eq_nil {op : PipeOp} (h : op ≠ .count) : s.counts op = [] := by
  cases op <;> first | rfl | exact absurd rfl h

theorem forwards_eq_nil {op : PipeOp} (h : op ≠ .forward) : s.forwards op = [] := by
  cases op <;> first | rfl | exact absurd rfl h

/-- What counting does. -/
theorem step_count (s : ReceivePipe) :
    s.counts .count ++ (s.step .count).counting = s.counting ∧
      (s.step .count).stats = (s.counts .count).foldl (fun st x => st.onPacket x.1 x.2) s.stats ∧
      (s.step .count).shared = s.shared ∧ (s.step .count).channel = s.channel ∧
      (s.step .count).got = s.got := by
  simp only [step, counts]
  cases howes : s.shared.owes with
  | true => exact ⟨rfl, rfl, rfl, rfl, rfl⟩
  | false =>
      cases hc : s.counting with
      | nil => exact ⟨by simp [hc], rfl, rfl, rfl, rfl⟩
      | cons x rest => exact ⟨rfl, rfl, rfl, rfl, rfl⟩

/-- What forwarding an item does. -/
theorem step_forward (s : ReceivePipe) :
    (s.step .forward).stats.packetsReceived = s.stats.packetsReceived ∧
    (s.step .forward).stats.duplicates = s.stats.duplicates ∧
    (s.step .forward).stats.reorderDrops = s.stats.reorderDrops + s.refusals .forward ∧
    (s.step .forward).stats.packetsLost = s.stats.packetsLost
      + (s.forwards .forward).countP (fun x => !x.isDelivered) ∧
    (s.step .forward).got = s.got ∧
    (s.step .forward).channel.queue = s.channel.queue
      ++ ((s.forwards .forward).filterMap DrainItem.packet).filter
        (fun x => (s.channel.trySend x).isSome) := by
  have hpending : ∀ items, s.shared.phase = .emitting items → s.shared.pending = items := by
    intro items h
    simp only [Monitor.State.pending, h]
  simp only [step, refusals, forwards]
  split
  · rename_i item items hp
    rw [hpending _ hp]
    cases item with
    | lost => simp [forward, sync, DrainItem.packet, DrainItem.isDelivered]
    | delivered data seq arrival =>
        simp only [forward, List.take_succ_cons, List.take_zero, DrainItem.packet,
          DrainItem.isDelivered, List.filterMap_cons, List.filterMap_nil]
        cases hsend : s.channel.trySend ⟨data, arrival, seq⟩ with
        | none => simp [sync, hsend]
        | some channel =>
            have hqueue : channel.queue = s.channel.queue ++ [⟨data, arrival, seq⟩] := by
              unfold DeliveryChannel.trySend at hsend
              split at hsend
              · cases hsend
                rfl
              · cases hsend
            simp [sync, hsend, hqueue]
  · rename_i hne
    have hnil : s.shared.pending.take 1 = [] := by
      unfold Monitor.State.pending
      cases hp : s.shared.phase with
      | emitting items =>
          cases items with
          | nil => rfl
          | cons x rest => exact absurd hp (hne x rest)
      | _ => rfl
    rw [hnil]
    simp [sync]

end ReceivePipe

namespace PipeLog

variable {l : PipeLog}

/-- The counters and the channel, in terms of what was counted and forwarded. -/
structure Tallied (l : PipeLog) : Prop where
  received : l.pipe.stats.packetsReceived = l.counted.length
  duplicates : l.pipe.stats.duplicates = l.counted.countP fun x => x.2.duplicate
  drops : l.pipe.stats.reorderDrops = l.counted.countP (fun x => x.2.stale) + l.refused
  lost : l.pipe.stats.packetsLost = (l.counted.map fun x => x.2.overflowFlushed).sum
    + l.forwarded.countP fun x => !x.isDelivered
  queued : (l.pipe.got ++ l.pipe.channel.queue).length + l.refused
    = l.forwarded.countP fun x => x.isDelivered
  stream : (l.pipe.got ++ l.pipe.channel.queue).Sublist (l.forwarded.filterMap DrainItem.packet)

/-- What the ledger has is what the threads have, done or still to do. -/
structure Matched (l : PipeLog) : Prop where
  value : l.ledger.trace.diary.buf = l.pipe.shared.value
  outcomes : l.ledger.trace.diary.arrivals.map Arrival.outcome
    = (l.counted ++ l.pipe.counting).map Prod.snd
  items : l.ledger.trace.diary.releases.map Release.item = l.forwarded ++ l.pipe.shared.pending

theorem onPacket_all (xs : List (ParsedRtp × InsertOutcome)) : ∀ st : RistConnStats,
    let st' := xs.foldl (fun st x => st.onPacket x.1 x.2) st
    st'.packetsReceived = st.packetsReceived + xs.length ∧
      st'.duplicates = st.duplicates + xs.countP (fun x => x.2.duplicate) ∧
      st'.reorderDrops = st.reorderDrops + xs.countP (fun x => x.2.stale) ∧
      st'.packetsLost = st.packetsLost + (xs.map fun x => x.2.overflowFlushed).sum := by
  induction xs with
  | nil => intro st; exact ⟨rfl, rfl, rfl, rfl⟩
  | cons x xs ih =>
      intro st
      obtain ⟨h1, h2, h3, h4⟩ := ih (st.onPacket x.1 x.2)
      simp only [List.foldl_cons, List.length_cons, List.countP_cons, List.map_cons, List.sum_cons]
      rw [h1, h2, h3, h4]
      simp only [RistConnStats.onPacket]
      omega

theorem countP_packet (items : List DrainItem) :
    (items.filterMap DrainItem.packet).length = items.countP fun x => x.isDelivered := by
  induction items with
  | nil => rfl
  | cons x items ih =>
      cases x with
      | delivered data seq arrival =>
          rw [List.countP_cons, ← ih]
          rfl
      | lost =>
          rw [List.countP_cons, ← ih]
          rfl

theorem Tallied.count (h : l.Tallied) : (l.step .count).Tallied := by
  obtain ⟨-, hstats, -, hchannel, hgot⟩ := l.pipe.step_count
  obtain ⟨h1, h2, h3, h4⟩ := onPacket_all (l.pipe.counts .count) l.pipe.stats
  have hnone : l.pipe.forwards .count = [] := rfl
  have hzero : l.pipe.refusals .count = 0 := rfl
  constructor
  · simp only [step, hstats, h1, h.received, List.length_append]
  · simp only [step, hstats, h2, h.duplicates, List.countP_append]
  · simp only [step, hstats, h3, h.drops, List.countP_append, hzero]
    omega
  · simp only [step, hstats, h4, h.lost, List.map_append, List.sum_append, hnone, List.append_nil]
    omega
  · simp only [step, hgot, hchannel, hnone, hzero, List.append_nil]
    exact h.queued
  · simp only [step, hgot, hchannel, hnone, List.append_nil]
    exact h.stream

theorem Tallied.forward (h : l.Tallied) : (l.step .forward).Tallied := by
  obtain ⟨h1, h2, h3, h4, hgot, hqueue⟩ := l.pipe.step_forward
  have hnone : l.pipe.counts .forward = [] := rfl
  constructor
  · simp only [step, h1, hnone, List.append_nil, h.received]
  · simp only [step, h2, hnone, List.append_nil, h.duplicates]
  · simp only [step, h3, hnone, List.append_nil, h.drops]
    omega
  · simp only [step, h4, hnone, List.append_nil, h.lost, List.countP_append]
    omega
  · -- what the channel takes and what it refuses is what is forwarded
    have hsplit : ((l.pipe.forwards .forward).filterMap DrainItem.packet).length
        = (((l.pipe.forwards .forward).filterMap DrainItem.packet).filter
            fun x => (l.pipe.channel.trySend x).isSome).length + l.pipe.refusals .forward := by
      rw [List.length_eq_countP_add_countP fun x => (l.pipe.channel.trySend x).isSome,
        List.countP_eq_length_filter]
      congr 2
      funext x
      cases l.pipe.channel.trySend x <;> rfl
    have hq := h.queued
    rw [countP_packet] at hsplit
    simp only [step, hgot, hqueue, List.length_append, List.countP_append] at hq ⊢
    omega
  · simp only [step, hgot, hqueue, List.filterMap_append, ← List.append_assoc]
    exact h.stream.append List.filter_sublist

theorem Tallied.step (h : l.Tallied) (op : PipeOp) : (l.step op).Tallied := by
  by_cases hcount : op = .count
  · rw [hcount]
    exact h.count
  by_cases hforward : op = .forward
  · rw [hforward]
    exact h.forward
  obtain ⟨hstats, hstream⟩ := l.pipe.step_quiet op hcount hforward
  have h1 : l.pipe.counts op = [] := ReceivePipe.counts_eq_nil hcount
  have h2 : l.pipe.forwards op = [] := ReceivePipe.forwards_eq_nil hforward
  have h3 : l.pipe.refusals op = 0 := by
    unfold ReceivePipe.refusals
    rw [h2]
    rfl
  constructor
  · simp only [PipeLog.step, hstats, h1, List.append_nil, h.received]
  · simp only [PipeLog.step, hstats, h1, List.append_nil, h.duplicates]
  · simp only [PipeLog.step, hstats, h1, h3, List.append_nil, h.drops, Nat.add_zero]
  · simp only [PipeLog.step, hstats, h1, h2, List.append_nil, h.lost]
  · simp only [PipeLog.step, hstream, h2, h3, List.append_nil, h.queued, Nat.add_zero]
  · simp only [PipeLog.step, hstream, h2, List.append_nil, h.stream]

theorem insertAll_length (now : Instant) : ∀ (batch : List ParsedRtp) (b : ReorderBuffer),
    (MediaPath.insertAll b now batch).2.length = batch.length := by
  intro batch
  induction batch with
  | nil => intro b; rfl
  | cons p ps ih =>
      intro b
      simp only [MediaPath.insertAll, List.length_cons, ih]

theorem Matched.value_step (h : l.Matched) (op : PipeOp) :
    (l.step op).ledger.trace.diary.buf = (l.step op).pipe.shared.value := by
  have hrun := Ledger.buf_run (l.pipe.critical op) l.ledger l.pipe.settled h.value
  rw [← ReceivePipe.settled_step] at hrun
  exact hrun

/-- A burst goes into the ledger and the receive task's hands. -/
theorem Matched.burst (h : l.Matched) (batch : List ParsedRtp) (now : Instant) :
    (l.step (.burst batch now)).Matched := by
  refine ⟨h.value_step _, ?_, ?_⟩
  · by_cases hb : l.pipe.MayBurst ∧ batch.isEmpty = false
    · obtain ⟨harr, -⟩ := Ledger.outcomes_burst now batch l.ledger
      have hempty : l.pipe.counting = [] := List.isEmpty_iff.mp hb.1.2
      simp only [step, ReceivePipe.critical, ReceivePipe.step, if_pos hb, ReceivePipe.counts,
        List.append_nil, List.map_append]
      rw [harr, h.outcomes, hempty, h.value, List.append_nil,
        List.map_snd_zip (insertAll_length now batch _).le]
    · simp only [step, ReceivePipe.critical, ReceivePipe.step, if_neg hb, ReceivePipe.counts,
        List.append_nil]
      exact h.outcomes
  · by_cases hb : l.pipe.MayBurst ∧ batch.isEmpty = false
    · obtain ⟨-, hrel⟩ := Ledger.outcomes_burst now batch l.ledger
      simp only [step, ReceivePipe.critical, ReceivePipe.step, if_pos hb, ReceivePipe.forwards,
        List.append_nil]
      rw [hrel, h.items]
      congr 1
      exact (Monitor.State.step_pending (.write (batch, now)) (by simp) (by simp)).symm
    · simp only [step, ReceivePipe.critical, ReceivePipe.step, if_neg hb, ReceivePipe.forwards,
        List.append_nil]
      exact h.items

/-- A drain goes into the ledger and the delivery thread's hands. -/
theorem Matched.turn (h : l.Matched) (clock : TurnClock) : (l.step (.turn clock)).Matched := by
  refine ⟨h.value_step _, ?_, ?_⟩
  · simp only [step, ReceivePipe.critical, ReceivePipe.counts, List.append_nil]
    cases l.pipe.shared.phase.locked with
    | true => exact h.outcomes
    | false => exact h.outcomes
  · simp only [step, ReceivePipe.critical, ReceivePipe.forwards, List.append_nil,
      ReceivePipe.step, ReceivePipe.sync, Monitor.State.step_turn_pending]
    cases hlocked : l.pipe.shared.phase.locked with
    | false =>
        simp only [Bool.false_eq_true, if_false]
        exact h.items
    | true =>
        have hitems := h.items
        rw [Monitor.State.pending_of_locked hlocked, List.append_nil] at hitems
        have hturn : (drainShared.turn l.pipe.shared.value clock).2.items
            = (l.pipe.shared.value.drainReady clock.now).2 := by
          simp only [drainShared, deliveryTurn]
          split
          · rename_i hnil
            rw [hnil]
            cases ((l.pipe.shared.value.drainReady clock.now).1).nextDrainTime clock.inner with
            | none => rfl
            | some d =>
                dsimp only
                split <;> rfl
          · rfl
        simp only [if_true, hturn, List.map_cons, List.map_nil, Run.final_cons, Run.final_nil,
          MediaPath.Op.toBuffer, Ledger.step, Trace.step, Recording.step, List.map_append,
          List.map_map]
        rw [hitems, h.value]
        congr 1
        exact List.map_id _

theorem Matched.count (h : l.Matched) : (l.step .count).Matched := by
  obtain ⟨hcounting, -, hshared, -⟩ := l.pipe.step_count
  refine ⟨h.value_step _, ?_, ?_⟩
  · simp only [step, List.append_assoc, hcounting]
    exact h.outcomes
  · simp only [step, hshared, ReceivePipe.forwards, List.append_nil]
    exact h.items

theorem Matched.forward (h : l.Matched) : (l.step .forward).Matched := by
  have hstep : (l.pipe.step .forward).counting = l.pipe.counting ∧
      (l.pipe.step .forward).shared = l.pipe.shared.step drainShared .hand := by
    simp only [ReceivePipe.step]
    split
    · rename_i item items hp
      refine ⟨?_, ?_⟩
      · cases item with
        | delivered data seq arrival =>
            simp only [ReceivePipe.forward]
            split <;> rfl
        | lost => rfl
      · simp only [ReceivePipe.sync, ReceivePipe.forward_shared]
    · exact ⟨rfl, rfl⟩
  refine ⟨h.value_step _, ?_, ?_⟩
  · simp only [step, ReceivePipe.counts, List.append_nil, hstep.1]
    exact h.outcomes
  · simp only [step, ReceivePipe.forwards, List.append_assoc, hstep.2,
      Monitor.State.step_hand_pending]
    exact h.items

/-- A step that changes nothing but where the delivery thread is. -/
theorem Matched.idle (h : l.Matched) {op : PipeOp}
    (hcritical : l.pipe.critical op = []) (hcounts : l.pipe.counts op = [])
    (hforwards : l.pipe.forwards op = []) (hcounting : (l.pipe.step op).counting = l.pipe.counting)
    (hshared : (l.pipe.step op).shared.pending = l.pipe.shared.pending) : (l.step op).Matched := by
  refine ⟨h.value_step _, ?_, ?_⟩
  · simp only [step, hcritical, hcounts, hcounting, List.append_nil]
    exact h.outcomes
  · simp only [step, hcritical, hforwards, hshared, List.append_nil]
    exact h.items

theorem Matched.step (h : l.Matched) (op : PipeOp) : (l.step op).Matched := by
  have hpending : ∀ o : Monitor.Op (List ParsedRtp × Instant) TurnClock, (∀ i, o ≠ .turn i) →
      o ≠ .hand → (l.pipe.shared.step drainShared o).pending = l.pipe.shared.pending :=
    fun o => Monitor.State.step_pending o
  cases op with
  | burst batch now => exact h.burst batch now
  | count => exact h.count
  | turn clock => exact h.turn clock
  | forward => exact h.forward
  | shutdown =>
      refine h.idle rfl rfl rfl ?_ ?_
      · simp only [ReceivePipe.step]
        split <;> rfl
      · simp only [ReceivePipe.step]
        split
        · exact hpending .tell (by simp) (by simp)
        · rfl
  | recv =>
      refine h.idle rfl rfl rfl ?_ ?_
      · simp only [ReceivePipe.step]
        split <;> rfl
      · simp only [ReceivePipe.step]
        split <;> rfl
  | notify => exact h.idle rfl rfl rfl rfl (hpending .notify (by simp) (by simp))
  | enter => exact h.idle rfl rfl rfl rfl (hpending .enter (by simp) (by simp))
  | timeout now =>
      exact h.idle rfl rfl rfl rfl (hpending (.timeout now) (by simp) (by simp))
  | spurious => exact h.idle rfl rfl rfl rfl (hpending .spurious (by simp) (by simp))
  | resume => exact h.idle rfl rfl rfl rfl (hpending .resume (by simp) (by simp))
  | cancel => exact h.idle rfl rfl rfl rfl (hpending .stop (by simp) (by simp))
  | hangUp => exact h.idle rfl rfl rfl rfl rfl

/-! ### Whole runs -/

/-- What holds of the log of every run. -/
structure Kept (bufferSize : Duration) (l : PipeLog) : Prop where
  tallied : l.Tallied
  matched : l.Matched
  ledger : l.ledger.Kept bufferSize

theorem start_kept (bufferSize : Duration) (maxNackRetries : UInt32) (now : Instant) :
    (start bufferSize maxNackRetries now).Kept bufferSize := by
  have hfresh : Recording.Fresh (Recording.start (ReorderBuffer.new bufferSize)) :=
    Recording.start_fresh bufferSize (by decide)
  refine ⟨⟨rfl, rfl, rfl, rfl, rfl, List.Sublist.refl _⟩, ⟨rfl, rfl, rfl⟩, ?_⟩
  refine ⟨.inl ⟨hfresh, rfl⟩, hfresh.balancedBut, ?_, rfl, rfl, ?_⟩
  · intro a ha
    exact absurd ha List.not_mem_nil
  · intro x hx
    exact absurd hx List.not_mem_nil

theorem Kept.step {bufferSize : Duration} (h : l.Kept bufferSize) (op : PipeOp) :
    (l.step op).Kept bufferSize :=
  ⟨h.tallied.step op, h.matched.step op, h.ledger.run _⟩

theorem kept_run (bufferSize : Duration) (maxNackRetries : UInt32) (now : Instant)
    (ops : List PipeOp) :
    (Run.final PipeLog.step (start bufferSize maxNackRetries now) ops).Kept bufferSize :=
  Run.invariant_of_step (fun _ op h => h.step op) (start_kept bufferSize maxNackRetries now) ops

/-- The log of a run is of that run. -/
theorem final_pipe (ops : List PipeOp) : ∀ l : PipeLog,
    (Run.final PipeLog.step l ops).pipe = Run.final ReceivePipe.step l.pipe ops ∧
      (Run.final PipeLog.step l ops).ledger
        = Run.final Ledger.step l.ledger ((l.pipe.lockOrder ops).map MediaPath.Op.toBuffer) ∧
      (Run.final PipeLog.step l ops).counted
        = l.counted ++ Run.emitted ReceivePipe.step ReceivePipe.counts l.pipe ops ∧
      (Run.final PipeLog.step l ops).forwarded
        = l.forwarded ++ Run.emitted ReceivePipe.step ReceivePipe.forwards l.pipe ops := by
  induction ops with
  | nil => intro l; exact ⟨rfl, rfl, (List.append_nil _).symm, (List.append_nil _).symm⟩
  | cons op ops ih =>
      intro l
      obtain ⟨h1, h2, h3, h4⟩ := ih (l.step op)
      refine ⟨h1, h2.trans ?_, h3.trans ?_, h4.trans ?_⟩
      · simp only [ReceivePipe.lockOrder, Run.emitted, List.map_append, Run.final_append]
        rfl
      · simp only [Run.emitted, ← List.append_assoc]
        rfl
      · simp only [Run.emitted, ← List.append_assoc]
        rfl

theorem final_diary (ops : List BufferOp) : ∀ l : Ledger,
    (Run.final Ledger.step l ops).trace.diary = Run.final Recording.step l.trace.diary ops := by
  induction ops with
  | nil => intro l; rfl
  | cons op ops ih => intro l; exact ih (l.step op)

end PipeLog

namespace ReceivePipe

/-- **The two threads take turns.**  In every interleaving, the reorder buffer and the
trackers are as a run of the plain media path leaves them that takes the critical
sections in the order of the lock, once the receive task is through with its burst.
The outcomes the receive task counts are those of the inserts of that run, and the
items the delivery thread forwards are those of its drains, in order. -/
theorem serialises (bufferSize : Duration) (maxNackRetries : UInt32) (start : Instant)
    (ops : List PipeOp) :
    let s := Run.final step (new bufferSize maxNackRetries start) ops
    let order := (new bufferSize maxNackRetries start).lockOrder ops
    let diary := Run.final Recording.step (Recording.start (ReorderBuffer.new bufferSize))
      (order.map MediaPath.Op.toBuffer)
    s.settled = Run.final MediaPath.step
        (MediaPath.new bufferSize maxNackRetries minNackRetryDelay start) order ∧
      diary.arrivals.map Arrival.outcome
        = (Run.emitted step counts (new bufferSize maxNackRetries start) ops
          ++ s.counting).map Prod.snd ∧
      diary.releases.map Release.item
        = Run.emitted step forwards (new bufferSize maxNackRetries start) ops
          ++ s.shared.pending := by
  intro s order diary
  obtain ⟨hpipe, hledger, hcounted, hforwarded⟩ :=
    PipeLog.final_pipe ops (PipeLog.start bufferSize maxNackRetries start)
  have hmatched := (PipeLog.kept_run bufferSize maxNackRetries start ops).matched
  have hdiary := PipeLog.final_diary (order.map MediaPath.Op.toBuffer)
    (PipeLog.start bufferSize maxNackRetries start).ledger
  refine ⟨?_, ?_, ?_⟩
  · have hstart : (new bufferSize maxNackRetries start).settled
        = MediaPath.new bufferSize maxNackRetries minNackRetryDelay start := rfl
    rw [← hstart]
    exact Run.final_of_simulates settled settled_step ops _
  · have h := hmatched.outcomes
    rw [hledger, hcounted, hpipe] at h
    exact (congrArg (fun r : Recording => r.arrivals.map Arrival.outcome) hdiary).symm.trans h
  · have h := hmatched.items
    rw [hledger, hforwarded, hpipe] at h
    exact (congrArg (fun r : Recording => r.releases.map Release.item) hdiary).symm.trans h

end ReceivePipe

/-- A report of an insert is a duplicate, stale, or accepted. -/
theorem Recording.Exclusive.length {r : Recording} (h : r.Exclusive) :
    r.arrivals.length = r.arrivals.countP (fun a => a.outcome.duplicate)
      + r.arrivals.countP (fun a => a.outcome.stale) + r.accepted := by
  unfold Recording.Exclusive at h
  unfold Recording.accepted
  generalize r.arrivals = arrivals at h ⊢
  induction arrivals with
  | nil => rfl
  | cons a rest ih =>
      have hrest := ih fun b hb => h b (List.mem_cons_of_mem a hb)
      have ha := h a List.mem_cons_self
      simp only [List.length_cons, List.countP_cons, hrest]
      cases hs : a.outcome.stale with
      | true =>
          rw [ha hs]
          simp only [Bool.true_or, Bool.not_true, Bool.false_eq_true, if_true, if_false]
          omega
      | false =>
          cases hd : a.outcome.duplicate with
          | true =>
              simp only [Bool.or_true, Bool.not_true, Bool.false_eq_true, if_true, if_false]
              omega
          | false =>
              simp only [Bool.or_false, Bool.not_false, Bool.false_eq_true, if_true, if_false]
              omega

namespace PipeLog

variable {l : PipeLog}

end PipeLog

/-! ### What the application gets -/

/-- What the application is handed of an insert. -/
def Arrival.handed (a : Arrival) : RistDelivered := ⟨a.data, a.now, a.seq⟩

/-- The inserts behind the packets among some items. -/
theorem Trace.handed_of_delivered {arrivals : List Arrival} {out : List (Int × DrainItem)}
    (h : ∀ p d q a, (p, DrainItem.delivered d q a) ∈ out →
      q = UInt16.ofInt p ∧ ∃ x ∈ arrivals, x.Brought p d a) :
    ∃ taken : List Arrival,
      out.filterMap (fun x => x.2.packet) = taken.map Arrival.handed ∧
      (taken.map Arrival.pos).Sublist (out.map Prod.fst) ∧
      ∀ a ∈ taken, a ∈ arrivals ∧ a.outcome.stale = false ∧ a.outcome.duplicate = false := by
  induction out with
  | nil => exact ⟨[], rfl, List.Sublist.refl _, fun a ha => absurd ha List.not_mem_nil⟩
  | cons x out ih =>
      obtain ⟨taken, hpackets, hpos, hall⟩ := ih fun p d q a hmem => h p d q a (.tail x hmem)
      obtain ⟨p, item⟩ := x
      cases item with
      | lost => exact ⟨taken, hpackets, hpos.cons p, hall⟩
      | delivered d q a =>
          obtain ⟨hq, y, hy, hb⟩ := h p d q a List.mem_cons_self
          refine ⟨y :: taken, ?_, ?_, ?_⟩
          · have hhanded : y.handed = ⟨d, a, q⟩ := by
              unfold Arrival.handed
              rw [hb.data, hb.now, hb.seq, hq]
            rw [List.map_cons, ← hpackets, hhanded]
            rfl
          · rw [List.map_cons, hb.pos]
            exact hpos.cons_cons p
          · intro b hmem
            rcases List.mem_cons.mp hmem with rfl | hmem
            · exact ⟨hy, hb.accepted⟩
            · exact hall b hmem

namespace PipeLog

/-- **What the application gets.**  In every interleaving, the packets the application has
taken are packets that were inserted and neither stale nor duplicates, each as it came
in, each at most once and in the order of their positions; and none was drained before
it had been held for the buffer size. -/
theorem application_stream (bufferSize : Duration) (maxNackRetries : UInt32) (now : Instant)
    (ops : List PipeOp) :
    let l := Run.final PipeLog.step (start bufferSize maxNackRetries now) ops
    l.pipe = Run.final ReceivePipe.step (ReceivePipe.new bufferSize maxNackRetries now) ops ∧
      (∃ taken : List Arrival, l.pipe.got = taken.map Arrival.handed ∧
        (taken.map Arrival.pos).Pairwise (· < ·) ∧
        ∀ a ∈ taken, a ∈ l.ledger.trace.diary.arrivals ∧ a.outcome.stale = false ∧
          a.outcome.duplicate = false) ∧
      ∀ x ∈ l.pipe.got, ∃ r ∈ l.ledger.trace.diary.releases,
        r.item = .delivered x.data x.rtpSeq x.arrival ∧ bufferSize ≤ r.time - x.arrival := by
  intro l
  have h : l.Kept bufferSize := kept_run bufferSize maxNackRetries now ops
  have hsub : l.pipe.got.Sublist
      ((l.ledger.trace.diary.releases.map Release.item).filterMap DrainItem.packet) := by
    rw [h.matched.items, List.filterMap_append]
    exact (List.sublist_append_left _ _).trans (h.tallied.stream.trans
      (List.sublist_append_left _ _))
  refine ⟨(final_pipe ops _).1, ?_, ?_⟩
  · rw [← h.ledger.out, List.filterMap_map] at hsub
    obtain ⟨out, hout, hgot⟩ := List.sublist_filterMap_iff.mp hsub
    rcases h.ledger.reached with ⟨-, hnil⟩ | ⟨w, hs⟩
    · rw [hnil, List.sublist_nil] at hout
      rw [hgot, hout]
      exact ⟨[], rfl, List.Pairwise.nil, fun a ha => absurd ha List.not_mem_nil⟩
    · have hfrom : ∀ p d q a, (p, DrainItem.delivered d q a) ∈ out →
          q = UInt16.ofInt p ∧ ∃ x ∈ l.ledger.trace.diary.arrivals, x.Brought p d a :=
        fun p d q a hmem => hs.delivered p d q a (hout.subset hmem)
      obtain ⟨taken, hpackets, hpos, hall⟩ := Trace.handed_of_delivered hfrom
      refine ⟨taken, hgot.trans hpackets, ?_, hall⟩
      exact hs.increasing.sublist (hpos.trans (hout.map Prod.fst))
  · intro x hx
    obtain ⟨item, hitem, hpacket⟩ := List.mem_filterMap.mp (hsub.subset hx)
    obtain ⟨r, hr, rfl⟩ := List.mem_map.mp hitem
    cases hri : r.item with
    | lost =>
        rw [hri] at hpacket
        cases hpacket
    | delivered d q a =>
        rw [hri] at hpacket
        cases hpacket
        exact ⟨r, hr, hri, h.ledger.due r hr d q a hri⟩

end PipeLog

end Rist
