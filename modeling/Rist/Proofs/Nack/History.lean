/-
The scheduler asks for exactly the packets that are missing.

The specification reads the log of calls and their results; the base delay in force is the
one last set in it.  A number is *skipped* by a packet that goes more than one position
beyond everything received before it, by at most 1000 positions; it is *settled* by a packet
or a recovery with that number.  Positions are counted from a number `lo` that all numbers of
the run are less than half a circle ahead of.

The invariant `Tallies` ties the open requests of the scheduler to the log: each
open request is a skipped number that is not settled, its next time and its count
are what the log's returns make them, and a skipped number that is not settled has
an open request unless a later number took its slot or it was returned often enough.
-/
import Rist.Proofs.Nack.Slots
import Rist.Lib.Log

namespace Rist

open Serial

/-- A call and what it returned. -/
inductive NackEvent where
  /-- A packet, with the base delay in force. -/
  | received (seq : UInt16) (now : Instant) (delay : Duration)
  | recovered (seq : UInt16)
  /-- A call of `get_pending_nacks`, with its retry delay and its result. -/
  | pending (now : Instant) (delay : Duration) (returned : List UInt16)
  /-- The base delay from here on. -/
  | baseDelay (delay : Duration)

namespace NackEvent

/-- The event ends the request for `q`. -/
def Settles (q : UInt16) : NackEvent → Prop
  | received seq _ _ => seq = q
  | recovered seq => seq = q
  | pending _ _ _ => False
  | baseDelay _ => False

/-- The event returns `q`. -/
def returns (q : UInt16) : NackEvent → Bool
  | pending _ _ returned => decide (q ∈ returned)
  | _ => false

end NackEvent

/-- A scheduler and the log of the calls made on it. -/
structure NackDiary where
  sched : NackScheduler
  log : List NackEvent

namespace NackDiary

/-- The base delay last set. -/
def inForce (log : List NackEvent) : Duration :=
  log.foldl (fun d ev => match ev with
    | .baseDelay delay => delay
    | _ => d) 0

/-- A new scheduler is made with a base delay. -/
def start (maxRetries : UInt32) (baseDelay : Duration) (now : Instant) : NackDiary :=
  ⟨NackScheduler.new maxRetries baseDelay now, [.baseDelay baseDelay]⟩

def step (r : NackDiary) (op : NackOp) : NackDiary where
  sched := r.sched.step op
  log := match op with
    | .received seq now => r.log ++ [.received seq now (inForce r.log)]
    | .recovered seq => r.log ++ [.recovered seq]
    | .pending now rtt =>
      r.log ++ [.pending now (rtt.getD (inForce r.log)) (r.sched.getPendingNacks now rtt).2]
    | .baseDelay delay => r.log ++ [.baseDelay delay]

/-! ### Reading the log -/

/-- The position of a number, counted from `lo`. -/
def pos (lo q : UInt16) : Nat := (q - lo).toNat

/-- The highest position received. -/
def IsTop (lo : UInt16) (log : List NackEvent) (t : Nat) : Prop :=
  (∃ seq now delay, NackEvent.received seq now delay ∈ log ∧ pos lo seq = t) ∧
  ∀ seq now delay, NackEvent.received seq now delay ∈ log → pos lo seq ≤ t

/-- After `log`, the packet `seq` skips `q`. -/
def Skips (lo : UInt16) (log : List NackEvent) (seq q : UInt16) : Prop :=
  ∃ t, IsTop lo log t ∧ t < pos lo q ∧ pos lo q < pos lo seq ∧ pos lo seq - (t + 1) ≤ 1000

/-- `q` was skipped, its first request is due at `start`, and the events `since`
then do not settle it. -/
def Missing (lo : UInt16) (log : List NackEvent) (q : UInt16) (start : Instant)
    (since : List NackEvent) : Prop :=
  ∃ before seq now delay, log = before ++ .received seq now delay :: since ∧
    Skips lo before seq q ∧ start = now + delay ∧ ∀ ev ∈ since, ¬ev.Settles q

/-- No number skipped later shares the slot of `q`. -/
def Unclaimed (lo : UInt16) (log : List NackEvent) (q : UInt16) : Prop :=
  ∀ before seq now delay after q', log = before ++ .received seq now delay :: after →
    Skips lo before seq q' → pos lo q < pos lo q' → q'.toNat % 4096 ≠ q.toNat % 4096

/-- How often `q` was returned. -/
def returns (q : UInt16) (log : List NackEvent) : Nat := log.countP fun ev => ev.returns q

/-- When `q` is due: at `start`, or the retry delay after its last return. -/
def due (q : UInt16) (start : Instant) (since : List NackEvent) : Instant :=
  since.foldl (fun at' ev => match ev with
    | .pending now delay returned => if q ∈ returned then now + delay else at'
    | _ => at') start

/-- What a call of `get_pending_nacks` must return after the events `before`. -/
structure Asks (lo : UInt16) (maxRetries : UInt32) (before : List NackEvent) (now : Instant)
    (returned : List UInt16) : Prop where
  sorted : returned.Pairwise (· < ·)
  /-- Only what is missing, and not before its time. -/
  sound : ∀ q ∈ returned, ∃ start since, Missing lo before q start since ∧ start ≤ now ∧
    returns q before < maxRetries.toNat ∧
    ∀ now' delay' returned', NackEvent.pending now' delay' returned' ∈ before → q ∈ returned' →
      now' + delay' ≤ now
  /-- Everything that is missing and due. -/
  complete : ∀ q start since, Missing lo before q start since → Unclaimed lo before q →
    returns q before < maxRetries.toNat → due q start since ≤ now → q ∈ returned

/-- The requests of a whole log. -/
structure Requests (lo : UInt16) (maxRetries : UInt32) (log : List NackEvent) : Prop where
  asks : ∀ before now delay returned after,
    log = before ++ .pending now delay returned :: after →
    Asks lo maxRetries before now returned
  bounded : ∀ q, returns q log ≤ maxRetries.toNat

/-! ### A longer log -/

theorem isTop_concat_of_not_received {lo : UInt16} {log : List NackEvent} {ev : NackEvent}
    (h : ∀ seq now delay, ev ≠ .received seq now delay) (t : Nat) :
    IsTop lo (log ++ [ev]) t ↔ IsTop lo log t := by
  have hmem : ∀ seq now delay, NackEvent.received seq now delay ∈ log ++ [ev] ↔
      NackEvent.received seq now delay ∈ log := by
    intro seq now delay
    rw [List.mem_append, List.mem_singleton]
    exact or_iff_left fun hc => h seq now delay hc.symm
  simp only [IsTop, hmem]

theorem isTop_unique {lo : UInt16} {log : List NackEvent} {t t' : Nat} (h : IsTop lo log t)
    (h' : IsTop lo log t') : t = t' := by
  obtain ⟨⟨seq, now, delay, hmem, rfl⟩, hle⟩ := h
  obtain ⟨⟨seq', now', delay', hmem', rfl⟩, hle'⟩ := h'
  exact le_antisymm (hle' seq now delay hmem) (hle seq' now' delay' hmem')

/-- A missing number of a longer log is skipped by the new packet, or was missing and
is not settled. -/
theorem missing_concat_iff {lo : UInt16} {log : List NackEvent} {ev : NackEvent} {q : UInt16}
    {start : Instant} {since : List NackEvent} :
    Missing lo (log ++ [ev]) q start since ↔
      (since = [] ∧ ∃ seq now delay, ev = .received seq now delay ∧ Skips lo log seq q ∧
        start = now + delay) ∨
      (∃ since', since = since' ++ [ev] ∧ Missing lo log q start since' ∧ ¬ev.Settles q) := by
  constructor
  · rintro ⟨before, seq, now, delay, heq, hskip, hstart, hset⟩
    rcases Log.concat_eq_split.mp heq with ⟨rfl, rfl, hev⟩ | ⟨since', rfl, heq'⟩
    · exact Or.inl ⟨rfl, seq, now, delay, hev.symm, hskip, hstart⟩
    · exact Or.inr ⟨since', rfl, ⟨before, seq, now, delay, heq', hskip, hstart,
        fun x hx => hset x (by simp [hx])⟩, hset ev (by simp)⟩
  · rintro (⟨rfl, seq, now, delay, rfl, hskip, hstart⟩ |
      ⟨since', rfl, ⟨before, seq, now, delay, heq, hskip, hstart, hset⟩, hev⟩)
    · exact ⟨log, seq, now, delay, rfl, hskip, hstart, by simp⟩
    · refine ⟨before, seq, now, delay, by rw [heq]; simp, hskip, hstart, fun x hx => ?_⟩
      rcases List.mem_append.mp hx with hx | hx
      · exact hset x hx
      · rw [List.mem_singleton.mp hx]
        exact hev

theorem unclaimed_of_concat {lo : UInt16} {log : List NackEvent} {ev : NackEvent} {q : UInt16}
    (h : Unclaimed lo (log ++ [ev]) q) : Unclaimed lo log q := by
  intro before seq now delay after q' heq
  exact h before seq now delay (after ++ [ev]) q' (by rw [heq]; simp)

theorem returns_concat (q : UInt16) (log : List NackEvent) (ev : NackEvent) :
    returns q (log ++ [ev]) = returns q log + if ev.returns q = true then 1 else 0 := by
  unfold returns
  rw [List.countP_append, List.countP_singleton]

theorem due_concat (q : UInt16) (start : Instant) (since : List NackEvent) (ev : NackEvent) :
    due q start (since ++ [ev]) = match ev with
      | .pending now delay returned => if q ∈ returned then now + delay else due q start since
      | _ => due q start since := by
  unfold due
  rw [List.foldl_append]
  rfl

/-- Only a poll returns numbers. -/
theorem returns_concat_quiet (q : UInt16) (log : List NackEvent) {ev : NackEvent}
    (h : ∀ now delay returned, ev ≠ .pending now delay returned) :
    returns q (log ++ [ev]) = returns q log := by
  rw [returns_concat]
  cases ev with
  | pending now delay returned => exact absurd rfl (h now delay returned)
  | received seq now delay => rfl
  | recovered seq => rfl
  | baseDelay delay => rfl

theorem due_concat_quiet (q : UInt16) (start : Instant) (since : List NackEvent) {ev : NackEvent}
    (h : ∀ now delay returned, ev ≠ .pending now delay returned) :
    due q start (since ++ [ev]) = due q start since := by
  rw [due_concat]
  cases ev with
  | pending now delay returned => exact absurd rfl (h now delay returned)
  | received seq now delay => rfl
  | recovered seq => rfl
  | baseDelay delay => rfl

/-! ### Positions and numbers -/

variable {lo : UInt16}

theorem add_pos (lo q : UInt16) : lo + UInt16.ofNat (pos lo q) = q := by
  unfold pos
  rw [UInt16.ofNat_toNat, UInt16.add_comm, UInt16.sub_add_cancel]

theorem pos_add (lo : UInt16) {n : Nat} (h : n < 65536) : pos lo (lo + UInt16.ofNat n) = n := by
  unfold pos
  rw [UInt16.add_comm, UInt16.add_sub_cancel, ofNat_toNat_of_lt h]

/-- Numbers are as far apart as their positions. -/
theorem asI16_sub_pos (lo : UInt16) {a b : Nat} (ha : a < 32768) (hb : b ≤ 32768) :
    asI16 (lo + UInt16.ofNat a - (lo + UInt16.ofNat b)) = (a : Int) - b := by
  have hlo : lo = UInt16.ofInt (lo.toNat : Int) := by
    rw [eq_iff_toNat, toNat_ofInt]
    have := lo.toNat_lt
    omega
  rw [hlo, ofInt_add, ofInt_add, ofNat_toNat_of_lt (by omega), ofNat_toNat_of_lt (by omega),
    asI16_sub_ofInt (by omega) (by omega)]
  omega

theorem isTop_concat {log : List NackEvent} {seq : UInt16} (now : Instant) (delay : Duration)
    (h : ∀ t, IsTop lo log t → t ≤ pos lo seq)
    (hex : ∀ seq' now' delay', NackEvent.received seq' now' delay' ∈ log → ∃ t, IsTop lo log t) :
    IsTop lo (log ++ [.received seq now delay]) (pos lo seq) := by
  refine ⟨⟨seq, now, delay, by simp, rfl⟩, fun seq' now' delay' hmem => ?_⟩
  rcases List.mem_append.mp hmem with hmem | hmem
  · obtain ⟨t, ht⟩ := hex seq' now' delay' hmem
    exact (ht.2 seq' now' delay' hmem).trans (h t ht)
  · obtain ⟨rfl, -, -⟩ := NackEvent.received.inj (List.mem_singleton.mp hmem)
    exact le_rfl

/-- A missing number lies below the highest one received. -/
theorem Missing.pos_lt {log : List NackEvent} {q : UInt16} {start : Instant}
    {since : List NackEvent} (h : Missing lo log q start since) {t : Nat} (ht : IsTop lo log t) :
    pos lo q < t := by
  obtain ⟨before, seq, now, delay, rfl, ⟨t', -, -, hlt, -⟩, -, -⟩ := h
  exact lt_of_lt_of_le hlt (ht.2 seq now delay (by simp))

theorem Missing.exists_received {log : List NackEvent} {q : UInt16} {start : Instant}
    {since : List NackEvent} (h : Missing lo log q start since) :
    ∃ seq now delay, NackEvent.received seq now delay ∈ log := by
  obtain ⟨before, seq, now, delay, rfl, -⟩ := h
  exact ⟨seq, now, delay, by simp⟩

theorem Requests.concat_quiet {maxRetries : UInt32} {log : List NackEvent} {ev : NackEvent}
    (h : Requests lo maxRetries log) (hq : ∀ now delay returned, ev ≠ .pending now delay returned) :
    Requests lo maxRetries (log ++ [ev]) := by
  refine ⟨fun before now delay returned after heq => ?_, fun q => ?_⟩
  · rcases Log.concat_eq_split.mp heq with ⟨-, -, hev⟩ | ⟨after', -, heq'⟩
    · exact absurd hev.symm (hq now delay returned)
    · exact h.asks before now delay returned after' heq'
  · rw [returns_concat_quiet q log hq]
    exact h.bounded q

theorem Requests.concat_pending {maxRetries : UInt32} {log returned : List _} {now : Instant}
    (h : Requests lo maxRetries log) (delay : Duration) (ha : Asks lo maxRetries log now returned) :
    Requests lo maxRetries (log ++ [.pending now delay returned]) := by
  refine ⟨fun before now' delay' returned' after heq => ?_, fun q => ?_⟩
  · rcases Log.concat_eq_split.mp heq with ⟨-, rfl, hev⟩ | ⟨after', -, heq'⟩
    · obtain ⟨rfl, -, rfl⟩ := NackEvent.pending.inj hev
      exact ha
    · exact h.asks before now' delay' returned' after' heq'
  · rw [returns_concat]
    split
    · rename_i hret
      obtain ⟨-, -, -, -, hlt, -⟩ := ha.sound q (by simpa [NackEvent.returns] using hret)
      omega
    · exact h.bounded q

/-! ### The invariant -/

/-- The scheduler's open requests are what the log makes them. -/
structure Tallies (lo : UInt16) (maxRetries : UInt32) (r : NackDiary) : Prop where
  bits : r.sched.slots.bits = NackScheduler.ringBits
  owned : r.sched.Owned
  surplus : ∃ d, NackScheduler.Surplus r.sched d
  max_eq : r.sched.maxRetries = maxRetries
  span : ∀ seq now delay, NackEvent.received seq now delay ∈ r.log → pos lo seq < 32768
  /-- The expected number follows the highest one received, and the counter has not
  counted more numbers than were passed. -/
  frontier : (r.sched.expectedSeq = none ∧ r.sched.activeCount = 0 ∧
      ∀ seq now delay, NackEvent.received seq now delay ∉ r.log) ∨
    ∃ t, IsTop lo r.log t ∧ r.sched.expectedSeq = some (lo + UInt16.ofNat (t + 1)) ∧
      r.sched.activeCount.toNat ≤ t
  open_missing : ∀ q, r.sched.Open q → ∃ start since, Missing lo r.log q start since ∧
    (r.sched.slot q).nextNackAt = due q start since ∧
    (r.sched.slot q).nackCount.toNat = returns q r.log ∧
    start ≤ (r.sched.slot q).nextNackAt ∧
    ∀ now delay returned, NackEvent.pending now delay returned ∈ r.log → q ∈ returned →
      now + delay ≤ (r.sched.slot q).nextNackAt
  missing_open : ∀ q start since, Missing lo r.log q start since → Unclaimed lo r.log q →
    returns q r.log < maxRetries.toNat →
    r.sched.Open q ∧ (r.sched.slot q).nextNackAt = due q start since
  /-- Nothing is returned before it is passed. -/
  returned : ∀ q, returns q r.log ≠ 0 → ∃ t, IsTop lo r.log t ∧ pos lo q ≤ t
  requests : Requests lo maxRetries r.log

variable {maxRetries : UInt32} {r : NackDiary}

theorem Tallies.exists_top (h : Tallies lo maxRetries r) {seq : UInt16} {now : Instant}
    {delay : Duration} (hmem : NackEvent.received seq now delay ∈ r.log) :
    ∃ t, IsTop lo r.log t := by
  rcases h.frontier with ⟨-, -, hno⟩ | ⟨t, ht, -⟩
  · exact absurd hmem (hno seq now delay)
  · exact ⟨t, ht⟩

theorem start_tallies (lo : UInt16) (maxRetries : UInt32) (baseDelay : Duration) (now : Instant) :
    Tallies lo maxRetries (start maxRetries baseDelay now) := by
  have hoff : ∀ k, ((start maxRetries baseDelay now).sched.slots.get k).active = false :=
    NackScheduler.new_inactive maxRetries baseDelay now
  have hcount : NackScheduler.Surplus (start maxRetries baseDelay now).sched 0 :=
    NackScheduler.countExact_iff.mp (NackScheduler.new_countExact maxRetries baseDelay now)
  refine ⟨rfl, ?_, ⟨0, hcount⟩, rfl, ?_, Or.inl ⟨rfl, rfl, ?_⟩, ?_, ?_, ?_, ?_, ?_⟩
  · intro k _ hact
    rw [hoff k] at hact
    simp at hact
  · simp [start]
  · simp [start]
  · intro q hq
    have hact := hq.1
    unfold NackScheduler.slot at hact
    rw [hoff] at hact
    simp at hact
  · intro q st since hm
    obtain ⟨seq, now', delay, hmem⟩ := hm.exists_received
    simp [start] at hmem
  · intro q hq
    exact absurd rfl hq
  · intro before now' delay ret after heq
    have hmem : NackEvent.pending now' delay ret ∈ [NackEvent.baseDelay baseDelay] := by
      rw [show [NackEvent.baseDelay baseDelay] = _ from heq]
      simp
    simp at hmem
  · intro q
    exact Nat.zero_le _

/-! ### One more event

Each call adds an event to the log.  The pieces of the invariant are carried over one at
a time: what the log says of an open request (`Armed`), and how far the scheduler has
come (`Frontier`).
-/

/-- What the log says of the slot of an open request for `q`. -/
def Armed (lo : UInt16) (log : List NackEvent) (q : UInt16) (slot : NackSlot) : Prop :=
  ∃ start since, Missing lo log q start since ∧ slot.nextNackAt = due q start since ∧
    slot.nackCount.toNat = returns q log ∧ start ≤ slot.nextNackAt ∧
    ∀ now delay returned, NackEvent.pending now delay returned ∈ log → q ∈ returned →
      now + delay ≤ slot.nextNackAt

/-- The expected number against the highest one received. -/
def Frontier (lo : UInt16) (log : List NackEvent) (s : NackScheduler) : Prop :=
  (s.expectedSeq = none ∧ s.activeCount = 0 ∧
      ∀ seq now delay, NackEvent.received seq now delay ∉ log) ∨
    ∃ t, IsTop lo log t ∧ s.expectedSeq = some (lo + UInt16.ofNat (t + 1)) ∧
      s.activeCount.toNat ≤ t

variable {log : List NackEvent} {q : UInt16} {slot : NackSlot} {ev : NackEvent}

/-- An event that returns nothing and leaves the number missing. -/
theorem Armed.concat_quiet (h : Armed lo log q slot)
    (hquiet : ∀ now delay returned, ev ≠ .pending now delay returned)
    (hmissing : ∀ start since, Missing lo log q start since →
      Missing lo (log ++ [ev]) q start (since ++ [ev])) :
    Armed lo (log ++ [ev]) q slot := by
  obtain ⟨start, since, hm, h1, h2, h3, h4⟩ := h
  refine ⟨start, since ++ [ev], hmissing start since hm, ?_, ?_, h3, ?_⟩
  · rw [due_concat_quiet _ _ _ hquiet, h1]
  · rw [returns_concat_quiet _ _ hquiet, h2]
  · intro now delay returned hmem hin
    rcases List.mem_append.mp hmem with hmem | hmem
    · exact h4 now delay returned hmem hin
    · exact absurd (List.mem_singleton.mp hmem).symm (hquiet now delay returned)

/-- A packet returns nothing. -/
theorem received_quiet (seq : UInt16) (now : Instant) (delay : Duration) (now' : Instant)
    (delay' : Duration) (returned : List UInt16) :
    NackEvent.received seq now delay ≠ .pending now' delay' returned :=
  NackEvent.noConfusion

/-- The packet that skips a number arms it. -/
theorem armed_of_skips {seq : UInt16} (now : Instant) (delay : Duration)
    (hskip : Skips lo log seq q) (hfresh : returns q log = 0) :
    Armed lo (log ++ [.received seq now delay]) q ⟨q, true, now + delay, 0⟩ := by
  have hquiet := received_quiet seq now delay
  refine ⟨now + delay, [], missing_concat_iff.mpr (Or.inl ⟨rfl, seq, now, delay, rfl, hskip, rfl⟩),
    rfl, ?_, Nat.le_refl _, ?_⟩
  · rw [returns_concat_quiet _ _ hquiet, hfresh]
    rfl
  · intro now' delay' returned hmem hin
    rcases List.mem_append.mp hmem with hmem | hmem
    · exfalso
      unfold returns at hfresh
      have := List.countP_eq_zero.mp hfresh _ hmem
      simp [NackEvent.returns, hin] at this
    · exact absurd (List.mem_singleton.mp hmem).symm (hquiet now' delay' returned)

/-- A poll settles nothing. -/
theorem missing_concat_pending_iff {now : Instant} {delay : Duration} {returned : List UInt16}
    {start : Instant} {since : List NackEvent} :
    Missing lo (log ++ [.pending now delay returned]) q start since ↔
      ∃ since', since = since' ++ [.pending now delay returned] ∧
        Missing lo log q start since' := by
  rw [missing_concat_iff]
  constructor
  · rintro (⟨-, seq', now', delay', hev, -⟩ | ⟨since', hs, hm, -⟩)
    · exact absurd hev NackEvent.noConfusion
    · exact ⟨since', hs, hm⟩
  · rintro ⟨since', hs, hm⟩
    exact Or.inr ⟨since', hs, hm, id⟩

theorem returns_concat_pending (q : UInt16) (log : List NackEvent) (now : Instant)
    (delay : Duration) (returned : List UInt16) :
    returns q (log ++ [.pending now delay returned])
      = returns q log + if q ∈ returned then 1 else 0 := by
  rw [returns_concat]
  simp [NackEvent.returns]

/-- A poll that does not return the number. -/
theorem Armed.concat_pending_of_notMem (h : Armed lo log q slot) {now : Instant}
    {delay : Duration} {returned : List UInt16} (hout : q ∉ returned) :
    Armed lo (log ++ [.pending now delay returned]) q slot := by
  obtain ⟨start, since, hm, h1, h2, h3, h4⟩ := h
  refine ⟨start, _, missing_concat_pending_iff.mpr ⟨since, rfl, hm⟩, ?_, ?_, h3, ?_⟩
  · rw [due_concat, h1]
    exact (if_neg hout).symm
  · rw [returns_concat_pending, if_neg hout, h2]
    rfl
  · intro now' delay' ret hmem hin
    rcases List.mem_append.mp hmem with hmem | hmem
    · exact h4 now' delay' ret hmem hin
    · obtain ⟨-, -, rfl⟩ := NackEvent.pending.inj (List.mem_singleton.mp hmem)
      exact absurd hin hout

/-- A poll that returns the number counts it and puts it off. -/
theorem Armed.concat_pending_of_mem (h : Armed lo log q slot) {now : Instant} {delay : Duration}
    {returned : List UInt16} (hin : q ∈ returned) (hdue : slot.nextNackAt ≤ now)
    (hlt : returns q log < maxRetries.toNat) :
    Armed lo (log ++ [.pending now delay returned]) q
      { slot with nackCount := slot.nackCount + 1, nextNackAt := now + delay } := by
  obtain ⟨start, since, hm, -, h2, h3, h4⟩ := h
  refine ⟨start, _, missing_concat_pending_iff.mpr ⟨since, rfl, hm⟩, ?_, ?_,
    (h3.trans hdue).trans (Nat.le_add_right _ _), ?_⟩
  · rw [due_concat]
    exact (if_pos hin).symm
  · have hmaxlt := maxRetries.toNat_lt
    rw [returns_concat_pending, if_pos hin, ← h2]
    simp only [UInt32.toNat_add, UInt32.toNat_one]
    omega
  · intro now' delay' ret hmem hin'
    rcases List.mem_append.mp hmem with hmem | hmem
    · exact ((h4 now' delay' ret hmem hin').trans hdue).trans (Nat.le_add_right _ _)
    · obtain ⟨rfl, rfl, -⟩ := NackEvent.pending.inj (List.mem_singleton.mp hmem)
      exact le_rfl

/-- An event at or below the highest number. -/
theorem Frontier.concat {s s' : NackScheduler} (h : Frontier lo log s)
    (hexp : s'.expectedSeq = s.expectedSeq)
    (hcount : s'.activeCount.toNat ≤ s.activeCount.toNat)
    (htop : ∀ t, IsTop lo (log ++ [ev]) t ↔ IsTop lo log t)
    (hnew : ∀ seq now delay, ev = .received seq now delay → ∃ t, IsTop lo log t) :
    Frontier lo (log ++ [ev]) s' := by
  rcases h with ⟨h1, h2, h3⟩ | ⟨t, h1, h2, h3⟩
  · refine Or.inl ⟨hexp.trans h1, ?_, ?_⟩
    · rw [h2] at hcount
      exact UInt32.toNat_inj.mp (Nat.le_zero.mp hcount)
    · intro seq now delay hmem
      rcases List.mem_append.mp hmem with hmem | hmem
      · exact h3 seq now delay hmem
      · obtain ⟨t, ⟨⟨seq', now', delay', hm, -⟩, -⟩⟩ :=
          hnew seq now delay (List.mem_singleton.mp hmem).symm
        exact h3 seq' now' delay' hm
  · exact Or.inr ⟨t, (htop t).mpr h1, hexp.trans h2, hcount.trans h3⟩

/-- The span of a longer log: only its last event is new. -/
theorem Tallies.span_concat (h : Tallies lo maxRetries r) {ev : NackEvent}
    (hev : ∀ seq now delay, ev = .received seq now delay → pos lo seq < 32768) :
    ∀ seq now delay, NackEvent.received seq now delay ∈ r.log ++ [ev] → pos lo seq < 32768 := by
  intro seq now delay hmem
  rcases List.mem_append.mp hmem with hmem | hmem
  · exact h.span seq now delay hmem
  · exact hev seq now delay (List.mem_singleton.mp hmem).symm

/-- A number is settled: its request is closed and nothing else changes. -/
theorem Tallies.settle (h : Tallies lo maxRetries r) {seq : UInt16} (ev : NackEvent)
    (hset : ∀ q, ev.Settles q ↔ seq = q)
    (hquiet : ∀ now delay returned, ev ≠ .pending now delay returned)
    (htop : ∀ t, IsTop lo (r.log ++ [ev]) t ↔ IsTop lo r.log t)
    (hskip : ∀ q seq' now delay, ev = .received seq' now delay → ¬Skips lo r.log seq' q)
    (hspan : ∀ seq' now delay, ev = .received seq' now delay →
      pos lo seq' < 32768 ∧ ∃ t, IsTop lo r.log t) :
    Tallies lo maxRetries ⟨r.sched.deactivate seq, r.log ++ [ev]⟩ := by
  obtain ⟨d, hd⟩ := h.surplus
  obtain ⟨hexp, hmax⟩ := NackScheduler.deactivate_fields r.sched seq
  have hret : ∀ q, returns q (r.log ++ [ev]) = returns q r.log :=
    fun q => returns_concat_quiet q r.log hquiet
  have hmissing : ∀ q start since, seq ≠ q → Missing lo r.log q start since →
      Missing lo (r.log ++ [ev]) q start (since ++ [ev]) := by
    intro q start since hne hm
    exact missing_concat_iff.mpr (Or.inr ⟨since, rfl, hm, fun hc => hne ((hset q).mp hc)⟩)
  have hcount : (r.sched.deactivate seq).activeCount.toNat ≤ r.sched.activeCount.toNat := by
    unfold NackScheduler.deactivate
    split
    · exact NackScheduler.decrement_le _
    · exact le_rfl
  refine ⟨(NackScheduler.deactivate_bits _ _).trans h.bits, h.owned.deactivate h.bits seq,
    ⟨d, hd.deactivate seq⟩, hmax.trans h.max_eq, ?_, ?_, ?_, ?_, ?_,
    h.requests.concat_quiet hquiet⟩
  · exact h.span_concat fun seq' now delay hev => (hspan seq' now delay hev).1
  · exact Frontier.concat h.frontier hexp hcount htop fun seq' now delay hev =>
      (hspan seq' now delay hev).2
  · intro q hq
    have hslot := NackScheduler.deactivate_slot_of_open h.bits hq
    obtain ⟨hopen, hne⟩ := (NackScheduler.deactivate_open_iff h.bits seq q).mp hq
    rw [hslot]
    exact Armed.concat_quiet (h.open_missing q hopen) hquiet fun start since =>
      hmissing q start since hne.symm
  · intro q start since hm hun hlt
    rw [hret] at hlt
    rcases missing_concat_iff.mp hm with ⟨-, seq', now, delay, hev, hsk, -⟩ | ⟨since', rfl, hm', hns⟩
    · exact absurd hsk (hskip q seq' now delay hev)
    · have hne : q ≠ seq := fun hc => hns ((hset q).mpr hc.symm)
      obtain ⟨hopen, hnext⟩ := h.missing_open q start since' hm' (unclaimed_of_concat hun) hlt
      have hopen' := (NackScheduler.deactivate_open_iff h.bits seq q).mpr ⟨hopen, hne⟩
      refine ⟨hopen', ?_⟩
      rw [NackScheduler.deactivate_slot_of_open h.bits hopen', hnext,
        due_concat_quiet _ _ _ hquiet]
  · intro q hq
    rw [hret] at hq
    obtain ⟨t, ht, hle⟩ := h.returned q hq
    exact ⟨t, (htop t).mpr ht, hle⟩

/-- An event that is neither a packet nor a poll, and settles nothing. -/
theorem Tallies.quiet (h : Tallies lo maxRetries r) {ev : NackEvent}
    (hset : ∀ q, ¬ev.Settles q)
    (hquiet : ∀ now delay returned, ev ≠ .pending now delay returned)
    (hnr : ∀ seq now delay, ev ≠ .received seq now delay) :
    Tallies lo maxRetries ⟨r.sched, r.log ++ [ev]⟩ := by
  have htop : ∀ t, IsTop lo (r.log ++ [ev]) t ↔ IsTop lo r.log t :=
    fun t => isTop_concat_of_not_received hnr t
  refine ⟨h.bits, h.owned, h.surplus, h.max_eq, ?_, ?_, ?_, ?_, ?_, h.requests.concat_quiet hquiet⟩
  · exact h.span_concat fun seq now delay hev => absurd hev (hnr seq now delay)
  · exact Frontier.concat h.frontier rfl le_rfl htop fun seq now delay hev =>
      absurd hev (hnr seq now delay)
  · intro q hq
    exact Armed.concat_quiet (h.open_missing q hq) hquiet fun start since hm =>
      missing_concat_iff.mpr (Or.inr ⟨since, rfl, hm, hset q⟩)
  · intro q start since hm hun hlt
    rw [returns_concat_quiet q r.log hquiet] at hlt
    rcases missing_concat_iff.mp hm with ⟨-, seq, now, delay, hev, -⟩ | ⟨since', rfl, hm', -⟩
    · exact absurd hev (hnr seq now delay)
    · obtain ⟨hopen, hnext⟩ := h.missing_open q start since' hm' (unclaimed_of_concat hun) hlt
      exact ⟨hopen, hnext.trans (due_concat_quiet q start since' hquiet).symm⟩
  · intro q hq
    rw [returns_concat_quiet q r.log hquiet] at hq
    obtain ⟨t, ht, hle⟩ := h.returned q hq
    exact ⟨t, (htop t).mpr ht, hle⟩

/-- What is missing lies below a packet beyond everything received. -/
theorem Tallies.missing_pos_lt (h : Tallies lo maxRetries r) {seq : UInt16}
    (hbeyond : ∀ t, IsTop lo r.log t → t < pos lo seq) {start : Instant}
    {since : List NackEvent} (hm : Missing lo r.log q start since) : pos lo q < pos lo seq := by
  obtain ⟨seq', now', delay', hmem⟩ := hm.exists_received
  obtain ⟨t, ht⟩ := h.exists_top hmem
  exact (hm.pos_lt ht).trans (hbeyond t ht)

/-- What is skipped has not been asked for. -/
theorem Tallies.returns_of_skips (h : Tallies lo maxRetries r) {seq : UInt16}
    (hskip : Skips lo r.log seq q) : returns q r.log = 0 := by
  obtain ⟨t, ht, hlt, -, -⟩ := hskip
  by_contra hne
  obtain ⟨t', ht', hle⟩ := h.returned q hne
  have := isTop_unique ht ht'
  omega

/-- The slots after a packet: the numbers it skips get fresh requests, and the slots no
skipped number falls on keep theirs. -/
structure Advances (lo : UInt16) (r : NackDiary) (s' : NackScheduler) (seq : UInt16)
    (now : Instant) : Prop where
  bits : s'.slots.bits = NackScheduler.ringBits
  fresh : ∀ q, Skips lo r.log seq q → s'.slot q = ⟨q, true, now + r.sched.baseDelay, 0⟩
  kept : ∀ q, (∀ q', Skips lo r.log seq q' → q'.toNat % 4096 ≠ q.toNat % 4096) →
    s'.slot q = r.sched.slot q

section

variable {s' : NackScheduler} {seq : UInt16} {now : Instant}

/-- What was missing before a packet beyond everything received still is. -/
theorem Tallies.missing_beyond (h : Tallies lo maxRetries r)
    (hbeyond : ∀ t, IsTop lo r.log t → t < pos lo seq) (now : Instant) (delay : Duration)
    {start : Instant} {since : List NackEvent} (hm : Missing lo r.log q start since) :
    Missing lo (r.log ++ [.received seq now delay]) q start
      (since ++ [.received seq now delay]) := by
  refine missing_concat_iff.mpr (Or.inr ⟨since, rfl, hm, fun hc => ?_⟩)
  have hlt := h.missing_pos_lt hbeyond hm
  rw [show seq = q from hc] at hlt
  omega

/-- Every request open after such a packet: one it opened itself, or an old one. -/
theorem Tallies.advance_armed (h : Tallies lo maxRetries r) (ha : Advances lo r s' seq now)
    (hbeyond : ∀ t, IsTop lo r.log t → t < pos lo seq) (hq : s'.Open q) :
    Armed lo (r.log ++ [.received seq now r.sched.baseDelay]) q (s'.slot q) := by
  by_cases hcong : ∃ q', Skips lo r.log seq q' ∧ q'.toNat % 4096 = q.toNat % 4096
  · -- a slot the packet wrote is open for the number it wrote
    obtain ⟨q', hskip, hmod⟩ := hcong
    have hslot : s'.slot q = ⟨q', true, now + r.sched.baseDelay, 0⟩ := by
      rw [← NackScheduler.slot_congr ha.bits hmod]
      exact ha.fresh q' hskip
    have hqq : q' = q := by
      have := hq.2
      rw [hslot] at this
      exact this
    subst hqq
    rw [hslot]
    exact armed_of_skips now r.sched.baseDelay hskip (h.returns_of_skips hskip)
  · have hslot : s'.slot q = r.sched.slot q :=
      ha.kept q fun q' hskip hmod => hcong ⟨q', hskip, hmod⟩
    have hopen : r.sched.Open q := by
      unfold NackScheduler.Open at hq ⊢
      rwa [hslot] at hq
    rw [hslot]
    exact Armed.concat_quiet (h.open_missing q hopen) (received_quiet seq now _)
      fun _ _ => h.missing_beyond hbeyond now _

/-- Every number missing after such a packet, and not pushed out by it, has its request. -/
theorem Tallies.advance_open (h : Tallies lo maxRetries r) (ha : Advances lo r s' seq now)
    {start : Instant} {since : List NackEvent}
    (hm : Missing lo (r.log ++ [.received seq now r.sched.baseDelay]) q start since)
    (hun : Unclaimed lo (r.log ++ [.received seq now r.sched.baseDelay]) q)
    (hlt : returns q r.log < maxRetries.toNat) :
    s'.Open q ∧ (s'.slot q).nextNackAt = due q start since := by
  rcases missing_concat_iff.mp hm with ⟨rfl, seq', now', delay', hev, hskip, rfl⟩ |
    ⟨since', rfl, hm', hns⟩
  · obtain ⟨rfl, rfl, rfl⟩ := NackEvent.received.inj hev
    have hslot := ha.fresh q hskip
    unfold NackScheduler.Open
    rw [hslot]
    exact ⟨⟨rfl, rfl⟩, rfl⟩
  · obtain ⟨hopen, hnext⟩ := h.missing_open q start since' hm' (unclaimed_of_concat hun) hlt
    -- a skipped number on the same slot would have claimed it
    have hslot : s'.slot q = r.sched.slot q := by
      refine ha.kept q fun q' hskip => ?_
      refine hun r.log seq now r.sched.baseDelay [] q' rfl hskip ?_
      obtain ⟨t, ht, hlt', -, -⟩ := hskip
      have := hm'.pos_lt ht
      omega
    unfold NackScheduler.Open at hopen ⊢
    rw [hslot, due_concat_quiet _ _ _ (received_quiet seq now _)]
    exact ⟨hopen, hnext⟩

/-- A packet beyond everything received. -/
theorem Tallies.advance (h : Tallies lo maxRetries r) (ha : Advances lo r s' seq now)
    (hspan : pos lo seq < 32768) (howned : s'.Owned) (hsurplus : ∃ d, NackScheduler.Surplus s' d)
    (hmax : s'.maxRetries = maxRetries) (hexp : s'.expectedSeq = some (seq + 1))
    (hcount : s'.activeCount.toNat ≤ pos lo seq)
    (hbeyond : ∀ t, IsTop lo r.log t → t < pos lo seq) :
    Tallies lo maxRetries ⟨s', r.log ++ [.received seq now r.sched.baseDelay]⟩ := by
  have hquiet := received_quiet seq now r.sched.baseDelay
  have htop := isTop_concat now r.sched.baseDelay
    (fun t ht => (hbeyond t ht).le) fun _ _ _ hmem => h.exists_top hmem
  refine ⟨ha.bits, howned, hsurplus, hmax, ?_, Or.inr ⟨_, htop, ?_, hcount⟩, ?_, ?_, ?_,
    h.requests.concat_quiet hquiet⟩
  · refine h.span_concat fun seq' now' delay hev => ?_
    obtain ⟨rfl, -, -⟩ := NackEvent.received.inj hev
    exact hspan
  · rw [hexp, UInt16.ofNat_add, ← UInt16.add_assoc, add_pos]
    rfl
  · intro q hq
    exact h.advance_armed ha hbeyond hq
  · intro q start since hm hun hlt
    rw [returns_concat_quiet _ _ hquiet] at hlt
    exact h.advance_open ha hm hun hlt
  · intro q hq
    rw [returns_concat_quiet _ _ hquiet] at hq
    obtain ⟨t, ht, hle⟩ := h.returned q hq
    exact ⟨_, htop, hle.trans (hbeyond t ht).le⟩

end

/-- An open request is returned when it is due and may still be asked for. -/
theorem Tallies.mem_returned_iff (h : Tallies lo maxRetries r) {s' : NackScheduler}
    {now : Instant} {delay : Duration} {returned : List UInt16}
    (hp : NackScheduler.Polled r.sched s' now delay returned) (hq : r.sched.Open q) :
    q ∈ returned ↔
      (r.sched.slot q).nextNackAt ≤ now ∧ returns q r.log < maxRetries.toNat := by
  obtain ⟨start, since, -, -, hcount, -, -⟩ := h.open_missing q hq
  rw [hp.returned_iff q, h.max_eq, NackScheduler.requested_iff hq.1, hcount]
  exact and_iff_right hq

/-- **What a poll returns** is what the log asks of it. -/
theorem Tallies.asks (h : Tallies lo maxRetries r) {s' : NackScheduler} {now : Instant}
    {delay : Duration} {returned : List UInt16}
    (hp : NackScheduler.Polled r.sched s' now delay returned) :
    Asks lo maxRetries r.log now returned := by
  refine ⟨hp.sorted, fun q hq => ?_, fun q start since hm hun hlt hle => ?_⟩
  · have hopen := ((hp.returned_iff q).mp hq).1
    obtain ⟨hnow, hlt⟩ := (h.mem_returned_iff hp hopen).mp hq
    obtain ⟨start, since, hm, -, -, hstart, hearlier⟩ := h.open_missing q hopen
    exact ⟨start, since, hm, hstart.trans hnow, hlt,
      fun now' delay' ret hmem hin => (hearlier now' delay' ret hmem hin).trans hnow⟩
  · obtain ⟨hopen, hnext⟩ := h.missing_open q start since hm hun hlt
    exact (h.mem_returned_iff hp hopen).mpr ⟨by rw [hnext]; exact hle, hlt⟩

/-- A poll: what is open and due is returned, counted and put off. -/
theorem Tallies.poll (h : Tallies lo maxRetries r) {s' : NackScheduler} {now : Instant}
    {delay : Duration} {returned : List UInt16} (hsurplus : ∃ d, NackScheduler.Surplus s' d)
    (hp : NackScheduler.Polled r.sched s' now delay returned) :
    Tallies lo maxRetries ⟨s', r.log ++ [.pending now delay returned]⟩ := by
  have hnr : ∀ seq now' delay', NackEvent.pending now delay returned
      ≠ .received seq now' delay' := fun _ _ _ => NackEvent.noConfusion
  have htop : ∀ t, IsTop lo (r.log ++ [.pending now delay returned]) t ↔ IsTop lo r.log t :=
    isTop_concat_of_not_received hnr
  refine ⟨hp.bits.trans h.bits, hp.owned h.bits h.owned, hsurplus, hp.maxRetries.trans h.max_eq,
    ?_, ?_, ?_, ?_, ?_, h.requests.concat_pending delay (h.asks hp)⟩
  · exact h.span_concat fun seq now' delay' hev => absurd hev (hnr seq now' delay')
  · exact Frontier.concat h.frontier hp.expectedSeq hp.activeCount htop
      fun seq now' delay' hev => absurd hev (hnr seq now' delay')
  · intro q hq
    have hslot := hp.slots q
    obtain ⟨hact, hseq⟩ := hq
    rw [hslot] at hact hseq
    rw [NackScheduler.scanned_seq] at hseq
    have hopen : r.sched.Open q := ⟨NackScheduler.scanned_active hact, hseq⟩
    by_cases hin : q ∈ returned
    · obtain ⟨hnow, hlt⟩ := (h.mem_returned_iff hp hopen).mp hin
      rw [hslot, NackScheduler.scanned_of_requested ((hp.returned_iff q).mp hin).2 delay]
      exact Armed.concat_pending_of_mem (h.open_missing q hopen) hin hnow hlt
    · have hno : ¬NackScheduler.requested r.sched.maxRetries now (r.sched.slot q) = true :=
        fun hc => hin ((hp.returned_iff q).mpr ⟨hopen, hc⟩)
      rw [hslot, NackScheduler.scanned_of_active hno hact]
      exact Armed.concat_pending_of_notMem (h.open_missing q hopen) hin
  · intro q start since hm hun hlt
    obtain ⟨since', rfl, hm'⟩ := missing_concat_pending_iff.mp hm
    rw [returns_concat_pending] at hlt
    obtain ⟨hopen, hnext⟩ := h.missing_open q start since' hm' (unclaimed_of_concat hun)
      (lt_of_le_of_lt (Nat.le_add_right _ _) hlt)
    unfold NackScheduler.Open
    rw [hp.slots q, due_concat]
    by_cases hin : q ∈ returned
    · rw [NackScheduler.scanned_of_requested ((hp.returned_iff q).mp hin).2 delay]
      exact ⟨hopen, (if_pos hin).symm⟩
    · have hearly : ¬(r.sched.slot q).nextNackAt ≤ now := by
        intro hc
        rw [if_neg hin] at hlt
        exact hin ((h.mem_returned_iff hp hopen).mpr ⟨hc, hlt⟩)
      rw [NackScheduler.scanned_of_early hearly]
      exact ⟨hopen, hnext.trans (if_neg hin).symm⟩
  · intro q hq
    by_cases hin : q ∈ returned
    · obtain ⟨start, since, hm, -⟩ := h.open_missing q ((hp.returned_iff q).mp hin).1
      obtain ⟨seq, now', delay', hmem⟩ := hm.exists_received
      obtain ⟨t, ht⟩ := h.exists_top hmem
      exact ⟨t, (htop t).mpr ht, (hm.pos_lt ht).le⟩
    · rw [returns_concat_pending, if_neg hin] at hq
      obtain ⟨t, ht, hle⟩ := h.returned q hq
      exact ⟨t, (htop t).mpr ht, hle⟩

/-! ### The run -/

/-- The number of the call lies in the span that starts at `lo`. -/
def InSpan (lo : UInt16) : NackOp → Prop
  | .received seq _ => pos lo seq < 32768
  | .recovered seq => pos lo seq < 32768
  | _ => True

instance (lo : UInt16) : (op : NackOp) → Decidable (InSpan lo op)
  | .received seq _ => inferInstanceAs (Decidable (pos lo seq < 32768))
  | .recovered seq => inferInstanceAs (Decidable (pos lo seq < 32768))
  | .pending _ _ => .isTrue trivial
  | .baseDelay _ => .isTrue trivial

/-- A packet at or below the highest one received. -/
theorem Tallies.received_old (h : Tallies lo maxRetries r) {seq : UInt16} {now : Instant} {t : Nat}
    (ht : IsTop lo r.log t) (hspan : pos lo seq < 32768) (hle : pos lo seq ≤ t) :
    Tallies lo maxRetries
      ⟨r.sched.deactivate seq, r.log ++ [.received seq now r.sched.baseDelay]⟩ := by
  refine h.settle (.received seq now r.sched.baseDelay) (fun q => Iff.rfl)
    (received_quiet seq now r.sched.baseDelay) ?_ ?_ ?_
  · intro t'
    have htop' : IsTop lo (r.log ++ [.received seq now r.sched.baseDelay]) t := by
      obtain ⟨⟨seq', now', delay', hmem, hpos⟩, hall⟩ := ht
      refine ⟨⟨seq', now', delay', by simp [hmem], hpos⟩, fun s n d hm => ?_⟩
      rcases List.mem_append.mp hm with hm | hm
      · exact hall s n d hm
      · obtain ⟨rfl, -, -⟩ := NackEvent.received.inj (List.mem_singleton.mp hm)
        exact hle
    constructor
    · intro h'
      rw [isTop_unique h' htop']
      exact ht
    · intro h'
      rw [isTop_unique h' ht]
      exact htop'
  · rintro q seq' now' delay' hev ⟨t', ht', h1, h2, -⟩
    obtain ⟨rfl, -, -⟩ := NackEvent.received.inj hev
    have := isTop_unique ht ht'
    omega
  · intro seq' now' delay' hev
    obtain ⟨rfl, -, -⟩ := NackEvent.received.inj hev
    exact ⟨hspan, t, ht⟩

/-- The distance from the expected number to a packet of the span. -/
theorem asI16_sub_expected {seq : UInt16} {t : Nat} (hspan : pos lo seq < 32768)
    (ht : t < 32768) :
    asI16 (seq - (lo + UInt16.ofNat (t + 1))) = (pos lo seq : Int) - (t + 1) := by
  conv_lhs => rw [← add_pos lo seq]
  rw [asI16_sub_pos lo hspan (by omega)]
  push_cast
  rfl

/-- The numbers a packet skips are those of its gap loop. -/
theorem skips_iff {log : List NackEvent} {seq q : UInt16} {t n : Nat} (ht : IsTop lo log t)
    (hspan : pos lo seq < 32768) (hn : n = pos lo seq - (t + 1)) (hgap : n ≤ 1000) :
    Skips lo log seq q ↔ ∃ i < n, lo + UInt16.ofNat (t + 1) + UInt16.ofNat i = q := by
  have hnum : ∀ i, lo + UInt16.ofNat (t + 1) + UInt16.ofNat i = lo + UInt16.ofNat (t + 1 + i) := by
    intro i
    rw [UInt16.add_assoc, UInt16.ofNat_add (t + 1) i]
  constructor
  · rintro ⟨t', ht', h1, h2, -⟩
    obtain rfl := isTop_unique ht ht'
    refine ⟨pos lo q - (t + 1), by omega, ?_⟩
    rw [hnum, show t + 1 + (pos lo q - (t + 1)) = pos lo q by omega, add_pos]
  · rintro ⟨i, hi, rfl⟩
    refine ⟨t, ht, ?_, ?_, by omega⟩
    · rw [hnum, pos_add lo (by omega)]
      omega
    · rw [hnum, pos_add lo (by omega)]
      omega

theorem Tallies.surplus_lt (h : Tallies lo maxRetries r) {t : Nat} (ht : IsTop lo r.log t) :
    t < 32768 ∧ r.sched.activeCount.toNat ≤ t ∧
      r.sched.expectedSeq = some (lo + UInt16.ofNat (t + 1)) := by
  obtain ⟨⟨seq, now, delay, hmem, rfl⟩, -⟩ := id ht
  refine ⟨h.span seq now delay hmem, ?_⟩
  rcases h.frontier with ⟨-, -, hno⟩ | ⟨t', ht', h1, h2⟩
  · exact absurd hmem (hno seq now delay)
  · rw [isTop_unique ht ht']
    exact ⟨h2, h1⟩

/-- A packet that leaves a gap the scheduler tracks. -/
theorem Tallies.received_gap (h : Tallies lo maxRetries r) {seq : UInt16} {now : Instant} {t : Nat}
    (ht : IsTop lo r.log t) (hspan : pos lo seq < 32768) (hlt : t + 1 < pos lo seq)
    (hgap : pos lo seq - (t + 1) ≤ 1000) :
    Tallies lo maxRetries
      ⟨{ (r.sched.trackGaps (lo + UInt16.ofNat (t + 1)) now (pos lo seq - (t + 1))).1 with
          expectedSeq := some (seq + 1) },
        r.log ++ [.received seq now r.sched.baseDelay]⟩ := by
  obtain ⟨htlt, hcount, -⟩ := h.surplus_lt ht
  obtain ⟨d, hd⟩ := h.surplus
  set expected := lo + UInt16.ofNat (t + 1) with hexpected
  set n := pos lo seq - (t + 1) with hn
  have hskips : ∀ q, Skips lo r.log seq q ↔ ∃ i < n, expected + UInt16.ofNat i = q :=
    fun q => skips_iff ht hspan hn hgap
  have hbits := (NackScheduler.trackGaps_bits r.sched expected now n).trans h.bits
  -- a number of the gap is beyond everything open
  have hfree : ∀ i < n, NackScheduler.claimable
      (r.sched.slot (expected + UInt16.ofNat i)) (expected + UInt16.ofNat i) = true := by
    intro i hi
    by_contra hc
    have hopen : r.sched.Open (expected + UInt16.ofNat i) := by
      simpa [NackScheduler.claimable, NackScheduler.Open] using hc
    obtain ⟨start, since, hm, -⟩ := h.open_missing _ hopen
    obtain ⟨t', ht', h1, -⟩ := (hskips _).mpr ⟨i, hi, rfl⟩
    have h2 := hm.pos_lt ht
    have h3 := isTop_unique ht ht'
    omega
  obtain ⟨hfresh, hactive⟩ := NackScheduler.trackGaps_fresh h.bits expected now n (by omega) hfree
  have hd31 : d < 2 ^ 31 := by
    unfold NackScheduler.Surplus at hd
    omega
  refine h.advance ⟨hbits, ?_, ?_⟩ hspan (h.owned.trackGaps h.bits expected now n)
    ⟨_, NackScheduler.Surplus.trackGaps h.bits hd hd31 expected now n (by omega)⟩
    ((NackScheduler.trackGaps_fields r.sched expected now n).2.trans h.max_eq) rfl ?_ ?_
  · intro q hq
    obtain ⟨i, hi, rfl⟩ := (hskips q).mp hq
    exact hfresh i hi
  · intro q hq
    refine NackScheduler.trackGaps_untouched h.bits expected now q n fun i hi => ?_
    exact hq _ ((hskips _).mpr ⟨i, hi, rfl⟩)
  · show (r.sched.trackGaps expected now n).1.activeCount.toNat ≤ _
    rw [hactive, UInt32.toNat_add, UInt32.toNat_ofNat']
    omega
  · intro t' ht'
    have := isTop_unique ht ht'
    omega

/-- A packet that skips nothing the scheduler tracks. -/
theorem Tallies.received_next (h : Tallies lo maxRetries r) {s' : NackScheduler} {seq : UInt16}
    {now : Instant} (hspan : pos lo seq < 32768) (hslots : s'.slots = r.sched.slots)
    (hactive : s'.activeCount = r.sched.activeCount) (hmax : s'.maxRetries = r.sched.maxRetries)
    (hexp : s'.expectedSeq = some (seq + 1)) (hbeyond : ∀ t, IsTop lo r.log t → t < pos lo seq)
    (hnone : ∀ q, ¬Skips lo r.log seq q) :
    Tallies lo maxRetries ⟨s', r.log ++ [.received seq now r.sched.baseDelay]⟩ := by
  obtain ⟨d, hd⟩ := h.surplus
  have hslot : ∀ q, s'.slot q = r.sched.slot q := by
    intro q
    unfold NackScheduler.slot
    rw [hslots]
  have hadvances : Advances lo r s' seq now :=
    ⟨by rw [hslots]; exact h.bits, fun q hq => absurd hq (hnone q), fun q _ => hslot q⟩
  refine h.advance hadvances hspan ?_ ⟨d, ?_⟩ (hmax.trans h.max_eq) hexp ?_ hbeyond
  · unfold NackScheduler.Owned
    rw [hslots]
    exact h.owned
  · unfold NackScheduler.Surplus NackScheduler.activeSlots at hd ⊢
    rw [hslots, hactive]
    exact hd
  · rw [hactive]
    rcases h.frontier with ⟨-, hz, -⟩ | ⟨t, ht, -, hle⟩
    · rw [hz]
      exact Nat.zero_le _
    · exact hle.trans (hbeyond t ht).le

theorem Tallies.received (h : Tallies lo maxRetries r) (hbase : r.sched.baseDelay = inForce r.log)
    {seq : UInt16} (now : Instant) (hspan : pos lo seq < 32768) :
    Tallies lo maxRetries (r.step (.received seq now)) := by
  simp only [NackDiary.step, NackScheduler.step, ← hbase]
  rcases h.frontier with ⟨hnone, -, hno⟩ | ⟨t, ht, hexp, -⟩
  · have htop : ∀ t, ¬IsTop lo r.log t := by
      rintro t ⟨⟨seq', now', delay', hmem, -⟩, -⟩
      exact hno seq' now' delay' hmem
    rcases NackScheduler.onPacketReceived_cases r.sched seq now with ⟨-, ho⟩ | ⟨_, he, -⟩ |
      ⟨_, he, -⟩ | ⟨_, he, -⟩
    · rw [ho]
      refine h.received_next hspan rfl rfl rfl rfl (fun t ht => absurd ht (htop t)) ?_
      rintro q ⟨t, ht, -⟩
      exact htop t ht
    · rw [hnone] at he
      exact absurd he (by simp)
    · rw [hnone] at he
      exact absurd he (by simp)
    · rw [hnone] at he
      exact absurd he (by simp)
  · obtain ⟨htlt, -, -⟩ := h.surplus_lt ht
    have hdiff := asI16_sub_expected hspan htlt
    have hunique : ∀ t', IsTop lo r.log t' → t' = t := fun t' ht' => isTop_unique ht' ht
    rcases NackScheduler.onPacketReceived_cases r.sched seq now with ⟨he, -⟩ |
      ⟨e, he, hpos, hgap, ho⟩ | ⟨e, he, hpos, ho⟩ | ⟨e, he, hneg, ho⟩
    · rw [hexp] at he
      exact absurd he (by simp)
    · rw [hexp] at he
      obtain rfl := Option.some.inj he
      have hnat := toNat_eq_of_asI16_nonneg (le_of_lt hpos)
      have hn : (seq - (lo + UInt16.ofNat (t + 1))).toNat = pos lo seq - (t + 1) := by omega
      have hle : (seq - (lo + UInt16.ofNat (t + 1))).toNat ≤ 1000 := UInt16.le_iff_toNat_le.mp hgap
      rw [ho, hn]
      exact h.received_gap ht hspan (by omega) (by omega)
    · rw [hexp] at he
      obtain rfl := Option.some.inj he
      rw [ho]
      refine h.received_next hspan rfl rfl rfl rfl (fun t' ht' => ?_) ?_
      · have := hunique t' ht'
        omega
      · rintro q ⟨t', ht', h1, h2, h3⟩
        have hsame := hunique t' ht'
        rcases hpos with hzero | ⟨hpos, hlarge⟩
        · omega
        · apply hlarge
          have hnat := toNat_eq_of_asI16_nonneg (le_of_lt hpos)
          rw [UInt16.le_iff_toNat_le]
          show _ ≤ 1000
          omega
    · rw [hexp] at he
      obtain rfl := Option.some.inj he
      rw [ho]
      exact h.received_old ht hspan (by omega)

theorem inForce_concat (log : List NackEvent) (ev : NackEvent) :
    inForce (log ++ [ev]) = match ev with
      | .baseDelay delay => delay
      | _ => inForce log := by
  unfold inForce
  rw [List.foldl_append]
  rfl

/-- The base delay in force is the scheduler's. -/
theorem step_inForce (hbase : r.sched.baseDelay = inForce r.log) (op : NackOp) :
    (r.step op).sched.baseDelay = inForce (r.step op).log := by
  refine (NackScheduler.step_baseDelay r.sched op).trans ?_
  cases op with
  | received seq now => exact hbase.trans (inForce_concat r.log (.received seq now _)).symm
  | recovered seq => exact hbase.trans (inForce_concat r.log (.recovered seq)).symm
  | pending now rtt => exact hbase.trans (inForce_concat r.log (.pending now _ _)).symm
  | baseDelay delay => exact (inForce_concat r.log (.baseDelay delay)).symm

theorem Tallies.step (h : Tallies lo maxRetries r) (hbase : r.sched.baseDelay = inForce r.log)
    (op : NackOp) (hspan : InSpan lo op) : Tallies lo maxRetries (r.step op) := by
  cases op with
  | received seq now => exact h.received hbase now hspan
  | recovered seq =>
      have hnr : ∀ seq' now delay, NackEvent.recovered seq ≠ .received seq' now delay :=
        fun _ _ _ => NackEvent.noConfusion
      exact h.settle (.recovered seq) (fun q => Iff.rfl) (fun _ _ _ => NackEvent.noConfusion)
        (fun t => isTop_concat_of_not_received hnr t)
        (fun q seq' now delay hev => absurd hev (hnr seq' now delay))
        (fun seq' now delay hev => absurd hev (hnr seq' now delay))
  | pending now rtt =>
      obtain ⟨d, hd⟩ := h.surplus
      simp only [NackDiary.step, NackScheduler.step, ← hbase]
      exact h.poll ⟨d, (hd.getPendingNacks now rtt).1⟩
        (NackScheduler.getPendingNacks_spec h.bits h.owned hd now rtt)
  | baseDelay delay =>
      have hset : Tallies lo maxRetries ⟨r.sched.updateBaseDelay delay, r.log⟩ :=
        ⟨h.bits, h.owned, h.surplus, h.max_eq, h.span, h.frontier, h.open_missing, h.missing_open,
          h.returned, h.requests⟩
      exact hset.quiet (fun q => id) (fun _ _ _ => NackEvent.noConfusion)
        fun _ _ _ => NackEvent.noConfusion

/-- **The scheduler requests exactly the packets that are missing**, on every run whose
numbers span fewer than half the circle. -/
theorem run_requests (lo : UInt16) (maxRetries : UInt32) (baseDelay : Duration) (now : Instant)
    (ops : List NackOp) (hspan : ∀ op ∈ ops, InSpan lo op) :
    Requests lo maxRetries (Run.final step (start maxRetries baseDelay now) ops).log := by
  have hall : Run.Along step (fun _ op => InSpan lo op) (start maxRetries baseDelay now) ops := by
    rw [Run.along_iff]
    rintro pre op post rfl
    exact hspan op (by simp)
  have hkept := Run.invariant
    (I := fun r => Tallies lo maxRetries r ∧ r.sched.baseDelay = inForce r.log)
    (fun r op h hop => ⟨h.1.step h.2 op hop, step_inForce h.2 op⟩)
    ⟨start_tallies lo maxRetries baseDelay now, rfl⟩ hall
  exact hkept.1.requests

/-- Packets 65534 and 1 leave 65535 and 0 missing; one of them comes late. -/
theorem run_requests_wrap :
    Requests 65534 2 (Run.final step (start 2 20 0)
      [.received 65534 0, .received 1 5, .pending 25 none, .recovered 0, .pending 45 none]).log :=
  run_requests 65534 2 20 0 _ (by decide)

end NackDiary

end Rist
