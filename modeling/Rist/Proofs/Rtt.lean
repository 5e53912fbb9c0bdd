/-
Which request a round-trip sample is measured against, and what the averages make of it.

`on_response` measures against the time of the last request, whatever timestamp comes
back.  That is the right request as long as a response answers the last one.  A response
that is late by a request is measured against the wrong one, and one whose timestamp was
never sent is measured all the same.

The two averages stay with the samples, however long they run: `srtt` falls at most
14 ns under the least of them, and `rttvar` is bounded by their spread.
-/
import Rist.Lib.Average
import Rist.Lib.Run
import Rist.Protocol.Rtt

namespace Rist

/-- A call on the estimator.  A response carries the two words of a timestamp. -/
inductive RttOp where
  | request (now : Instant)
  | response (now : Instant) (requestMsw requestLsw processingDelayUs : UInt32)

/-- The two words are those of the timestamp. -/
def Echoes (requestMsw requestLsw : UInt32) (ts : UInt64) : Prop :=
  requestMsw = (ts >>> 32).toUInt32 ∧ requestLsw = ts.toUInt32

instance (requestMsw requestLsw : UInt32) (ts : UInt64) : Decidable (Echoes requestMsw requestLsw ts) :=
  inferInstanceAs (Decidable (_ ∧ _))

/-- An estimator and the requests it has sent, with their times and timestamps. -/
structure RttLog where
  est : RttEstimator
  sent : List (Instant × UInt64)

namespace RttLog

variable {t : RttLog}

def start (requestInterval : Duration) : RttLog := ⟨RttEstimator.new requestInterval, []⟩

def step (t : RttLog) : RttOp → RttLog
  | .request now =>
    ⟨(t.est.generateRequest now).1, t.sent ++ [(now, (t.est.generateRequest now).2)]⟩
  | .response now requestMsw requestLsw processingDelayUs =>
    { t with est := t.est.onResponse now requestMsw requestLsw processingDelayUs }

/-- A response that echoes a request sent at `r.1` is measured against it, and one that
echoes none changes neither average. -/
def Measured (t : RttLog) : RttOp → Prop
  | .request _ => True
  | .response now requestMsw requestLsw delay =>
    (∀ r ∈ t.sent, Echoes requestMsw requestLsw r.2 →
      t.est.onResponse now requestMsw requestLsw delay
        = t.est.updateRtt ((now - r.1) - Duration.fromMicros delay.toNat)) ∧
    ((∀ r ∈ t.sent, ¬Echoes requestMsw requestLsw r.2) →
      (t.est.onResponse now requestMsw requestLsw delay).srtt = t.est.srtt ∧
        (t.est.onResponse now requestMsw requestLsw delay).rttvar = t.est.rttvar)

/-- A response that comes after a request echoes the last one, and no request sent at
another time carries the same timestamp. -/
def Timely (t : RttLog) : RttOp → Prop
  | .request _ => True
  | .response _ requestMsw requestLsw _ =>
    ∀ last ∈ t.sent.getLast?, Echoes requestMsw requestLsw last.2 ∧
      ∀ r ∈ t.sent, Echoes requestMsw requestLsw r.2 → r.1 = last.1

/-- The estimator remembers the time of the last request. -/
def Remembers (t : RttLog) : Prop := t.est.lastRequestTime = t.sent.getLast?.map Prod.fst

theorem updateRtt_lastRequestTime (e : RttEstimator) (sample : Duration) :
    (e.updateRtt sample).lastRequestTime = e.lastRequestTime := by
  unfold RttEstimator.updateRtt
  split <;> rfl

theorem onResponse_lastRequestTime (e : RttEstimator) (now : Instant) (msw lsw delay : UInt32) :
    (e.onResponse now msw lsw delay).lastRequestTime = e.lastRequestTime := by
  unfold RttEstimator.onResponse
  split
  · rfl
  · exact updateRtt_lastRequestTime e _

theorem Remembers.step (h : Remembers t) (op : RttOp) : Remembers (t.step op) := by
  cases op with
  | request now =>
      show some now = (t.sent ++ [(now, _)]).getLast?.map Prod.fst
      rw [List.getLast?_concat]
      rfl
  | response now msw lsw delay =>
      exact (onResponse_lastRequestTime t.est now msw lsw delay).trans h

/-- **What a response does**: nothing before the first request, and after it an update
with the sample of the last one, whatever timestamp it carries. -/
theorem Remembers.onResponse (h : Remembers t) (now : Instant) (msw lsw delay : UInt32) :
    t.est.onResponse now msw lsw delay
      = match t.sent.getLast? with
        | none => t.est
        | some last => t.est.updateRtt ((now - last.1) - Duration.fromMicros delay.toNat) := by
  unfold Remembers at h
  unfold RttEstimator.onResponse
  rw [h]
  cases t.sent.getLast? with
  | none => rfl
  | some last => rfl

theorem Remembers.measured (h : Remembers t) {op : RttOp} (htimely : t.Timely op) :
    t.Measured op := by
  cases op with
  | request now => trivial
  | response now msw lsw delay =>
      simp only [Measured, h.onResponse]
      cases hlast : t.sent.getLast? with
      | none =>
          have hnil : t.sent = [] := List.getLast?_eq_none_iff.mp hlast
          rw [hnil]
          exact ⟨fun r hr => absurd hr List.not_mem_nil, fun _ => ⟨rfl, rfl⟩⟩
      | some last =>
          obtain ⟨hecho, hsame⟩ := htimely last hlast
          refine ⟨fun r hr he => ?_, fun hnone => ?_⟩
          · rw [hsame r hr he]
          · exact absurd hecho (hnone last (List.mem_of_getLast? hlast))

/-- **Samples are measured against the request they answer**, in every run in which each
response answers the last request. -/
theorem measured_run (requestInterval : Duration) (ops : List RttOp)
    (htimely : Run.Along step Timely (start requestInterval) ops) :
    Run.Along step Measured (start requestInterval) ops :=
  Run.along_of_invariant (fun _ op h _ => h.step op) (fun _ _ h ht => h.measured ht)
    (show Remembers (start requestInterval) from rfl) htimely

/-- Two requests a second apart, each answered after 50 ms. -/
theorem measured_run_two_requests :
    Run.Along step Measured (start 1000000000)
      [.request 0, .response 50000000 0 0 0, .request 1000000000,
        .response 1050000000 0 1000000 0] :=
  measured_run 1000000000 _ (by
    refine ⟨trivial, ?_, trivial, ?_, trivial⟩ <;> intro last hlast <;> cases hlast <;> decide)

/-- The answer to the first request comes after 1.2 seconds, when a second request has
been sent.  The estimator takes 200 ms from it. -/
theorem late_response_measured_short :
    ¬Run.Along step Measured (start 1000000000)
      [.request 0, .request 1000000000, .response 1200000000 0 0 0] := by
  intro h
  have hfed := h.2.2.1.1 (0, 0) List.mem_cons_self ⟨rfl, rfl⟩
  have hsrtt : some 200000000 = some 1200000000 := congrArg RttEstimator.srtt hfed
  exact absurd hsrtt (by decide)

end RttLog

/-! ### The averages -/

namespace RttEstimator

variable {e : RttEstimator} {m M : Nat}

/-- Both averages are there, and within what samples between `m` and `M` account for. -/
structure Bounded (m M : Nat) (e : RttEstimator) : Prop where
  srtt : ∃ s : Nat, e.srtt = some s ∧ m - 14 ≤ s ∧ s ≤ M
  rttvar : ∃ v : Nat, e.rttvar = some v ∧ v ≤ max (M / 2) (M - m + 14)

/-- The first sample sets both averages. -/
theorem bounded_first (hnone : e.srtt = none) {sample : Nat} (hlo : m ≤ sample)
    (hhi : sample ≤ M) : Bounded m M (e.updateRtt sample) := by
  unfold updateRtt
  rw [hnone]
  refine ⟨⟨sample, rfl, by omega, hhi⟩, sample / 2, rfl, ?_⟩
  exact le_max_of_le_left (Nat.div_le_div_right hhi)

/-- The distance of a sample from `srtt` is at most the spread and what `srtt` has lost. -/
theorem absDiff_le {sample s : Nat} (hlo : m ≤ sample) (hhi : sample ≤ M)
    (hslo : m - 14 ≤ s) (hshi : s ≤ M) : absDiff sample s ≤ M - m + 14 := by
  show sample - s + (s - sample) ≤ M - m + 14
  omega

/-- A further sample keeps both averages within bounds.  They are the running averages
of one part in eight and one part in four. -/
theorem Bounded.step (h : Bounded m M e) {sample : Nat} (hlo : m ≤ sample)
    (hhi : sample ≤ M) : Bounded m M (e.updateRtt sample) := by
  obtain ⟨⟨s, hs, hslo, hshi⟩, v, hv, hvhi⟩ := h
  have hlow := Average.le_update (k := 7) (s := s) (by omega) hlo
  have hdist := absDiff_le hlo hhi hslo hshi
  unfold updateRtt
  rw [hs, hv]
  refine ⟨⟨Average.update 7 s sample, rfl, by omega, Average.update_le hshi hhi⟩,
    Average.update 3 v (absDiff sample s), rfl, ?_⟩
  exact Average.update_le hvhi (le_max_of_le_right hdist)

/-- A sample keeps the averages within bounds, or sets them. -/
theorem updateRtt_bounded (h : e.srtt = none ∨ Bounded m M e) {sample : Nat}
    (hlo : m ≤ sample) (hhi : sample ≤ M) : Bounded m M (e.updateRtt sample) := by
  rcases h with hnone | hbounded
  · exact bounded_first hnone hlo hhi
  · exact hbounded.step hlo hhi

/-- **The averages neither drift nor overshoot**: after every update `srtt` and `rttvar`
are within the bounds the samples set, however many there are. -/
theorem averages_bounded (requestInterval : Duration) (m M : Nat) (samples : List Nat)
    (hin : ∀ x ∈ samples, m ≤ x ∧ x ≤ M) :
    Run.Along updateRtt (fun e x => Bounded m M (e.updateRtt x)) (new requestInterval)
      samples := by
  have hrange : Run.Along updateRtt (fun _ x => m ≤ x ∧ x ≤ M) (new requestInterval) samples := by
    rw [Run.along_iff]
    intro pre x post heq
    exact hin x (by rw [heq]; simp)
  refine Run.along_of_invariant (I := fun e => e.srtt = none ∨ Bounded m M e)
    (fun e x h hx => ?_) (fun e x h hx => ?_) (Or.inl rfl) hrange
  · exact Or.inr (updateRtt_bounded h hx.1 hx.2)
  · exact updateRtt_bounded h hx.1 hx.2

/-- Samples of 100 and 60 ms. -/
theorem averages_bounded_two_samples :
    Run.Along updateRtt (fun e x => Bounded 60000000 100000000 (e.updateRtt x)) (new 1000000000)
      [100000000, 60000000] :=
  averages_bounded 1000000000 60000000 100000000 _ (by decide)

end RttEstimator

end Rist
