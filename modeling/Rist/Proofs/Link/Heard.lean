/-
What the receive task knows of the packets it was handed.

The scheduler and the reorder buffer keep 16-bit numbers.  Told by index, and for packets
that arrive within half of the number circle of the newest one, they say this: the
scheduler expects the packet after the newest, tracks only packets before it that have
not come (`Asks`), and the buffer's window ends at the newest (`Placed`).
-/
import Rist.Proofs.Link.Loop
import Rist.Proofs.Nack.Pacing
import Rist.Proofs.Receiver.Trackers

namespace Rist

open Serial

namespace Heard

variable {received : List Nat} {i : Nat}

theorem newest_append (received : List Nat) (i : Nat) :
    newest (received ++ [i]) = max (newest received) i := by
  unfold newest
  rw [List.foldl_append]
  rfl

theorem le_newest (h : i ∈ received) : i ≤ newest received := by
  induction received using List.reverseRecOn with
  | nil => exact absurd h List.not_mem_nil
  | append_singleton received j ih =>
      rw [newest_append]
      rcases List.mem_append.mp h with h | h
      · exact (ih h).trans (Nat.le_max_left _ _)
      · rw [List.mem_singleton.mp h]
        exact Nat.le_max_right _ _

theorem newest_mem (h : received ≠ []) : newest received ∈ received := by
  induction received using List.reverseRecOn with
  | nil => exact absurd rfl h
  | append_singleton received j ih =>
      rw [newest_append, List.mem_append, List.mem_singleton]
      by_cases hnil : received = []
      · rw [hnil]
        exact Or.inr (Nat.zero_max j)
      · rcases Nat.le_total (newest received) j with hle | hle
        · exact Or.inr (Nat.max_eq_right hle)
        · exact Or.inl ((Nat.max_eq_left hle).symm ▸ ih hnil)

/-- What is before the newest packet was sent before it. -/
theorem lt_of_lt_newest {n : Nat} (h : ∀ j ∈ received, j < n) (hi : i < newest received) : i < n := by
  have hne : received ≠ [] := by
    rintro rfl
    exact absurd hi (Nat.not_lt_zero i)
  exact hi.trans (h _ (newest_mem hne))

end Heard

/-! ### The scheduler -/

namespace NackScheduler

variable {s : NackScheduler} {first q : UInt16} {received : List Nat} {i : Nat}

theorem trackGaps_open (expected : UInt16) (now : Instant) : ∀ {n : Nat},
    (s.trackGaps expected now n).1.Open q → s.Open q ∨ ∃ k < n, q = expected + UInt16.ofNat k := by
  intro n
  induction n with
  | zero => exact Or.inl
  | succ n ih =>
      intro hopen
      have hold : (s.trackGaps expected now n).1.Open q →
          s.Open q ∨ ∃ k < n + 1, q = expected + UInt16.ofNat k := by
        intro h
        exact (ih h).imp_right fun ⟨k, hk, hq⟩ => ⟨k, hk.trans (Nat.lt_succ_self n), hq⟩
      simp only [trackGaps] at hopen
      split at hopen
      · unfold Open slot at hopen
        simp only [SlotRing.get_set] at hopen
        split at hopen
        · exact Or.inr ⟨n, Nat.lt_succ_self n, hopen.2.symm⟩
        · exact hold hopen
      · exact hold hopen

/-- The requests that are tracked are for packets that were skipped and have not come. -/
structure Asks (first : UInt16) (received : List Nat) (s : NackScheduler) : Prop where
  bits : s.slots.bits = ringBits
  owned : s.Owned
  expected : s.expectedSeq = if received = [] then none
    else some (first + UInt16.ofNat (Heard.newest received + 1))
  missing : ∀ q, s.Open q →
    ∃ i, i < Heard.newest received ∧ i ∉ received ∧ q = first + UInt16.ofNat i

theorem Asks.new (first : UInt16) (maxRetries : UInt32) (baseDelay : Duration) (now : Instant) :
    Asks first [] (new maxRetries baseDelay now) := by
  have hoff : ∀ q, ¬(NackScheduler.new maxRetries baseDelay now).Open q := by
    intro q hopen
    have hact := hopen.1
    unfold slot at hact
    rw [new_inactive] at hact
    exact absurd hact (by simp)
  obtain ⟨hb, howned⟩ := owned_run maxRetries baseDelay now []
  exact ⟨hb, howned, rfl, fun q hq => absurd hq (hoff q)⟩

/-- How far a packet is from the one that is expected. -/
theorem asI16_sub_expected (first : UInt16) {n : Nat} (h1 : -32767 ≤ (i : Int) - n) (h2 : (i : Int) - n ≤ 32767) :
    asI16 ((first + UInt16.ofNat i) - (first + UInt16.ofNat (n + 1))) = (i : Int) - n - 1 := by
  rw [← Session.ofInt_first_add, ← Session.ofInt_first_add, asI16_sub_ofInt] <;> push_cast <;> omega

theorem first_add_add (first : UInt16) (n k : Nat) :
    first + UInt16.ofNat n + UInt16.ofNat k = first + UInt16.ofNat (n + k) := by
  rw [UInt16.add_assoc, ← UInt16.ofNat_add]

/-- A packet ahead of the newest one becomes the newest. -/
theorem Asks.ahead (h : Asks first received s) (hlt : received ≠ [] → Heard.newest received < i)
    {s' : NackScheduler} (hbits : s'.slots.bits = ringBits) (howned : s'.Owned)
    (hexp : s'.expectedSeq = some (first + UInt16.ofNat i + 1))
    (hopen : ∀ q, s'.Open q → s.Open q ∨
      ∃ j, Heard.newest received < j ∧ j < i ∧ q = first + UInt16.ofNat j) :
    Asks first (received ++ [i]) s' := by
  have hnewest : Heard.newest (received ++ [i]) = i := by
    rw [Heard.newest_append]
    by_cases hnil : received = []
    · rw [hnil]
      exact Nat.zero_max i
    · exact Nat.max_eq_right (hlt hnil).le
  refine ⟨hbits, howned, ?_, ?_⟩
  · rw [if_neg (by simp), hnewest, hexp, ← first_add_add]
    rfl
  · intro q hq
    rw [hnewest]
    rcases hopen q hq with hq | ⟨j, hj, hji, hq⟩
    · obtain ⟨j, hj, hnot, hq⟩ := h.missing q hq
      have hne : received ≠ [] := by
        rintro rfl
        exact absurd hj (Nat.not_lt_zero j)
      have hji := hj.trans (hlt hne)
      refine ⟨j, hji, ?_, hq⟩
      rw [List.mem_append, List.mem_singleton]
      exact not_or.mpr ⟨hnot, hji.ne⟩
    · refine ⟨j, hji, ?_, hq⟩
      rw [List.mem_append, List.mem_singleton]
      exact not_or.mpr ⟨fun hmem => absurd (Heard.le_newest hmem) (Nat.not_le.mpr hj), hji.ne⟩

theorem Asks.onPacketReceived (h : Asks first received s)
    (hnear : received ≠ [] → -32767 ≤ (i : Int) - Heard.newest received ∧
      (i : Int) - Heard.newest received ≤ 32767) (now : Instant) :
    Asks first (received ++ [i]) (s.onPacketReceived (first + UInt16.ofNat i) now).1 := by
  have hexp := h.expected
  rcases onPacketReceived_cases s (first + UInt16.ofNat i) now with ⟨hnone, ho⟩ |
    ⟨expected, hsome, hpos, -, ho⟩ | ⟨expected, hsome, hnext, ho⟩ | ⟨expected, hsome, hneg, ho⟩
  · have hnil : received = [] := by
      by_contra hne
      rw [hnone, if_neg hne] at hexp
      exact absurd hexp (by simp)
    rw [ho]
    exact h.ahead (fun hne => absurd hnil hne) h.bits h.owned rfl fun _ hq => Or.inl hq
  all_goals
    have hne : received ≠ [] := by
      rintro rfl
      rw [hsome, if_pos rfl] at hexp
      exact absurd hexp (by simp)
    rw [hsome, if_neg hne, Option.some.injEq] at hexp
    obtain ⟨hlo, hhi⟩ := hnear hne
    have hdiff := asI16_sub_expected first hlo hhi
    subst hexp
  · -- a gap: what it skips lies between the newest packet and this one
    rw [ho]
    have hgap : ((first + UInt16.ofNat i - (first + UInt16.ofNat (Heard.newest received + 1))).toNat
        : Int) = (i : Int) - Heard.newest received - 1 := by
      have hval : ∀ x : UInt16, 0 < asI16 x → (x.toNat : Int) = asI16 x := by
        intro x hx
        obtain ⟨-, hlt⟩ := asI16_pos_iff.mp hx
        unfold asI16
        rw [if_pos hlt]
      rw [hval _ hpos, hdiff]
    refine h.ahead (fun _ => by omega) ((trackGaps_bits s _ now _).trans h.bits)
      (h.owned.trackGaps h.bits _ now _) rfl ?_
    intro q hq
    refine (trackGaps_open _ now hq).imp_right ?_
    rintro ⟨k, hk, rfl⟩
    refine ⟨Heard.newest received + 1 + k, by omega, by omega, ?_⟩
    rw [first_add_add]
  · rw [ho]
    exact h.ahead (fun _ => by omega) h.bits h.owned rfl fun _ hq => Or.inl hq
  · -- not ahead: the request for it is closed
    rw [ho]
    have hle : i ≤ Heard.newest received := by omega
    have hnewest : Heard.newest (received ++ [i]) = Heard.newest received := by
      rw [Heard.newest_append]
      exact Nat.max_eq_left hle
    refine ⟨(deactivate_bits s _).trans h.bits, h.owned.deactivate h.bits _, ?_, ?_⟩
    · rw [(deactivate_fields s _).1, hsome, if_neg (by simp), hnewest]
    · intro q hq
      obtain ⟨hq, hqi⟩ := (deactivate_open_iff h.bits _ q).mp hq
      obtain ⟨j, hj, hnot, rfl⟩ := h.missing q hq
      refine ⟨j, hnewest.symm ▸ hj, ?_, rfl⟩
      rw [List.mem_append, List.mem_singleton]
      refine not_or.mpr ⟨hnot, ?_⟩
      rintro rfl
      exact hqi rfl

theorem Asks.getPendingNacks (h : Asks first received s) (now : Instant) (rtt : Option Duration) :
    Asks first received (s.getPendingNacks now rtt).1 := by
  rcases getPendingNacks_cases h.bits h.owned now rtt with hnone | hpoll
  · rw [hnone]
    exact h
  · refine ⟨hpoll.bits.trans h.bits, hpoll.owned h.bits h.owned,
      hpoll.expectedSeq.trans h.expected, ?_⟩
    rintro q ⟨hact, hseq⟩
    rw [hpoll.slots] at hact hseq
    rw [scanned_seq] at hseq
    exact h.missing q ⟨scanned_active hact, hseq⟩

/-- What is asked for was tracked. -/
theorem Asks.pending (h : Asks first received s) {now : Instant} {rtt : Option Duration}
    (hq : q ∈ (s.getPendingNacks now rtt).2) :
    ∃ i, i < Heard.newest received ∧ i ∉ received ∧ q = first + UInt16.ofNat i := by
  rcases getPendingNacks_cases h.bits h.owned now rtt with hnone | hpoll
  · rw [hnone] at hq
    exact absurd hq List.not_mem_nil
  · exact h.missing q ((hpoll.returned_iff q).mp hq).1

end NackScheduler

/-! ### The window -/

namespace Window

variable {cap : Int} {w : Window}

/-- What is held stays until the base passes it. -/
theorem insert_keeps (h : WF cap w) {x : Int} {d : Bytes} {a : Instant}
    (hx : w.cell x = .filled d a) (p : Int) (data : Bytes) (now : Instant) :
    x < (w.insert cap p data now).1.base ∨ (w.insert cap p data now).1.cell x = .filled d a := by
  have hfilled : (w.cell x).isFilled = true := Cell.isFilled_iff.mpr ⟨d, a, hx⟩
  obtain ⟨hlo, hhi⟩ := h.mem_of_filled hfilled
  have hlt := h.high_lt
  rcases insert_cases h p data now with ⟨-, ho⟩ | ⟨-, -, -, ho⟩ | ⟨-, -, hempty, r, ho⟩ |
    ⟨-, hp, -, ho⟩ | ⟨-, hp, -, ho⟩ | ⟨hp, -, ho⟩ | ⟨⟨hd, -⟩, -⟩
  · rw [ho]
    exact Or.inr hx
  · rw [ho]
    exact Or.inr hx
  · rw [ho]
    have hne : x ≠ p := by
      rintro rfl
      rw [hempty] at hfilled
      exact absurd hfilled (by simp)
    simp only [fill, Function.update_of_ne hne]
    exact Or.inr hx
  · rw [ho]
    simp only [reach]
    rw [if_neg (by omega), if_neg (by omega)]
    exact Or.inr hx
  · rw [ho]
    simp only [anchor]
    exact Or.inl (by omega)
  · rw [ho]
    by_cases hslid : x < p - (cap - 1)
    · exact Or.inl hslid
    · refine Or.inr ?_
      simp only [reach, slide]
      split_ifs with h1 h2
      · omega
      · omega
      · exact hx
  · omega

/-- A packet that is not past the end is held, unless the base has passed it. -/
theorem insert_holds (h : WF cap w) {p : Int} (hp : p ≤ w.high) (data : Bytes) (now : Instant) :
    p < w.base ∨ ∃ d a, (w.insert cap p data now).1.cell p = .filled d a := by
  have hlt := h.high_lt
  rcases insert_cases h p data now with ⟨hstale, -⟩ | ⟨-, -, hfilled, ho⟩ | ⟨-, -, -, r, ho⟩ |
    ⟨-, hc, -⟩ | ⟨-, hc, -⟩ | ⟨hc, -⟩ | ⟨⟨hd, hc, -⟩, -⟩
  · exact Or.inl hstale
  · rw [ho]
    exact Or.inr (Cell.isFilled_iff.mp hfilled)
  · rw [ho]
    exact Or.inr ⟨data, now, by simp [fill]⟩
  all_goals omega

end Window

namespace ReorderBuffer

variable {b : ReorderBuffer} {w w' : Window}

/-- A packet held in the window is in its slot. -/
theorem Refines.slot_of_filled (h : Refines b w) {x : Int} {d : Bytes} {a : Instant}
    (hx : w.cell x = .filled d a) :
    b.slot (UInt16.ofInt x) = ⟨UInt16.ofInt x, .filled d a⟩ := by
  obtain ⟨hlo, hhi⟩ := h.wf.mem_of_filled (Cell.isFilled_iff.mpr ⟨d, a, hx⟩)
  have hshows := h.cells x hlo (hhi.trans_lt h.wf.high_lt)
  rwa [hx] at hshows

/-- With its base fixed, a buffer stands for one window. -/
theorem Refines.agree (h : Refines b w) (h' : Refines b w') (hbase : w.base = w'.base) :
    w.high = w'.high ∧ ∀ x d a, w.cell x = .filled d a → w'.cell x = .filled d a := by
  have hcap := capacity_le h.bits
  have hlo := h.wf.base_le
  have hhi := h.wf.high_lt
  have hlo' := h'.wf.base_le
  have hhi' := h'.wf.high_lt
  refine ⟨?_, ?_⟩
  · have hsame := h.high.symm.trans h'.high
    rw [Option.some.injEq, ofInt_eq_iff] at hsame
    omega
  · intro x d a hx
    obtain ⟨h1, h2⟩ := h.wf.mem_of_filled (Cell.isFilled_iff.mpr ⟨d, a, hx⟩)
    have hshows := h'.cells x (hbase ▸ h1) (by omega)
    rw [h.slot_of_filled hx] at hshows
    cases hcell : w'.cell x with
    | filled d' a' =>
        rw [hcell] at hshows
        simp only [Cell.Shows, Slot.mk.injEq, SlotState.filled.injEq, true_and] at hshows
        rw [hshows.1, hshows.2]
    | empty | gap _ | hole =>
        rw [hcell] at hshows
        simp [Cell.Shows] at hshows

end ReorderBuffer

/-! ### Packets handed over -/

/-- Of the windows of one buffer and base any will do. -/
theorem Session.Stands.congr {first : UInt16} {s : Session} {w w' : Window}
    (h : Session.Stands first s w) (href : ReorderBuffer.Refines s.buffer w')
    (hbase : w'.base = w.base) : Session.Stands first s w' := by
  refine ⟨href, hbase.trans h.base, ?_, h.inOrder⟩
  intro x d a hx
  exact h.carries x d a ((href.agree h.refines hbase).2 x d a hx)

namespace Heard

open Session

variable {ssrc : UInt32} {first : UInt16} {h : Heard} {now : Instant} {d : Nat × UInt64} {f : Flight}

/-- Nothing received, or a window that ends at the newest packet. -/
def Placed (first : UInt16) (h : Heard) : Prop :=
  (Waits h.session ∧ h.received = []) ∨
    ∃ w, Stands first h.session w ∧ h.received ≠ [] ∧ w.high = (first.toNat : Int) + newest h.received

theorem hear_received (now : Instant) (hf : h.session.network[d.1]? = some f) :
    (hear now h d).received = h.received ++ [f.index] := by
  unfold hear
  rw [hf]
  rfl

theorem hear_of_none (now : Instant) (hf : h.session.network[d.1]? = none) : hear now h d = h := by
  unfold hear
  simp only [Session.step, hf]
  simp

theorem Placed.receives (hp : Placed first h) : Receives first h.session := by
  rcases hp with ⟨hw, -⟩ | ⟨w, hw, -, -⟩
  · exact Or.inl hw
  · exact Or.inr ⟨w, hw⟩

/-- An arrival is nothing to the sender and the network. -/
theorem hear_fields (now : Instant) (h : Heard) (d : Nat × UInt64) :
    (hear now h d).session = { h.session with buffer := (hear now h d).session.buffer
                                              baseIndex := (hear now h d).session.baseIndex } := by
  simp only [hear, Session.step]
  split
  · rfl
  · split <;> rfl

theorem hear_payloads (now : Instant) (h : Heard) (d : Nat × UInt64) :
    (hear now h d).session.payloads = h.session.payloads := by
  rw [hear_fields]

/-- The first packet: a window of one position. -/
theorem hear_waits (hw : Waits h.session) (hs : Sends ssrc first h.session)
    (hf : h.session.network[d.1]? = some f) (now : Instant) :
    ∃ payload, Stands first (hear now h d).session
      (Window.anchor ((first.toNat : Int) + f.index) payload now) := by
  obtain ⟨p, payload, hparse, hpay, hseq, hdata⟩ :=
    (hs.network f (List.mem_of_getElem? hf)).parse d.2
  obtain ⟨w, hw'⟩ := hw.deliver hpay hseq hdata now
  have hstep : (hear now h d).session
      = { h.session with buffer := (h.session.buffer.insert p.seq p.payload now).1
                         baseIndex := f.index } := by
    simp only [hear, Session.step, hf, hparse, hw.baseSeq]
  have href := ReorderBuffer.anchor_refines hw.bits (fun q => hw.empty _)
    ((first.toNat : Int) + f.index) p.payload now
  have hins : (h.session.buffer.insert p.seq p.payload now).1
      = h.session.buffer.anchor p.seq p.payload now := by
    rw [ReorderBuffer.insert_of_none (Or.inl hw.baseSeq)]
  rw [ofInt_first_add, ← hseq, ← hins] at href
  rw [hstep]
  exact ⟨p.payload, hw'.congr href hw'.base.symm⟩

/-- The position of a packet, seen from the base. -/
theorem near_position {w : Window} (hw : Stands first h.session w)
    (hf : h.session.network[d.1]? = some f) (hnear : Near now h d) {seq : UInt16}
    (hseq : seq = first + UInt16.ofNat f.index) :
    near w.base seq = (first.toNat : Int) + f.index := by
  have hbase := hw.base
  have hclose := hnear.1 f hf (by rw [hw.refines.base]; simp)
  rw [hseq, ← ofInt_first_add]
  exact near_ofInt (by omega) (by omega)

/-- **A later packet is inserted at its own position.** -/
theorem hear_stands {w : Window} (hw : Stands first h.session w) (hs : Sends ssrc first h.session)
    (hf : h.session.network[d.1]? = some f) (hnear : Near now h d) :
    ∃ payload, h.session.payloads[f.index]? = some payload ∧
      Stands first (hear now h d).session
        (w.insert h.session.buffer.capacity ((first.toNat : Int) + f.index) payload now).1 := by
  obtain ⟨p, payload, hparse, hpay, hseq, hdata⟩ :=
    (hs.network f (List.mem_of_getElem? hf)).parse d.2
  have hb := hw.refines.base
  have hclose := hnear.1 f hf (by rw [hb]; simp)
  obtain ⟨w', hw'⟩ := hw.deliver hclose hpay hseq hdata now
  have hstep : (hear now h d).session
      = { h.session with
            buffer := (h.session.buffer.insert p.seq p.payload now).1
            baseIndex := h.session.baseIndex + Recording.advance h.session.buffer.baseSeq
              (h.session.buffer.insert p.seq p.payload now).1.baseSeq } := by
    simp only [hear, Session.step, hf, hparse, hb]
  have href := (ReorderBuffer.insert_refines hw.refines p.seq p.payload now).1
  rw [near_position hw hf hnear hseq] at href
  obtain ⟨hmono, hle⟩ := Window.insert_base hw.refines.wf ((first.toNat : Int) + f.index) p.payload
    now
  have hindex := hw.base
  have hadvance := hw'.base
  simp only [hb, href.base] at hadvance
  rw [Recording.advance_of_le hmono (by omega)] at hadvance
  rw [hstep]
  exact ⟨payload, hpay, hdata ▸ hw'.congr href (by omega)⟩

theorem Placed.hear (hp : Placed first h) (hs : Sends ssrc first h.session)
    (hf : h.session.network[d.1]? = some f) (hnear : Near now h d) :
    Placed first (hear now h d) := by
  have hreceived := hear_received now hf
  have hne : (Heard.hear now h d).received ≠ [] := by
    rw [hreceived]
    simp
  refine Or.inr ?_
  rcases hp with ⟨hw, hnil⟩ | ⟨w, hw, -, hhigh⟩
  · obtain ⟨payload, hw'⟩ := hear_waits hw hs hf now
    refine ⟨_, hw', hne, ?_⟩
    rw [hreceived, hnil, newest_append]
    exact congrArg (fun n : Nat => (first.toNat : Int) + n) (Nat.zero_max f.index).symm
  · obtain ⟨payload, -, hw'⟩ := hear_stands hw hs hf hnear
    refine ⟨_, hw', hne, ?_⟩
    rw [(Window.insert_high hw.refines.wf _ _ _).1, hhigh, hreceived, newest_append]
    omega

/-- What the sender does is nothing to the window. -/
theorem stands_append {s s' : Session} {w : Window} (hw : Stands first s w)
    (hbuf : s'.buffer = s.buffer) (hindex : s'.baseIndex = s.baseIndex)
    (hdel : s'.delivered = s.delivered) {more : List Bytes}
    (hpay : s'.payloads = s.payloads ++ more) : Stands first s' w := by
  refine ⟨hbuf ▸ hw.refines, hindex ▸ hw.base, ?_, ?_⟩
  · rw [hpay]
    exact hw.carries.append more
  · rw [hpay, hdel, hindex]
    exact hw.inOrder.append more

theorem Placed.append {h' : Heard} (hp : Placed first h)
    (hbuf : h'.session.buffer = h.session.buffer)
    (hindex : h'.session.baseIndex = h.session.baseIndex)
    (hdel : h'.session.delivered = h.session.delivered) (hrec : h'.received = h.received)
    {more : List Bytes} (hpay : h'.session.payloads = h.session.payloads ++ more) :
    Placed first h' := by
  rcases hp with ⟨hw, hnil⟩ | ⟨w, hw, hne, hhigh⟩
  · exact Or.inl ⟨⟨hbuf ▸ hw.bits, hbuf ▸ hw.baseSeq, hbuf ▸ hw.empty, hdel ▸ hw.delivered⟩,
      hrec ▸ hnil⟩
  · exact Or.inr ⟨w, stands_append hw hbuf hindex hdel hpay, hrec ▸ hne, hrec ▸ hhigh⟩

/-- **A drain is a drain of the window.** -/
theorem drain_stands {s : Session} {w : Window} (hw : Stands first s w) (now : Instant) :
    Stands first (s.step (.drain now))
      (w.drainLoop s.buffer.bufferTime now s.buffer.drainFuel).1 := by
  obtain ⟨href, -⟩ := ReorderBuffer.drainReady_refines hw.refines now
  obtain ⟨hlo, hend, hwf⟩ := Window.drainLoop_base s.buffer.bufferTime now
    hw.refines.wf s.buffer.drainFuel
  have hcap := ReorderBuffer.capacity_le hw.refines.bits
  have hlt := hw.refines.wf.high_lt
  have hle := hwf.base_le
  have hstart := hw.base
  rcases Receives.drain (Or.inr ⟨w, hw⟩) now with hwait | ⟨w', hw'⟩
  · exact absurd (href.base.symm.trans hwait.baseSeq) (by simp)
  · have hadvance := hw'.base
    simp only [Session.step, hw.refines.base, href.base] at hadvance
    rw [Recording.advance_of_le (by omega) (by omega)] at hadvance
    exact hw'.congr href (by omega)

theorem drain_waits {s : Session} (hw : Waits s) (now : Instant) :
    Waits (s.step (.drain now)) := by
  have hnone : s.buffer.drainStep now = none := by
    unfold ReorderBuffer.drainStep
    rw [hw.baseSeq]
  simp only [Session.step, ReorderBuffer.drainReady_of_none hnone]
  exact ⟨hw.bits, hw.baseSeq, hw.empty, by simp [hw.delivered]⟩

/-- Draining moves the base and not the end. -/
theorem Placed.drain (hp : Placed first h) (now : Instant) :
    Placed first ⟨h.session.step (.drain now), h.received⟩ := by
  rcases hp with ⟨hw, hnil⟩ | ⟨w, hw, hne, hhigh⟩
  · exact Or.inl ⟨drain_waits hw now, hnil⟩
  · refine Or.inr ⟨_, drain_stands hw now, hne, ?_⟩
    rw [(Window.drainLoop_base _ now hw.refines.wf _).2.1]
    exact hhigh

/-! ### Packets that are held -/

/-- The packet is in its place, or the base has passed it. -/
def Held (first : UInt16) (s : Session) (i : Nat) : Prop :=
  ∃ w, Stands first s w ∧ ((i : Int) < s.baseIndex ∨
    ∃ payload a, s.payloads[i]? = some payload ∧ w.cell ((first.toNat : Int) + i) = .filled payload a)

/-- What was held stays until the base passes it. -/
theorem Held.hear {i : Nat} (hi : Held first h.session i) (hs : Sends ssrc first h.session)
    (hf : h.session.network[d.1]? = some f) (hnear : Near now h d) :
    Held first (hear now h d).session i := by
  obtain ⟨w, hw, hcases⟩ := hi
  obtain ⟨payload', -, hw'⟩ := hear_stands hw hs hf hnear
  have hindex := hw.base
  have hindex' := hw'.base
  have hmono := (Window.insert_base hw.refines.wf ((first.toNat : Int) + f.index) payload' now).1
  refine ⟨_, hw', ?_⟩
  rcases hcases with hpast | ⟨payload, a, hpay, hcell⟩
  · exact Or.inl (by omega)
  · rcases Window.insert_keeps hw.refines.wf hcell ((first.toNat : Int) + f.index) payload' now with
      hpast | hcell
    · exact Or.inl (by omega)
    · exact Or.inr ⟨payload, a, hear_payloads now h d ▸ hpay, hcell⟩

/-- **A packet that is not ahead of the newest is held once it is handed over**, unless
the base has passed it. -/
theorem Placed.held (hp : Placed first h) (hs : Sends ssrc first h.session)
    (hf : h.session.network[d.1]? = some f) (hnear : Near now h d)
    (hold : f.index < newest h.received) : Held first (Heard.hear now h d).session f.index := by
  rcases hp with ⟨-, hnil⟩ | ⟨w, hw, -, hhigh⟩
  · rw [hnil] at hold
    exact absurd hold (Nat.not_lt_zero _)
  · obtain ⟨payload, -, hw'⟩ := hear_stands hw hs hf hnear
    have hindex := hw.base
    have hindex' := hw'.base
    have hmono := (Window.insert_base hw.refines.wf ((first.toNat : Int) + f.index) payload now).1
    refine ⟨_, hw', ?_⟩
    rcases Window.insert_holds hw.refines.wf (show (first.toNat : Int) + f.index ≤ w.high by omega)
      payload now with hpast | ⟨data, a, hcell⟩
    · exact Or.inl (by omega)
    · obtain ⟨i, hi, hpay⟩ := hw'.carries _ _ _ hcell
      obtain rfl : i = f.index := by omega
      exact Or.inr ⟨data, a, hpay, hcell⟩

end Heard

end Rist
