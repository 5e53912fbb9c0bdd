/-
What is asked for is missing.

A number that goes out in a request stands for a packet that was sent, that the receiver
has skipped, and that it has not been handed (`Asks`, told by index).  The request reaches
the sender cut short or not at all, late or twice, and still names only packets that were
sent by then: the sender never looks up a number it has not used.
-/
import Rist.Proofs.Link.Closed

namespace Rist

namespace SenderState

/-- Every number that is looked up was asked for. -/
theorem lookups_wanted (s : SenderState) (src : SocketAddr) (recvAt : Instant)
    (clock : Nat → Instant) :
    ∀ (pkts : List RtcpPacket) (k : Nat) (budget : NackWorkBudget) (rtt : RttEstimator),
      ∀ q ∈ (s.handlePackets src recvAt clock k budget rtt pkts).2.lookups,
        ∃ pkt ∈ pkts, ∃ seqs, wanted s.ssrc pkt = some seqs ∧ q ∈ seqs := by
  have hserved : ∀ (seqs : List UInt16) (budget : NackWorkBudget),
      ∀ q ∈ (serveNackEntries s.retransmitBuf s.remoteRtpAddr budget seqs).requested, q ∈ seqs := by
    intro seqs
    induction seqs with
    | nil => exact fun budget q hq => hq
    | cons lostSeq seqs ih =>
        intro budget q hq
        rw [serveNackEntries] at hq
        split at hq
        · exact absurd hq List.not_mem_nil
        · split at hq
          · rcases List.mem_cons.mp hq with rfl | hq
            · exact List.mem_cons_self
            · exact List.mem_cons_of_mem _ (ih _ q hq)
          · split at hq
            · rw [List.mem_singleton.mp hq]
              exact List.mem_cons_self
            · rcases List.mem_cons.mp hq with rfl | hq
              · exact List.mem_cons_self
              · exact List.mem_cons_of_mem _ (ih _ q hq)
  intro pkts
  induction pkts with
  | nil =>
      intro k budget rtt q hq
      exact absurd hq List.not_mem_nil
  | cons pkt pkts ih =>
      intro k budget rtt q hq
      have hrest : ∀ k budget rtt, q ∈ (s.handlePackets src recvAt clock k budget rtt pkts).2.lookups →
          ∃ pkt' ∈ pkt :: pkts, ∃ seqs, wanted s.ssrc pkt' = some seqs ∧ q ∈ seqs := by
        intro k budget rtt hq
        obtain ⟨pkt', hmem, hwanted⟩ := ih k budget rtt q hq
        exact ⟨pkt', List.mem_cons_of_mem _ hmem, hwanted⟩
      rw [handlePackets.eq_def] at hq
      simp only at hq
      split at hq
      · rename_i seqs hw
        split at hq
        · exact ⟨pkt, List.mem_cons_self, seqs, hw, hserved seqs budget q hq⟩
        · rcases List.mem_append.mp hq with hq | hq
          · exact ⟨pkt, List.mem_cons_self, seqs, hw, hserved seqs budget q hq⟩
          · exact hrest _ _ _ hq
      · split at hq
        · exact hrest _ _ _ hq
        · exact hrest _ _ _ hq
        · exact hrest _ _ _ hq

theorem rtcpArm_lookups (s : SenderState) (src : SocketAddr) (bytes : Bytes) (recvAt : Instant)
    (clock : Nat → Instant) {q : UInt16}
    (hq : q ∈ (s.rtcpArm src bytes recvAt clock).2.lookups) :
    ∃ pkt ∈ s.admitted src bytes recvAt, ∃ seqs, wanted s.ssrc pkt = some seqs ∧ q ∈ seqs := by
  unfold rtcpArm at hq
  simp only at hq
  split at hq
  · exact absurd hq List.not_mem_nil
  · exact lookups_wanted { s with remoteRtcpAddr := src, rtcpPeerLive := some recvAt } src recvAt
      clock _ 0 _ _ q hq

end SenderState

/-- A request of the receiver wants packets that were sent. -/
theorem Requests.wanted {ssrc : UInt32} {first : UInt16} {n : Nat} {pkt : RtcpPacket}
    (h : Requests ssrc first n pkt) {seqs : List UInt16}
    (hw : SenderState.wanted ssrc pkt = some seqs) {q : UInt16} (hq : q ∈ seqs) :
    ∃ i < n, q = first + UInt16.ofNat i := by
  unfold SenderState.wanted at hw
  split at hw
  · split at hw
    · rw [← Option.some.inj hw] at hq
      exact h.2 q hq
    · exact absurd hw (by simp)
  · exact h.elim
  · exact absurd hw (by simp)

namespace Link

/-- The packet was sent and skipped, and has not been handed over. -/
structure IsMissing (l : Link) (i : Nat) : Prop where
  sent : i < l.payloads.length
  skipped : ∃ j ∈ l.received, i < j
  absent : i ∉ l.received

/-- Requests go out for missing packets only, and the sender looks up only packets that
it has sent. -/
def AsksForMissing (p : Peers) (first : UInt16) (l : Link) : LinkOp → Prop
  | .pump now => ∀ d ∈ (l.receiver.pumpArm p.receiverSsrc now).2,
      ∀ q ∈ d.2.flatMap RtcpPacket.asks, ∃ i, l.IsMissing i ∧ q = first + UInt16.ofNat i
  | .toSender k recvAt clock => ∀ d, l.up[k]? = some d →
      ∀ q ∈ (l.sender.rtcpArm p.receiverRtcp d.2 recvAt clock).2.lookups,
        ∃ i < l.payloads.length, q = first + UInt16.ofNat i
  | _ => True

variable {p : Peers} {ssrc : UInt32} {first : UInt16} {l : Link}

theorem Linked.pending_missing (h : Linked p ssrc first l) {now : Instant} {rtt : Option Duration}
    {q : UInt16} (hq : q ∈ (l.receiver.media.nack.getPendingNacks now rtt).2) :
    ∃ i, l.IsMissing i ∧ q = first + UInt16.ofNat i := by
  obtain ⟨i, hi, habsent, heq⟩ := h.hears.asks.pending hq
  have hne : l.received ≠ [] := by
    intro hnil
    rw [show l.heard.received = l.received from rfl, hnil] at hi
    exact absurd hi (Nat.not_lt_zero i)
  exact ⟨i, ⟨Heard.lt_of_lt_newest h.hears.sent hi, ⟨_, Heard.newest_mem hne, hi⟩, habsent⟩, heq⟩

theorem Linked.pump_asks (h : Linked p ssrc first l) (now : Instant) :
    ∀ d ∈ (l.receiver.pumpArm p.receiverSsrc now).2, ∀ q ∈ d.2.flatMap RtcpPacket.asks,
      ∃ i, l.IsMissing i ∧ q = first + UInt16.ofNat i := by
  intro d hd q hq
  have hsorted := NackScheduler.getPendingNacks_sorted h.hears.asks.bits h.hears.asks.owned now
    l.receiver.rtt.srtt
  rcases ReceiverState.pumpArm_cases p.receiverSsrc l.receiver now with ⟨-, harm⟩ | ⟨-, harm⟩ |
    ⟨_, -, -, harm⟩
  · rw [harm] at hd
    exact absurd hd List.not_mem_nil
  · rw [harm] at hd
    exact absurd hd List.not_mem_nil
  · rw [harm] at hd
    rw [List.mem_singleton.mp hd, ReceiverState.nackFor_asks _ _ _ hsorted] at hq
    exact h.pending_missing hq

theorem Linked.toSender_lookups (h : Linked p ssrc first l) {k : Nat} {d : SocketAddr × Bytes}
    (hk : l.up[k]? = some d) (recvAt : Instant) (clock : Nat → Instant) :
    ∀ q ∈ (l.sender.rtcpArm p.receiverRtcp d.2 recvAt clock).2.lookups,
      ∃ i < l.payloads.length, q = first + UInt16.ofNat i := by
  intro q hq
  obtain ⟨packets, hparse, hcontent⟩ := (h.up d (List.mem_of_getElem? hk)).read maxUdpRecv
  obtain ⟨pkt, hpkt, seqs, hw, hq⟩ := l.sender.core.rtcpArm_lookups p.receiverRtcp d.2 recvAt clock hq
  have hadmitted := (SenderState.admitted_ne_nil (List.ne_nil_of_mem hpkt)).1
  rw [hparse] at hadmitted
  rw [← Except.ok.inj hadmitted] at hpkt
  rw [show l.sender.core.ssrc = ssrc from h.hears.sends.flow] at hw
  exact (hcontent pkt hpkt).wanted hw hq

/-- **The receiver asks only for what it misses**, over every run and across every wrap of
the numbers: for packets that were sent, that a later packet has overtaken, and that have
not come.  The sender looks up nothing it has not sent. -/
theorem asks_for_missing (p : Peers) (ssrc : UInt32) (seq : UInt16) (capacity : Nat)
    (rtcpInterval : Duration) (tsEpoch : Instant) (tsEpochSystem : SystemTime)
    (bufferSize : Duration) (maxNackRetries : UInt32) (now : Instant) (ops : List LinkOp)
    (hfair : Run.Along (Link.step p) Fair (start p ssrc seq capacity rtcpInterval tsEpoch
      tsEpochSystem bufferSize maxNackRetries now) ops) :
    Run.Along (Link.step p) (AsksForMissing p seq) (start p ssrc seq capacity rtcpInterval tsEpoch
      tsEpochSystem bufferSize maxNackRetries now) ops := by
  refine Run.along_of_invariant (I := Linked p (ssrc &&& ~~~1) seq) (fun _ _ h hf => h.step hf) ?_
    (start_linked p ssrc seq capacity rtcpInterval tsEpoch tsEpochSystem bufferSize maxNackRetries
      now) hfair
  intro l op h _
  cases op with
  | pump now => exact h.pump_asks now
  | toSender k recvAt clock => exact fun d hk => h.toSender_lookups hk recvAt clock
  | media payload now => trivial
  | senderReport now wallClock => trivial
  | rtp ds arrivedAt now => trivial
  | toReceiver k now clock => trivial
  | receiverReport now => trivial
  | drain now => trivial

/-- One packet is missing, and is due. -/
theorem Linked.pending_one (h : Linked p ssrc first l) {now : Instant} {rtt : Option Duration}
    {i : Nat} (hone : ∀ k, l.IsMissing k → k = i)
    (hcount : l.receiver.media.nack.activeCount ≠ 0)
    (hopen : l.receiver.media.nack.Open (first + UInt16.ofNat i))
    (hdue : NackScheduler.requested l.receiver.media.nack.maxRetries now
      (l.receiver.media.nack.slot (first + UInt16.ofNat i)) = true) :
    (l.receiver.media.nack.getPendingNacks now rtt).2 = [first + UInt16.ofNat i] := by
  have hsorted := NackScheduler.getPendingNacks_sorted h.hears.asks.bits h.hears.asks.owned now rtt
  have hmem : first + UInt16.ofNat i ∈ (l.receiver.media.nack.getPendingNacks now rtt).2 := by
    unfold NackScheduler.getPendingNacks
    rw [if_neg hcount]
    exact ((NackScheduler.scan_polled h.hears.asks.bits h.hears.asks.owned now _).returned_iff
      _).mpr ⟨hopen, hdue⟩
  have hall : ∀ q ∈ (l.receiver.media.nack.getPendingNacks now rtt).2,
      q = first + UInt16.ofNat i := by
    intro q hq
    obtain ⟨k, hmissing, rfl⟩ := h.pending_missing hq
    rw [hone k hmissing]
  generalize (l.receiver.media.nack.getPendingNacks now rtt).2 = pending at hsorted hmem hall ⊢
  cases pending with
  | nil => exact absurd hmem List.not_mem_nil
  | cons q rest =>
      cases rest with
      | nil => rw [hall q List.mem_cons_self]
      | cons r rest =>
          have hlt := List.rel_of_pairwise_cons hsorted List.mem_cons_self
          rw [hall q (by simp), hall r (by simp)] at hlt
          exact absurd hlt (UInt16.lt_irrefl _)

theorem overtaken_missing {k : Nat}
    (h : (Run.final (Link.step lan) fresh overtaken).IsMissing k) : k = 1 := by
  have hreceived : (Run.final (Link.step lan) fresh overtaken).received = [0, 2] := by
    decide +kernel
  obtain ⟨-, ⟨j, hj, hkj⟩, habsent⟩ := h
  rw [hreceived] at hj habsent
  simp only [List.mem_cons, List.not_mem_nil, or_false] at hj habsent
  omega

/-- The second packet is due after 20 ms, and nothing else is. -/
theorem overtaken_pending :
    ((Run.final (Link.step lan) fresh overtaken).receiver.media.nack.getPendingNacks 20000000
      (Run.final (Link.step lan) fresh overtaken).receiver.rtt.srtt).2 = [0] := by
  have hfair := overtaken_fair [] (by decide) (by decide)
  rw [List.append_nil] at hfair
  refine (linked_run hfair).pending_one (i := 1) (fun k => overtaken_missing) ?_ ⟨?_, ?_⟩ ?_
  all_goals decide +kernel

/-- The pump asks for it alone. -/
theorem asks_for_missing_overtaken :
    let l := Run.final (Link.step lan) fresh overtaken
    (l.receiver.media.nack.getPendingNacks 20000000 l.receiver.rtt.srtt).2 = [0] ∧
    ∀ d ∈ (l.receiver.pumpArm lan.receiverSsrc 20000000).2, ∀ q ∈ d.2.flatMap RtcpPacket.asks,
      ∃ i, l.IsMissing i ∧ q = 65535 + UInt16.ofNat i := by
  have h := asks_for_missing lan 8 65535 16 100000000 0 0 50000000 10 0
    (overtaken ++ [.pump 20000000]) (overtaken_fair _ (by decide) (by decide))
  exact ⟨overtaken_pending, (Run.along_append.mp h).2.1⟩

end Link

end Rist
