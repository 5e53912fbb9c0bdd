/-
What one RTCP datagram can make the sender do.

A datagram may carry many requests, and each may name many numbers.  One budget is
threaded through all of them: `Accounts` says that serving a request takes from it
exactly what the request did, so what a whole datagram does is bounded by the budget
it starts with.  What is sent is always a copy from the ring, for a number that one
of the requests named.
-/
import Rist.Transport.Sender

namespace Rist

namespace NackWorkBudget

variable {b b' : NackWorkBudget}

theorem toNat_sub_one {x : UInt32} (h : x ≠ 0) : (x - 1).toNat + 1 = x.toNat := by
  have hpos : x.toNat ≠ 0 := fun hc => h (UInt32.toNat_inj.mp hc)
  have hlt := x.toNat_lt
  rw [UInt32.toNat_sub]
  simp only [UInt32.toNat_one]
  omega

theorem chargeScan_some (h : b.chargeScan = some b') :
    b'.scan.toNat + 1 = b.scan.toNat ∧ b'.retx = b.retx := by
  unfold chargeScan at h
  split at h
  · exact absurd h (by simp)
  · rename_i hne
    rw [← Option.some.inj h]
    exact ⟨toNat_sub_one hne, rfl⟩

theorem chargeRetx_some (h : b.chargeRetx = some b') :
    b'.retx.toNat + 1 = b.retx.toNat ∧ b'.scan = b.scan := by
  unfold chargeRetx at h
  split at h
  · exact absurd h (by simp)
  · rename_i hne
    rw [← Option.some.inj h]
    exact ⟨toNat_sub_one hne, rfl⟩

theorem toNat_max (x y : UInt32) : (max x y).toNat = max x.toNat y.toNat := by
  rw [UInt32.max_def, Nat.max_def]
  simp only [UInt32.le_iff_toNat_le]
  split <;> rfl

theorem toNat_min (x y : UInt32) : (min x y).toNat = min x.toNat y.toNat := by
  rw [UInt32.min_def, Nat.min_def]
  simp only [UInt32.le_iff_toNat_le]
  split <;> rfl

/-- The packets one datagram may pull: the ring's capacity, between 512 and 8192. -/
def limit (capacity : Nat) : Nat := max 512 (min capacity 8192)

theorem forCapacity_toNat (capacity : Nat) :
    (forCapacity capacity).retx.toNat = limit capacity ∧
      (forCapacity capacity).scan.toNat = 4 * limit capacity := by
  have hclamp : (UInt32.ofNat (min capacity 4294967295)).toNat = min capacity 4294967295 := by
    rw [UInt32.toNat_ofNat']
    omega
  have hretx : (forCapacity capacity).retx.toNat = limit capacity := by
    show (max minRetx (min (UInt32.ofNat (min capacity 4294967295)) maxRetx)).toNat = _
    rw [toNat_max, toNat_min, hclamp]
    show max 512 (min (min capacity 4294967295) 8192) = max 512 (min capacity 8192)
    omega
  have hle : limit capacity ≤ 8192 := by
    unfold limit
    omega
  refine ⟨hretx, ?_⟩
  show (UInt32.ofNat (min ((forCapacity capacity).retx.toNat * 4) 4294967295)).toNat = _
  rw [hretx, UInt32.toNat_ofNat']
  omega

end NackWorkBudget

/-- A copy is the packet with the low bit of byte 11 set. -/
theorem retxCopy_getElem? (data : Bytes) (i : Nat) :
    (retxCopy data)[i]? = if i = 11 then data[i]?.map (· ||| 0x01) else data[i]? := by
  unfold retxCopy
  by_cases hlen : 11 < data.length
  · rw [if_pos hlen, List.getElem?_modify]
    by_cases hi : i = 11
    · rw [hi]
      simp
    · rw [if_neg hi]
      simp [Ne.symm hi]
  · rw [if_neg hlen]
    by_cases hi : i = 11
    · rw [if_pos hi, hi, List.getElem?_eq_none (by omega)]
      rfl
    · rw [if_neg hi]

/-! ### One request -/

/-- What serving the numbers `seqs` took from the budget and sent. -/
structure Accounts (ring : RetransmitBuffer) (dest : SocketAddr) (budget : NackWorkBudget)
    (seqs : List UInt16) (r : Served) : Prop where
  scan : r.requested.length + r.budget.scan.toNat = budget.scan.toNat
  retx : r.sent.length + r.budget.retx.toNat = budget.retx.toNat
  sent : ∀ d ∈ r.sent, d.1 = dest ∧
    ∃ q ∈ seqs, ∃ data, ring.get q = some data ∧ d.2 = retxCopy data

theorem serveNackEntries_accounts (ring : RetransmitBuffer) (dest : SocketAddr) :
    ∀ (seqs : List UInt16) (budget : NackWorkBudget),
      Accounts ring dest budget seqs (serveNackEntries ring dest budget seqs) := by
  intro seqs
  induction seqs with
  | nil =>
      intro budget
      exact ⟨by simp [serveNackEntries], by simp [serveNackEntries], by simp [serveNackEntries]⟩
  | cons lostSeq seqs ih =>
      intro budget
      rw [serveNackEntries]
      cases hscan : budget.chargeScan with
      | none => exact ⟨by simp, by simp, by simp⟩
      | some budget₁ =>
          obtain ⟨hscan1, hscan2⟩ := NackWorkBudget.chargeScan_some hscan
          cases hget : ring.get lostSeq with
          | none =>
              obtain ⟨h1, h2, h3⟩ := ih budget₁
              refine ⟨?_, ?_, ?_⟩
              · simp only [List.length_cons]
                omega
              · rw [← hscan2]
                exact h2
              · intro d hd
                obtain ⟨hdest, q, hq, hdata⟩ := h3 d hd
                exact ⟨hdest, q, List.mem_cons_of_mem lostSeq hq, hdata⟩
          | some pktData =>
              simp only
              cases hretx : budget₁.chargeRetx with
              | none =>
                  refine ⟨?_, ?_, by simp⟩
                  · simp only [List.length_singleton]
                    omega
                  · rw [← hscan2]
                    simp
              | some budget₂ =>
                  obtain ⟨hretx1, hretx2⟩ := NackWorkBudget.chargeRetx_some hretx
                  obtain ⟨h1, h2, h3⟩ := ih budget₂
                  refine ⟨?_, ?_, ?_⟩
                  · rw [hretx2] at h1
                    simp only [List.length_cons]
                    omega
                  · rw [hscan2] at hretx1
                    simp only [List.length_cons]
                    omega
                  · intro d hd
                    rcases List.mem_cons.mp hd with rfl | hd
                    · exact ⟨rfl, lostSeq, List.mem_cons_self, pktData, hget, rfl⟩
                    · obtain ⟨hdest, q, hq, hdata⟩ := h3 d hd
                      exact ⟨hdest, q, List.mem_cons_of_mem lostSeq hq, hdata⟩

/-! ### A whole datagram -/

/-- The sub-packet is a request for our media and names `q`. -/
def Names (ssrc : UInt32) (q : UInt16) : RtcpPacket → Prop
  | .nack nack =>
    (nack.mediaSsrc = 0 ∨ nack.mediaSsrc &&& ~~~1 = ssrc &&& ~~~1) ∧ q ∈ nack.entries.lostSeqs
  | .app (.rangeNack nack) =>
    (nack.mediaSsrc = 0 ∨ nack.mediaSsrc &&& ~~~1 = ssrc &&& ~~~1) ∧
      ∃ e ∈ nack.entries, q ∈ e.lostSeqs
  | _ => False

theorem nackTargetsUs_iff (mediaSsrc ourSsrc : UInt32) :
    nackTargetsUs mediaSsrc ourSsrc = true ↔
      mediaSsrc = 0 ∨ mediaSsrc &&& ~~~1 = ourSsrc &&& ~~~1 := by
  unfold nackTargetsUs
  rw [Bool.or_eq_true, decide_eq_true_iff, decide_eq_true_iff]

theorem names_of_wanted {ssrc : UInt32} {pkt : RtcpPacket} {seqs : List UInt16}
    (h : SenderState.wanted ssrc pkt = some seqs) {q : UInt16} (hq : q ∈ seqs) :
    Names ssrc q pkt := by
  unfold SenderState.wanted at h
  split at h
  · split at h
    · rename_i nack htarget
      rw [← Option.some.inj h] at hq
      exact ⟨(nackTargetsUs_iff _ _).mp htarget, hq⟩
    · exact absurd h (by simp)
  · split at h
    · rename_i nack htarget
      rw [← Option.some.inj h] at hq
      exact ⟨(nackTargetsUs_iff _ _).mp htarget, List.mem_flatMap.mp hq⟩
    · exact absurd h (by simp)
  · exact absurd h (by simp)

/-- The datagram `d` is a copy from the ring of a number that one of `pkts` names. -/
def Authentic (s : SenderState) (pkts : List RtcpPacket) (d : SocketAddr × Bytes) : Prop :=
  d.1 = s.remoteRtpAddr ∧ ∃ q data, s.retransmitBuf.get q = some data ∧ d.2 = retxCopy data ∧
    ∃ pkt ∈ pkts, Names s.ssrc q pkt

theorem Authentic.mono {s : SenderState} {pkts pkts' : List RtcpPacket} {d : SocketAddr × Bytes}
    (h : Authentic s pkts d) (hsub : pkts ⊆ pkts') : Authentic s pkts' d := by
  obtain ⟨hdest, q, data, hget, hcopy, pkt, hmem, hnames⟩ := h
  exact ⟨hdest, q, data, hget, hcopy, pkt, hsub hmem, hnames⟩

/-- What the sub-packets of a datagram did within a budget. -/
structure Bounded (s : SenderState) (budget : NackWorkBudget) (pkts : List RtcpPacket)
    (work : RtcpWork) : Prop where
  lookups : work.lookups.length ≤ budget.scan.toNat
  retransmits : work.retransmits.length ≤ budget.retx.toNat
  authentic : ∀ d ∈ work.retransmits, Authentic s pkts d

/-- **The budget is shared by every request of the datagram.** -/
theorem handlePackets_bounded (s : SenderState) (src : SocketAddr) (recvAt : Instant)
    (clock : Nat → Instant) :
    ∀ (pkts : List RtcpPacket) (k : Nat) (budget : NackWorkBudget) (rtt : RttEstimator),
      Bounded s budget pkts (s.handlePackets src recvAt clock k budget rtt pkts).2 := by
  intro pkts
  induction pkts with
  | nil =>
      intro k budget rtt
      exact ⟨Nat.zero_le _, Nat.zero_le _, by simp [SenderState.handlePackets]⟩
  | cons pkt pkts ih =>
      intro k budget rtt
      -- what the rest of the datagram does is bounded by what this sub-packet leaves
      have hrest : ∀ k budget' rtt, budget'.scan.toNat ≤ budget.scan.toNat →
          budget'.retx.toNat ≤ budget.retx.toNat →
          Bounded s budget (pkt :: pkts)
            (s.handlePackets src recvAt clock k budget' rtt pkts).2 := by
        intro k budget' rtt h1 h2
        obtain ⟨g1, g2, g3⟩ := ih k budget' rtt
        exact ⟨g1.trans h1, g2.trans h2,
          fun d hd => (g3 d hd).mono (List.subset_cons_self pkt pkts)⟩
      rw [SenderState.handlePackets.eq_def]
      simp only
      cases hw : SenderState.wanted s.ssrc pkt with
      | some seqs =>
          obtain ⟨h1, h2, h3⟩ := serveNackEntries_accounts s.retransmitBuf s.remoteRtpAddr seqs budget
          have hsent : ∀ d ∈ (serveNackEntries s.retransmitBuf s.remoteRtpAddr budget seqs).sent,
              Authentic s (pkt :: pkts) d := by
            intro d hd
            obtain ⟨hdest, q, hq, data, hget, hcopy⟩ := h3 d hd
            exact ⟨hdest, q, data, hget, hcopy, pkt, List.mem_cons_self, names_of_wanted hw hq⟩
          simp only
          split
          · exact ⟨by simp only; omega, by simp only; omega, hsent⟩
          · obtain ⟨g1, g2, g3⟩ := ih (k + 1)
              (serveNackEntries s.retransmitBuf s.remoteRtpAddr budget seqs).budget rtt
            refine ⟨?_, ?_, ?_⟩
            · simp only [RtcpWork.append_lookups, List.length_append]
              omega
            · simp only [RtcpWork.append_retransmits, List.length_append]
              omega
            · intro d hd
              rcases List.mem_append.mp hd with hd | hd
              · exact hsent d hd
              · exact (g3 d hd).mono (List.subset_cons_self pkt pkts)
      | none =>
          simp only
          split
          · obtain ⟨g1, g2, g3⟩ := hrest (k + 1) budget rtt le_rfl le_rfl
            exact ⟨g1, g2, g3⟩
          · exact hrest (k + 1) budget _ le_rfl le_rfl
          · exact hrest (k + 1) budget rtt le_rfl le_rfl

/-- The RTCP arm as a whole: the work stays within the budget, and of the state only
the peer and the round-trip estimate move. -/
theorem rtcpArm_work (s : SenderState) (src : SocketAddr) (bytes : Bytes) (recvAt : Instant)
    (clock : Nat → Instant) :
    Bounded s (NackWorkBudget.forCapacity s.retransmitBuf.capacity) (s.admitted src bytes recvAt)
      (s.rtcpArm src bytes recvAt clock).2 ∧
    (s.rtcpArm src bytes recvAt clock).1.retransmitBuf = s.retransmitBuf ∧
    (s.rtcpArm src bytes recvAt clock).1.ssrc = s.ssrc ∧
    (s.rtcpArm src bytes recvAt clock).1.seq = s.seq := by
  unfold SenderState.rtcpArm
  by_cases hnil : s.admitted src bytes recvAt = []
  · rw [hnil]
    exact ⟨⟨Nat.zero_le _, Nat.zero_le _, by simp⟩, rfl, rfl, rfl⟩
  · simp only
    rw [if_neg (by simpa using hnil)]
    obtain ⟨h1, h2, h3⟩ := handlePackets_bounded
      { s with remoteRtcpAddr := src, rtcpPeerLive := some recvAt } src recvAt clock
      (s.admitted src bytes recvAt) 0 (NackWorkBudget.forCapacity s.retransmitBuf.capacity) s.rtt
    exact ⟨⟨h1, h2, h3⟩, rfl, rfl, rfl⟩

/-- **One datagram pulls a bounded number of packets out of the ring**, each one a
copy of what the ring holds for a number that the datagram named, sent to the
configured destination; and the ring stays as it was. -/
theorem rtcpArm_bounded (s : SenderState) (src : SocketAddr) (bytes : Bytes) (recvAt : Instant)
    (clock : Nat → Instant) :
    (s.rtcpArm src bytes recvAt clock).2.lookups.length
      ≤ 4 * NackWorkBudget.limit s.retransmitBuf.capacity ∧
    (s.rtcpArm src bytes recvAt clock).2.retransmits.length
      ≤ NackWorkBudget.limit s.retransmitBuf.capacity ∧
    (∀ d ∈ (s.rtcpArm src bytes recvAt clock).2.retransmits, d.1 = s.remoteRtpAddr ∧
      ∃ q data packets, s.retransmitBuf.get q = some data ∧
        (∀ i, d.2[i]? = if i = 11 then data[i]?.map (· ||| 0x01) else data[i]?) ∧
        RtcpCompound.parse (bytes.take maxUdpRecv) = .ok packets ∧
        ∃ pkt ∈ packets, Names s.ssrc q pkt) ∧
    (s.rtcpArm src bytes recvAt clock).1.retransmitBuf = s.retransmitBuf := by
  obtain ⟨⟨h1, h2, h3⟩, hring, -, -⟩ := rtcpArm_work s src bytes recvAt clock
  obtain ⟨hretx, hscan⟩ := NackWorkBudget.forCapacity_toNat s.retransmitBuf.capacity
  refine ⟨hscan ▸ h1, hretx ▸ h2, ?_, hring⟩
  intro d hd
  obtain ⟨hdest, q, data, hget, hcopy, pkt, hmem, hnames⟩ := h3 d hd
  have hne : s.admitted src bytes recvAt ≠ [] := List.ne_nil_of_mem hmem
  refine ⟨hdest, q, data, s.admitted src bytes recvAt, hget, ?_,
    (SenderState.admitted_ne_nil hne).1, pkt, hmem, hnames⟩
  intro i
  rw [hcopy, retxCopy_getElem?]

/-! ### The ring -/

/-- What a lookup finds after an insert was put there by it, or was there before. -/
theorem RetransmitBuffer.get_insert {b : RetransmitBuffer} {seq q : UInt16} {data found : Bytes}
    (h : (b.insert seq data).get q = some found) :
    (q = seq ∧ found = data) ∨ (q ≠ seq ∧ b.get q = some found) := by
  unfold RetransmitBuffer.get RetransmitBuffer.insert at h
  simp only [SlotRing.get_set] at h
  by_cases hslot : seq.toNat % b.slots.capacity = q.toNat % b.slots.capacity
  · rw [if_pos hslot] at h
    simp only at h
    by_cases hq : seq = q
    · rw [if_pos hq] at h
      exact Or.inl ⟨hq.symm, (Option.some.inj h).symm⟩
    · rw [if_neg hq] at h
      exact absurd h (by simp)
  · rw [if_neg hslot] at h
    refine Or.inr ⟨?_, h⟩
    intro hq
    exact hslot (by rw [hq])

end Rist
