/-
Which requests of a datagram are answered.

The budget cuts the numbers of a datagram off twice: after so many lookups, and after
so many packets found.  `answered` states that as two `take`s around a lookup, and
`rtcpArm_answered` that it is what the RTCP arm sends, for any number of requests and
any mix of hits and misses.  When the budget binds is then a question about lists.

The budget follows the ring's capacity up to 8192 packets and stops there, so a larger
ring holds more than one datagram can get out of it.
-/
import Rist.Proofs.Sender.Retransmit

namespace Rist

namespace NackWorkBudget

variable {b : NackWorkBudget}

theorem chargeScan_none (h : b.chargeScan = none) : b.scan.toNat = 0 := by
  unfold chargeScan at h
  split at h
  · rename_i hzero
    rw [hzero]
    rfl
  · cases h

theorem chargeRetx_none (h : b.chargeRetx = none) : b.retx.toNat = 0 := by
  unfold chargeRetx at h
  split at h
  · rename_i hzero
    rw [hzero]
    rfl
  · cases h

end NackWorkBudget

namespace SenderState

/-- The copy that answers a request for `q`, if the ring still has the packet. -/
def answer (s : SenderState) (q : UInt16) : Option (SocketAddr × Bytes) :=
  (s.retransmitBuf.get q).map fun data => (s.remoteRtpAddr, retxCopy data)

/-- The numbers the sub-packets of a datagram ask us for, in order. -/
def requests (ssrc : UInt32) (pkts : List RtcpPacket) : List UInt16 :=
  pkts.flatMap fun pkt => (wanted ssrc pkt).getD []

/-- The answers within a budget of `scan` lookups and `retx` packets. -/
def answered (s : SenderState) (scan retx : Nat) (seqs : List UInt16) :
    List (SocketAddr × Bytes) :=
  ((seqs.take scan).filterMap s.answer).take retx

variable {s : SenderState} {q : UInt16} {seqs more : List UInt16} {scan retx : Nat}

theorem answer_of_miss (h : s.retransmitBuf.get q = none) : s.answer q = none := by
  unfold answer
  rw [h]
  rfl

theorem answer_of_hit {data : Bytes} (h : s.retransmitBuf.get q = some data) :
    s.answer q = some (s.remoteRtpAddr, retxCopy data) := by
  unfold answer
  rw [h]
  rfl

theorem answered_miss (h : s.answer q = none) :
    s.answered (scan + 1) retx (q :: seqs) = s.answered scan retx seqs := by
  unfold answered
  rw [List.take_succ_cons, List.filterMap_cons_none h]

theorem answered_hit {d : SocketAddr × Bytes} (h : s.answer q = some d) :
    s.answered (scan + 1) (retx + 1) (q :: seqs) = d :: s.answered scan retx seqs := by
  unfold answered
  rw [List.take_succ_cons, List.filterMap_cons_some h, List.take_succ_cons]

/-- Requests that the budget covers leave the rest of it for the others. -/
theorem answered_append (hscan : seqs.length ≤ scan)
    (hretx : (seqs.filterMap s.answer).length ≤ retx) :
    s.answered scan retx (seqs ++ more) = seqs.filterMap s.answer ++
      s.answered (scan - seqs.length) (retx - (seqs.filterMap s.answer).length) more := by
  unfold answered
  rw [List.take_append, List.take_of_length_le hscan, List.filterMap_append, List.take_append,
    List.take_of_length_le hretx]

/-- What serving one request does with a budget: all of it and there is budget left
over, or as much as any longer request would have got. -/
structure Serves (s : SenderState) (budget : NackWorkBudget) (seqs : List UInt16) (r : Served) :
    Prop where
  whole : r.spent = false → r.sent = seqs.filterMap s.answer ∧
    seqs.length + r.budget.scan.toNat = budget.scan.toNat ∧
    r.sent.length + r.budget.retx.toNat = budget.retx.toNat
  part : r.spent = true → ∀ more,
    r.sent = s.answered budget.scan.toNat budget.retx.toNat (seqs ++ more)

theorem serveNackEntries_serves (s : SenderState) : ∀ (seqs : List UInt16) (budget : NackWorkBudget),
    Serves s budget seqs (serveNackEntries s.retransmitBuf s.remoteRtpAddr budget seqs) := by
  intro seqs
  induction seqs with
  | nil =>
      intro budget
      exact ⟨fun _ => ⟨rfl, by simp [serveNackEntries], by simp [serveNackEntries]⟩,
        fun h => absurd h (by simp [serveNackEntries])⟩
  | cons lostSeq seqs ih =>
      intro budget
      rw [serveNackEntries]
      cases hscan : budget.chargeScan with
      | none =>
          refine ⟨fun hspent => absurd hspent (by simp), fun _ more => ?_⟩
          simp [NackWorkBudget.chargeScan_none hscan, answered]
      | some budget₁ =>
          obtain ⟨hscan1, hscan2⟩ := NackWorkBudget.chargeScan_some hscan
          cases hget : s.retransmitBuf.get lostSeq with
          | none =>
              have hq := answer_of_miss hget
              obtain ⟨hwhole, hpart⟩ := ih budget₁
              refine ⟨?_, ?_⟩
              · intro hspent
                obtain ⟨h1, h2, h3⟩ := hwhole hspent
                refine ⟨?_, ?_, hscan2 ▸ h3⟩
                · rw [List.filterMap_cons_none hq]
                  exact h1
                · simp only [List.length_cons]
                  omega
              · intro hspent more
                rw [← hscan1, List.cons_append, answered_miss hq, ← hscan2]
                exact hpart hspent more
          | some pktData =>
              have hq := answer_of_hit hget
              simp only
              cases hretx : budget₁.chargeRetx with
              | none =>
                  refine ⟨fun hspent => absurd hspent (by simp), fun _ more => ?_⟩
                  simp [← hscan2, NackWorkBudget.chargeRetx_none hretx, answered]
              | some budget₂ =>
                  obtain ⟨hretx1, hretx2⟩ := NackWorkBudget.chargeRetx_some hretx
                  obtain ⟨hwhole, hpart⟩ := ih budget₂
                  rw [hretx2] at hwhole hpart
                  refine ⟨?_, ?_⟩
                  · intro hspent
                    obtain ⟨h1, h2, h3⟩ := hwhole hspent
                    refine ⟨?_, ?_, ?_⟩
                    · rw [List.filterMap_cons_some hq]
                      exact congrArg _ h1
                    · simp only [List.length_cons]
                      omega
                    · simp only [List.length_cons, ← hscan2]
                      omega
                  · intro hspent more
                    rw [← hscan1, ← hscan2, ← hretx1, List.cons_append, answered_hit hq]
                    exact congrArg _ (hpart hspent more)

/-! ### A whole datagram -/

theorem handlePackets_answered (s : SenderState) (src : SocketAddr) (recvAt : Instant)
    (clock : Nat → Instant) :
    ∀ (pkts : List RtcpPacket) (k : Nat) (budget : NackWorkBudget) (rtt : RttEstimator),
      (s.handlePackets src recvAt clock k budget rtt pkts).2.retransmits
        = s.answered budget.scan.toNat budget.retx.toNat (requests s.ssrc pkts) := by
  intro pkts
  induction pkts with
  | nil =>
      intro k budget rtt
      simp [handlePackets, requests, answered]
  | cons pkt pkts ih =>
      intro k budget rtt
      rw [handlePackets.eq_def]
      simp only
      have hrequests : requests s.ssrc (pkt :: pkts)
          = (wanted s.ssrc pkt).getD [] ++ requests s.ssrc pkts := List.flatMap_cons
      cases hw : wanted s.ssrc pkt with
      | some seqs =>
          rw [hrequests, hw, Option.getD_some]
          obtain ⟨hwhole, hpart⟩ := serveNackEntries_serves s seqs budget
          simp only
          split
          · rename_i hspent
            exact hpart hspent (requests s.ssrc pkts)
          · rename_i hspent
            obtain ⟨h1, h2, h3⟩ := hwhole (Bool.not_eq_true _ ▸ hspent)
            rw [RtcpWork.append_retransmits, ih, answered_append (by omega) (by rw [← h1]; omega),
              ← h1]
            congr 2 <;> omega
      | none =>
          rw [hrequests, hw, Option.getD_none, List.nil_append]
          simp only
          split
          · exact ih (k + 1) budget rtt
          · exact ih (k + 1) budget _
          · exact ih (k + 1) budget rtt

/-- **What the RTCP arm sends again**: the packets that the ring has among the first
`4 * limit` numbers asked for, up to the first `limit` of them. -/
theorem rtcpArm_answered (s : SenderState) (src : SocketAddr) (bytes : Bytes) (recvAt : Instant)
    (clock : Nat → Instant) :
    (s.rtcpArm src bytes recvAt clock).2.retransmits
      = s.answered (4 * NackWorkBudget.limit s.retransmitBuf.capacity)
          (NackWorkBudget.limit s.retransmitBuf.capacity)
          (requests s.ssrc (s.admitted src bytes recvAt)) := by
  obtain ⟨hretx, hscan⟩ := NackWorkBudget.forCapacity_toNat s.retransmitBuf.capacity
  unfold rtcpArm
  by_cases hnil : s.admitted src bytes recvAt = []
  · rw [hnil]
    simp [requests, answered]
  · simp only
    rw [if_neg (by simpa using hnil), handlePackets_answered, hretx, hscan]
    rfl

/-! ### A sender that only sends -/

/-- The state after `n` empty packets. -/
def sendEmpty (s : SenderState) : Nat → SenderState
  | 0 => s
  | n + 1 => ((s.sendEmpty n).mediaArm [] 0).1

theorem get_insert_self (b : RetransmitBuffer) (seq : UInt16) (data : Bytes) :
    (b.insert seq data).get seq = some data := by
  unfold RetransmitBuffer.get RetransmitBuffer.insert
  rw [SlotRing.get_set_self]
  exact if_pos rfl

theorem get_insert_other {b : RetransmitBuffer} {seq q : UInt16} (data : Bytes)
    (h : seq.toNat % b.capacity ≠ q.toNat % b.capacity) : (b.insert seq data).get q = b.get q := by
  unfold RetransmitBuffer.get RetransmitBuffer.insert
  rw [SlotRing.get_set_of_ne _ _ h]

/-- What a sender that started at number 0 holds after `n` packets. -/
structure Holds (s₀ s : SenderState) (n : Nat) : Prop where
  ssrc : s.ssrc = s₀.ssrc
  remoteRtpAddr : s.remoteRtpAddr = s₀.remoteRtpAddr
  rtcpPeerLive : s.rtcpPeerLive = s₀.rtcpPeerLive
  seq : s.seq = UInt16.ofNat n
  capacity : s.retransmitBuf.capacity = s₀.retransmitBuf.capacity
  ring : ∀ i < n, s.retransmitBuf.get (UInt16.ofNat i)
    = some (writeRtpHeader s₀.ssrc (UInt16.ofNat i) 0)

theorem sendEmpty_holds {s₀ : SenderState} (hseq : s₀.seq = 0)
    (hcap : s₀.retransmitBuf.capacity ≤ 65536) :
    ∀ {n : Nat}, n ≤ s₀.retransmitBuf.capacity → Holds s₀ (s₀.sendEmpty n) n := by
  intro n
  induction n with
  | zero =>
      intro _
      exact ⟨rfl, rfl, rfl, hseq, rfl, nofun⟩
  | succ n ih =>
      intro hn
      have h := ih (by omega)
      refine ⟨h.ssrc, h.remoteRtpAddr, h.rtcpPeerLive, ?_, h.capacity, ?_⟩
      · show (s₀.sendEmpty n).seq + 1 = _
        rw [h.seq]
        exact (UInt16.ofNat_add n 1).symm
      · intro i hi
        show ((s₀.sendEmpty n).retransmitBuf.insert (s₀.sendEmpty n).seq
          (writeRtpHeader (s₀.sendEmpty n).ssrc (s₀.sendEmpty n).seq 0 ++ [])).get _ = _
        rw [h.seq, h.ssrc, List.append_nil]
        rcases Nat.lt_succ_iff_lt_or_eq.mp hi with hi | rfl
        · have hslot : (UInt16.ofNat n).toNat % (s₀.sendEmpty n).retransmitBuf.capacity
              ≠ (UInt16.ofNat i).toNat % (s₀.sendEmpty n).retransmitBuf.capacity := by
            rw [h.capacity, UInt16.toNat_ofNat', UInt16.toNat_ofNat', Nat.mod_eq_of_lt (by omega),
              Nat.mod_eq_of_lt (by omega), Nat.mod_eq_of_lt (by omega), Nat.mod_eq_of_lt (by omega)]
            omega
          rw [get_insert_other _ hslot]
          exact h.ring i hi
        · exact get_insert_self _ _ _

/-- One range request of the numbers from 0 on. -/
theorem requests_range {s : SenderState} (hlive : s.rtcpPeerLive = none) (hssrc : s.ssrc = 2)
    (bytes : Bytes) (extra : UInt16)
    (hparse : RtcpCompound.parse (bytes.take maxUdpRecv)
      = .ok [.nack ⟨7, 2, .range [⟨0, extra⟩]⟩]) (src : SocketAddr) :
    requests s.ssrc (s.admitted src bytes 0) = (List.range (extra.toNat + 1)).map UInt16.ofNat := by
  have hadmitted : s.admitted src bytes 0 = [.nack ⟨7, 2, .range [⟨0, extra⟩]⟩] := by
    unfold admitted
    rw [hparse]
    simp [hlive, peerMoveAllowed, peerIsProtected]
  have htarget : nackTargetsUs 2 2 = true := rfl
  rw [hadmitted, hssrc]
  simp [requests, wanted, htarget, NackEntries.lostSeqs, RangeEntry.lostSeqs]

/-! ### When the budget binds -/

theorem take_filterMap_take_eq {α β : Type} {f : α → Option β} {l : List α} {a b : Nat} :
    ((l.take a).filterMap f).take b = l.filterMap f ↔
      (l.filterMap f).length ≤ b ∧ (l.drop a).filterMap f = [] := by
  have hsplit : l.filterMap f = (l.take a).filterMap f ++ (l.drop a).filterMap f := by
    rw [← List.filterMap_append, List.take_append_drop]
  constructor
  · intro h
    have hlen := congrArg List.length h
    rw [List.length_take] at hlen
    refine ⟨by omega, ?_⟩
    rw [hsplit, List.length_append] at hlen
    exact List.length_eq_zero_iff.mp (by omega)
  · intro ⟨hlen, hnil⟩
    rw [hsplit, hnil, List.append_nil] at hlen ⊢
    exact List.take_of_length_le hlen

/-- **Every request of a datagram is answered exactly when the budget allows it**: no
more packets found than `limit`, and none past the first `4 * limit` numbers.  A ring
of at most 8192 packets is never asked for more than that by a request that fits it. -/
theorem rtcpArm_honest (s : SenderState) (src : SocketAddr) (bytes : Bytes) (recvAt : Instant)
    (clock : Nat → Instant) :
    ((s.rtcpArm src bytes recvAt clock).2.retransmits
        = (requests s.ssrc (s.admitted src bytes recvAt)).filterMap s.answer ↔
      ((requests s.ssrc (s.admitted src bytes recvAt)).filterMap s.answer).length
          ≤ NackWorkBudget.limit s.retransmitBuf.capacity ∧
        ∀ q ∈ (requests s.ssrc (s.admitted src bytes recvAt)).drop
            (4 * NackWorkBudget.limit s.retransmitBuf.capacity), s.retransmitBuf.get q = none) ∧
    ((requests s.ssrc (s.admitted src bytes recvAt)).length ≤ s.retransmitBuf.capacity →
      s.retransmitBuf.capacity ≤ 8192 →
      (s.rtcpArm src bytes recvAt clock).2.retransmits
        = (requests s.ssrc (s.admitted src bytes recvAt)).filterMap s.answer) := by
  rw [rtcpArm_answered]
  generalize requests s.ssrc (s.admitted src bytes recvAt) = reqs
  have hnone : ∀ q, s.answer q = none ↔ s.retransmitBuf.get q = none := by
    intro q
    unfold answer
    exact Option.map_eq_none_iff
  refine ⟨?_, ?_⟩
  · unfold answered
    rw [take_filterMap_take_eq, List.filterMap_eq_nil_iff]
    simp only [hnone]
  · intro hcount hcap
    have hlimit : s.retransmitBuf.capacity ≤ NackWorkBudget.limit s.retransmitBuf.capacity := by
      unfold NackWorkBudget.limit
      omega
    have hfound := List.length_filterMap_le s.answer reqs
    refine take_filterMap_take_eq.mpr ⟨by omega, ?_⟩
    rw [List.drop_eq_nil_of_le (by omega), List.filterMap_nil]

/-- Four packets of room, two sent and both asked for, and both are sent again. -/
theorem rtcpArm_honest_small :
    (((SenderState.new 2 0 4 1 (.v4 1 5000)).sendEmpty 2).rtcpArm (.v4 1 5001)
        [0x8F, 205, 0, 3, 0, 0, 0, 7, 0, 0, 0, 2, 0, 0, 0, 1] 0 fun _ => 0).2.retransmits
      = [(.v4 1 5000, retxCopy (writeRtpHeader 2 0 0)),
          (.v4 1 5000, retxCopy (writeRtpHeader 2 1 0))] := by
  have hnew : (SenderState.new 2 0 4 1 (.v4 1 5000)).retransmitBuf.capacity = 4 := by
    show 2 ^ Nat.clog 2 (2 ^ 2) = 4
    rw [Nat.clog_pow 2 2 (by decide)]
    rfl
  have h : Holds (SenderState.new 2 0 4 1 (.v4 1 5000))
      ((SenderState.new 2 0 4 1 (.v4 1 5000)).sendEmpty 2) 2 :=
    sendEmpty_holds rfl (by omega) (by omega)
  have hcap := h.capacity.trans hnew
  have hreqs := requests_range h.rtcpPeerLive h.ssrc
    [0x8F, 205, 0, 3, 0, 0, 0, 7, 0, 0, 0, 2, 0, 0, 0, 1] 1 rfl (.v4 1 5001)
  have hall := (rtcpArm_honest ((SenderState.new 2 0 4 1 (.v4 1 5000)).sendEmpty 2) (.v4 1 5001)
    [0x8F, 205, 0, 3, 0, 0, 0, 7, 0, 0, 0, 2, 0, 0, 0, 1] 0 fun _ => 0).2
    (by rw [hreqs, hcap]; decide) (by omega)
  have h0 := answer_of_hit (h.ring 0 (by decide))
  have h1 := answer_of_hit (h.ring 1 (by decide))
  rw [h.remoteRtpAddr] at h0 h1
  rw [hall, hreqs]
  show List.filterMap _ [UInt16.ofNat 0, UInt16.ofNat 1] = _
  rw [List.filterMap_cons_some h0, List.filterMap_cons_some h1]
  rfl

/-! ### A ring that is larger than the budget -/

/-- A sender with room for 16384 packets that has sent 8193. -/
def busy : SenderState := (SenderState.new 2 0 16384 1 (.v4 1 5000)).sendEmpty 8193

/-- One range request for those 8193 packets. -/
def requestAll : Bytes := [0x8F, 205, 0, 3, 0, 0, 0, 7, 0, 0, 0, 2, 0, 0, 0x20, 0]

theorem capacity_new : (SenderState.new 2 0 16384 1 (.v4 1 5000)).retransmitBuf.capacity = 16384 := by
  show 2 ^ Nat.clog 2 (2 ^ 14) = 16384
  rw [Nat.clog_pow 2 14 (by decide)]
  rfl

theorem busy_holds : Holds (SenderState.new 2 0 16384 1 (.v4 1 5000)) busy 8193 := by
  have hcap := capacity_new
  exact sendEmpty_holds rfl (by omega) (by omega)

theorem busy_requests : requests busy.ssrc (busy.admitted (.v4 1 5001) requestAll 0)
    = (List.range 8193).map UInt16.ofNat :=
  requests_range busy_holds.rtcpPeerLive busy_holds.ssrc requestAll 8192 rfl (.v4 1 5001)

/-- The copy of packet `i`. -/
def busyCopy (i : Nat) : SocketAddr × Bytes :=
  (.v4 1 5000, retxCopy (writeRtpHeader 2 (UInt16.ofNat i) 0))

theorem busy_answer {i : Nat} (hi : i < 8193) :
    busy.answer (UInt16.ofNat i) = some (busyCopy i) := by
  have h := answer_of_hit (busy_holds.ring i hi)
  rw [busy_holds.remoteRtpAddr] at h
  exact h

/-- The last of the copies is none of those before it: its number is another. -/
theorem busyCopy_ne {i : Nat} (hi : i < 8192) : busyCopy i ≠ busyCopy 8192 := by
  intro h
  have hbytes : retxCopy (writeRtpHeader 2 (UInt16.ofNat i) 0)
      = retxCopy (writeRtpHeader 2 (UInt16.ofNat 8192) 0) := congrArg Prod.snd h
  have hbyte := congrArg (fun b : Bytes => b[2]?) hbytes
  simp only [retxCopy_getElem?] at hbyte
  rw [if_neg (by decide), if_neg (by decide)] at hbyte
  have hhigh : UInt8.ofNat ((UInt16.ofNat i).toNat / 256) = 32 := Option.some.inj hbyte
  rw [← UInt8.toNat_inj, UInt8.toNat_ofNat', UInt16.toNat_ofNat', Nat.mod_eq_of_lt (a := i) (by omega)]
    at hhigh
  have h32 : (32 : UInt8).toNat = 32 := rfl
  omega

theorem filterMap_map_range {α β : Type} {f : α → Option β} {g : Nat → α} {h : Nat → β} {n : Nat}
    (hf : ∀ i < n, f (g i) = some (h i)) :
    ((List.range n).map g).filterMap f = (List.range n).map h := by
  rw [List.filterMap_map, ← List.filterMap_eq_map]
  apply List.filterMap_congr
  intro i hi
  exact hf i (List.mem_range.mp hi)

/-- **A ring larger than the budget is under-served.**  The ring holds 8193 packets, one
request asks for each of them once, and the last is not sent. -/
theorem busy_underserved :
    (requests busy.ssrc (busy.admitted (.v4 1 5001) requestAll 0)).length
        ≤ busy.retransmitBuf.capacity ∧
      (requests busy.ssrc (busy.admitted (.v4 1 5001) requestAll 0)).Nodup ∧
      UInt16.ofNat 8192 ∈ requests busy.ssrc (busy.admitted (.v4 1 5001) requestAll 0) ∧
      busy.answer (UInt16.ofNat 8192) = some (busyCopy 8192) ∧
      busyCopy 8192 ∉ (busy.rtcpArm (.v4 1 5001) requestAll 0 fun _ => 0).2.retransmits := by
  have hcap : busy.retransmitBuf.capacity = 16384 := busy_holds.capacity.trans capacity_new
  have hlimit : NackWorkBudget.limit 16384 = 8192 := by decide
  rw [rtcpArm_answered, busy_requests, hcap, hlimit]
  refine ⟨by simp, ?_, List.mem_map.mpr ⟨8192, by simp, rfl⟩, busy_answer (by decide), ?_⟩
  · refine List.Nodup.map_on ?_ List.nodup_range
    intro i hi j hj h
    rw [List.mem_range] at hi hj
    rw [← UInt16.toNat_inj, UInt16.toNat_ofNat', UInt16.toNat_ofNat'] at h
    omega
  · intro hmem
    have hall : ((List.range 8193).map UInt16.ofNat).filterMap busy.answer
        = (List.range 8193).map busyCopy := filterMap_map_range fun i hi => busy_answer hi
    have hscan : ((List.range 8193).map UInt16.ofNat).length ≤ 4 * 8192 := by simp
    unfold answered at hmem
    rw [List.take_of_length_le hscan, hall, ← List.map_take, List.take_range] at hmem
    obtain ⟨i, hi, hcopy⟩ := List.mem_map.mp hmem
    exact busyCopy_ne (by simpa using hi) hcopy

end SenderState

end Rist
