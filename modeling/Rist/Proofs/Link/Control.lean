/-
What two peers say to each other on the control sockets.

A control datagram is a compound that can be written, so what is read of it is a front of
it.  Each task is taken arm by arm: what it puts on its control socket, given what it has
heard so far (`Tells` for the sender, `Requests` for the receiver), and what it makes of a
datagram of the other.  The peers share one address and one flow, so nothing is refused
and every request finds its flow.
-/
import Rist.Proofs.Link.Burst
import Rist.Proofs.Packet.Truncation
import Rist.Proofs.Receiver.Oversize
import Rist.Proofs.Sender.Honest

namespace Rist

open Session

/-! ### What is on the control wires -/

/-- A sub-packet of the sender: its reports name its flow. -/
def Tells (ssrc : UInt32) : RtcpPacket → Prop
  | .senderReport sr => sr.ssrc = ssrc
  | _ => True

/-- A sub-packet of the receiver, of which the first `n` packets have been sent: its
requests are for our flow and for packets that exist. -/
def Requests (ssrc : UInt32) (first : UInt16) (n : Nat) : RtcpPacket → Prop
  | .nack r => nackTargetsUs r.mediaSsrc ssrc = true ∧
      ∀ q ∈ r.entries.lostSeqs, ∃ i < n, q = first + UInt16.ofNat i
  | .app (.rangeNack _) => False
  | _ => True

/-- The datagram is a compound that can be written, for `dest`, with `content` in each of
its sub-packets. -/
def Conveys (dest : SocketAddr) (content : RtcpPacket → Prop) (d : SocketAddr × Bytes) : Prop :=
  d.1 = dest ∧ ∃ c, d.2 = RtcpCompound.serialize c ∧ ∀ pkt ∈ c, pkt.Encodable ∧ content pkt

theorem Conveys.mono {dest : SocketAddr} {content content' : RtcpPacket → Prop}
    {d : SocketAddr × Bytes} (h : Conveys dest content d) (hcontent : ∀ pkt, content pkt → content' pkt) :
    Conveys dest content' d := by
  obtain ⟨hdest, c, hbytes, hc⟩ := h
  exact ⟨hdest, c, hbytes, fun pkt hpkt => (hc pkt hpkt).imp_right (hcontent pkt)⟩

/-- What is read of it is a front of it. -/
theorem Conveys.read {dest : SocketAddr} {content : RtcpPacket → Prop} {d : SocketAddr × Bytes}
    (h : Conveys dest content d) (n : Nat) :
    ∃ packets, RtcpCompound.parse (d.2.take n) = .ok packets ∧ ∀ pkt ∈ packets, content pkt := by
  obtain ⟨-, c, hbytes, hc⟩ := h
  obtain ⟨k, -, hparse⟩ := RtcpCompound.exists_parse_take (fun pkt hpkt => (hc pkt hpkt).1) n
  rw [hbytes]
  exact ⟨c.take k, hparse, fun pkt hpkt => (hc pkt (List.mem_of_mem_take hpkt)).2⟩

theorem Requests.mono {ssrc : UInt32} {first : UInt16} {n n' : Nat} (hle : n ≤ n') :
    ∀ pkt, Requests ssrc first n pkt → Requests ssrc first n' pkt := by
  intro pkt h
  unfold Requests at h ⊢
  split at h
  · refine ⟨h.1, fun q hq => ?_⟩
    obtain ⟨i, hi, heq⟩ := h.2 q hq
    exact ⟨i, hi.trans_le hle, heq⟩
  · exact h
  · trivial

theorem receiverReport_empty_encodable (ssrc : UInt32) :
    (RtcpPacket.receiverReport (ReceiverReport.empty ssrc)).Encodable :=
  ⟨Nat.zero_le _, fun _ hb => absurd hb List.not_mem_nil⟩

/-- A report can always be written. -/
theorem generateRr_encodable (s : RtcpReceiverState) (ssrc : UInt32) (now : Instant) :
    (RtcpPacket.receiverReport (s.generateRr ssrc now).2).Encodable := by
  cases hbegun : s.firstPacketReceived with
  | false =>
      unfold RtcpReceiverState.generateRr
      rw [if_pos hbegun]
      exact receiverReport_empty_encodable ssrc
  | true =>
      obtain ⟨b, hfits, hrr⟩ := RtcpReceiverState.generateRr_block hbegun ssrc now
      rw [hrr]
      exact ReceiverReport.encodable_block ssrc hfits

/-- A reply content nothing but the time. -/
theorem echoReply_conveys {content : RtcpPacket → Prop} (hrr : ∀ rr, content (.receiverReport rr))
    (hecho : ∀ resp, content (.app (.rttEchoResponse resp))) (dest : SocketAddr) (ssrc : UInt32)
    (req : RttEchoRequest) (delay : UInt32) :
    Conveys dest content (dest, ReceiverState.echoReply ssrc req delay) := by
  refine ⟨rfl, _, rfl, ?_⟩
  intro pkt hpkt
  simp only [List.mem_cons, List.not_mem_nil, or_false] at hpkt
  obtain rfl | rfl := hpkt
  · exact ⟨receiverReport_empty_encodable ssrc, hrr _⟩
  · exact ⟨trivial, hecho _⟩

/-! ### The send task -/

namespace SenderState

theorem handlePackets_replies (s : SenderState) (src : SocketAddr) (recvAt : Instant)
    (clock : Nat → Instant) :
    ∀ (pkts : List RtcpPacket) (k : Nat) (budget : NackWorkBudget) (rtt : RttEstimator),
      ∀ d ∈ (s.handlePackets src recvAt clock k budget rtt pkts).2.replies,
        ∃ req delay, d = (src, ReceiverState.echoReply s.ssrc req delay) := by
  intro pkts
  induction pkts with
  | nil =>
      intro k budget rtt d hd
      exact absurd hd List.not_mem_nil
  | cons pkt pkts ih =>
      intro k budget rtt d hd
      rw [handlePackets.eq_def] at hd
      simp only at hd
      split at hd
      · split at hd
        · exact absurd hd List.not_mem_nil
        · rcases List.mem_append.mp hd with hd | hd
          · exact absurd hd List.not_mem_nil
          · exact ih _ _ _ d hd
      · split at hd
        · rcases List.mem_append.mp hd with hd | hd
          · exact ⟨_, _, List.mem_singleton.mp hd⟩
          · exact ih _ _ _ d hd
        · exact ih _ _ _ d hd
        · exact ih _ _ _ d hd

/-- What the RTCP arm does besides answering requests. -/
theorem rtcpArm_peer (s : SenderState) (src : SocketAddr) (bytes : Bytes) (recvAt : Instant)
    (clock : Nat → Instant) :
    (s.rtcpArm src bytes recvAt clock).1.remoteRtpAddr = s.remoteRtpAddr ∧
    ((s.rtcpArm src bytes recvAt clock).1.remoteRtcpAddr = s.remoteRtcpAddr ∨
      (s.rtcpArm src bytes recvAt clock).1.remoteRtcpAddr = src) ∧
    ∀ d ∈ (s.rtcpArm src bytes recvAt clock).2.replies,
      ∃ req delay, d = (src, ReceiverState.echoReply s.ssrc req delay) := by
  unfold rtcpArm
  simp only
  split
  · exact ⟨rfl, Or.inl rfl, fun d hd => absurd hd List.not_mem_nil⟩
  · exact ⟨rfl, Or.inr rfl, handlePackets_replies _ src recvAt clock _ 0 _ _⟩

end SenderState

/-! ### The receive task -/

theorem sourceAllowed_of_peer {src : SocketAddr} {pinned : Option IpAddr}
    {current : Option SocketAddr} (hpin : pinned = none ∨ pinned = some src.ip)
    (hcur : ∀ cur, current = some cur → cur.ip = src.ip) (live : Option Instant) (now : Instant) :
    sourceAllowed src pinned current live now = true := by
  unfold sourceAllowed
  rw [if_neg (by rcases hpin with rfl | rfl <;> simp)]
  cases current with
  | none => rfl
  | some cur =>
      simp only
      unfold peerMoveAllowed
      rw [hcur cur rfl]
      simp

namespace ReceiverState

/-- The receive task has heard of nobody but the sender. -/
structure Knows (p : Peers) (ssrc : UInt32) (r : ReceiverState) : Prop where
  rtp : r.senderRtpAddr = none ∨ r.senderRtpAddr = some p.senderRtp
  rtcp : r.senderRtcpAddr = none ∨ r.senderRtcpAddr = some p.senderRtcp
  paired : r.senderRtpAddr ≠ none → r.senderRtcpAddr = some p.senderRtcp
  observed : ∀ x, r.observedMediaSsrc = some x → nackTargetsUs x ssrc = true
  reported : ∀ x, r.media.rtcp.senderSsrc = some x → x = ssrc

variable {p : Peers} {ssrc : UInt32} {r : ReceiverState}

theorem Knows.rtcpDest (h : Knows p ssrc r) {dest : SocketAddr}
    (hdest : r.senderRtcpAddr = some dest) : dest = p.senderRtcp := by
  rcases h.rtcp with hrtcp | hrtcp
  · exact absurd (hrtcp.symm.trans hdest) (by simp)
  · exact Option.some.inj (hdest.symm.trans hrtcp)

theorem Knows.admits_rtp (h : Knows p ssrc r) (live : Option Instant) (now : Instant) :
    sourceAllowed p.senderRtp p.pinned r.senderRtpAddr live now = true := by
  refine sourceAllowed_of_peer p.pinned_eq ?_ live now
  intro cur hcur
  rcases h.rtp with hrtp | hrtp
  · exact absurd (hrtp.symm.trans hcur) (by simp)
  · rw [Option.some.inj (hcur.symm.trans hrtp)]

theorem Knows.admits_rtcp (h : Knows p ssrc r) (live : Option Instant) (now : Instant) :
    sourceAllowed p.senderRtcp p.pinned r.senderRtcpAddr live now = true := by
  have hip : p.senderRtcp.ip = p.senderRtp.ip := rtcpAddrFor_ip p.senderRtp
  refine sourceAllowed_of_peer (hip.symm ▸ p.pinned_eq) ?_ live now
  intro cur hcur
  rw [h.rtcpDest hcur]

/-- **The request names our flow**, whether its number was reported or only seen. -/
theorem Knows.nackFor_targets (h : Knows p ssrc r) (own : UInt32) (pending : List UInt16) :
    nackTargetsUs (nackFor own r pending).mediaSsrc ssrc = true := by
  show nackTargetsUs ((r.media.rtcp.senderSsrc.or r.observedMediaSsrc).getD 0) ssrc = true
  cases hreported : r.media.rtcp.senderSsrc with
  | some x =>
      rw [h.reported x hreported]
      exact (nackTargetsUs_iff _ _).mpr (Or.inr rfl)
  | none =>
      cases hobserved : r.observedMediaSsrc with
      | some x => exact h.observed x hobserved
      | none => exact (nackTargetsUs_iff _ _).mpr (Or.inl rfl)

theorem Knows.handlePacket (h : Knows p ssrc r) (own : UInt32) (src : SocketAddr)
    (now clock : Instant) {pkt : RtcpPacket} (hpkt : Tells ssrc pkt) :
    Knows p ssrc (handlePacket own src now clock r pkt).1 ∧
    (ReceiverState.handlePacket own src now clock r pkt).1.media.rtcp.firstPacketReceived
      = r.media.rtcp.firstPacketReceived ∧
    ∀ d ∈ (ReceiverState.handlePacket own src now clock r pkt).2,
      ∃ req delay, d = (src, echoReply own req delay) := by
  unfold ReceiverState.handlePacket
  split
  · refine ⟨⟨h.rtp, h.rtcp, h.paired, h.observed, ?_⟩, rfl, fun d hd => absurd hd List.not_mem_nil⟩
    intro x hx
    exact (Option.some.inj hx).symm.trans hpkt
  · exact ⟨h, rfl, fun d hd => ⟨_, _, List.mem_singleton.mp hd⟩⟩
  · simp only
    split <;> exact ⟨⟨h.rtp, h.rtcp, h.paired, h.observed, h.reported⟩, rfl,
      fun d hd => absurd hd List.not_mem_nil⟩
  · exact ⟨h, rfl, fun d hd => absurd hd List.not_mem_nil⟩

theorem Knows.handlePackets (own : UInt32) (src : SocketAddr) (now : Instant)
    (clock : Nat → Instant) : ∀ (pkts : List RtcpPacket) (k : Nat) (r : ReceiverState),
    Knows p ssrc r → (∀ pkt ∈ pkts, Tells ssrc pkt) →
    Knows p ssrc (handlePackets own src now clock r k pkts).1 ∧
    (handlePackets own src now clock r k pkts).1.media.rtcp.firstPacketReceived
      = r.media.rtcp.firstPacketReceived ∧
    ∀ d ∈ (ReceiverState.handlePackets own src now clock r k pkts).2,
      ∃ req delay, d = (src, echoReply own req delay) := by
  intro pkts
  induction pkts with
  | nil =>
      intro k r h _
      exact ⟨h, rfl, fun d hd => absurd hd List.not_mem_nil⟩
  | cons pkt pkts ih =>
      intro k r h hpkts
      obtain ⟨h1, h2, h3⟩ := h.handlePacket own src now (clock k) (hpkts pkt List.mem_cons_self)
      obtain ⟨g1, g2, g3⟩ := ih (k + 1) _ h1 fun q hq => hpkts q (List.mem_cons_of_mem _ hq)
      refine ⟨g1, g2.trans h2, fun d hd => ?_⟩
      rcases List.mem_append.mp hd with hd | hd
      · exact h3 d hd
      · exact g3 d hd

/-- The RTCP arm, for a datagram of the sender. -/
theorem Knows.rtcpArm (h : Knows p ssrc r) (own : UInt32) {d : SocketAddr × Bytes}
    {dest : SocketAddr} (hd : Conveys dest (Tells ssrc) d) (now : Instant)
    (clock : Nat → Instant) :
    Knows p ssrc (r.rtcpArm p.pinned own p.senderRtcp d.2 now clock).1 ∧
    (r.rtcpArm p.pinned own p.senderRtcp d.2 now clock).1.media.rtcp.firstPacketReceived
      = r.media.rtcp.firstPacketReceived ∧
    ∀ e ∈ (r.rtcpArm p.pinned own p.senderRtcp d.2 now clock).2,
      ∃ req delay, e = (p.senderRtcp, echoReply own req delay) := by
  obtain ⟨packets, hparse, htells⟩ := hd.read maxUdpRecv
  unfold ReceiverState.rtcpArm
  rw [if_pos (h.admits_rtcp _ now), hparse]
  simp only
  split
  · exact ⟨h, rfl, fun d hd => absurd hd List.not_mem_nil⟩
  · exact Knows.handlePackets own p.senderRtcp now clock packets 0 _
      ⟨h.rtp, Or.inr rfl, fun _ => rfl, h.observed, h.reported⟩ htells

/-- A report leaves alone what is known of the sender. -/
theorem generateRr_keeps (s : RtcpReceiverState) (own : UInt32) (now : Instant) :
    (s.generateRr own now).1.senderSsrc = s.senderSsrc ∧
    (s.generateRr own now).1.firstPacketReceived = s.firstPacketReceived := by
  unfold RtcpReceiverState.generateRr
  split <;> exact ⟨rfl, rfl⟩

theorem mem_onSocket {out : List (SocketAddr × List RtcpPacket)} {d : SocketAddr × Bytes}
    (h : d ∈ Link.onSocket out) :
    ∃ e ∈ out, d = (e.1, RtcpCompound.serialize e.2) := by
  obtain ⟨e, he, rfl⟩ := List.mem_map.mp h
  exact ⟨e, he, rfl⟩

variable {first : UInt16} {received : List Nat} {n : Nat}

/-- A request for packets that were skipped is a request for packets that were sent. -/
theorem Knows.nackFor_requests (h : Knows p ssrc r) (hsent : ∀ i ∈ received, i < n) (own : UInt32)
    {pending : List UInt16} (hsorted : pending.Pairwise (· < ·))
    (hmissing : ∀ q ∈ pending, ∃ i, i < Heard.newest received ∧ i ∉ received ∧
      q = first + UInt16.ofNat i) :
    (RtcpPacket.nack (nackFor own r pending)).Encodable ∧
      Requests ssrc first n (.nack (nackFor own r pending)) := by
  have hmasks := NackListBuilder.packMasks_length hsorted 0 fun x _ => Nat.zero_le _
  refine ⟨?_, h.nackFor_targets own pending, ?_⟩
  · show (NackListBuilder.packMasks pending).length ≤ 65533
    omega
  · intro q hq
    have hlost : (nackFor own r pending).entries.lostSeqs = pending :=
      NackListBuilder.packMasks_lostSeqs hsorted
    rw [hlost] at hq
    obtain ⟨i, hi, -, heq⟩ := hmissing q hq
    exact ⟨i, Heard.lt_of_lt_newest hsent hi, heq⟩

/-- The pump asks for packets that were skipped and have not come, and for nothing else. -/
theorem Knows.pumpArm (h : Knows p ssrc r) (hasks : NackScheduler.Asks first received r.media.nack)
    (hsent : ∀ i ∈ received, i < n) (own : UInt32) (now : Instant) :
    Knows p ssrc (r.pumpArm own now).1 ∧
    (r.pumpArm own now).1.media.rtcp.firstPacketReceived = r.media.rtcp.firstPacketReceived ∧
    (r.pumpArm own now).1.media.reorder = r.media.reorder ∧
    (r.pumpArm own now).1.senderRtpAddr = r.senderRtpAddr ∧
    NackScheduler.Asks first received (r.pumpArm own now).1.media.nack ∧
    ∀ d ∈ Link.onSocket (r.pumpArm own now).2, Conveys p.senderRtcp (Requests ssrc first n) d := by
  have hnack := hasks.getPendingNacks now r.rtt.srtt
  obtain ⟨hssrc, hbegun⟩ := generateRr_keeps r.media.rtcp own now
  rcases pumpArm_cases own r now with ⟨-, harm⟩ | ⟨-, harm⟩ | ⟨rtcpDest, hdest, -, harm⟩
  · rw [harm]
    exact ⟨h, rfl, rfl, rfl, hasks, fun d hd => absurd hd List.not_mem_nil⟩
  · rw [harm]
    exact ⟨⟨h.rtp, h.rtcp, h.paired, h.observed, h.reported⟩, rfl, rfl, rfl, hnack,
      fun d hd => absurd hd List.not_mem_nil⟩
  · have hsorted := NackScheduler.getPendingNacks_sorted hasks.bits hasks.owned now r.rtt.srtt
    rw [harm]
    refine ⟨⟨h.rtp, h.rtcp, h.paired, h.observed, fun x hx => h.reported x (hssrc ▸ hx)⟩, hbegun, rfl,
      rfl, hnack, ?_⟩
    intro d hd
    obtain ⟨e, he, rfl⟩ := mem_onSocket hd
    rw [List.mem_singleton.mp he]
    refine ⟨h.rtcpDest hdest, _, rfl, ?_⟩
    intro pkt hpkt
    simp only [List.mem_cons, List.not_mem_nil, or_false] at hpkt
    obtain rfl | rfl := hpkt
    · exact ⟨generateRr_encodable r.media.rtcp own now, trivial⟩
    · exact h.nackFor_requests hsent own hsorted fun q hq => hasks.pending hq

/-- The periodic report asks for nothing. -/
theorem Knows.reportArm (h : Knows p ssrc r) (own : UInt32) (echo : Bool) (now : Instant) :
    Knows p ssrc (r.reportArm own p.receiverCname echo now).1 ∧
    (r.reportArm own p.receiverCname echo now).1.media.rtcp.firstPacketReceived
      = r.media.rtcp.firstPacketReceived ∧
    (r.reportArm own p.receiverCname echo now).1.media.reorder = r.media.reorder ∧
    (r.reportArm own p.receiverCname echo now).1.senderRtpAddr = r.senderRtpAddr ∧
    ∀ d ∈ Link.onSocket (r.reportArm own p.receiverCname echo now).2,
      Conveys p.senderRtcp (Requests ssrc first n) d := by
  rcases reportArm_cases own p.receiverCname echo r now with ⟨-, harm⟩ |
    ⟨rtcpDest, rtt, echoes, hdest, hechoes, harm⟩
  · rw [harm]
    exact ⟨h, rfl, rfl, rfl, fun d hd => absurd hd List.not_mem_nil⟩
  · obtain ⟨hssrc, hbegun⟩ := generateRr_keeps r.media.rtcp own now
    rw [harm]
    refine ⟨⟨h.rtp, h.rtcp, h.paired, h.observed, fun x hx => h.reported x (hssrc ▸ hx)⟩, hbegun, rfl,
      rfl, ?_⟩
    intro d hd
    obtain ⟨e, he, rfl⟩ := mem_onSocket hd
    rw [List.mem_singleton.mp he]
    exact ⟨h.rtcpDest hdest, _, rfl, hechoes.forall
      ⟨generateRr_encodable r.media.rtcp own now, trivial⟩ ⟨p.receiverCname_le, trivial⟩
      fun _ => ⟨trivial, trivial⟩⟩

/-- A packet says nothing about the reports of the sender. -/
theorem onPacketReceived_reports (s : RtcpReceiverState) (seq : UInt16) (rtpTimestamp : UInt32)
    (arrivalUs : UInt64) (isDuplicate : Bool) :
    (s.onPacketReceived seq rtpTimestamp arrivalUs isDuplicate).senderSsrc = s.senderSsrc ∧
    (s.onPacketReceived seq rtpTimestamp arrivalUs isDuplicate).lastSrNtp = s.lastSrNtp := by
  have hseq : (s.trackSeq seq).senderSsrc = s.senderSsrc ∧
      (s.trackSeq seq).lastSrNtp = s.lastSrNtp := by
    unfold RtcpReceiverState.trackSeq
    split
    · exact ⟨rfl, rfl⟩
    · split <;> exact ⟨rfl, rfl⟩
  cases isDuplicate with
  | true => exact ⟨rfl, rfl⟩
  | false => exact hseq

/-- Media says nothing about the flow that is reported. -/
theorem processBatch_senderSsrc (batch : List ParsedRtp) (now : Instant) : ∀ m : MediaPath,
    (m.processBatch batch now).rtcp.senderSsrc = m.rtcp.senderSsrc := by
  simp only [MediaPath.processBatch_eq_foldl]
  induction batch with
  | nil => intro m; rfl
  | cons q batch ih =>
      intro m
      rw [List.foldl_cons, ih]
      exact (onPacketReceived_reports m.rtcp q.seq q.rtpTs q.arrivalUs _).1

/-- The RTP arm, for a burst of the sender. -/
theorem Knows.rtpArm (h : Knows p ssrc r) {d : Datagram} (hsrc : d.src = p.senderRtp)
    {q : ParsedRtp} (hparse : d.parse = some q) (htarget : nackTargetsUs q.ssrc ssrc = true)
    (queued : List Datagram) (arrivedAt now : Instant) :
    Knows p ssrc (r.rtpArm p.pinned d queued arrivedAt now) ∧
    (r.rtpArm p.pinned d queued arrivedAt now).senderRtpAddr ≠ none ∧
    (r.rtpArm p.pinned d queued arrivedAt now).media
      = r.media.processBatch (burst d queued) now := by
  have had : r.rtpAdmitted p.pinned d arrivedAt = true := by
    unfold rtpAdmitted
    rw [hsrc]
    exact h.admits_rtp _ arrivedAt
  obtain ⟨hrtp, hrtcp, -⟩ := rtpArm_latches had queued now
  have hpaired : (r.rtpArm p.pinned d queued arrivedAt now).senderRtcpAddr = some p.senderRtcp := by
    rw [hrtcp]
    split
    · rename_i hsame
      exact h.paired (by rw [hsame]; simp)
    · rw [hsrc]
      rfl
  have hmedia : (r.rtpArm p.pinned d queued arrivedAt now).media
      = r.media.processBatch (burst d queued) now := by
    rw [rtpArm_media]
    unfold inserted
    rw [if_pos had]
  have hobserved : (r.rtpArm p.pinned d queued arrivedAt now).observedMediaSsrc
      = r.observedMediaSsrc.or (some q.ssrc) := by
    have hlatch : (r.latch d.src).observedMediaSsrc = r.observedMediaSsrc := by
      rcases latch_cases r d.src with ⟨-, heq⟩ | ⟨-, heq⟩ <;> rw [heq]
    unfold ReceiverState.rtpArm
    rw [if_pos had, hparse, Option.map_some]
    simp only [hlatch]
    split <;> rfl
  refine ⟨⟨Or.inr (hsrc ▸ hrtp), Or.inr hpaired, fun _ => hpaired, ?_, ?_⟩, ?_, hmedia⟩
  · intro x hx
    rw [hobserved] at hx
    cases hold : r.observedMediaSsrc with
    | none =>
        rw [hold] at hx
        rw [← Option.some.inj hx]
        exact htarget
    | some y =>
        rw [hold] at hx
        rw [← Option.some.inj hx]
        exact h.observed y hold
  · intro x hx
    rw [hmedia, processBatch_senderSsrc] at hx
    exact h.reported x hx
  · rw [hrtp]
    simp

end ReceiverState

end Rist
