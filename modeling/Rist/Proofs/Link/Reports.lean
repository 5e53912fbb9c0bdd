/-
What the peers report of each other is so.

A report is compared with what had happened when it was made.  The sender's counts every
payload handed over so far; the receiver's names the last report it has read and the flow
that one was of, and its highest number and its loss are those of the packets received so
far.  Reports are lost, repeated and delayed like everything else, so which one was read
last is taken from the datagrams that the network hands over (`Link.reads`), not from what
the receive task remembers.
-/
import Rist.Proofs.Link.Closed
import Rist.Proofs.Link.Counting

namespace Rist

/-! ### Reading a datagram -/

/-- The sub-packets a task reads of a datagram. -/
def readable (d : SocketAddr × Bytes) : List RtcpPacket :=
  match RtcpCompound.parse (d.2.take maxUdpRecv) with
  | .ok packets => packets
  | .error _ => []

theorem readable_of_parse {d : SocketAddr × Bytes} {packets : List RtcpPacket}
    (h : RtcpCompound.parse (d.2.take maxUdpRecv) = .ok packets) : readable d = packets := by
  unfold readable
  rw [h]

theorem mem_readable_iff {d : SocketAddr × Bytes} {pkt : RtcpPacket} :
    pkt ∈ readable d ↔
      ∃ packets, RtcpCompound.parse (d.2.take maxUdpRecv) = .ok packets ∧ pkt ∈ packets := by
  unfold readable
  cases hparse : RtcpCompound.parse (d.2.take maxUdpRecv) with
  | ok packets => simp
  | error e => simp

/-- What is read of a compound is a front of it. -/
theorem mem_of_readable {c : List RtcpPacket} (hfits : ∀ pkt ∈ c, pkt.Encodable)
    {dest : SocketAddr} {pkt : RtcpPacket} (h : pkt ∈ readable (dest, RtcpCompound.serialize c)) :
    pkt ∈ c := by
  obtain ⟨k, -, hparse⟩ := RtcpCompound.exists_parse_take hfits maxUdpRecv
  rw [readable_of_parse hparse] at h
  exact List.mem_of_mem_take h

theorem readable_cons {c : List RtcpPacket} {pkt : RtcpPacket}
    (hfits : ∀ q ∈ pkt :: c, q.Encodable) (hroom : pkt.serialize.length ≤ maxUdpRecv)
    (dest : SocketAddr) : pkt ∈ readable (dest, RtcpCompound.serialize (pkt :: c)) := by
  obtain ⟨rest, hparse⟩ := RtcpCompound.exists_parse_take_cons hfits hroom
  rw [readable_of_parse hparse]
  exact List.mem_cons_self

theorem mem_of_readable_echoReply {dest : SocketAddr} {ssrc : UInt32} {req : RttEchoRequest}
    {delay : UInt32} {pkt : RtcpPacket}
    (h : pkt ∈ readable (dest, ReceiverState.echoReply ssrc req delay)) :
    pkt = .receiverReport (ReceiverReport.empty ssrc) ∨
      ∃ resp, pkt = .app (.rttEchoResponse resp) := by
  have hmem := mem_of_readable (c := [.receiverReport (ReceiverReport.empty ssrc),
    .app (.rttEchoResponse ⟨req.ssrc, req.timestampMsw, req.timestampLsw, delay⟩)]) ?_ h
  · simp only [List.mem_cons, List.not_mem_nil, or_false] at hmem
    exact hmem.imp_right fun heq => ⟨_, heq⟩
  · intro q hq
    simp only [List.mem_cons, List.not_mem_nil, or_false] at hq
    obtain rfl | rfl := hq
    · exact receiverReport_empty_encodable ssrc
    · trivial

/-! ### What a report says -/

/-- A sender report counts all of the payloads, as far as 32 bits go. -/
structure CountsAll (ssrc : UInt32) (payloads : List Bytes) (sr : SenderReport) : Prop where
  flow : sr.ssrc = ssrc
  packets : sr.senderPacketCount = UInt32.ofNat payloads.length
  octets : sr.senderOctetCount = UInt32.ofNat (payloads.map List.length).sum

/-- A block answers the last report read, if there was one. -/
structure Answers (ssrc : UInt32) (read : List SenderReport) (b : ReportBlock) : Prop where
  unread : read = [] → b.ssrc = 0 ∧ b.lastSr = 0
  lastRead : ∀ sr, read.getLast? = some sr → b.ssrc = ssrc ∧ b.lastSr = sr.compactNtp

/-- A block speaks of what was received: its highest number is that of the newest packet,
counted on without wraps from the first one's, and no packet is missing that was received. -/
def SpeaksOf (first : UInt16) (received : List Nat) (b : ReportBlock) : Prop :=
  ∃ i, received.head? = some i ∧
    b.extendedHighestSeq
      = UInt32.ofNat ((first + UInt16.ofNat i).toNat + (Heard.newest received - i)) ∧
    (received.length < 4294967296 → b.cumulativeLost.toInt
      ≤ ((Finset.Icc i (Heard.newest received) \ received.toFinset).card : Int))

def RtcpPacket.senderReport? : RtcpPacket → Option SenderReport
  | .senderReport sr => some sr
  | _ => none

/-! ### The receiver's state -/

namespace RtcpReceiverState

/-- The report remembered is the last one read, and the counts are those of the packets
received. -/
structure Follows (first : UInt16) (read : List SenderReport) (received : List Nat)
    (s : RtcpReceiverState) : Prop where
  senderSsrc : s.senderSsrc = read.getLast?.map SenderReport.ssrc
  lastSrNtp : s.lastSrNtp = (read.getLast?.map SenderReport.compactNtp).getD 0
  counts : ∃ g, s.Tracks g ∧ Spans first received g

variable {first : UInt16} {read : List SenderReport} {received : List Nat}
  {s : RtcpReceiverState}

theorem follows_new : Follows first [] [] new := by
  refine ⟨rfl, rfl, {}, tracks_new, Nat.le_refl _, Nat.le_refl _, ?_⟩
  exact fun i hi => absurd hi (by simp)

/-- A packet of the stream: a copy that is not counted was received before. -/
theorem Follows.onPacketReceived (h : Follows first read received s) {i : Nat}
    (hnear : received ≠ [] → -32767 ≤ (i : Int) - Heard.newest received ∧
      (i : Int) - Heard.newest received ≤ 32767)
    {isDuplicate : Bool} (hdup : isDuplicate = true → i ∈ received) (rtpTimestamp : UInt32)
    (arrivalUs : UInt64) :
    Follows first read (received ++ [i])
      (s.onPacketReceived (first + UInt16.ofNat i) rtpTimestamp arrivalUs isDuplicate) := by
  obtain ⟨hssrc, hntp⟩ := ReceiverState.onPacketReceived_reports s (first + UInt16.ofNat i)
    rtpTimestamp arrivalUs isDuplicate
  refine ⟨hssrc.trans h.senderSsrc, hntp.trans h.lastSrNtp, ?_⟩
  obtain ⟨g, htracks, hspans⟩ := h.counts
  cases isDuplicate with
  | true => exact ⟨g, htracks, hspans.again (hdup rfl)⟩
  | false => exact ⟨_, htracks.packet _ rtpTimestamp arrivalUs, htracks.spans_packet hspans hnear⟩

theorem Follows.onSrReceived (h : Follows first read received s) (sr : SenderReport)
    (now : Instant) : Follows first (read ++ [sr]) received (s.onSrReceived sr now) := by
  obtain ⟨g, htracks, hspans⟩ := h.counts
  refine ⟨?_, ?_, g, htracks.congr rfl rfl rfl rfl rfl rfl rfl rfl, hspans⟩
  · rw [List.getLast?_concat]
    rfl
  · rw [List.getLast?_concat]
    rfl

/-- A report changes nothing that is reported. -/
theorem Follows.generateRr (h : Follows first read received s) (own : UInt32) (now : Instant) :
    Follows first read received (s.generateRr own now).1 := by
  obtain ⟨g, htracks, hspans⟩ := h.counts
  have hkept : Spans first received g.report := by
    unfold SeqTotals.report
    split
    · exact hspans
    · exact ⟨hspans.distinct, hspans.counted, hspans.span⟩
  have hreport := htracks.report own now
  revert hreport
  unfold RtcpReceiverState.generateRr
  split <;> exact fun hreport => ⟨h.senderSsrc, h.lastSrNtp, _, hreport, hkept⟩

/-- A report answers what it follows. -/
theorem Follows.answers (h : Follows first read received s) {ssrc : UInt32}
    (hflow : ∀ x, s.senderSsrc = some x → x = ssrc) (own : UInt32) (now : Instant) :
    ∀ b ∈ (s.generateRr own now).2.reports,
      Answers ssrc read b ∧ SpeaksOf first received b := by
  obtain ⟨g, htracks, hspans⟩ := h.counts
  unfold RtcpReceiverState.generateRr
  split
  · exact fun b hb => absurd hb List.not_mem_nil
  · rename_i hbegun
    have hne : received ≠ [] := fun hnil =>
      hbegun (htracks.not_started_iff.mpr (hspans.received_eq_zero_iff.mpr hnil))
    have hhead := List.head?_eq_some_head hne
    obtain ⟨hfirst, hext⟩ := hspans.span _ hhead
    intro b hb
    rw [List.mem_singleton.mp hb]
    refine ⟨⟨?_, ?_⟩, received.head hne, hhead, ?_, fun hlen =>
      htracks.cumulativeLost_le hspans hlen hhead⟩
    · rintro rfl
      exact ⟨by rw [h.senderSsrc]; rfl, h.lastSrNtp⟩
    · intro sr hsr
      have hssrc : s.senderSsrc = some sr.ssrc := by rw [h.senderSsrc, hsr]; rfl
      refine ⟨?_, by rw [h.lastSrNtp, hsr]; rfl⟩
      show s.senderSsrc.getD 0 = ssrc
      rw [hssrc]
      exact hflow sr.ssrc hssrc
    · rw [← UInt32.toNat_inj, htracks.extended, hext, hfirst]
      rfl

end RtcpReceiverState

namespace ReceiverState

variable {first : UInt16} {read : List SenderReport} {received : List Nat}

theorem handlePacket_follows {r : ReceiverState} (h : r.media.rtcp.Follows first read received)
    (own : UInt32) (src : SocketAddr) (now clock : Instant) (pkt : RtcpPacket) :
    (handlePacket own src now clock r pkt).1.media.rtcp.Follows first
      (read ++ pkt.senderReport?.toList) received := by
  have hsame : r.media.rtcp.Follows first (read ++ []) received := by
    rw [List.append_nil]
    exact h
  cases pkt with
  | senderReport sr => exact h.onSrReceived sr now
  | receiverReport rr => exact hsame
  | sdes sdes => exact hsame
  | nack nack => exact hsame
  | unknown packetType data => exact hsame
  | app app =>
      cases app with
      | rangeNack nack => exact hsame
      | rttEchoRequest req => exact hsame
      | rttEchoResponse resp =>
          simp only [ReceiverState.handlePacket]
          split <;> exact hsame
      | unknown subtype data => exact hsame

theorem handlePackets_follows (own : UInt32) (src : SocketAddr) (now : Instant)
    (clock : Nat → Instant) : ∀ (pkts : List RtcpPacket) (k : Nat) {r : ReceiverState}
      {read : List SenderReport}, r.media.rtcp.Follows first read received →
    (handlePackets own src now clock r k pkts).1.media.rtcp.Follows first
      (read ++ pkts.filterMap RtcpPacket.senderReport?) received := by
  intro pkts
  induction pkts with
  | nil =>
      intro k r read h
      rw [List.filterMap_nil, List.append_nil]
      exact h
  | cons pkt pkts ih =>
      intro k r read h
      have hrest := ih (k + 1) (handlePacket_follows h own src now (clock k) pkt)
      have hsplit : (pkt :: pkts).filterMap RtcpPacket.senderReport?
          = pkt.senderReport?.toList ++ pkts.filterMap RtcpPacket.senderReport? := by
        rw [List.filterMap_cons]
        cases pkt.senderReport? <;> rfl
      rw [hsplit, ← List.append_assoc]
      exact hrest

/-- A datagram that is admitted is read. -/
theorem rtcpArm_follows {r : ReceiverState} (h : r.media.rtcp.Follows first read received)
    (own : UInt32) {src : SocketAddr} {pinned : Option IpAddr} (dest : SocketAddr) (bytes : Bytes)
    {now : Instant}
    (hadmits : sourceAllowed src pinned r.senderRtcpAddr (maxLive r.rtcpPeerLive r.rtpPeerLive) now
      = true) (clock : Nat → Instant) :
    (r.rtcpArm pinned own src bytes now clock).1.media.rtcp.Follows first
      (read ++ (readable (dest, bytes)).filterMap RtcpPacket.senderReport?) received := by
  have hnone : r.media.rtcp.Follows first (read ++ []) received := by
    rw [List.append_nil]
    exact h
  unfold rtcpArm readable
  rw [if_pos hadmits]
  cases hparse : RtcpCompound.parse (bytes.take maxUdpRecv) with
  | error e =>
      simp only
      exact hnone
  | ok packets =>
      simp only
      cases packets with
      | nil => exact hnone
      | cons pkt packets =>
          exact handlePackets_follows own src now clock (pkt :: packets) 0
            (r := { r with senderRtcpAddr := some src, rtcpPeerLive := some now }) h

end ReceiverState

/-- A burst of the stream. -/
theorem Hears.follows {ssrc : UInt32} {first : UInt16} {now : Instant}
    {read : List SenderReport} (ds : List (Nat × UInt64)) :
    ∀ {h : Heard} {m : MediaPath}, Hears ssrc first h m →
      (∀ d ∈ ds, d.1 < h.session.network.length) →
      Run.Along (Heard.hear now) (Heard.Near now) h ds → h.Recalls first →
      m.rtcp.Follows first read h.received →
      (Run.final (Heard.hear now) h ds).Recalls first ∧
      (m.processBatch (ds.filterMap (parsed h.session.network)) now).rtcp.Follows first read
        (Run.final (Heard.hear now) h ds).received := by
  induction ds with
  | nil =>
      intro h m _ _ _ hrecalls hfollows
      exact ⟨hrecalls, hfollows⟩
  | cons d ds ih =>
      intro h m hh hwire hnear hrecalls hfollows
      obtain ⟨f, q, hf, hq, hstep⟩ := hh.next (hwire d List.mem_cons_self) hnear.1
      have hseq : q.seq = first + UInt16.ofNat f.index := by
        obtain ⟨q', payload, hparse, -, hseq, -⟩ :=
          (hh.sends.network f (List.mem_of_getElem? hf)).parse d.2
        unfold parsed at hq
        rw [hf] at hq
        rw [Option.some.inj (hq.symm.trans hparse)]
        exact hseq
      have hone : (m.packet q now).rtcp.Follows first read (Heard.hear now h d).received := by
        rw [Heard.hear_received now hf]
        have hdup : (m.reorder.insert q.seq q.payload now).2.duplicate = true →
            f.index ∈ h.received := by
          rw [← hh.buffer]
          exact hrecalls.duplicate hh.placed hf hnear.1 hseq
        have hpacket := hfollows.onPacketReceived (hnear.1.2 f hf) hdup q.rtpTs q.arrivalUs
        rw [← hseq] at hpacket
        exact hpacket
      have hrest := ih hstep
        (fun e he => by rw [hear_network]; exact hwire e (List.mem_cons_of_mem _ he)) hnear.2
        (hrecalls.hear hh.placed hh.sends hf hnear.1) hone
      rw [hear_network] at hrest
      rw [List.filterMap_cons_some hq, Run.final_cons]
      rw [MediaPath.processBatch_eq_foldl] at hrest ⊢
      exact hrest

/-! ### The link -/

namespace Link

variable {p : Peers} {ssrc : UInt32} {first : UInt16} {read : List SenderReport} {l : Link}

/-- The reports that an operation hands over to the receive task. -/
def reads (p : Peers) (l : Link) : LinkOp → List SenderReport
  | .toReceiver k _ _ =>
    match l.down[k]? with
    | none => []
    | some d =>
      if d.1 = p.receiverRtcp then (readable d).filterMap RtcpPacket.senderReport? else []
  | _ => []

/-- The control datagrams the sender sends in a step. -/
def putDown (p : Peers) (l : Link) (op : LinkOp) : List (SocketAddr × Bytes) :=
  (l.step p op).down.drop l.down.length

/-- The control datagrams the receiver sends in a step. -/
def putUp (p : Peers) (l : Link) (op : LinkOp) : List (SocketAddr × Bytes) :=
  (l.step p op).up.drop l.up.length

theorem putDown_eq {op : LinkOp} {more : List (SocketAddr × Bytes)}
    (h : (l.step p op).down = l.down ++ more) : l.putDown p op = more := by
  unfold putDown
  rw [h, List.drop_left]

theorem putUp_eq {op : LinkOp} {more : List (SocketAddr × Bytes)}
    (h : (l.step p op).up = l.up ++ more) : l.putUp p op = more := by
  unfold putUp
  rw [h, List.drop_left]

theorem step_down (p : Peers) (l : Link) (op : LinkOp) :
    (l.step p op).down = l.down ++ l.putDown p op :=
  (List.prefix_iff_eq_append.mp (grows_step p l op).down).symm

theorem step_up (p : Peers) (l : Link) (op : LinkOp) :
    (l.step p op).up = l.up ++ l.putUp p op :=
  (List.prefix_iff_eq_append.mp (grows_step p l op).up).symm

/-- What the reports of a link keep. -/
structure Honest (first : UInt16) (read : List SenderReport) (l : Link) : Prop where
  packets : l.sender.reports.packetCount = UInt32.ofNat l.payloads.length
  octets : l.sender.reports.octetCount = UInt32.ofNat (l.payloads.map List.length).sum
  recalls : l.heard.Recalls first
  follows : l.receiver.media.rtcp.Follows first read l.received

theorem Honest.media (h : Honest first read l) (payload : Bytes) (now : Instant) :
    Honest first read (l.step p (.media payload now)) := by
  have hlen : (l.payloads ++ [payload]).length = l.payloads.length + 1 := List.length_append
  refine ⟨?_, ?_, h.recalls, h.follows⟩
  · show l.sender.reports.packetCount + 1 = UInt32.ofNat (l.payloads ++ [payload]).length
    rw [h.packets, hlen]
    exact (UInt32.ofNat_add _ _).symm
  · show l.sender.reports.octetCount + UInt32.ofNat payload.length
      = UInt32.ofNat ((l.payloads ++ [payload]).map List.length).sum
    rw [h.octets, List.map_append, List.sum_append, UInt32.ofNat_add]
    simp

theorem Honest.senderReport (h : Honest first read l) (now : Instant) (wallClock : SystemTime) :
    Honest first read (l.step p (.senderReport now wallClock)) := by
  obtain ⟨rtt, echoes, -, harm⟩ := SendTask.reportArm_spec p.senderEcho l.sender now wallClock
  simp only [Link.step, harm]
  exact ⟨h.packets, h.octets, h.recalls, h.follows⟩

theorem Honest.toSender (h : Honest first read l) (k : Nat) (recvAt : Instant)
    (clock : Nat → Instant) : Honest first read (l.step p (.toSender k recvAt clock)) := by
  simp only [Link.step]
  split
  · exact h
  · split
    · exact ⟨h.packets, h.octets, h.recalls, h.follows⟩
    · exact h

/-- The receive task goes on from the same packets. -/
theorem Honest.receiver (h : Honest first read l) {r : ReceiverState} {read' : List SenderReport}
    (hreorder : r.media.reorder = l.receiver.media.reorder)
    (hfollows : r.media.rtcp.Follows first read' l.received) (more : List (SocketAddr × Bytes)) :
    Honest first read' { l with receiver := r, up := l.up ++ more } := by
  refine ⟨h.packets, h.octets, ?_, hfollows⟩
  intro w href
  rw [show (Link.heard { l with receiver := r, up := l.up ++ more }).session.buffer
    = l.heard.session.buffer from hreorder] at href
  exact h.recalls w href

theorem Honest.toReceiver (h : Honest first read l) (hl : Linked p ssrc first l) (k : Nat)
    (now : Instant) (clock : Nat → Instant) :
    Honest first (read ++ l.reads p (.toReceiver k now clock))
      (l.step p (.toReceiver k now clock)) := by
  simp only [Link.step, Link.reads]
  cases hk : l.down[k]? with
  | none =>
      simp only [List.append_nil]
      exact h
  | some d =>
      by_cases hdest : d.1 = p.receiverRtcp
      · simp only [if_pos hdest]
        exact h.receiver (rtcpArm_same p l.receiver d.2 now clock).1
          (ReceiverState.rtcpArm_follows h.follows p.receiverSsrc d.1 d.2
            (hl.knows.admits_rtcp _ now) clock) _
      · simp only [if_neg hdest, List.append_nil]
        exact h

theorem Honest.pump (h : Honest first read l) (now : Instant) :
    Honest first read (l.step p (.pump now)) := by
  refine h.receiver (r := (l.receiver.pumpArm p.receiverSsrc now).1)
    (ReceiverState.pumpArm_reorder p.receiverSsrc l.receiver now) ?_ _
  rcases ReceiverState.pumpArm_cases p.receiverSsrc l.receiver now with ⟨-, harm⟩ | ⟨-, harm⟩ |
    ⟨_, -, -, harm⟩
  · rw [harm]
    exact h.follows
  · rw [harm]
    exact h.follows
  · rw [harm]
    exact h.follows.generateRr p.receiverSsrc now

theorem Honest.receiverReport (h : Honest first read l) (now : Instant) :
    Honest first read (l.step p (.receiverReport now)) := by
  refine h.receiver (r := (l.receiver.reportArm p.receiverSsrc p.receiverCname p.receiverEcho
    now).1) (ReceiverState.reportArm_reorder p.receiverSsrc _ _ l.receiver now) ?_ _
  rcases ReceiverState.reportArm_cases p.receiverSsrc p.receiverCname p.receiverEcho l.receiver now
    with ⟨-, harm⟩ | ⟨_, _, _, -, -, harm⟩
  · rw [harm]
    exact h.follows
  · rw [harm]
    exact h.follows.generateRr p.receiverSsrc now

/-- The receive task counts the packets of the stream, whatever came along. -/
theorem Honest.rtp (h : Honest first read l) (hl : Linked p ssrc first l)
    (ds : List (Nat × UInt64)) (arrivedAt : Instant) {now : Instant}
    (hfair : l.Fair (.rtp ds arrivedAt now)) :
    Honest first read (l.step p (.rtp ds arrivedAt now)) := by
  have hheard := hl.heard_rtp hfair
  cases hds : l.onWire ds with
  | nil =>
      simp only [Link.step, hds]
      exact h
  | cons d queued =>
      obtain ⟨q, hparse, -, htarget⟩ := hl.parse (mem_onWire (hds ▸ List.mem_cons_self))
      obtain ⟨-, -, hmedia⟩ := hl.knows.rtpArm rfl hparse htarget (queued.map (l.datagram p))
        arrivedAt now
      obtain ⟨hrecalls, hfollows⟩ := hl.hears.follows ((l.onWire ds).take maxBatch)
        (fun e he => mem_onWire (List.mem_of_mem_take he)) hfair h.recalls h.follows
      simp only [Link.step, hds] at hheard ⊢
      refine ⟨h.packets, h.octets, ?_, ?_⟩
      · rw [hheard]
        exact hrecalls
      · show (l.receiver.rtpArm p.pinned (l.datagram p d) (queued.map (l.datagram p)) arrivedAt
          now).media.rtcp.Follows first read (l.heardAfter ds now).received
        rw [hmedia, hl.burst hds]
        exact hfollows

theorem Honest.step (h : Honest first read l) (hl : Linked p ssrc first l) {op : LinkOp}
    (hfair : l.Fair op) : Honest first (read ++ l.reads p op) (l.step p op) := by
  have hnone : ∀ {l' : Link}, Honest first read l' → Honest first (read ++ []) l' := by
    intro l' hl'
    rw [List.append_nil]
    exact hl'
  cases op with
  | media payload now => exact hnone (h.media payload now)
  | senderReport now wallClock => exact hnone (h.senderReport now wallClock)
  | toSender k recvAt clock => exact hnone (h.toSender k recvAt clock)
  | rtp ds arrivedAt now => exact hnone (h.rtp hl ds arrivedAt hfair)
  | toReceiver k now clock => exact h.toReceiver hl k now clock
  | pump now => exact hnone (h.pump now)
  | receiverReport now => exact hnone (h.receiverReport now)
  | drain now =>
      exact hnone ⟨h.packets, h.octets, h.recalls.drain hl.hears.placed now, h.follows⟩

/-! ### What a step sends -/

/-- The sender's timer sends its report first, and no other one. -/
theorem Linked.putDown_senderReport (hl : Linked p ssrc first l) (now : Instant)
    (wallClock : SystemTime) :
    let sr := (l.sender.reports.generateSr now wallClock).2
    ∃ rest, l.putDown p (.senderReport now wallClock)
        = [(p.receiverRtcp, RtcpCompound.serialize (.senderReport sr :: rest))] ∧
      ∀ pkt ∈ RtcpPacket.senderReport sr :: rest,
        pkt.Encodable ∧ ∀ sr', pkt = .senderReport sr' → sr' = sr := by
  intro sr
  obtain ⟨rtt, echoes, hechoes, harm⟩ :=
    SendTask.reportArm_spec p.senderEcho l.sender now wallClock
  have hname : (Sdes.cnameBytes ⟨l.sender.reports.ssrc, l.sender.reports.cname⟩).length ≤ 255 := by
    rw [hl.cname]
    exact p.senderCname_le
  refine ⟨_, putDown_eq ?_, hechoes.forall
    ⟨trivial, fun _ heq => (RtcpPacket.senderReport.inj heq).symm⟩ ⟨hname, nofun⟩
    fun _ => ⟨trivial, nofun⟩⟩
  simp only [Link.step, harm, hl.rtcpDest]
  rfl

/-- What the sender sends in a step counts everything sent so far. -/
theorem Honest.counts (h : Honest first read l) (hl : Linked p ssrc first l) (op : LinkOp) :
    ∀ d ∈ l.putDown p op, ∀ sr, .senderReport sr ∈ readable d → CountsAll ssrc l.payloads sr := by
  have hnothing : (l.step p op).down = l.down →
      ∀ d ∈ l.putDown p op, ∀ sr, .senderReport sr ∈ readable d → CountsAll ssrc l.payloads sr := by
    intro hsame d hd
    rw [putDown_eq (hsame.trans (List.append_nil _).symm)] at hd
    exact absurd hd List.not_mem_nil
  cases op with
  | senderReport now wallClock =>
      obtain ⟨rest, hput, hall⟩ := hl.putDown_senderReport now wallClock
      intro d hd sr hsr
      rw [hput, List.mem_singleton] at hd
      rw [hd] at hsr
      have hmem := mem_of_readable (fun pkt hpkt => (hall pkt hpkt).1) hsr
      rw [(hall _ hmem).2 sr rfl]
      exact ⟨hl.flow, h.packets, h.octets⟩
  | toSender k recvAt clock =>
      cases hk : l.up[k]? with
      | none => exact hnothing (by simp only [Link.step, hk])
      | some d =>
          by_cases hdest : d.1 = p.senderRtcp
          · have hput : l.putDown p (.toSender k recvAt clock)
                = (l.sender.core.rtcpArm p.receiverRtcp d.2 recvAt clock).2.replies :=
              putDown_eq (by simp only [Link.step, hk, if_pos hdest]; rfl)
            obtain ⟨-, -, hreplies⟩ := l.sender.core.rtcpArm_peer p.receiverRtcp d.2 recvAt clock
            intro e he sr hsr
            obtain ⟨req, delay, rfl⟩ := hreplies e (hput ▸ he)
            obtain heq | ⟨resp, heq⟩ := mem_of_readable_echoReply hsr <;> exact absurd heq (by simp)
          · exact hnothing (by simp only [Link.step, hk, if_neg hdest])
  | rtp ds arrivedAt now =>
      refine hnothing ?_
      simp only [Link.step]
      split <;> rfl
  | toReceiver k now clock =>
      refine hnothing ?_
      simp only [Link.step]
      split
      · rfl
      · split <;> rfl
  | media payload now => exact hnothing rfl
  | pump now => exact hnothing rfl
  | receiverReport now => exact hnothing rfl
  | drain now => exact hnothing rfl

/-- A compound of the receiver begins with a report it has just made, and has no other. -/
structure Reported (p : Peers) (r : ReceiverState) (now : Instant) (d : SocketAddr × Bytes)
    (rest : List RtcpPacket) : Prop where
  bytes : d.2 = RtcpCompound.serialize
    (.receiverReport (r.media.rtcp.generateRr p.receiverSsrc now).2 :: rest)
  each : ∀ pkt ∈ RtcpPacket.receiverReport (r.media.rtcp.generateRr p.receiverSsrc now).2 :: rest,
    pkt.Encodable ∧
      ∀ rr, pkt = .receiverReport rr → rr = (r.media.rtcp.generateRr p.receiverSsrc now).2

theorem Reported.eq {r : ReceiverState} {now : Instant} {d : SocketAddr × Bytes}
    {rest : List RtcpPacket} (h : Reported p r now d rest) {rr : ReceiverReport}
    (hrr : .receiverReport rr ∈ readable d) :
    rr = (r.media.rtcp.generateRr p.receiverSsrc now).2 := by
  obtain ⟨dest, bytes⟩ := d
  obtain rfl := h.bytes
  exact (h.each _ (mem_of_readable (fun pkt hpkt => (h.each pkt hpkt).1) hrr)).2 rr rfl

/-- The receiver's slow timer sends a report when it knows where to. -/
theorem putUp_receiverReport (p : Peers) (l : Link) (now : Instant) :
    (l.receiver.senderRtcpAddr = none ∧ l.putUp p (.receiverReport now) = []) ∨
    ∃ d rest, l.putUp p (.receiverReport now) = [d] ∧ Reported p l.receiver now d rest := by
  have hput : l.putUp p (.receiverReport now) = onSocket
      (l.receiver.reportArm p.receiverSsrc p.receiverCname p.receiverEcho now).2 := putUp_eq rfl
  rcases ReceiverState.reportArm_cases p.receiverSsrc p.receiverCname p.receiverEcho l.receiver now
    with ⟨haddr, harm⟩ | ⟨_, _, _, -, hechoes, harm⟩
  · rw [hput, harm]
    exact Or.inl ⟨haddr, rfl⟩
  · rw [hput, harm]
    exact Or.inr ⟨_, _, rfl, rfl, hechoes.forall
      ⟨generateRr_encodable l.receiver.media.rtcp p.receiverSsrc now,
        fun _ heq => (RtcpPacket.receiverReport.inj heq).symm⟩
      ⟨p.receiverCname_le, nofun⟩ fun _ => ⟨trivial, nofun⟩⟩

theorem Linked.putUp_pump (hl : Linked p ssrc first l) (now : Instant) :
    ∀ d ∈ l.putUp p (.pump now), ∃ rest, Reported p l.receiver now d rest := by
  have hput : l.putUp p (.pump now) = onSocket (l.receiver.pumpArm p.receiverSsrc now).2 :=
    putUp_eq rfl
  have hsorted := NackScheduler.getPendingNacks_sorted hl.hears.asks.bits hl.hears.asks.owned now
    l.receiver.rtt.srtt
  have hnack := hl.knows.nackFor_requests hl.hears.sent p.receiverSsrc hsorted
    fun q hq => hl.hears.asks.pending hq
  intro d hd
  rw [hput] at hd
  rcases ReceiverState.pumpArm_cases p.receiverSsrc l.receiver now with ⟨-, harm⟩ | ⟨-, harm⟩ |
    ⟨_, -, -, harm⟩
  · rw [harm] at hd
    exact absurd hd List.not_mem_nil
  · rw [harm] at hd
    exact absurd hd List.not_mem_nil
  · rw [harm] at hd
    rw [List.mem_singleton.mp hd]
    refine ⟨_, rfl, ?_⟩
    intro pkt hpkt
    simp only [List.mem_cons, List.not_mem_nil, or_false] at hpkt
    obtain rfl | rfl := hpkt
    · exact ⟨generateRr_encodable l.receiver.media.rtcp p.receiverSsrc now,
        fun _ heq => (RtcpPacket.receiverReport.inj heq).symm⟩
    · exact ⟨hnack.1, nofun⟩

/-- What the receiver sends in a step answers the last report read, and speaks of what has
been received. -/
theorem Honest.answers (h : Honest first read l) (hl : Linked p ssrc first l) (op : LinkOp) :
    ∀ d ∈ l.putUp p op, ∀ rr, .receiverReport rr ∈ readable d → ∀ b ∈ rr.reports,
      Answers ssrc read b ∧ SpeaksOf first l.received b := by
  have hnothing : (l.step p op).up = l.up →
      ∀ d ∈ l.putUp p op, ∀ rr, .receiverReport rr ∈ readable d → ∀ b ∈ rr.reports,
        Answers ssrc read b ∧ SpeaksOf first l.received b := by
    intro hsame d hd
    rw [putUp_eq (hsame.trans (List.append_nil _).symm)] at hd
    exact absurd hd List.not_mem_nil
  have hreported : ∀ {d rest now rr}, Reported p l.receiver now d rest →
      .receiverReport rr ∈ readable d → ∀ b ∈ rr.reports,
        Answers ssrc read b ∧ SpeaksOf first l.received b := by
    intro d rest now rr hd hrr
    rw [hd.eq hrr]
    exact h.follows.answers hl.knows.reported p.receiverSsrc now
  cases op with
  | toReceiver k now clock =>
      cases hk : l.down[k]? with
      | none => exact hnothing (by simp only [Link.step, hk])
      | some d =>
          by_cases hdest : d.1 = p.receiverRtcp
          · have hput : l.putUp p (.toReceiver k now clock) = (l.receiver.rtcpArm p.pinned
                p.receiverSsrc p.senderRtcp d.2 now clock).2 :=
              putUp_eq (by simp only [Link.step, hk, if_pos hdest])
            obtain ⟨-, -, hreplies⟩ := hl.knows.rtcpArm p.receiverSsrc
              (hl.down _ (List.mem_of_getElem? hk)) now clock
            intro e he rr hrr
            obtain ⟨req, delay, rfl⟩ := hreplies e (hput ▸ he)
            -- the report in front of an echo reply is empty
            obtain heq | ⟨resp, heq⟩ := mem_of_readable_echoReply hrr
            · rw [RtcpPacket.receiverReport.inj heq]
              exact fun b hb => absurd hb List.not_mem_nil
            · exact absurd heq (by simp)
          · exact hnothing (by simp only [Link.step, hk, if_neg hdest])
  | pump now =>
      intro d hd rr hrr
      obtain ⟨rest, hreport⟩ := hl.putUp_pump now d hd
      exact hreported hreport hrr
  | receiverReport now =>
      intro d hd rr hrr
      rcases putUp_receiverReport p l now with ⟨-, hput⟩ | ⟨e, rest, hput, hreport⟩
      · rw [hput] at hd
        exact absurd hd List.not_mem_nil
      · rw [hput, List.mem_singleton] at hd
        exact hreported (hd ▸ hreport) hrr
  | toSender k recvAt clock =>
      refine hnothing ?_
      simp only [Link.step]
      split
      · rfl
      · split <;> rfl
  | rtp ds arrivedAt now =>
      refine hnothing ?_
      simp only [Link.step]
      split <;> rfl
  | media payload now => exact hnothing rfl
  | senderReport now wallClock => exact hnothing rfl
  | drain now => exact hnothing rfl

/-- The timers do report. -/
theorem Linked.senderReport_readable (hl : Linked p ssrc first l) (now : Instant)
    (wallClock : SystemTime) :
    ∃ d ∈ l.putDown p (.senderReport now wallClock), ∃ sr, .senderReport sr ∈ readable d := by
  obtain ⟨rest, hput, hall⟩ := hl.putDown_senderReport now wallClock
  rw [hput]
  refine ⟨_, List.mem_cons_self, _, readable_cons (fun pkt hpkt => (hall pkt hpkt).1) ?_
    p.receiverRtcp⟩
  simp only [(SenderReport.encodes _).length, List.length_append, length_putU32]
  decide

theorem Linked.receiverReport_readable (hl : Linked p ssrc first l) (hne : l.received ≠ [])
    (now : Instant) :
    ∃ d ∈ l.putUp p (.receiverReport now), ∃ rr, .receiverReport rr ∈ readable d ∧
      ∃ b, b ∈ rr.reports := by
  have haddr : l.receiver.senderRtcpAddr = some p.senderRtcp := hl.knows.paired (hl.known hne)
  obtain ⟨b, hfits, hrr⟩ :=
    RtcpReceiverState.generateRr_block (hl.hears.begun hne) p.receiverSsrc now
  rcases putUp_receiverReport p l now with ⟨hnone, -⟩ | ⟨⟨dest, bytes⟩, rest, hput, hbytes, heach⟩
  · exact absurd (haddr.symm.trans hnone) (by simp)
  · obtain rfl := hbytes
    rw [hrr] at heach hput
    rw [hput]
    refine ⟨_, List.mem_cons_self, _, readable_cons (fun pkt hpkt => (heach pkt hpkt).1) ?_ dest, b,
      List.mem_cons_self⟩
    rw [ReceiverReport.length_block p.receiverSsrc hfits]
    decide

/-! ### Runs -/

variable {seq : UInt16} {capacity : Nat} {rtcpInterval : Duration} {tsEpoch : Instant}
  {tsEpochSystem : SystemTime} {bufferSize : Duration} {maxNackRetries : UInt32} {now : Instant}

theorem start_honest (p : Peers) (ssrc : UInt32) (seq : UInt16) (capacity : Nat)
    (rtcpInterval : Duration) (tsEpoch : Instant) (tsEpochSystem : SystemTime)
    (bufferSize : Duration) (maxNackRetries : UInt32) (now : Instant) :
    Honest seq [] (start p ssrc seq capacity rtcpInterval tsEpoch tsEpochSystem bufferSize
      maxNackRetries now) := by
  obtain ⟨h1, h2, h3, -⟩ := Recording.start_fresh bufferSize
    (show ReorderBuffer.defaultCapacity ≤ 16384 by decide)
  exact ⟨rfl, rfl, Heard.recalls_of_waits ⟨h1, h2, h3, rfl⟩, RtcpReceiverState.follows_new⟩

theorem honest_run {ops : List LinkOp}
    (hfair : Run.Along (Link.step p) Fair (start p ssrc seq capacity rtcpInterval tsEpoch
      tsEpochSystem bufferSize maxNackRetries now) ops) :
    let s := start p ssrc seq capacity rtcpInterval tsEpoch tsEpochSystem bufferSize maxNackRetries
      now
    Linked p (ssrc &&& ~~~1) seq (Run.final (Link.step p) s ops) ∧
      Honest seq (Run.emitted (Link.step p) (reads p) s ops) (Run.final (Link.step p) s ops) := by
  intro s
  have hboth : _ ∧ Honest seq ([] ++ Run.emitted (Link.step p) (reads p) s ops) _ :=
    Run.emitted_invariant
      (I := fun l read => Linked p (ssrc &&& ~~~1) seq l ∧ Honest seq read l)
      (fun _ _ _ h hf => ⟨h.1.step hf, h.2.step h.1 hf⟩)
      ⟨start_linked p ssrc seq capacity rtcpInterval tsEpoch tsEpochSystem bufferSize maxNackRetries
        now, start_honest p ssrc seq capacity rtcpInterval tsEpoch tsEpochSystem bufferSize
        maxNackRetries now⟩ hfair
  exact hboth

/-- What is on a wire was put there by a step. -/
theorem mem_down {d : SocketAddr × Bytes} {ops : List LinkOp} {s : Link} (hs : s.down = [])
    (hd : d ∈ (Run.final (Link.step p) s ops).down) :
    ∃ pre op post, ops = pre ++ op :: post ∧ d ∈ (Run.final (Link.step p) s pre).putDown p op := by
  rw [Run.log_eq_emitted (step_down p), hs] at hd
  exact Run.mem_emitted hd

theorem mem_up {d : SocketAddr × Bytes} {ops : List LinkOp} {s : Link} (hs : s.up = [])
    (hd : d ∈ (Run.final (Link.step p) s ops).up) :
    ∃ pre op post, ops = pre ++ op :: post ∧ d ∈ (Run.final (Link.step p) s pre).putUp p op := by
  rw [Run.log_eq_emitted (step_up p), hs] at hd
  exact Run.mem_emitted hd

/-! ### The results -/

/-- **What the peers report of each other is so**, at every step of a run.  A report that the
sender sends counts all of the payloads so far, retransmissions apart, as far as 32 bits go.
A block that the receiver sends names the flow and the time of the last report it has read,
and neither before it has read one.  The timers do report, the receiver's once it has
received a packet; and nothing else is on the control wires. -/
theorem reports_are_true (p : Peers) (ssrc : UInt32) (seq : UInt16) (capacity : Nat)
    (rtcpInterval : Duration) (tsEpoch : Instant) (tsEpochSystem : SystemTime)
    (bufferSize : Duration) (maxNackRetries : UInt32) (now : Instant) (ops : List LinkOp)
    (hfair : Run.Along (Link.step p) Fair (start p ssrc seq capacity rtcpInterval tsEpoch
      tsEpochSystem bufferSize maxNackRetries now) ops) :
    let s := start p ssrc seq capacity rtcpInterval tsEpoch tsEpochSystem bufferSize maxNackRetries
      now
    (∀ pre op post, ops = pre ++ op :: post →
      let l := Run.final (Link.step p) s pre
      let read := Run.emitted (Link.step p) (reads p) s pre
      (∀ d ∈ l.putDown p op, ∀ sr, .senderReport sr ∈ readable d →
        CountsAll (ssrc &&& ~~~1) l.payloads sr) ∧
      (∀ d ∈ l.putUp p op, ∀ rr, .receiverReport rr ∈ readable d → ∀ b ∈ rr.reports,
        Answers (ssrc &&& ~~~1) read b) ∧
      (∀ now wallClock, op = .senderReport now wallClock →
        ∃ d ∈ l.putDown p op, ∃ sr, .senderReport sr ∈ readable d) ∧
      (∀ now, op = .receiverReport now → l.received ≠ [] →
        ∃ d ∈ l.putUp p op, ∃ rr, .receiverReport rr ∈ readable d ∧ ∃ b, b ∈ rr.reports)) ∧
    (∀ d ∈ (Run.final (Link.step p) s ops).down, ∃ pre op post, ops = pre ++ op :: post ∧
      d ∈ (Run.final (Link.step p) s pre).putDown p op) ∧
    (∀ d ∈ (Run.final (Link.step p) s ops).up, ∃ pre op post, ops = pre ++ op :: post ∧
      d ∈ (Run.final (Link.step p) s pre).putUp p op) := by
  intro s
  refine ⟨?_, fun d hd => mem_down rfl hd, fun d hd => mem_up rfl hd⟩
  rintro pre op post rfl
  obtain ⟨hl, h⟩ := honest_run (Run.along_append.mp hfair).1
  refine ⟨h.counts hl op, ?_, ?_, ?_⟩
  · intro d hd rr hrr b hb
    exact (h.answers hl op d hd rr hrr b hb).1
  · rintro now wallClock rfl
    exact hl.senderReport_readable now wallClock
  · rintro now rfl hne
    exact hl.receiverReport_readable hne now

/-- Three payloads of a byte each are reported, and the report is answered. -/
theorem reports_are_true_overtaken :
    (∃ d ∈ (Run.final (Link.step lan) fresh (overtaken.take 3)).putDown lan (.senderReport 0 0),
      ∃ sr, .senderReport sr ∈ readable d ∧ sr.ssrc = 8 ∧ sr.senderPacketCount = 3 ∧
        sr.senderOctetCount = 3) ∧
    ∃ d ∈ (Run.final (Link.step lan) fresh overtaken).putUp lan (.receiverReport 0),
      ∃ rr, .receiverReport rr ∈ readable d ∧
        ∃ b ∈ rr.reports, b.ssrc = 8 ∧ b.lastSr = 0x7E800000 := by
  obtain ⟨hsteps, -, -⟩ := reports_are_true lan 8 65535 16 100000000 0 0 50000000 10 0
    (overtaken ++ [.receiverReport 0]) (overtaken_fair _ (by decide) (by decide))
  constructor
  · obtain ⟨hcounts, -, hsent, -⟩ := hsteps (overtaken.take 3) (.senderReport 0 0)
      (overtaken.drop 4 ++ [.receiverReport 0]) rfl
    obtain ⟨d, hd, sr, hsr⟩ := hsent 0 0 rfl
    obtain ⟨hflow, hpackets, hoctets⟩ := hcounts d hd sr hsr
    exact ⟨d, hd, sr, hsr, hflow, hpackets, hoctets⟩
  · obtain ⟨-, hanswers, -, hsent⟩ := hsteps overtaken (.receiverReport 0) [] rfl
    have hread : ((Run.emitted (Link.step lan) (reads lan) fresh overtaken).getLast?).map
        SenderReport.compactNtp = some 0x7E800000 := by decide +kernel
    obtain ⟨sr, hlast, hntp⟩ := Option.map_eq_some_iff.mp hread
    obtain ⟨d, hd, rr, hrr, b, hb⟩ := hsent 0 rfl
      (show (Run.final (Link.step lan) fresh overtaken).received ≠ [] by decide +kernel)
    obtain ⟨hflow, hnamed⟩ := (hanswers d hd rr hrr b hb).lastRead sr hlast
    exact ⟨d, hd, rr, hrr, b, hb, hflow, hnamed.trans hntp⟩

/-- **Loss is never made up.**  Every block that the receiver sends in a step speaks of what
had been received by then: its highest number is the newest packet's, counted on from the
first one's, and at least as many packets between these two had not come as it says are
lost. -/
theorem loss_is_never_made_up (p : Peers) (ssrc : UInt32) (seq : UInt16) (capacity : Nat)
    (rtcpInterval : Duration) (tsEpoch : Instant) (tsEpochSystem : SystemTime)
    (bufferSize : Duration) (maxNackRetries : UInt32) (now : Instant) (ops : List LinkOp)
    (hfair : Run.Along (Link.step p) Fair (start p ssrc seq capacity rtcpInterval tsEpoch
      tsEpochSystem bufferSize maxNackRetries now) ops) :
    let s := start p ssrc seq capacity rtcpInterval tsEpoch tsEpochSystem bufferSize maxNackRetries
      now
    let l := Run.final (Link.step p) s ops
    l.received.length < 4294967296 →
    (∀ d ∈ l.up, ∃ pre op post, ops = pre ++ op :: post ∧
      d ∈ (Run.final (Link.step p) s pre).putUp p op) ∧
    ∀ pre op post, ops = pre ++ op :: post →
      let heard := (Run.final (Link.step p) s pre).received
      heard <+: l.received ∧
      ∀ d ∈ (Run.final (Link.step p) s pre).putUp p op, ∀ packets,
        RtcpCompound.parse (d.2.take maxUdpRecv) = .ok packets →
        ∀ rr, .receiverReport rr ∈ packets → ∀ b ∈ rr.reports,
          ∃ i, heard.head? = some i ∧
            b.extendedHighestSeq
              = UInt32.ofNat ((seq + UInt16.ofNat i).toNat + (Heard.newest heard - i)) ∧
            b.cumulativeLost.toInt
              ≤ ((Finset.Icc i (Heard.newest heard) \ heard.toFinset).card : Int) := by
  intro s l hlen
  refine ⟨fun d hd => mem_up rfl hd, ?_⟩
  rintro pre op post rfl
  obtain ⟨hl, h⟩ := honest_run (Run.along_append.mp hfair).1
  have hgrown : (Run.final (Link.step p) s pre).received <+: l.received := by
    show _ <+: (Run.final (Link.step p) s (pre ++ op :: post)).received
    rw [Run.final_append]
    exact (grows_run p _ (op :: post)).received
  refine ⟨hgrown, ?_⟩
  intro d hd packets hparse rr hrr b hb
  obtain ⟨i, hhead, hext, hlost⟩ :=
    (h.answers hl op d hd rr (mem_readable_iff.mpr ⟨packets, hparse, hrr⟩) b hb).2
  exact ⟨i, hhead, hext, hlost (hgrown.length_le.trans_lt hlen)⟩

/-- The first and the third packet have come, with a wrap between them: the highest number is
65537, and no more than one packet is said to be lost. -/
theorem loss_is_never_made_up_overtaken :
    ∃ d ∈ (Run.final (Link.step lan) fresh overtaken).putUp lan (.receiverReport 0),
      ∃ packets, RtcpCompound.parse (d.2.take maxUdpRecv) = .ok packets ∧
      ∃ rr, .receiverReport rr ∈ packets ∧ ∃ b ∈ rr.reports,
        b.extendedHighestSeq = 65537 ∧ b.cumulativeLost.toInt ≤ 1 := by
  have hfair : Run.Along (Link.step lan) Fair (start lan 8 65535 16 100000000 0 0 50000000 10 0)
      (overtaken ++ [.receiverReport 0]) := overtaken_fair _ (by decide) (by decide)
  have hheard : (Run.final (Link.step lan) fresh overtaken).received = [0, 2] := by decide +kernel
  have htrue := loss_is_never_made_up lan 8 65535 16 100000000 0 0 50000000 10 0 _ hfair
  dsimp only at htrue
  have hblocks := ((htrue (by decide +kernel)).2 overtaken (.receiverReport 0) [] rfl).2
  have hl := linked_run (Run.along_append.mp hfair).1
  obtain ⟨d, hd, rr, hrr, b, hb⟩ := hl.receiverReport_readable
    (show (Run.final (Link.step lan) fresh overtaken).received ≠ [] by rw [hheard]; decide) 0
  obtain ⟨packets, hparse, hmem⟩ := mem_readable_iff.mp hrr
  obtain ⟨i, hi, hext, hlost⟩ := hblocks d hd packets hparse rr hmem b hb
  have hstart : start lan 8 65535 16 100000000 0 0 50000000 10 0 = fresh := rfl
  rw [hstart, hheard] at hi hext hlost
  obtain rfl : 0 = i := Option.some.inj hi
  have hnumber :
      UInt32.ofNat ((65535 + UInt16.ofNat 0).toNat + (Heard.newest [0, 2] - 0)) = 65537 := by
    decide
  have hmissing : (Finset.Icc 0 (Heard.newest [0, 2]) \ [0, 2].toFinset).card = 1 := by decide
  rw [hmissing] at hlost
  exact ⟨d, hd, packets, hparse, rr, hmem, b, hb, hext.trans hnumber, hlost⟩

end Link

end Rist
