/-
The loop is closed.

`Linked` is what every run of two peers keeps.  The peers hold on to each other's
addresses, so that every control datagram goes to the other one's socket and is admitted
there; each finds its own flow in what it reads; and every number the receiver asks for is
that of a packet it has skipped and not received.  The media of the link is a session, so
what is delivered is what was sent.
-/
import Rist.Proofs.Link.Control
import Rist.Proofs.Sender.Ring

namespace Rist

open Session

/-- The payload an operation takes from the application. -/
def LinkOp.sends : LinkOp → List Bytes
  | .media payload _ => [payload]
  | _ => []

namespace Link

/-- What a run of two peers keeps. -/
structure Linked (p : Peers) (ssrc : UInt32) (first : UInt16) (l : Link) : Prop where
  hears : Hears ssrc first l.heard l.receiver.media
  /-- A number stands for the last packet sent under it. -/
  latest : ∀ i < l.payloads.length, i ≤ l.origin (first + UInt16.ofNat i)
  ring : ∃ packets, l.sender.core.retransmitBuf.Current first packets ∧
    packets.length = l.payloads.length
  short : ∀ payload ∈ l.payloads, payload.length ≤ 2036
  rtpDest : l.sender.core.remoteRtpAddr = p.receiverRtp
  rtcpDest : l.sender.core.remoteRtcpAddr = p.receiverRtcp
  flow : l.sender.reports.ssrc = ssrc
  cname : l.sender.reports.cname = p.senderCname
  knows : l.receiver.Knows p ssrc
  known : l.received ≠ [] → l.receiver.senderRtpAddr ≠ none
  down : ∀ d ∈ l.down, Conveys p.receiverRtcp (Tells ssrc) d
  up : ∀ d ∈ l.up, Conveys p.senderRtcp (Requests ssrc first l.payloads.length) d

variable {p : Peers} {ssrc : UInt32} {first : UInt16} {l : Link}

/-! ### The sender's arms -/

theorem latest_update {origin : UInt16 → Nat} {n : Nat}
    (h : ∀ i < n, i ≤ origin (first + UInt16.ofNat i)) :
    ∀ i < n + 1, i ≤ Function.update origin (first + UInt16.ofNat n) n (first + UInt16.ofNat i) := by
  intro i hi
  by_cases heq : first + UInt16.ofNat i = first + UInt16.ofNat n
  · rw [heq, Function.update_self]
    exact Nat.le_of_lt_succ hi
  · rw [Function.update_of_ne heq]
    refine h i (Nat.lt_of_le_of_ne (Nat.le_of_lt_succ hi) ?_)
    rintro rfl
    exact heq rfl

theorem Linked.media (h : Linked p ssrc first l) {payload : Bytes} (hshort : payload.length ≤ 2036)
    (now : Instant) : Linked p ssrc first (l.step p (.media payload now)) := by
  have hnext : l.sender.core.seq = first + UInt16.ofNat l.payloads.length := h.hears.sends.next
  have hlen : (l.payloads ++ [payload]).length = l.payloads.length + 1 := List.length_append
  obtain ⟨packets, hring, hcount⟩ := h.ring
  have hsends := h.hears.sends.send payload
    (ntpToRtp90k l.sender.reports.rtpTsEpochSystem l.sender.reports.rtpTsEpoch now)
  refine ⟨⟨hsends, h.hears.placed.append rfl rfl rfl rfl rfl, h.hears.buffer, h.hears.asks, ?_,
    h.hears.begun⟩, ?_, ?_, ?_, h.rtpDest, h.rtcpDest, h.flow, h.cname, h.knows, h.known, h.down, ?_⟩
  · intro i hi
    show i < (l.payloads ++ [payload]).length
    rw [hlen]
    exact Nat.lt_succ_of_lt (h.hears.sent i hi)
  · show ∀ i < (l.payloads ++ [payload]).length,
      i ≤ Function.update l.origin l.sender.core.seq l.payloads.length (first + UInt16.ofNat i)
    rw [hlen, hnext]
    exact latest_update h.latest
  · refine ⟨packets ++ [(l.sender.mediaArm payload now).2.2], ?_, ?_⟩
    · have hinsert := hring.insert (l.sender.mediaArm payload now).2.2
      rw [hcount] at hinsert
      unfold RetransmitBuffer.numbered at hinsert
      rw [← hnext] at hinsert
      exact hinsert
    · show (packets ++ [_]).length = (l.payloads ++ [payload]).length
      rw [List.length_append, List.length_append, hcount]
      rfl
  · intro x hx
    rcases List.mem_append.mp hx with hx | hx
    · exact h.short x hx
    · rw [List.mem_singleton.mp hx]
      exact hshort
  · intro d hd
    refine (h.up d hd).mono (Requests.mono ?_)
    show l.payloads.length ≤ (l.payloads ++ [payload]).length
    rw [hlen]
    exact Nat.le_succ _

theorem Linked.senderReport (h : Linked p ssrc first l) (now : Instant) (wallClock : SystemTime) :
    Linked p ssrc first (l.step p (.senderReport now wallClock)) := by
  obtain ⟨rtt, echoes, hechoes, harm⟩ :=
    SendTask.reportArm_spec p.senderEcho l.sender now wallClock
  have hname : (Sdes.cnameBytes ⟨l.sender.reports.ssrc, l.sender.reports.cname⟩).length ≤ 255 := by
    rw [h.cname]
    exact p.senderCname_le
  simp only [Link.step, harm]
  refine ⟨⟨⟨h.hears.sends.flow, h.hears.sends.next, h.hears.sends.ring, h.hears.sends.network⟩,
    h.hears.placed.append rfl rfl rfl rfl (List.append_nil _).symm, h.hears.buffer, h.hears.asks,
    h.hears.sent, h.hears.begun⟩, h.latest, h.ring, h.short, h.rtpDest, h.rtcpDest, h.flow, h.cname,
    h.knows, h.known, ?_, h.up⟩
  intro d hd
  rcases List.mem_append.mp hd with hd | hd
  · exact h.down d hd
  · rw [List.mem_singleton.mp hd]
    exact ⟨h.rtcpDest, _, rfl, hechoes.forall ⟨trivial, h.flow⟩ ⟨hname, trivial⟩
      fun _ => ⟨trivial, trivial⟩⟩

theorem Linked.toSender (h : Linked p ssrc first l) (k : Nat) (recvAt : Instant)
    (clock : Nat → Instant) : Linked p ssrc first (l.step p (.toSender k recvAt clock)) := by
  simp only [Link.step]
  split
  · exact h
  · rename_i dest bytes _
    split
    · obtain ⟨hwork, hring, -, -⟩ := rtcpArm_work l.sender.core p.receiverRtcp bytes recvAt clock
      obtain ⟨hrtp, hrtcp, hreplies⟩ :=
        l.sender.core.rtcpArm_peer p.receiverRtcp bytes recvAt clock
      have hsends := h.hears.sends.step (.rtcp p.receiverRtcp bytes recvAt clock)
      refine ⟨⟨hsends, h.hears.placed.append rfl rfl rfl rfl (List.append_nil _).symm,
        h.hears.buffer, h.hears.asks, h.hears.sent, h.hears.begun⟩, h.latest, ?_, h.short,
        hrtp.trans h.rtpDest, ?_, h.flow, h.cname, h.knows, h.known, ?_, h.up⟩
      · obtain ⟨packets, hcur, hcount⟩ := h.ring
        exact ⟨packets, hring.symm ▸ hcur, hcount⟩
      · rcases hrtcp with hrtcp | hrtcp
        · exact hrtcp.trans h.rtcpDest
        · exact hrtcp
      · intro d hd
        rcases List.mem_append.mp hd with hd | hd
        · exact h.down d hd
        · obtain ⟨req, delay, rfl⟩ := hreplies d hd
          exact echoReply_conveys (fun _ => trivial) (fun _ => trivial) _ _ req delay
    · exact h

/-! ### The receiver's arms -/

theorem nackTargetsUs_retransmit (ssrc : UInt32) : nackTargetsUs (ssrc ||| 1) ssrc = true := by
  refine (nackTargetsUs_iff _ _).mpr (Or.inr (UInt32.toBitVec_inj.mp ?_))
  show (ssrc.toBitVec ||| 1#32) &&& ~~~1#32 = ssrc.toBitVec &&& ~~~1#32
  rw [BitVec.and_or_distrib_right]
  simp

/-- Every datagram of the media wire is read whole, and shows the flow. -/
theorem Linked.parse (h : Linked p ssrc first l) {d : Nat × UInt64} (hd : d.1 < l.network.length) :
    ∃ q, (l.datagram p d).parse = some q ∧ Hears.parsed l.network d = some q ∧
      nackTargetsUs q.ssrc ssrc = true := by
  have hf : l.network[d.1]? = some (l.network.get ⟨d.1, hd⟩) := List.getElem?_eq_getElem hd
  obtain ⟨payload, timestamp, hpay, hcopy⟩ := h.hears.sends.network _ (List.mem_of_getElem? hf)
  -- a copy of either kind is the header and the payload, under one flow or the other
  obtain ⟨flow, hflow, hbytes⟩ : ∃ flow, nackTargetsUs flow ssrc = true ∧
      (l.network.get ⟨d.1, hd⟩).bytes
        = wire flow (first + UInt16.ofNat (l.network.get ⟨d.1, hd⟩).index) timestamp payload := by
    rcases hcopy with hcopy | hcopy
    · exact ⟨ssrc, (nackTargetsUs_iff _ _).mpr (Or.inr rfl), hcopy⟩
    · exact ⟨ssrc ||| 1, nackTargetsUs_retransmit ssrc, by rw [hcopy, retxCopy_wire]⟩
  have hshort : (l.network.get ⟨d.1, hd⟩).bytes.length ≤ maxUdpRecv := by
    have hle := h.short payload (List.mem_of_getElem? hpay)
    rw [hbytes, wire_length]
    show _ ≤ 2048
    omega
  have hparse := parseRtp_wire flow (first + UInt16.ofNat (l.network.get ⟨d.1, hd⟩).index) timestamp
    payload d.2
  refine ⟨⟨first + UInt16.ofNat (l.network.get ⟨d.1, hd⟩).index, flow, timestamp, payload, d.2,
    payload.length, decide (flow &&& 1 ≠ 0)⟩, ?_, ?_, hflow⟩
  · unfold Datagram.parse datagram
    rw [hf]
    show parseRtp ((l.network.get ⟨d.1, hd⟩).bytes.take maxUdpRecv) d.2 = _
    rw [List.take_of_length_le hshort, hbytes]
    exact hparse
  · unfold Hears.parsed
    rw [hf]
    show parseRtp (l.network.get ⟨d.1, hd⟩).bytes d.2 = _
    rw [hbytes]
    exact hparse

theorem mem_onWire {ds : List (Nat × UInt64)} {d : Nat × UInt64} (h : d ∈ l.onWire ds) :
    d.1 < l.network.length := by
  simpa using (List.mem_filter.mp h).2

/-- The packets a burst hands over are those of its datagrams, up to the batch size. -/
theorem Linked.burst (h : Linked p ssrc first l) {ds : List (Nat × UInt64)} {d : Nat × UInt64}
    {queued : List (Nat × UInt64)} (hds : l.onWire ds = d :: queued) :
    ReceiverState.burst (l.datagram p d) (queued.map (l.datagram p))
      = ((l.onWire ds).take maxBatch).filterMap (Hears.parsed l.network) := by
  have hwire : ∀ e ∈ d :: queued, e.1 < l.network.length := fun e he => mem_onWire (hds ▸ he)
  have hparse : ∀ e ∈ d :: queued, (l.datagram p e).parse = Hears.parsed l.network e := by
    intro e he
    obtain ⟨q, h1, h2, -⟩ := h.parse (hwire e he)
    exact h1.trans h2.symm
  rw [ReceiverState.burst_of_parses, hds, ← List.map_cons, ← List.map_take, List.filterMap_map]
  · refine List.filterMap_congr fun e he => ?_
    exact hparse e (List.mem_of_mem_take he)
  · intro e he
    obtain ⟨e', -, rfl⟩ := List.mem_map.mp he
    rfl
  · intro e he
    rw [← List.map_cons] at he
    obtain ⟨e', he', rfl⟩ := List.mem_map.mp he
    obtain ⟨q, hq, -, -⟩ := h.parse (hwire e' he')
    rw [hq]
    simp

/-- Hearing a burst leaves the sender and the network alone. -/
theorem heard_final (now : Instant) (ds : List (Nat × UInt64)) : ∀ h : Heard,
    (Run.final (Heard.hear now) h ds).session
      = { h.session with
            buffer := (Run.final (Heard.hear now) h ds).session.buffer
            baseIndex := (Run.final (Heard.hear now) h ds).session.baseIndex } := by
  induction ds with
  | nil => intro h; rfl
  | cons d ds ih =>
      intro h
      rw [Run.final_cons, ih, Heard.hear_fields]

/-- What has been received only grows. -/
theorem heard_received (now : Instant) (ds : List (Nat × UInt64)) : ∀ h : Heard,
    h.received <+: (Run.final (Heard.hear now) h ds).received := by
  induction ds with
  | nil => intro h; exact List.prefix_rfl
  | cons d ds ih => exact fun h => (List.prefix_append _ _).trans (ih (Heard.hear now h d))

/-- What the receive task makes of a burst is what was heard. -/
theorem Linked.batch (h : Linked p ssrc first l) {ds : List (Nat × UInt64)} {d : Nat × UInt64}
    {queued : List (Nat × UInt64)} (hds : l.onWire ds = d :: queued) {arrivedAt now : Instant}
    (hfair : l.Fair (.rtp ds arrivedAt now)) :
    (l.receiver.rtpArm p.pinned (l.datagram p d) (queued.map (l.datagram p)) arrivedAt now).Knows
      p ssrc ∧
    (l.receiver.rtpArm p.pinned (l.datagram p d) (queued.map (l.datagram p)) arrivedAt
      now).senderRtpAddr ≠ none ∧
    Hears ssrc first (l.heardAfter ds now) (l.receiver.rtpArm p.pinned (l.datagram p d)
      (queued.map (l.datagram p)) arrivedAt now).media := by
  obtain ⟨q, hparse, -, htarget⟩ := h.parse (mem_onWire (hds ▸ List.mem_cons_self))
  obtain ⟨hknows, hlatched, hmedia⟩ := h.knows.rtpArm rfl hparse htarget
    (queued.map (l.datagram p)) arrivedAt now
  refine ⟨hknows, hlatched, ?_⟩
  rw [hmedia, h.burst hds]
  exact h.hears.batch ((l.onWire ds).take maxBatch)
    (fun e he => mem_onWire (List.mem_of_mem_take he)) hfair

theorem Linked.heard_rtp (h : Linked p ssrc first l) {ds : List (Nat × UInt64)}
    {arrivedAt now : Instant} (hfair : l.Fair (.rtp ds arrivedAt now)) :
    (l.step p (.rtp ds arrivedAt now)).heard = l.heardAfter ds now := by
  cases hds : l.onWire ds with
  | nil =>
      simp only [Link.step, heardAfter, hds]
      rfl
  | cons d queued =>
      obtain ⟨-, -, hbatch⟩ := h.batch hds hfair
      have hheard : (l.heardAfter ds now).session
          = { l.session with buffer := (l.heardAfter ds now).session.buffer
                             baseIndex := (l.heardAfter ds now).session.baseIndex } :=
        heard_final now _ l.heard
      simp only [Link.step, hds]
      show (⟨{ l.session with
            buffer := (l.receiver.rtpArm p.pinned (l.datagram p d) (queued.map (l.datagram p))
              arrivedAt now).media.reorder
            baseIndex := (l.heardAfter ds now).session.baseIndex },
          (l.heardAfter ds now).received⟩ : Heard) = l.heardAfter ds now
      rw [← hbatch.buffer, ← hheard]

theorem Linked.rtp (h : Linked p ssrc first l) (ds : List (Nat × UInt64)) (arrivedAt : Instant)
    {now : Instant} (hfair : l.Fair (.rtp ds arrivedAt now)) :
    Linked p ssrc first (l.step p (.rtp ds arrivedAt now)) := by
  have hheard := h.heard_rtp hfair
  cases hds : l.onWire ds with
  | nil =>
      simp only [Link.step, hds]
      exact h
  | cons d queued =>
      obtain ⟨hknows, hlatched, hbatch⟩ := h.batch hds hfair
      simp only [Link.step, hds] at hheard ⊢
      refine ⟨?_, h.latest, h.ring, h.short, h.rtpDest, h.rtcpDest, h.flow, h.cname, hknows,
        fun _ => hlatched, h.down, h.up⟩
      rw [hheard]
      exact hbatch

/-- The receive task may change its trackers as long as they still say the same. -/
theorem Linked.receiver (h : Linked p ssrc first l) {r : ReceiverState} (hknows : r.Knows p ssrc)
    (hreorder : r.media.reorder = l.receiver.media.reorder)
    (hnack : NackScheduler.Asks first l.received r.media.nack)
    (hbegun : r.media.rtcp.firstPacketReceived = l.receiver.media.rtcp.firstPacketReceived)
    (hrtp : r.senderRtpAddr = l.receiver.senderRtpAddr) {more : List (SocketAddr × Bytes)}
    (hup : ∀ d ∈ more, Conveys p.senderRtcp (Requests ssrc first l.payloads.length) d) :
    Linked p ssrc first { l with receiver := r, up := l.up ++ more } := by
  have hsession : (Link.session { l with receiver := r, up := l.up ++ more }) = l.session := by
    unfold Link.session
    rw [hreorder]
  refine ⟨?_, h.latest, h.ring, h.short, h.rtpDest, h.rtcpDest, h.flow, h.cname, hknows,
    fun hne => hrtp ▸ h.known hne, h.down, ?_⟩
  · unfold Link.heard
    rw [hsession]
    exact ⟨h.hears.sends, h.hears.placed, h.hears.buffer.trans hreorder.symm, hnack, h.hears.sent,
      fun hne => hbegun.trans (h.hears.begun hne)⟩
  · intro d hd
    rcases List.mem_append.mp hd with hd | hd
    · exact h.up d hd
    · exact hup d hd

theorem Asks_of_retimed {received : List Nat} {s s' : NackScheduler}
    (h : NackScheduler.Asks first received s) (hre : Retimed s s') :
    NackScheduler.Asks first received s' := by
  obtain ⟨delay, rfl, -⟩ := hre
  exact ⟨h.bits, h.owned, h.expected, h.missing⟩

/-- A control datagram is nothing to the media path's buffer and address. -/
theorem rtcpArm_same (p : Peers) (r : ReceiverState) (bytes : Bytes) (now : Instant)
    (clock : Nat → Instant) :
    let r' := (r.rtcpArm p.pinned p.receiverSsrc p.senderRtcp bytes now clock).1
    r'.media.reorder = r.media.reorder ∧ r'.senderRtpAddr = r.senderRtpAddr := by
  rcases ReceiverState.rtcpArm_cases p.pinned p.receiverSsrc r p.senderRtcp bytes now clock with
    ⟨-, harm⟩ | ⟨-, -, hpeers⟩
  · rw [harm]
    exact ⟨rfl, rfl⟩
  · exact ⟨hpeers.reorder, hpeers.senderRtpAddr⟩

theorem Linked.toReceiver (h : Linked p ssrc first l) (k : Nat) (now : Instant)
    (clock : Nat → Instant) : Linked p ssrc first (l.step p (.toReceiver k now clock)) := by
  simp only [Link.step]
  split
  · exact h
  · rename_i dest bytes hk
    split
    · obtain ⟨hknows, hbegun, hreplies⟩ := h.knows.rtcpArm p.receiverSsrc
        (h.down _ (List.mem_of_getElem? hk)) now clock
      obtain ⟨hreorder, haddr⟩ := rtcpArm_same p l.receiver bytes now clock
      have hnack := Asks_of_retimed h.hears.asks (ReceiverState.rtcpArm_retimed p.pinned
        p.receiverSsrc l.receiver p.senderRtcp bytes now clock)
      refine h.receiver hknows hreorder hnack hbegun haddr ?_
      intro d hd
      obtain ⟨req, delay, rfl⟩ := hreplies d hd
      exact echoReply_conveys (fun _ => trivial) (fun _ => trivial) _ _ req delay
    · exact h

theorem Linked.pump (h : Linked p ssrc first l) (now : Instant) :
    Linked p ssrc first (l.step p (.pump now)) := by
  obtain ⟨hknows, hbegun, hreorder, haddr, hnack, hup⟩ :=
    h.knows.pumpArm h.hears.asks h.hears.sent p.receiverSsrc now
  exact h.receiver hknows hreorder hnack hbegun haddr hup

theorem Linked.receiverReport (h : Linked p ssrc first l) (now : Instant) :
    Linked p ssrc first (l.step p (.receiverReport now)) := by
  obtain ⟨hknows, hbegun, hreorder, haddr, hup⟩ :=
    h.knows.reportArm p.receiverSsrc p.receiverEcho now
  refine h.receiver hknows hreorder ?_ hbegun haddr hup
  rw [ReceiverState.reportArm_nack]
  exact h.hears.asks

theorem Linked.drain (h : Linked p ssrc first l) (now : Instant) :
    Linked p ssrc first (l.step p (.drain now)) :=
  ⟨⟨h.hears.sends.step (.drain now), h.hears.placed.drain now, rfl, h.hears.asks, h.hears.sent,
    h.hears.begun⟩, h.latest, h.ring, h.short, h.rtpDest, h.rtcpDest, h.flow, h.cname,
    ⟨h.knows.rtp, h.knows.rtcp, h.knows.paired, h.knows.observed, h.knows.reported⟩, h.known, h.down,
    h.up⟩

/-! ### What was sent stays sent -/

/-- Nothing is taken off the wires, and what was handed over stays handed over. -/
structure Grows (l l' : Link) : Prop where
  down : l.down <+: l'.down
  up : l.up <+: l'.up
  network : l.network <+: l'.network
  received : l.received <+: l'.received
  capacity : l'.sender.core.retransmitBuf.capacity = l.sender.core.retransmitBuf.capacity

theorem Grows.refl (l : Link) : Grows l l :=
  ⟨List.prefix_rfl, List.prefix_rfl, List.prefix_rfl, List.prefix_rfl, rfl⟩

theorem Grows.trans {l' l'' : Link} (h : Grows l l') (h' : Grows l' l'') : Grows l l'' :=
  ⟨h.down.trans h'.down, h.up.trans h'.up, h.network.trans h'.network,
    h.received.trans h'.received, h'.capacity.trans h.capacity⟩

theorem grows_step (p : Peers) (l : Link) (op : LinkOp) : Grows l (l.step p op) := by
  cases op with
  | media payload now =>
      exact ⟨List.prefix_rfl, List.prefix_rfl, List.prefix_append _ _, List.prefix_rfl, rfl⟩
  | senderReport now wallClock =>
      obtain ⟨rtt, echoes, -, harm⟩ := SendTask.reportArm_spec p.senderEcho l.sender now wallClock
      simp only [Link.step, harm]
      exact ⟨List.prefix_append _ _, List.prefix_rfl, List.prefix_rfl, List.prefix_rfl, rfl⟩
  | toSender k recvAt clock =>
      simp only [Link.step]
      split
      · exact Grows.refl l
      · rename_i dest bytes _
        split
        · obtain ⟨-, hring, -, -⟩ := rtcpArm_work l.sender.core p.receiverRtcp bytes recvAt clock
          refine ⟨List.prefix_append _ _, List.prefix_rfl, List.prefix_append _ _, List.prefix_rfl, ?_⟩
          exact congrArg RetransmitBuffer.capacity hring
        · exact Grows.refl l
  | rtp ds arrivedAt now =>
      simp only [Link.step]
      split
      · exact Grows.refl l
      · exact ⟨List.prefix_rfl, List.prefix_rfl, List.prefix_rfl, heard_received now _ l.heard, rfl⟩
  | toReceiver k now clock =>
      simp only [Link.step]
      split
      · exact Grows.refl l
      · split
        · exact ⟨List.prefix_rfl, List.prefix_append _ _, List.prefix_rfl, List.prefix_rfl, rfl⟩
        · exact Grows.refl l
  | pump now =>
      exact ⟨List.prefix_rfl, List.prefix_append _ _, List.prefix_rfl, List.prefix_rfl, rfl⟩
  | receiverReport now =>
      exact ⟨List.prefix_rfl, List.prefix_append _ _, List.prefix_rfl, List.prefix_rfl, rfl⟩
  | drain now => exact ⟨List.prefix_rfl, List.prefix_rfl, List.prefix_rfl, List.prefix_rfl, rfl⟩

theorem grows_run (p : Peers) (l : Link) (ops : List LinkOp) :
    Grows l (Run.final (Link.step p) l ops) :=
  Run.invariant_of_step (I := Grows l) (fun s op h => h.trans (grows_step p s op)) (Grows.refl l) ops

/-! ### Runs -/

theorem Linked.step (h : Linked p ssrc first l) {op : LinkOp} (hfair : l.Fair op) :
    Linked p ssrc first (l.step p op) := by
  cases op with
  | media payload now => exact h.media hfair now
  | senderReport now wallClock => exact h.senderReport now wallClock
  | toSender k recvAt clock => exact h.toSender k recvAt clock
  | rtp ds arrivedAt now => exact h.rtp ds arrivedAt hfair
  | toReceiver k now clock => exact h.toReceiver k now clock
  | pump now => exact h.pump now
  | receiverReport now => exact h.receiverReport now
  | drain now => exact h.drain now

variable {seq : UInt16} {capacity : Nat} {rtcpInterval : Duration} {tsEpoch : Instant}
  {tsEpochSystem : SystemTime} {bufferSize : Duration} {maxNackRetries : UInt32} {now : Instant}

theorem start_linked (p : Peers) (ssrc : UInt32) (seq : UInt16) (capacity : Nat)
    (rtcpInterval : Duration) (tsEpoch : Instant) (tsEpochSystem : SystemTime)
    (bufferSize : Duration) (maxNackRetries : UInt32) (now : Instant) :
    Linked p (ssrc &&& ~~~1) seq (start p ssrc seq capacity rtcpInterval tsEpoch tsEpochSystem
      bufferSize maxNackRetries now) := by
  have hfaithful := Session.start_faithful ssrc seq capacity rtcpInterval p.receiverRtp bufferSize
  refine ⟨⟨hfaithful.sends, ?_, rfl, NackScheduler.Asks.new seq _ _ _, ?_, ?_⟩, ?_, ⟨[], ?_, rfl⟩, ?_,
    rfl, rfl, rfl, rfl, ⟨Or.inl rfl, Or.inl rfl, ?_, ?_, ?_⟩, ?_, ?_, ?_⟩
  · obtain ⟨h1, h2, h3, -⟩ := Recording.start_fresh bufferSize
      (show ReorderBuffer.defaultCapacity ≤ 16384 by decide)
    exact Or.inl ⟨⟨h1, h2, h3, rfl⟩, rfl⟩
  · exact fun i hi => absurd hi List.not_mem_nil
  · exact fun hne => absurd rfl hne
  · exact fun i hi => absurd hi (Nat.not_lt_zero i)
  · exact RetransmitBuffer.current_new capacity seq
  · exact fun x hx => absurd hx List.not_mem_nil
  · exact fun hne => absurd rfl hne
  · exact fun x hx => absurd hx (by simp [start, ReceiverState.new])
  · exact fun x hx => absurd hx (by simp [start, ReceiverState.new, RtcpReceiverState.new])
  · exact fun hne => absurd rfl hne
  · exact fun d hd => absurd hd List.not_mem_nil
  · exact fun d hd => absurd hd List.not_mem_nil

theorem linked_run {ops : List LinkOp}
    (hfair : Run.Along (Link.step p) Fair (start p ssrc seq capacity rtcpInterval tsEpoch
      tsEpochSystem bufferSize maxNackRetries now) ops) :
    Linked p (ssrc &&& ~~~1) seq (Run.final (Link.step p) (start p ssrc seq capacity rtcpInterval
      tsEpoch tsEpochSystem bufferSize maxNackRetries now) ops) :=
  Run.invariant (fun _ _ h hf => h.step hf) (start_linked p ssrc seq capacity rtcpInterval tsEpoch
    tsEpochSystem bufferSize maxNackRetries now) hfair

/-! ### Short runs -/

theorem step_payloads (p : Peers) (l : Link) (op : LinkOp) :
    (l.step p op).payloads = l.payloads ++ op.sends := by
  cases op with
  | media payload now => rfl
  | senderReport now wallClock => exact (List.append_nil _).symm
  | toSender k recvAt clock =>
      simp only [Link.step, LinkOp.sends, List.append_nil]
      split
      · rfl
      · split <;> rfl
  | rtp ds arrivedAt now =>
      simp only [Link.step, LinkOp.sends, List.append_nil]
      split <;> rfl
  | toReceiver k now clock =>
      simp only [Link.step, LinkOp.sends, List.append_nil]
      split
      · rfl
      · split <;> rfl
  | pump now => exact (List.append_nil _).symm
  | receiverReport now => exact (List.append_nil _).symm
  | drain now => exact (List.append_nil _).symm

theorem run_payloads (p : Peers) (ops : List LinkOp) : ∀ l : Link,
    (Run.final (Link.step p) l ops).payloads = l.payloads ++ ops.flatMap LinkOp.sends := by
  induction ops with
  | nil => exact fun l => (List.append_nil _).symm
  | cons op ops ih =>
      intro l
      rw [Run.final_cons, ih, step_payloads, List.append_assoc, List.flatMap_cons]

/-- Among few packets none is far from another. -/
theorem near_of_few {h : Heard} {m : MediaPath} (hh : Hears ssrc first h m)
    (hfew : h.session.payloads.length ≤ 16384) (now : Instant) (d : Nat × UInt64) :
    Heard.Near now h d := by
  have hsent : ∀ f, h.session.network[d.1]? = some f → f.index < h.session.payloads.length := by
    intro f hf
    obtain ⟨-, payload, -, hpay, -⟩ := (hh.sends.network f (List.mem_of_getElem? hf)).parse d.2
    exact (List.getElem?_eq_some_iff.mp hpay).1
  constructor
  · intro f hf hbase
    have hlt := hsent f hf
    rcases hh.placed with ⟨hw, -⟩ | ⟨w, hw, hne, hhigh⟩
    · exact absurd hw.baseSeq hbase
    · have hnewest := hh.sent _ (Heard.newest_mem hne)
      have hcap := ReorderBuffer.capacity_le hw.refines.bits
      have hle := hw.refines.wf.base_le
      have hend := hw.refines.wf.high_lt
      have hstart := hw.base
      omega
  · intro f hf hne
    have hlt := hsent f hf
    have hnewest := hh.sent _ (Heard.newest_mem hne)
    omega

theorem near_burst_of_few {now : Instant} (ds : List (Nat × UInt64)) :
    ∀ {h : Heard} {m : MediaPath}, Hears ssrc first h m →
      (∀ d ∈ ds, d.1 < h.session.network.length) → h.session.payloads.length ≤ 16384 →
      Run.Along (Heard.hear now) (Heard.Near now) h ds := by
  induction ds with
  | nil =>
      intro h m _ _ _
      trivial
  | cons d ds ih =>
      intro h m hh hwire hfew
      have hnear := near_of_few hh hfew now d
      obtain ⟨_, _, -, -, hstep⟩ := hh.next (hwire d List.mem_cons_self) hnear
      refine ⟨hnear, ih hstep ?_ ?_⟩
      · intro e he
        rw [Hears.hear_network]
        exact hwire e (List.mem_cons_of_mem _ he)
      · rw [Heard.hear_payloads]
        exact hfew

theorem Linked.fair_of_few (h : Linked p ssrc first l) (hfew : l.payloads.length ≤ 16384)
    {op : LinkOp} (hshort : ∀ payload ∈ op.sends, payload.length ≤ 2036) : l.Fair op := by
  cases op with
  | media payload now => exact hshort payload List.mem_cons_self
  | rtp ds arrivedAt now =>
      exact near_burst_of_few _ h.hears (fun d hd => mem_onWire (List.mem_of_mem_take hd)) hfew
  | senderReport now wallClock => trivial
  | toSender k recvAt clock => trivial
  | toReceiver k now clock => trivial
  | pump now => trivial
  | receiverReport now => trivial
  | drain now => trivial

/-- **A link that sends few packets asks nothing of the network**: its datagrams may come
in any order, and as late and as often as one likes. -/
theorem fair_of_few (p : Peers) (ssrc : UInt32) (seq : UInt16) (capacity : Nat)
    (rtcpInterval : Duration) (tsEpoch : Instant) (tsEpochSystem : SystemTime)
    (bufferSize : Duration) (maxNackRetries : UInt32) (now : Instant) {ops : List LinkOp}
    (hfew : (ops.flatMap LinkOp.sends).length ≤ 16384)
    (hshort : ∀ payload ∈ ops.flatMap LinkOp.sends, payload.length ≤ 2036) :
    Run.Along (Link.step p) Fair (start p ssrc seq capacity rtcpInterval tsEpoch tsEpochSystem
      bufferSize maxNackRetries now) ops := by
  have hrun : ∀ (ops : List LinkOp) (l : Link), Linked p (ssrc &&& ~~~1) seq l →
      l.payloads.length + (ops.flatMap LinkOp.sends).length ≤ 16384 →
      (∀ payload ∈ ops.flatMap LinkOp.sends, payload.length ≤ 2036) →
      Run.Along (Link.step p) Fair l ops := by
    intro ops
    induction ops with
    | nil =>
        intro l _ _ _
        trivial
    | cons op ops ih =>
        intro l hl hfew hshort
        rw [List.flatMap_cons, List.length_append] at hfew
        rw [List.flatMap_cons] at hshort
        have hfair : l.Fair op := hl.fair_of_few (by omega) fun payload hp =>
          hshort payload (List.mem_append_left _ hp)
        refine ⟨hfair, ih _ (hl.step hfair) ?_ fun payload hp =>
          hshort payload (List.mem_append_right _ hp)⟩
        rw [step_payloads, List.length_append]
        omega
  refine hrun ops _ (start_linked p ssrc seq capacity rtcpInterval tsEpoch tsEpochSystem bufferSize
    maxNackRetries now) ?_ hshort
  rw [show (start p ssrc seq capacity rtcpInterval tsEpoch tsEpochSystem bufferSize maxNackRetries
    now).payloads.length = 0 from rfl]
  omega

/-! ### The result -/

/-- **Two peers stay linked**, whatever the network does with their datagrams, as long as
packets come within half of the number circle and payloads fit a datagram.  Every control
datagram goes to the other one's socket, is admitted there at any time, and is
read without an error; so is every media datagram; and what the application gets are the
payloads of increasing indices, as they were sent. -/
theorem peers_stay_linked (p : Peers) (ssrc : UInt32) (seq : UInt16) (capacity : Nat)
    (rtcpInterval : Duration) (tsEpoch : Instant) (tsEpochSystem : SystemTime)
    (bufferSize : Duration) (maxNackRetries : UInt32) (now : Instant) (ops : List LinkOp)
    (hfair : Run.Along (Link.step p) Fair (start p ssrc seq capacity rtcpInterval tsEpoch
      tsEpochSystem bufferSize maxNackRetries now) ops) :
    let l := Run.final (Link.step p) (start p ssrc seq capacity rtcpInterval tsEpoch tsEpochSystem
      bufferSize maxNackRetries now) ops
    (∀ d ∈ l.up, d.1 = p.senderRtcp ∧
      (∀ t, peerMoveAllowed p.receiverRtcp l.sender.core.remoteRtcpAddr l.sender.core.rtcpPeerLive t
        = true) ∧
      ∃ packets, RtcpCompound.parse (d.2.take maxUdpRecv) = .ok packets) ∧
    (∀ d ∈ l.down, d.1 = p.receiverRtcp ∧
      (∀ live t, sourceAllowed p.senderRtcp p.pinned l.receiver.senderRtcpAddr live t = true) ∧
      ∃ packets, RtcpCompound.parse (d.2.take maxUdpRecv) = .ok packets) ∧
    (∀ k < l.network.length, ∀ arrivalUs,
      (∀ live t, sourceAllowed p.senderRtp p.pinned l.receiver.senderRtpAddr live t = true) ∧
      ∃ q, (l.datagram p (k, arrivalUs)).parse = some q) ∧
    ∃ indices : List Nat, indices.Pairwise (· < ·) ∧
      List.Forall₂ (fun i d => l.payloads[i]? = some d.data ∧ d.seq = seq + UInt16.ofNat i) indices
        l.delivered := by
  intro l
  have h : Linked p (ssrc &&& ~~~1) seq l := linked_run hfair
  refine ⟨?_, ?_, ?_, ?_⟩
  · intro d hd
    obtain ⟨packets, hparse, -⟩ := (h.up d hd).read maxUdpRecv
    refine ⟨(h.up d hd).1, fun t => ?_, packets, hparse⟩
    unfold peerMoveAllowed
    rw [h.rtcpDest]
    simp
  · intro d hd
    obtain ⟨packets, hparse, -⟩ := (h.down d hd).read maxUdpRecv
    exact ⟨(h.down d hd).1, fun live t => h.knows.admits_rtcp live t, packets, hparse⟩
  · intro k hk arrivalUs
    obtain ⟨q, hq, -, -⟩ := h.parse (d := (k, arrivalUs)) hk
    exact ⟨fun live t => h.knows.admits_rtp live t, q, hq⟩
  · rcases h.hears.placed with ⟨hw, -⟩ | ⟨w, hw, -, -⟩
    · exact ⟨[], List.Pairwise.nil, by
        rw [show l.delivered = [] from hw.delivered]
        exact List.Forall₂.nil⟩
    · obtain ⟨indices, hlt, -, hall⟩ := hw.inOrder
      exact ⟨indices, hlt, hall⟩

/-- Two hosts of one network. -/
def lan : Peers where
  senderRtp := .v4 0x0a000001 5000
  receiverRtp := .v4 0x0a000002 6000
  pinned := some (.v4 0x0a000001)
  receiverSsrc := 4
  senderCname := "s"
  receiverCname := "r"
  senderEcho := true
  receiverEcho := true
  pinned_eq := Or.inr rfl
  senderCname_le := by decide
  receiverCname_le := by decide

/-- A new link between them, whose numbers wrap after the first packet. -/
def fresh : Link := start lan 8 65535 16 100000000 0 0 50000000 10 0

/-- The second of three packets does not come. -/
def overtaken : List LinkOp :=
  [.media [1] 0, .media [2] 0, .media [3] 0, .senderReport 0 0, .rtp [(0, 0)] 0 0,
    .rtp [(2, 0)] 0 0, .toReceiver 0 0 fun _ => 0]

theorem overtaken_fair (more : List LinkOp) (hfew : (more.flatMap LinkOp.sends).length ≤ 16000)
    (hshort : ∀ payload ∈ more.flatMap LinkOp.sends, payload.length ≤ 2036) :
    Run.Along (Link.step lan) Fair fresh (overtaken ++ more) := by
  have hsends : (overtaken ++ more).flatMap LinkOp.sends
      = [[1], [2], [3]] ++ more.flatMap LinkOp.sends := List.flatMap_append
  refine fair_of_few lan 8 65535 16 100000000 0 0 50000000 10 0 ?_ ?_
  · rw [hsends, List.length_append]
    show 3 + _ ≤ 16384
    omega
  · rw [hsends]
    intro payload hp
    rcases List.mem_append.mp hp with hp | hp
    · exact (show ∀ x ∈ ([[1], [2], [3]] : List Bytes), x.length ≤ 2036 by decide) payload hp
    · exact hshort payload hp

/-- The two packets that come are delivered, and both control datagrams are read. -/
theorem peers_stay_linked_overtaken :
    let l := Run.final (Link.step lan) fresh
      (overtaken ++ [.receiverReport 0, .drain 50000000])
    l.received = [0, 2] ∧ l.up.length = 2 ∧ l.delivered.map Delivery.data = [[1], [3]] ∧
    (∀ d ∈ l.up, d.1 = lan.senderRtcp ∧
      ∃ packets, RtcpCompound.parse (d.2.take maxUdpRecv) = .ok packets) ∧
    ∃ indices : List Nat, indices.Pairwise (· < ·) ∧
      List.Forall₂ (fun i d => l.payloads[i]? = some d.data ∧ d.seq = 65535 + UInt16.ofNat i) indices
        l.delivered := by
  obtain ⟨hup, -, -, hdelivered⟩ := peers_stay_linked lan 8 65535 16 100000000 0 0 50000000 10 0
    (overtaken ++ [.receiverReport 0, .drain 50000000]) (overtaken_fair _ (by decide) (by decide))
  refine ⟨by decide +kernel, by decide +kernel, by decide +kernel, ?_, hdelivered⟩
  intro d hd
  exact ⟨(hup d hd).1, (hup d hd).2.2⟩

end Link

end Rist
