/-
A packet that is asked for comes back.

A request, its way to the sender, the retransmission and its way back are four steps with
anything in between: more media, other requests, reports, losses and repetitions.  What
was put on a wire stays there (`Grows`), so a later step can still hand it over.  As long
as the request fits one datagram and its work the budget, and the sender has not sent a
ring's worth of packets since, what comes back is the very packet that was missing, not a
later one under the same number; and handed over, it is in its place.
-/
import Rist.Proofs.Link.Missing

namespace Rist

open Session

namespace Link

variable {p : Peers} {ssrc : UInt32} {first : UInt16} {l l' : Link}

/-! ### The request -/

/-- What the pump puts on the wire for what is due. -/
theorem Linked.pump_sends (h : Linked p ssrc first l) {now : Instant} {q : UInt16}
    (hq : q ∈ (l.receiver.media.nack.getPendingNacks now l.receiver.rtt.srtt).2) :
    ∃ b : ReportBlock, b.Fits ∧ (l.step p (.pump now)).up = l.up ++ [(p.senderRtcp,
      RtcpCompound.serialize [.receiverReport ⟨p.receiverSsrc, [b]⟩,
        .nack (ReceiverState.nackFor p.receiverSsrc l.receiver
          (l.receiver.media.nack.getPendingNacks now l.receiver.rtt.srtt).2)])] := by
  obtain ⟨i, hmissing, -⟩ := h.pending_missing hq
  obtain ⟨j, hj, -⟩ := hmissing.skipped
  have hne : l.received ≠ [] := List.ne_nil_of_mem hj
  have hdest := h.knows.paired (h.known hne)
  obtain ⟨b, hfits, hrr⟩ := RtcpReceiverState.generateRr_block (h.hears.begun hne) p.receiverSsrc now
  refine ⟨b, hfits, ?_⟩
  show l.up ++ onSocket (l.receiver.pumpArm p.receiverSsrc now).2 = _
  rw [ReceiverState.pumpArm_sent p.receiverSsrc hdest (List.ne_nil_of_mem hq), hrr]
  rfl

/-- A compound that fits the buffer is read as it is. -/
theorem parse_of_fits {c : List RtcpPacket} (hc : ∀ pkt ∈ c, pkt.Encodable)
    (hcount : c.length ≤ maxRtcpSubPackets) {n : Nat}
    (hlen : (RtcpCompound.serialize c).length ≤ n) :
    RtcpCompound.parse ((RtcpCompound.serialize c).take n) = .ok c := by
  obtain ⟨k, hk, hparse⟩ := RtcpCompound.exists_parse_take hc n
  have hwhole : RtcpCompound.WhollyIn c n c.length := by
    refine ⟨Nat.le_refl _, hcount, ?_, fun _ hlt => absurd hlt (Nat.lt_irrefl _)⟩
    rwa [List.take_length]
  rw [hparse, hk.unique hwhole, List.take_length]

/-- **The request reaches the sender**, and asks for exactly what is due. -/
theorem request_read {pending : List UInt16} (hsorted : pending.Pairwise (· < ·))
    (hmasks : (NackListBuilder.packMasks pending).length ≤ 501) {own : UInt32} {r : ReceiverState}
    (hknows : r.Knows p ssrc) {b : ReportBlock} (hfits : b.Fits) :
    ∃ c, RtcpCompound.parse ((RtcpCompound.serialize [.receiverReport ⟨own, [b]⟩,
        .nack (ReceiverState.nackFor own r pending)]).take maxUdpRecv) = .ok c ∧ c ≠ [] ∧
      SenderState.requests ssrc c = pending := by
  have hrr := ReceiverReport.encodable_block own hfits
  have hnack : (RtcpPacket.nack (ReceiverState.nackFor own r pending)).Encodable := by
    show (NackListBuilder.packMasks pending).length ≤ 65533
    omega
  have hlenNack : (RtcpPacket.nack (ReceiverState.nackFor own r pending)).serialize.length
      = 12 + 4 * (NackListBuilder.packMasks pending).length := NackPacket.length_serialize hnack
  have hlenRr := ReceiverReport.length_block own hfits
  refine ⟨_, parse_of_fits ?_ (Nat.le_of_ble_eq_true rfl) ?_, by simp, ?_⟩
  · intro pkt hpkt
    simp only [List.mem_cons, List.not_mem_nil, or_false] at hpkt
    obtain rfl | rfl := hpkt
    · exact hrr
    · exact hnack
  · simp only [RtcpCompound.serialize, List.flatMap_cons, List.flatMap_nil, List.append_nil,
      List.length_append, hlenRr, hlenNack]
    show _ ≤ 2048
    omega
  · have hlost : (ReceiverState.nackFor own r pending).entries.lostSeqs = pending :=
      NackListBuilder.packMasks_lostSeqs hsorted
    have htarget := hknows.nackFor_targets own pending
    simp [SenderState.requests, SenderState.wanted, htarget, hlost]

/-- What the pump puts on the wire is read as a request for exactly what is due. -/
theorem Linked.pump_request (h : Linked p ssrc first l) {now : Instant} {q : UInt16}
    (hq : q ∈ (l.receiver.media.nack.getPendingNacks now l.receiver.rtt.srtt).2)
    (hmasks : (NackListBuilder.packMasks
      (l.receiver.media.nack.getPendingNacks now l.receiver.rtt.srtt).2).length ≤ 501) :
    ∃ bytes c, (l.step p (.pump now)).up[l.up.length]? = some (p.senderRtcp, bytes) ∧
      RtcpCompound.parse (bytes.take maxUdpRecv) = .ok c ∧ c ≠ [] ∧
      SenderState.requests ssrc c
        = (l.receiver.media.nack.getPendingNacks now l.receiver.rtt.srtt).2 := by
  obtain ⟨b, hfits, hup⟩ := h.pump_sends hq
  have hsorted := NackScheduler.getPendingNacks_sorted h.hears.asks.bits h.hears.asks.owned now
    l.receiver.rtt.srtt
  obtain ⟨c, hparse, hne, hrequests⟩ := request_read hsorted hmasks h.knows hfits
  refine ⟨_, c, ?_, hparse, hne, hrequests⟩
  rw [hup]
  exact List.getElem?_concat_length

/-! ### The answer -/

/-- A packet that is not older than the ring is found under its number, which stands for
this packet and no later one. -/
theorem Linked.holds (h : Linked p ssrc first l) {i : Nat} (hi : i < l.payloads.length)
    (hring : l.payloads.length ≤ i + l.sender.core.retransmitBuf.period) :
    ∃ data, l.sender.core.retransmitBuf.get (first + UInt16.ofNat i) = some data ∧
      l.origin (first + UInt16.ofNat i) = i := by
  obtain ⟨packets, hcur, hcount⟩ := h.ring
  rw [← hcount] at hi hring
  have hget := hcur.get_iff.mpr ⟨i, ⟨List.getElem?_eq_getElem hi, rfl,
    (RetransmitBuffer.none_after_iff _ first i packets.length).mpr hring⟩, rfl⟩
  refine ⟨_, hget, ?_⟩
  obtain ⟨payload, timestamp, hpay, hnum, -⟩ := h.hears.sends.ring _ _ hget
  have hlt : l.origin (first + UInt16.ofNat i) < l.payloads.length :=
    (List.getElem?_eq_some_iff.mp hpay).1
  have hle := h.latest i (hcount ▸ hi)
  have hturn : l.sender.core.retransmitBuf.period ≤ 65536 := Nat.min_le_right _ _
  -- the two indices have one number and are less than a turn apart
  have hmod : ((first.toNat : Int) + i) % 65536
      = ((first.toNat : Int) + l.origin (first + UInt16.ofNat i)) % 65536 := by
    rw [← Serial.ofInt_eq_iff, ofInt_first_add, ofInt_first_add]
    exact hnum
  omega

/-- A request that is read whole and within the budget is answered whole. -/
theorem Linked.answers (h : Linked p ssrc first l) {bytes : Bytes} {c : List RtcpPacket}
    (hparse : RtcpCompound.parse (bytes.take maxUdpRecv) = .ok c) (hne : c ≠ [])
    (hbudget : (SenderState.requests ssrc c).length
      ≤ NackWorkBudget.limit l.sender.core.retransmitBuf.capacity)
    (recvAt : Instant) (clock : Nat → Instant) {q : UInt16} (hq : q ∈ SenderState.requests ssrc c)
    {data : Bytes} (hdata : l.sender.core.retransmitBuf.get q = some data) :
    (p.receiverRtp, retxCopy data)
      ∈ (l.sender.core.rtcpArm p.receiverRtcp bytes recvAt clock).2.retransmits := by
  have hadmitted : l.sender.core.admitted p.receiverRtcp bytes recvAt = c := by
    unfold SenderState.admitted peerMoveAllowed
    rw [hparse, h.rtcpDest]
    simp [hne]
  have hflow : l.sender.core.ssrc = ssrc := h.hears.sends.flow
  rw [SenderState.rtcpArm_answered, hadmitted, hflow]
  have hscan : (SenderState.requests ssrc c).length
      ≤ 4 * NackWorkBudget.limit l.sender.core.retransmitBuf.capacity := by omega
  unfold SenderState.answered
  rw [List.take_of_length_le hscan,
    List.take_of_length_le ((List.length_filterMap_le _ _).trans hbudget), List.mem_filterMap]
  refine ⟨q, hq, ?_⟩
  rw [SenderState.answer_of_hit hdata, h.rtpDest]

/-- The retransmission is put on the wire, under the index of its packet. -/
theorem Linked.resends (h : Linked p ssrc first l) {k : Nat} {bytes : Bytes}
    (hk : l.up[k]? = some (p.senderRtcp, bytes)) {recvAt : Instant} {clock : Nat → Instant}
    {q : UInt16} {data : Bytes} (hdata : l.sender.core.retransmitBuf.get q = some data)
    (hsent : (p.receiverRtp, retxCopy data)
      ∈ (l.sender.core.rtcpArm p.receiverRtcp bytes recvAt clock).2.retransmits) :
    ∃ j f, l.network.length ≤ j ∧ (l.step p (.toSender k recvAt clock)).network[j]? = some f ∧
      f.index = l.origin q := by
  obtain ⟨payload, timestamp, -, -, hwire⟩ := h.hears.sends.ring q data hdata
  have hflight : (flight l.origin (retxCopy data)).index = l.origin q := by
    unfold flight
    rw [hwire, retxCopy_wire, parseRtp_wire]
  obtain ⟨n, hn⟩ := List.mem_iff_getElem?.mp hsent
  refine ⟨l.network.length + n, flight l.origin (retxCopy data), Nat.le_add_right _ _, ?_, hflight⟩
  simp only [Link.step, hk, if_true]
  rw [List.getElem?_append_right (Nat.le_add_right _ _), Nat.add_sub_cancel_left, List.getElem?_map]
  exact congrArg (Option.map fun d => flight l.origin d.2) hn

/-! ### Handed over -/

/-- The packet has been handed over, and is in its slot unless the base has passed it. -/
structure Recovered (first : UInt16) (l : Link) (i : Nat) : Prop where
  received : i ∈ l.received
  held : (i : Int) < l.baseIndex ∨ ∃ payload arrival, l.payloads[i]? = some payload ∧
    l.receiver.media.reorder.slot (first + UInt16.ofNat i)
      = ⟨first + UInt16.ofNat i, .filled payload arrival⟩

/-- What is held is held along a burst. -/
theorem keeps_held {now : Instant} {i : Nat} (ds : List (Nat × UInt64)) {h : Heard} {m : MediaPath}
    (hh : Hears ssrc first h m) (hwire : ∀ d ∈ ds, d.1 < h.session.network.length)
    (hnear : Run.Along (Heard.hear now) (Heard.Near now) h ds)
    (hheld : Heard.Held first h.session i) :
    Heard.Held first (Run.final (Heard.hear now) h ds).session i := by
  have hany : Run.Along (Heard.hear now) (fun _ _ => True) h ds :=
    Run.along_iff.mpr fun _ _ _ _ => trivial
  exact hh.burst_invariant (fun h => Heard.Held first h.session i)
    (fun _ _ _ _ hh hf hnear hheld => hheld.hear hh.sends hf hnear.1) ds hwire
    (Run.along_and hnear hany) hheld

/-- A burst that has the packet in it. -/
theorem heard_held {now : Instant} {d : Nat × UInt64} {f : Flight} (ds : List (Nat × UInt64)) :
    ∀ {h : Heard} {m : MediaPath}, Hears ssrc first h m →
      (∀ d ∈ ds, d.1 < h.session.network.length) →
      Run.Along (Heard.hear now) (Heard.Near now) h ds → d ∈ ds →
      h.session.network[d.1]? = some f → f.index < Heard.newest h.received →
      f.index ∈ (Run.final (Heard.hear now) h ds).received ∧
        Heard.Held first (Run.final (Heard.hear now) h ds).session f.index := by
  induction ds with
  | nil =>
      intro h m _ _ _ hd
      exact absurd hd List.not_mem_nil
  | cons e ds ih =>
      intro h m hh hwire hnear hd hf hold
      obtain ⟨g, p, hg, -, hstep⟩ := hh.next (hwire e List.mem_cons_self) hnear.1
      have hrest : ∀ d ∈ ds, d.1 < (Heard.hear now h e).session.network.length := by
        intro d hd
        rw [Hears.hear_network]
        exact hwire d (List.mem_cons_of_mem _ hd)
      rcases List.mem_cons.mp hd with rfl | hd
      · have hmem : f.index ∈ (Heard.hear now h d).received := by
          rw [Heard.hear_received now hf]
          exact List.mem_append_right _ List.mem_cons_self
        refine ⟨(heard_received now ds _).subset hmem, ?_⟩
        exact keeps_held ds hstep hrest hnear.2 (hh.placed.held hh.sends hf hnear.1 hold)
      · refine ih hstep hrest hnear.2 hd (Hears.hear_network now h e ▸ hf) ?_
        rw [Heard.hear_received now hg, Heard.newest_append]
        exact hold.trans_le (Nat.le_max_left _ _)

theorem Linked.recovered (h : Linked p ssrc first l) {ds : List (Nat × UInt64)}
    {arrivedAt now : Instant} (hfair : l.Fair (.rtp ds arrivedAt now)) {d : Nat × UInt64}
    (hd : d ∈ (l.onWire ds).take maxBatch) {f : Flight} (hf : l.network[d.1]? = some f)
    (hold : f.index < Heard.newest l.received) :
    Recovered first (l.step p (.rtp ds arrivedAt now)) f.index := by
  obtain ⟨hmem, w, hw, hheld⟩ := heard_held ((l.onWire ds).take maxBatch) h.hears
    (fun e he => mem_onWire (List.mem_of_mem_take he)) hfair hd hf hold
  have hheard : Run.final (Heard.hear now) l.heard ((l.onWire ds).take maxBatch)
      = (l.step p (.rtp ds arrivedAt now)).heard := (h.heard_rtp hfair).symm
  rw [hheard] at hmem hw hheld
  refine ⟨hmem, hheld.imp_right ?_⟩
  rintro ⟨payload, arrival, hpay, hcell⟩
  refine ⟨payload, arrival, hpay, ?_⟩
  rw [← ofInt_first_add]
  exact hw.refines.slot_of_filled hcell

/-! ### The whole round -/

/-- The newest packet only gets newer. -/
theorem Grows.newest_le (h : Grows l l') : Heard.newest l.received ≤ Heard.newest l'.received := by
  obtain ⟨t, ht⟩ := h.received
  by_cases hnil : l.received = []
  · rw [hnil]
    exact Nat.zero_le _
  · refine Heard.le_newest ?_
    rw [← ht]
    exact List.mem_append_left t (Heard.newest_mem hnil)

theorem IsMissing.lt_newest {i : Nat} (h : l.IsMissing i) : i < Heard.newest l.received := by
  obtain ⟨j, hj, hij⟩ := h.skipped
  exact hij.trans_le (Heard.le_newest hj)

/-- **A packet that is asked for comes back.**  The pump asks for `q` after `pre`; the
request comes to the sender after `mid`, and the retransmission is handed over after
`post`, with any fair steps of the link in between.  There is a missing packet of that
number, and if the request fits a datagram, its length the budget, and the ring still has
the packet, then the sender answers with this packet, and a burst that has the answer in
it puts it in its place. -/
theorem request_recovers (p : Peers) (ssrc : UInt32) (seq : UInt16) (capacity : Nat)
    (rtcpInterval : Duration) (tsEpoch : Instant) (tsEpochSystem : SystemTime)
    (bufferSize : Duration) (maxNackRetries : UInt32) (now : Instant)
    (pre mid post : List LinkOp) (t recvAt : Instant) (clock : Nat → Instant) (q : UInt16) :
    let s := start p ssrc seq capacity rtcpInterval tsEpoch tsEpochSystem bufferSize maxNackRetries
      now
    let l := Run.final (Link.step p) s pre
    let pending := (l.receiver.media.nack.getPendingNacks t l.receiver.rtt.srtt).2
    let l₁ := Run.final (Link.step p) (l.step p (.pump t)) mid
    let l₂ := l₁.step p (.toSender l.up.length recvAt clock)
    let l₃ := Run.final (Link.step p) l₂ post
    Run.Along (Link.step p) Fair s
      (pre ++ .pump t :: (mid ++ .toSender l.up.length recvAt clock :: post)) →
    q ∈ pending → (NackListBuilder.packMasks pending).length ≤ 501 →
    pending.length ≤ NackWorkBudget.limit (RetransmitBuffer.new capacity).capacity →
    ∃ i, l.IsMissing i ∧ q = seq + UInt16.ofNat i ∧
      (l₁.payloads.length ≤ i + (RetransmitBuffer.new capacity).period →
        ∃ j f, l₁.network.length ≤ j ∧ l₂.network[j]? = some f ∧ f.index = i ∧
          ∀ ds arrivedAt now, (∃ us, (j, us) ∈ (l₃.onWire ds).take maxBatch) →
            l₃.Fair (.rtp ds arrivedAt now) →
            Recovered seq (l₃.step p (.rtp ds arrivedAt now)) i) := by
  intro s l pending l₁ l₂ l₃ hfair hq hmasks hbudget
  obtain ⟨hpre, hpump, hrest⟩ := Run.along_append.mp hfair
  obtain ⟨hmid, hserve, hpost⟩ := Run.along_append.mp hrest
  have hl : Linked p (ssrc &&& ~~~1) seq l := linked_run hpre
  have hl₁ : Linked p (ssrc &&& ~~~1) seq l₁ :=
    Run.invariant (fun _ _ h hf => h.step hf) (hl.pump t) hmid
  have hl₃ : Linked p (ssrc &&& ~~~1) seq l₃ :=
    Run.invariant (fun _ _ h hf => h.step hf) (hl₁.toSender _ recvAt clock) hpost
  have hgrows₁ : Grows (l.step p (.pump t)) l₁ := grows_run p _ mid
  have hgrows₃ : Grows l₂ l₃ := grows_run p _ post
  have hcap : l₁.sender.core.retransmitBuf.capacity = (RetransmitBuffer.new capacity).capacity :=
    hgrows₁.capacity.trans ((grows_step p l (.pump t)).capacity.trans (grows_run p s pre).capacity)
  obtain ⟨i, hmissing, rfl⟩ := hl.pending_missing hq
  refine ⟨i, hmissing, rfl, fun hring => ?_⟩
  -- the request is still on the wire, and is read there as it was sent
  obtain ⟨bytes, c, hup, hparse, hne, hrequests⟩ := hl.pump_request hq hmasks
  have hk : l₁.up[l.up.length]? = some (p.senderRtcp, bytes) := by
    obtain ⟨hlt, hget⟩ := List.getElem?_eq_some_iff.mp hup
    rw [← hget]
    exact List.prefix_iff_getElem?.mp hgrows₁.up _ hlt
  -- the ring has the packet under its number
  have hi : i < l₁.payloads.length := by
    obtain ⟨j, hj, hij⟩ := hmissing.skipped
    have hmem := hgrows₁.received.subset ((grows_step p l (.pump t)).received.subset hj)
    exact hij.trans (hl₁.hears.sent j hmem)
  have hperiod : l₁.sender.core.retransmitBuf.period = (RetransmitBuffer.new capacity).period := by
    unfold RetransmitBuffer.period
    rw [hcap]
  obtain ⟨data, hdata, horigin⟩ := hl₁.holds hi (hperiod.symm ▸ hring)
  have hsent := hl₁.answers hparse hne (by rw [hrequests, hcap]; exact hbudget) recvAt clock
    (by rw [hrequests]; exact hq) hdata
  obtain ⟨j, f, hnew, hj, hindex⟩ := hl₁.resends hk hdata hsent
  refine ⟨j, f, hnew, hj, hindex.trans horigin, ?_⟩
  rintro ds arrivedAt now ⟨us, hmem⟩ hfair
  have hwire : l₃.network[j]? = some f := by
    obtain ⟨hlt, hget⟩ := List.getElem?_eq_some_iff.mp hj
    rw [← hget]
    exact List.prefix_iff_getElem?.mp hgrows₃.network _ hlt
  have hold : f.index < Heard.newest l₃.received := by
    rw [hindex, horigin]
    have hgrows : Grows l l₃ := ((grows_step p l (.pump t)).trans hgrows₁).trans
      ((grows_step p l₁ _).trans hgrows₃)
    exact hmissing.lt_newest.trans_le hgrows.newest_le
  have hrecovered := hl₃.recovered hfair hmem hwire hold
  rwa [hindex, horigin] at hrecovered

/-- What is on the wire can be handed over later. -/
theorem onWire_later {j : Nat} {f : Flight} (hj : l.network[j]? = some f) (ops : List LinkOp)
    (us : UInt64) : (j, us) ∈ ((Run.final (Link.step p) l ops).onWire [(j, us)]).take maxBatch := by
  have hlt := (List.getElem?_eq_some_iff.mp hj).1.trans_le (grows_run p l ops).network.length_le
  simp [onWire, hlt, maxBatch]

/-- The last step of a round. -/
theorem fair_last {pre mid post : List LinkOp} {op₁ op₂ op : LinkOp}
    (h : Run.Along (Link.step p) Fair l (pre ++ op₁ :: (mid ++ op₂ :: (post ++ [op])))) :
    (Run.final (Link.step p) ((Run.final (Link.step p) ((Run.final (Link.step p) l pre).step p op₁)
      mid).step p op₂) post).Fair op := by
  obtain ⟨-, -, hmid⟩ := Run.along_append.mp h
  obtain ⟨-, -, hpost⟩ := Run.along_append.mp hmid
  exact (Run.along_append.mp hpost).2.1

/-- The second packet is asked for, sent again after a fourth one, and put in its place. -/
theorem request_recovers_overtaken :
    let l := Run.final (Link.step lan) fresh overtaken
    let l₁ := Run.final (Link.step lan) (l.step lan (.pump 20000000)) [.media [4] 20000000]
    let l₂ := l₁.step lan (.toSender l.up.length 21000000 fun _ => 21000000)
    let l₃ := Run.final (Link.step lan) l₂ [.drain 21000000]
    ∃ j, l₁.network.length ≤ j ∧
      Recovered 65535 (l₃.step lan (.rtp [(j, 0)] 22000000 22000000)) 1 := by
  have hrecovers := request_recovers lan 8 65535 16 100000000 0 0 50000000 10 0 overtaken
    [.media [4] 20000000] [.drain 21000000] 20000000 21000000 (fun _ => 21000000) 0
  have hfair : ∀ (k : Nat) (more : List LinkOp), more.flatMap LinkOp.sends = [] →
      Run.Along (Link.step lan) Fair fresh (overtaken ++ .pump 20000000 :: ([.media [4] 20000000] ++
        .toSender k 21000000 (fun _ => 21000000) :: ([.drain 21000000] ++ more))) := by
    intro k more hmore
    exact overtaken_fair _ (by simp [LinkOp.sends, hmore]) (by simp [LinkOp.sends, hmore])
  have hsent : (Run.final (Link.step lan) fresh overtaken).payloads.length = 3 := by decide +kernel
  have hpending := overtaken_pending
  have hmissing := @overtaken_missing
  -- the run is not to be evaluated from here on
  rw [← fresh] at hrecovers
  generalize fresh = s at hrecovers hfair hsent hpending hmissing ⊢
  generalize overtaken = ops at hrecovers hfair hsent hpending hmissing ⊢
  dsimp only at hrecovers ⊢
  obtain ⟨i, hi, -, hrec⟩ := hrecovers (hfair _ [] rfl) (by rw [hpending]; decide)
    (by rw [hpending]; simp [NackListBuilder.packMasks, NackListBuilder.fillMask])
    (by rw [hpending]; decide)
  obtain rfl := hmissing hi
  obtain ⟨j, f, hnew, hj, -, hall⟩ := hrec (by
    rw [run_payloads, step_payloads, List.length_append, List.length_append, hsent]
    decide)
  refine ⟨j, hnew, hall [(j, 0)] 22000000 22000000 ⟨0, onWire_later hj _ 0⟩ ?_⟩
  exact fair_last (hfair _ [.rtp [(j, 0)] 22000000 22000000] rfl)

end Link

end Rist
