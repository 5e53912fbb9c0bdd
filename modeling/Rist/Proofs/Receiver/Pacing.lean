/-
The anti-spam floor of the receive task.

`MIN_NACK_RETRY_DELAY` is the base delay the scheduler starts with, and the echo arm
never lowers the base delay below it.  The pump does not pass the base delay on: it
hands the smoothed round-trip time itself to `get_pending_nacks`, and a retry is then
armed with that, however short it is.  `RequestLog` plays a run of the whole loop and
keeps what the pump asked for; the requests for one number are a floor apart as long
as no pump is `Hasty`.
-/
import Rist.Proofs.Nack.Pacing
import Rist.Proofs.Packet.Request
import Rist.Proofs.Peer.Receiver
import Rist.Proofs.Receiver.Trackers
import Rist.Proofs.Timers

namespace Rist

open NackScheduler

/-- The numbers a sub-packet asks for. -/
def RtcpPacket.asks : RtcpPacket → List UInt16
  | .nack request => request.entries.lostSeqs
  | .app (.rangeNack request) => request.entries.flatMap RangeEntry.lostSeqs
  | _ => []

/-- What the loop is started with. -/
structure LoopConfig where
  pinned : Option IpAddr
  ssrc : UInt32
  cname : String
  rttEchoEnabled : Bool

/-- A turn of the loop. -/
inductive LoopOp where
  | rtp (first : Datagram) (queued : List Datagram) (arrivedAt now : Instant)
  | rtcp (src : SocketAddr) (bytes : Bytes) (now : Instant) (clock : Nat → Instant)
  | pump (now : Instant)
  | report (now : Instant)

/-- The clock reading a turn is made with. -/
def LoopOp.now : LoopOp → Instant
  | rtp _ _ _ now => now
  | rtcp _ _ now _ => now
  | pump now => now
  | report now => now

/-- A receiver, and the requests its pump has sent. -/
structure RequestLog where
  state : ReceiverState
  asked : List Asked
  clock : Instant

/-! ### The scheduler's share of an arm -/

theorem MediaPath.processBatch_nack (m : MediaPath) (batch : List ParsedRtp) (now : Instant) :
    (m.processBatch batch now).nack
      = (batch.map ParsedRtp.seq).foldl (fun n seq => (n.onPacketReceived seq now).1) m.nack := by
  rw [processBatch_eq_foldl]
  induction batch generalizing m with
  | nil => rfl
  | cons p ps ih => exact ih (m.packet p now)

/-- Only the base delay has moved, and not below the floor. -/
def Retimed (n n' : NackScheduler) : Prop :=
  ∃ delay, n' = n.updateBaseDelay delay ∧
    (minNackRetryDelay ≤ n.baseDelay → minNackRetryDelay ≤ delay)

theorem Retimed.refl (n : NackScheduler) : Retimed n n := ⟨n.baseDelay, rfl, id⟩

theorem Retimed.trans {n n' n'' : NackScheduler} (h : Retimed n n') (h' : Retimed n' n'') :
    Retimed n n'' := by
  obtain ⟨delay, rfl, hfloor⟩ := h
  obtain ⟨delay', rfl, hfloor'⟩ := h'
  exact ⟨delay', rfl, fun hbase => hfloor' (hfloor hbase)⟩

namespace ReceiverState

variable {s : ReceiverState} {log : List Asked} {clock now : Instant}

theorem rtpArm_nack (pinned : Option IpAddr) (s : ReceiverState) (first : Datagram)
    (queued : List Datagram) (arrivedAt now : Instant) :
    (s.rtpArm pinned first queued arrivedAt now).media.nack
      = ((s.inserted pinned first queued arrivedAt).map ParsedRtp.seq).foldl
        (fun n seq => (n.onPacketReceived seq now).1) s.media.nack := by
  rw [rtpArm_media, MediaPath.processBatch_nack]

theorem handlePacket_retimed (ssrc : UInt32) (src : SocketAddr) (now clock : Instant)
    (s : ReceiverState) (pkt : RtcpPacket) :
    Retimed s.media.nack (handlePacket ssrc src now clock s pkt).1.media.nack := by
  unfold handlePacket
  split
  · exact Retimed.refl _
  · exact Retimed.refl _
  · simp only
    split
    · exact ⟨_, rfl, fun _ => Nat.le_max_right _ _⟩
    · exact Retimed.refl _
  · exact Retimed.refl _

theorem handlePackets_retimed (ssrc : UInt32) (src : SocketAddr) (now : Instant)
    (clock : Nat → Instant) (pkts : List RtcpPacket) :
    ∀ (s : ReceiverState) (k : Nat),
      Retimed s.media.nack (handlePackets ssrc src now clock s k pkts).1.media.nack := by
  induction pkts with
  | nil => intro s k; exact Retimed.refl _
  | cons pkt pkts ih =>
      intro s k
      apply (handlePacket_retimed ssrc src now (clock k) s pkt).trans
      exact ih _ (k + 1)

theorem rtcpArm_retimed (pinned : Option IpAddr) (ssrc : UInt32) (s : ReceiverState)
    (src : SocketAddr) (bytes : Bytes) (now : Instant) (clock : Nat → Instant) :
    Retimed s.media.nack (s.rtcpArm pinned ssrc src bytes now clock).1.media.nack := by
  unfold rtcpArm
  split
  · split
    · split
      · exact Retimed.refl _
      · exact handlePackets_retimed ssrc src now clock _ _ 0
    · exact Retimed.refl _
  · exact Retimed.refl _

theorem reportArm_nack (ssrc : UInt32) (cname : String) (rttEchoEnabled : Bool)
    (s : ReceiverState) (now : Instant) :
    (s.reportArm ssrc cname rttEchoEnabled now).1.media.nack = s.media.nack := by
  rcases reportArm_cases ssrc cname rttEchoEnabled s now with ⟨-, harm⟩ | ⟨_, _, _, -, -, harm⟩ <;>
    rw [harm]

/-! ### The socket arms -/

/-- The scheduler of a receiver, with the floor of the source. -/
def Paced (s : ReceiverState) (log : List Asked) (clock : Instant) : Prop :=
  NackScheduler.Paced minNackRetryDelay s.media.nack log clock

theorem new_paced (bufferSize : Duration) (maxNackRetries : UInt32) (rtcpInterval : Duration)
    (start : Instant) : Paced (new bufferSize maxNackRetries rtcpInterval start) [] clock :=
  NackScheduler.Paced.new maxNackRetries (Nat.le_refl minNackRetryDelay) start

theorem Paced.rtpArm (h : Paced s log clock) (hnow : clock ≤ now) (pinned : Option IpAddr)
    (first : Datagram) (queued : List Datagram) (arrivedAt : Instant) :
    Paced (s.rtpArm pinned first queued arrivedAt now) log now := by
  have hfold : ∀ (seqs : List UInt16) {n : NackScheduler},
      NackScheduler.Paced minNackRetryDelay n log now →
      NackScheduler.Paced minNackRetryDelay
        (seqs.foldl (fun n seq => (n.onPacketReceived seq now).1) n) log now := by
    intro seqs
    induction seqs with
    | nil => intro n hn; exact hn
    | cons seq seqs ih =>
        intro n hn
        apply ih
        exact hn.onPacketReceived (Nat.le_refl now) seq
  unfold Paced
  rw [rtpArm_nack]
  exact hfold _ (h.wait hnow)

theorem Paced.rtcpArm (h : Paced s log clock) (hnow : clock ≤ now) (pinned : Option IpAddr)
    (ssrc : UInt32) (src : SocketAddr) (bytes : Bytes) (clock' : Nat → Instant) :
    Paced (s.rtcpArm pinned ssrc src bytes now clock').1 log now := by
  obtain ⟨delay, hnack, hfloor⟩ := rtcpArm_retimed pinned ssrc s src bytes now clock'
  unfold Paced
  rw [hnack]
  exact (h.wait hnow).updateBaseDelay (hfloor h.baseDelay)

theorem Paced.reportArm (h : Paced s log clock) (hnow : clock ≤ now) (ssrc : UInt32)
    (cname : String) (rttEchoEnabled : Bool) :
    Paced (s.reportArm ssrc cname rttEchoEnabled now).1 log now := by
  unfold Paced
  rw [reportArm_nack]
  exact h.wait hnow

/-! ### The pump -/

/-- The numbers that go out are the numbers that are due. -/
theorem nackFor_asks (ssrc : UInt32) (s : ReceiverState) (rr : ReceiverReport)
    {pendingNacks : List UInt16} (h : pendingNacks.Pairwise (· < ·)) :
    [RtcpPacket.receiverReport rr, .nack (nackFor ssrc s pendingNacks)].flatMap RtcpPacket.asks
      = pendingNacks := by
  have hmasks := NackListBuilder.packMasks_lostSeqs h
  simp only [List.flatMap_cons, List.flatMap_nil, List.append_nil, RtcpPacket.asks, nackFor,
    NackListBuilder.buildBitmask, NackEntries.lostSeqs, List.nil_append]
  exact hmasks

/-- What the pump sends at `now`. -/
def pumped (ssrc : UInt32) (s : ReceiverState) (now : Instant) : List Asked :=
  (s.pumpArm ssrc now).2.map fun sent => ⟨now, sent.2.flatMap RtcpPacket.asks⟩

theorem pumped_of_none (ssrc : UInt32) (h : s.senderRtcpAddr = none) (now : Instant) :
    s.pumpArm ssrc now = (s, []) := by
  unfold pumpArm
  rw [h]

/-- **The pump with somewhere to send to.**  It takes what is due off the scheduler, and
sends it unless there is nothing. -/
theorem pumpArm_spec (ssrc : UInt32) (h : s.senderRtcpAddr ≠ none) {now : Instant}
    (hsorted : (s.media.nack.getPendingNacks now s.rtt.srtt).2.Pairwise (· < ·)) :
    (s.pumpArm ssrc now).1.media.nack = (s.media.nack.getPendingNacks now s.rtt.srtt).1 ∧
    (s.pumpArm ssrc now).1.senderRtcpAddr = s.senderRtcpAddr ∧
    s.pumped ssrc now
      = if (s.media.nack.getPendingNacks now s.rtt.srtt).2 = [] then []
        else [⟨now, (s.media.nack.getPendingNacks now s.rtt.srtt).2⟩] := by
  unfold pumped
  rcases pumpArm_cases ssrc s now with ⟨hnone, -⟩ | ⟨hnil, harm⟩ | ⟨_, -, hdue, harm⟩
  · exact absurd hnone h
  · rw [harm, if_pos hnil]
    exact ⟨rfl, rfl, rfl⟩
  · rw [harm, if_neg hdue]
    refine ⟨rfl, rfl, ?_⟩
    rw [List.map_singleton, nackFor_asks ssrc s _ hsorted]

theorem pumpArm_rtt (ssrc : UInt32) (s : ReceiverState) (now : Instant) :
    (s.pumpArm ssrc now).1.rtt = s.rtt := by
  rcases pumpArm_cases ssrc s now with ⟨-, harm⟩ | ⟨-, harm⟩ | ⟨_, -, -, harm⟩ <;> rw [harm]

/-- The pump is about to arm a retry with less than the floor. -/
def Hasty (s : ReceiverState) (now : Instant) : Prop :=
  s.senderRtcpAddr ≠ none ∧ s.media.nack.Rash minNackRetryDelay now s.rtt.srtt

theorem Paced.pumpArm (h : Paced s log clock) (hnow : clock ≤ now) (ssrc : UInt32)
    (hcalm : ¬s.Hasty now) :
    Paced (s.pumpArm ssrc now).1 (log ++ s.pumped ssrc now) now := by
  by_cases hdest : s.senderRtcpAddr = none
  · unfold pumped
    rw [pumped_of_none ssrc hdest, List.map_nil, List.append_nil]
    exact h.wait hnow
  · have hnext := h.getPendingNacks hnow fun hrash => hcalm ⟨hdest, hrash⟩
    obtain ⟨hnack, -, hsent⟩ := pumpArm_spec ssrc hdest (getPendingNacks_sorted h.bits h.owned now s.rtt.srtt)
    unfold Paced
    rw [hnack, hsent]
    split
    · rw [List.append_nil]
      exact hnext.of_append
    · exact hnext

end ReceiverState

/-! ### Runs -/

namespace RequestLog

variable {cfg : LoopConfig} {r : RequestLog}

def start (s : ReceiverState) (now : Instant) : RequestLog := ⟨s, [], now⟩

def step (cfg : LoopConfig) (r : RequestLog) : LoopOp → RequestLog
  | .rtp first queued arrivedAt now =>
    { r with state := r.state.rtpArm cfg.pinned first queued arrivedAt now, clock := now }
  | .rtcp src bytes now clock =>
    { r with state := (r.state.rtcpArm cfg.pinned cfg.ssrc src bytes now clock).1, clock := now }
  | .pump now =>
    { state := (r.state.pumpArm cfg.ssrc now).1
      asked := r.asked ++ r.state.pumped cfg.ssrc now
      clock := now }
  | .report now =>
    { r with state := (r.state.reportArm cfg.ssrc cfg.cname cfg.rttEchoEnabled now).1
             clock := now }

@[simp] theorem step_clock (op : LoopOp) : (r.step cfg op).clock = op.now := by
  cases op <;> rfl

/-- Times do not go back. -/
def InTime (r : RequestLog) (op : LoopOp) : Prop := r.clock ≤ op.now

/-- The turn is no hasty pump. -/
def Calm (r : RequestLog) : LoopOp → Prop
  | .pump now => ¬r.state.Hasty now
  | _ => True

theorem paced_step (h : r.state.Paced r.asked r.clock) {op : LoopOp} (htime : r.InTime op)
    (hcalm : r.Calm op) : (r.step cfg op).state.Paced (r.step cfg op).asked (r.step cfg op).clock := by
  cases op with
  | rtp first queued arrivedAt now => exact h.rtpArm htime cfg.pinned first queued arrivedAt
  | rtcp src bytes now clock => exact h.rtcpArm htime cfg.pinned cfg.ssrc src bytes clock
  | pump now => exact h.pumpArm htime cfg.ssrc hcalm
  | report now => exact h.reportArm htime cfg.ssrc cfg.cname cfg.rttEchoEnabled

theorem paced_run {ops : List LoopOp} (h : r.state.Paced r.asked r.clock)
    (htime : Run.Along (step cfg) InTime r ops) (hcalm : Run.Along (step cfg) Calm r ops) :
    (Run.final (step cfg) r ops).state.Paced (Run.final (step cfg) r ops).asked
      (Run.final (step cfg) r ops).clock :=
  Run.invariant (I := fun r : RequestLog => r.state.Paced r.asked r.clock)
    (fun _ _ h hop => paced_step h hop.1 hop.2) h (Run.along_and htime hcalm)

/-- **Requests for one number are a floor apart** in every run without a hasty pump. -/
theorem requests_spaced (cfg : LoopConfig) (bufferSize : Duration) (maxNackRetries : UInt32)
    (rtcpInterval : Duration) (now : Instant) (ops : List LoopOp)
    (htime : Run.Along (step cfg) InTime
      (start (ReceiverState.new bufferSize maxNackRetries rtcpInterval now) now) ops)
    (hcalm : Run.Along (step cfg) Calm
      (start (ReceiverState.new bufferSize maxNackRetries rtcpInterval now) now) ops) :
    Spaced minNackRetryDelay (Run.final (step cfg)
      (start (ReceiverState.new bufferSize maxNackRetries rtcpInterval now) now) ops).asked :=
  (paced_run (ReceiverState.new_paced bufferSize maxNackRetries rtcpInterval now)
    htime hcalm).spaced

/-- **A hasty pump** is one after which a pump can come too soon: at the end of the
smoothed round-trip time. -/
theorem not_spaced_of_hasty {d : Nat} (h : r.state.Paced r.asked r.clock)
    (hcount : Surplus r.state.media.nack d) {srtt : Duration} (hsrtt : r.state.rtt.srtt = some srtt)
    (now : Instant) (hasty : r.state.Hasty now) :
    ¬Spaced minNackRetryDelay
      (Run.final (step cfg) r [.pump now, .pump (now + srtt)]).asked := by
  obtain ⟨hdest, hrash⟩ := hasty
  have hpoll := getPendingNacks_spec h.bits h.owned hcount now r.state.rtt.srtt
  obtain ⟨hnack, haddr, hsent⟩ := ReceiverState.pumpArm_spec cfg.ssrc hdest hpoll.sorted
  -- the second pump finds the scheduler as the first left it
  set s' := (r.state.pumpArm cfg.ssrc now).1 with hs'
  have hsorted' : (s'.media.nack.getPendingNacks (now + srtt) s'.rtt.srtt).2.Pairwise (· < ·) := by
    rw [hnack]
    exact getPendingNacks_sorted (hpoll.bits.trans h.bits) (hpoll.owned h.bits h.owned) _ _
  obtain ⟨-, -, hsent'⟩ := ReceiverState.pumpArm_spec cfg.ssrc (haddr ▸ hdest) hsorted'
  rw [hsrtt] at hrash
  obtain ⟨hlt, q, hq, hq'⟩ := hrash.asks_again h.bits h.owned hcount s'.rtt.srtt
  rw [← hsrtt] at hq hq'
  rw [← hnack] at hq'
  rw [if_neg (List.ne_nil_of_mem hq)] at hsent
  rw [if_neg (List.ne_nil_of_mem hq')] at hsent'
  simp only [Run.final_cons, Run.final_nil, step, ← hs', hsent, hsent']
  intro hspaced
  rw [List.append_assoc, Spaced, List.pairwise_append] at hspaced
  have hgap := (List.pairwise_cons.mp hspaced.2.1).1 _ (List.mem_singleton.mpr rfl) q hq hq'
  exact absurd (Nat.add_le_add_iff_left.mp hgap) (Nat.not_le.mpr hlt)

/-- A media datagram with nothing but its number. -/
def media (seq : UInt8) : Datagram :=
  ⟨.v4 1 5000, [0x80, 0, 0, seq, 0, 0, 0, 0, 0, 0, 0, 2], 0⟩

/-- The sender's answer to an echo request. -/
def echo : Bytes := RtcpCompound.serialize [.app (.rttEchoResponse ⟨4, 0, 0, 0⟩)]

/-- A receiver that holds packets for 50 ms and asks three times. -/
def fresh : RequestLog := start (ReceiverState.new 50000000 3 100000000 0) 0

def echoing : LoopConfig := ⟨none, 4, "r", true⟩

/-- Number 1 is lost at time 0, and an echo request that goes out then is answered after
`rtt`. -/
def lossy (rtt : Duration) : List LoopOp :=
  [.rtp (media 0) [] 0 0, .rtp (media 2) [] 0 0, .report 0,
    .rtcp (.v4 1 5001) echo rtt fun _ => rtt]

theorem lossy_inTime (rtt : Duration) : Run.Along (step echoing) InTime fresh (lossy rtt) :=
  ⟨Nat.le_refl 0, Nat.le_refl 0, Nat.le_refl 0, Nat.zero_le rtt, trivial⟩

theorem lossy_calm (rtt : Duration) : Run.Along (step echoing) Calm fresh (lossy rtt) :=
  ⟨trivial, trivial, trivial, trivial, trivial⟩

/-- The gap loop of number 2 takes a free slot, so the counter is right. -/
theorem lossy_countExact (rtt : Duration) :
    CountExact (Run.final (step echoing) fresh (lossy rtt)).state.media.nack := by
  have h1 : CountExact ((NackScheduler.new 3 minNackRetryDelay 0).step (.received 0 0)) := by
    refine (countExact_step_iff rfl (new_countExact 3 minNackRetryDelay 0) _).mpr ?_
    rintro ⟨expected, he, -⟩
    exact Option.some_ne_none expected he.symm
  have h2 : CountExact (((NackScheduler.new 3 minNackRetryDelay 0).step (.received 0 0)).step
      (.received 2 0)) := by
    refine (countExact_step_iff rfl h1 _).mpr ?_
    rintro ⟨expected, he, -, -, i, hi, hact, -⟩
    obtain rfl : expected = 1 := Option.some.inj (he.symm.trans (by decide +kernel))
    obtain rfl : i = 0 := Nat.lt_one_iff.mp hi
    exact absurd hact (by decide +kernel)
  -- the first two turns are the two packets, and the other two leave the counter alone
  have hfirst : (step echoing fresh (.rtp (media 0) [] 0 0)).state.media.nack
      = (NackScheduler.new 3 minNackRetryDelay 0).step (.received 0 0) := by
    have hseqs : (fresh.state.inserted none (media 0) [] 0).map ParsedRtp.seq = [0] := by
      decide +kernel
    exact (ReceiverState.rtpArm_nack none fresh.state (media 0) [] 0 0).trans (by rw [hseqs]; rfl)
  set r₁ := step echoing fresh (.rtp (media 0) [] 0 0) with hr₁
  have hsecond : (step echoing r₁ (.rtp (media 2) [] 0 0)).state.media.nack
      = r₁.state.media.nack.step (.received 2 0) := by
    have hseqs : (r₁.state.inserted none (media 2) [] 0).map ParsedRtp.seq = [2] := by
      rw [hr₁]
      decide +kernel
    exact (ReceiverState.rtpArm_nack none r₁.state (media 2) [] 0 0).trans (by rw [hseqs]; rfl)
  rw [← hfirst, ← hsecond] at h2
  set r₂ := step echoing r₁ (.rtp (media 2) [] 0 0)
  have hreport := ReceiverState.reportArm_nack 4 "r" true r₂.state 0
  obtain ⟨delay, hnack, -⟩ := ReceiverState.rtcpArm_retimed none 4
    (step echoing r₂ (.report 0)).state (.v4 1 5001) echo rtt fun _ => rtt
  show CountExact ((step echoing r₂ (.report 0)).state.rtcpArm none 4 (.v4 1 5001) echo rtt
    fun _ => rtt).1.media.nack
  rw [hnack]
  show CountExact (r₂.state.reportArm 4 "r" true 0).1.media.nack
  rw [hreport]
  exact h2

/-- On a path of 1 ms number 1 is asked for at 20 ms and again at 21 ms. -/
theorem requests_crowd_on_a_short_path :
    ¬Spaced minNackRetryDelay (Run.final (step echoing) fresh
      (lossy 1000000 ++ [.pump 20000000, .pump 21000000])).asked := by
  have hpaced := paced_run (ReceiverState.new_paced 50000000 3 100000000 0)
    (lossy_inTime 1000000) (lossy_calm 1000000)
  have hsrtt : (Run.final (step echoing) fresh (lossy 1000000)).state.rtt.srtt
      = some 1000000 := by decide +kernel
  rw [Run.final, List.foldl_append]
  refine not_spaced_of_hasty hpaced (countExact_iff.mp (lossy_countExact 1000000)) hsrtt
    20000000 ⟨by decide +kernel, ⟨1000000, hsrtt, by decide⟩, 1, ?_⟩
  refine ⟨?_, by decide +kernel, by decide +kernel⟩
  unfold Open
  decide +kernel

theorem step_pump_rtt (r : RequestLog) (now : Instant) :
    (r.step cfg (.pump now)).state.rtt = r.state.rtt :=
  ReceiverState.pumpArm_rtt cfg.ssrc r.state now

/-- On a path of 30 ms it is asked for as soon as that is known, and again 30 ms later. -/
theorem requests_spaced_on_a_long_path :
    Spaced minNackRetryDelay (Run.final (step echoing) fresh
      (lossy 30000000 ++ [.pump 30000000, .pump 60000000])).asked := by
  have hsrtt : (Run.final (step echoing) fresh (lossy 30000000)).state.rtt.srtt
      = some 30000000 := by decide +kernel
  have hcalm : ∀ s : ReceiverState, s.rtt.srtt = some 30000000 → ∀ now, ¬s.Hasty now := by
    rintro s hs now ⟨-, ⟨delay, heq, hlt⟩, -⟩
    obtain rfl := Option.some.inj (hs.symm.trans heq)
    exact absurd hlt (by decide)
  refine requests_spaced echoing 50000000 3 100000000 0 _ ?_ ?_
  · refine Run.along_append.mpr ⟨lossy_inTime 30000000, ?_, ?_, trivial⟩
    · exact Nat.le_refl 30000000
    · show (30000000 : Nat) ≤ 60000000
      decide
  · refine Run.along_append.mpr ⟨lossy_calm 30000000, hcalm _ hsrtt 30000000, ?_, trivial⟩
    refine hcalm _ ?_ 60000000
    rw [step_pump_rtt]
    exact hsrtt

end RequestLog

end Rist
