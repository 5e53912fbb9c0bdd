/-
What a datagram can do to a debug build of the receive task.

An overflow or an access out of range stops the task.  Datagrams come from anyone and
carry anything, so each operation on the way has to be safe by itself or by what the
others keep: the ring of the reorder buffer keeps its size, so that the two differences
of an insert are never negative; the counters go up by a bounded amount a packet, so
that fewer than 65536 packets fit; a parser looks at the length before it reads.

One operation is not: the control address is the media port plus one, and there is no
port after 65535.  A datagram from there that is admitted stops the task, whatever it
carries, and nothing else does.
-/
import Rist.Proofs.Counters
import Rist.Proofs.Packet.Compound
import Rist.Proofs.Packet.Media
import Rist.Proofs.Receiver.Pacing
import Rist.Proofs.Reorder.Capacity

namespace Rist

open Serial

/-! ### The trackers -/

namespace NackScheduler

variable {s : NackScheduler}

/-- A gap loop of `n` turns raises the counter by `n` at most. -/
theorem trackGapsChecked_eq (expected : UInt16) (now : Instant) (n : Nat)
    (h : s.activeCount.toNat + n < 4294967296) :
    s.trackGapsChecked expected now n = some (s.trackGaps expected now n) ∧
      (s.trackGaps expected now n).1.activeCount.toNat ≤ s.activeCount.toNat + n := by
  induction n with
  | zero => exact ⟨rfl, Nat.le_refl _⟩
  | succ n ih =>
      obtain ⟨hok, hle⟩ := ih (by omega)
      have hadd := Checked.add32_of_lt (a := (s.trackGaps expected now n).1.activeCount) (b := 1)
        (by rw [UInt32.toNat_one]; omega)
      simp only [trackGapsChecked, hok, bind, Option.bind_some, trackGaps]
      split
      · rw [hadd]
        refine ⟨rfl, ?_⟩
        show ((s.trackGaps expected now n).1.activeCount + 1).toNat ≤ _
        rw [UInt32.toNat_add, UInt32.toNat_one, Nat.mod_eq_of_lt (by omega)]
        omega
      · exact ⟨rfl, Nat.le_succ_of_le hle⟩

/-- **A packet is safe for the scheduler**, and tracks at most 1000 numbers. -/
theorem onPacketReceivedChecked_eq (seq : UInt16) (now : Instant)
    (h : s.activeCount.toNat + 1000 < 4294967296) :
    s.onPacketReceivedChecked seq now = some (s.onPacketReceived seq now) ∧
      (s.onPacketReceived seq now).1.activeCount.toNat ≤ s.activeCount.toNat + 1000 := by
  unfold onPacketReceivedChecked onPacketReceived
  cases s.expectedSeq with
  | none => exact ⟨rfl, Nat.le_add_right _ _⟩
  | some expected =>
      simp only
      split
      · split
        · rename_i hgap
          have hlen : (seq - expected).toNat ≤ 1000 := UInt16.le_iff_toNat_le.mp hgap
          obtain ⟨hok, hle⟩ := trackGapsChecked_eq (s := s) expected now (seq - expected).toNat
            (by omega)
          rw [hok]
          refine ⟨rfl, ?_⟩
          show (s.trackGaps expected now (seq - expected).toNat).1.activeCount.toNat ≤ _
          omega
        · exact ⟨rfl, Nat.le_add_right _ _⟩
      · split
        · exact ⟨rfl, Nat.le_add_right _ _⟩
        · refine ⟨rfl, ?_⟩
          unfold deactivate
          split
          · exact Nat.le_add_right_of_le (decrement_le _)
          · exact Nat.le_add_right _ _

end NackScheduler

namespace MediaPath

open RtcpReceiverState

/-- The trackers have seen at most `n` packets. -/
structure Counts (n : Nat) (rtcp : RtcpReceiverState) (nack : NackScheduler) : Prop where
  totals : ∃ g, Tracks rtcp g ∧ g.received ≤ n
  active : nack.activeCount.toNat ≤ 1000 * n

variable {n : Nat} {rtcp : RtcpReceiverState} {nack : NackScheduler}

theorem Counts.mono {n' : Nat} (h : Counts n rtcp nack) (hn : n ≤ n') : Counts n' rtcp nack := by
  obtain ⟨⟨g, htracks, hle⟩, hactive⟩ := h
  exact ⟨⟨g, htracks, Nat.le_trans hle hn⟩, Nat.le_trans hactive (Nat.mul_le_mul_left 1000 hn)⟩

/-- A packet that is no duplicate, or is one, is safe for the report state. -/
theorem Counts.rtcp_packet (h : Counts n rtcp nack) (hn : n + 1 < 65536) (p : ParsedRtp)
    (duplicate : Bool) :
    rtcp.onPacketReceivedChecked p.seq p.rtpTs p.arrivalUs duplicate
        = some (rtcp.onPacketReceived p.seq p.rtpTs p.arrivalUs duplicate) ∧
      ∃ g, Tracks (rtcp.onPacketReceived p.seq p.rtpTs p.arrivalUs duplicate) g ∧
        g.received ≤ n + 1 := by
  obtain ⟨g, htracks, hle⟩ := h.totals
  cases duplicate with
  | true => exact ⟨rfl, g, htracks, Nat.le_succ_of_le hle⟩
  | false =>
      have hnext := htracks.packet p.seq p.rtpTs p.arrivalUs
      have hreceived : (g.packet rtcp.maxSeq p.seq).received = g.received + 1 :=
        CountLog.packet_received g rtcp.maxSeq p.seq
      have hreach := htracks.reach
      have hreach' := hnext.reach
      rw [htracks.onPacketReceivedChecked (by omega) (by omega), if_pos ⟨by omega, by omega⟩]
      exact ⟨rfl, _, hnext, by omega⟩

/-- **The tracker loop of a burst is safe.** -/
theorem trackAllChecked_eq (now : Instant) : ∀ (l : List (ParsedRtp × InsertOutcome)) {n : Nat}
    {rtcp : RtcpReceiverState} {nack : NackScheduler}, Counts n rtcp nack → n + l.length < 65536 →
      trackAllChecked rtcp nack now l = some (trackAll rtcp nack now l) ∧
        Counts (n + l.length) (trackAll rtcp nack now l).1 (trackAll rtcp nack now l).2 := by
  intro l
  induction l with
  | nil =>
      intro n rtcp nack h _
      exact ⟨rfl, h⟩
  | cons e l ih =>
      intro n rtcp nack h hlen
      obtain ⟨p, o⟩ := e
      rw [List.length_cons] at hlen ⊢
      have hactive := h.active
      obtain ⟨hrtcp, htotals⟩ := h.rtcp_packet (by omega) p o.duplicate
      obtain ⟨hnack, hle⟩ := NackScheduler.onPacketReceivedChecked_eq (s := nack) p.seq now
        (by omega)
      have hnext : Counts (n + 1) (rtcp.onPacketReceived p.seq p.rtpTs p.arrivalUs o.duplicate)
          (nack.onPacketReceived p.seq now).1 := ⟨htotals, by omega⟩
      obtain ⟨hok, hcounts⟩ := ih hnext (by omega)
      rw [trackAllChecked, hrtcp, hnack]
      refine ⟨hok, ?_⟩
      rw [Nat.add_right_comm, Nat.add_assoc] at hcounts
      exact hcounts

theorem insertAllChecked_eq (now : Instant) : ∀ (batch : List ParsedRtp) {b : ReorderBuffer},
    b.capacity = ReorderBuffer.defaultCapacity →
      insertAllChecked b now batch = some (insertAll b now batch) ∧
        (insertAll b now batch).1.capacity = ReorderBuffer.defaultCapacity := by
  intro batch
  induction batch with
  | nil =>
      intro b hcap
      exact ⟨rfl, hcap⟩
  | cons p batch ih =>
      intro b hcap
      obtain ⟨hok, hnext⟩ := ih ((b.insert_capacity p.seq p.payload now).trans hcap)
      rw [insertAllChecked, ReorderBuffer.insertChecked_eq (by rw [hcap]; decide)]
      simp only [bind, Option.bind_some, hok]
      exact ⟨rfl, hnext⟩

/-- What the media path keeps while at most `n` packets have come. -/
structure Light (n : Nat) (m : MediaPath) : Prop where
  capacity : m.reorder.capacity = ReorderBuffer.defaultCapacity
  counts : Counts n m.rtcp m.nack

theorem Light.mono {n' : Nat} {m : MediaPath} (h : Light n m) (hn : n ≤ n') : Light n' m :=
  ⟨h.capacity, h.counts.mono hn⟩

/-- **A burst is safe.** -/
theorem Light.processBatch {m : MediaPath} (h : Light n m) {batch : List ParsedRtp}
    (hlen : n + batch.length < 65536) (now : Instant) :
    m.processBatchChecked batch now = some (m.processBatch batch now) ∧
      Light (n + batch.length) (m.processBatch batch now) := by
  obtain ⟨hinsert, hcap⟩ := insertAllChecked_eq now batch h.capacity
  have hzip : (batch.zip (insertAll m.reorder now batch).2).length ≤ batch.length := by
    rw [List.length_zip]
    exact Nat.min_le_left _ _
  obtain ⟨htrack, hcounts⟩ := trackAllChecked_eq now
    (batch.zip (insertAll m.reorder now batch).2) h.counts (by omega)
  unfold processBatchChecked
  rw [hinsert]
  simp only [bind, Option.bind_some, htrack]
  exact ⟨rfl, hcap, hcounts.mono (by omega)⟩

end MediaPath

/-! ### Datagrams -/

/-- **A datagram of any bytes is safe to parse.** -/
theorem parseRtpChecked_eq (buf : Bytes) (arrivalUs : UInt64) :
    parseRtpChecked buf arrivalUs = some (parseRtp buf arrivalUs) := by
  unfold parseRtpChecked parseRtp
  rcases RtpHeader.parse_cases buf with ⟨-, h, size, hok, hle, -⟩ | ⟨-, e, herr⟩
  · have hslice : sliceFrom buf size = .ok (buf.drop size) := by
      rw [sliceFrom_of_le hle]
    rw [hok]
    simp only [hslice, Checked.subSize_of_le hle]
  · rw [herr]
    rfl

theorem Datagram.parseChecked_eq (d : Datagram) : d.parseChecked = some d.parse :=
  parseRtpChecked_eq _ _

namespace ReceiverState

open MediaPath

theorem drainBurstChecked_eq (src : SocketAddr) : ∀ (n : Nat) (batch : List ParsedRtp)
    (ds : List Datagram), drainBurstChecked src n batch ds = some (drainBurst src n batch ds) ∧
      (drainBurst src n batch ds).length ≤ batch.length + ds.length := by
  intro n
  induction n with
  | zero =>
      intro batch ds
      simp only [drainBurstChecked, drainBurst]
      exact ⟨trivial, Nat.le_add_right _ _⟩
  | succ n ih =>
      intro batch ds
      cases ds with
      | nil =>
          simp only [drainBurstChecked, drainBurst]
          exact ⟨trivial, Nat.le_add_right _ _⟩
      | cons d ds =>
          have hskip := ih batch ds
          simp only [drainBurstChecked, drainBurst, Datagram.parseChecked_eq, bind,
            Option.bind_some, List.length_cons]
          split
          · split
            · exact ⟨hskip.1, Nat.le_succ_of_le hskip.2⟩
            · cases d.parse with
              | none => exact ⟨hskip.1, Nat.le_succ_of_le hskip.2⟩
              | some p =>
                  have hkeep := ih (batch ++ [p]) ds
                  rw [List.length_append, List.length_singleton, Nat.add_right_comm] at hkeep
                  exact hkeep
          · exact ⟨rfl, Nat.le_add_right _ _⟩

theorem burst_length_le (first : Datagram) (queued : List Datagram) :
    (burst first queued).length ≤ 1 + queued.length := by
  have hone : first.parse.toList.length ≤ 1 := Option.length_toList_le
  have hle := (drainBurstChecked_eq first.src (maxBatch - 1) first.parse.toList queued).2
  unfold burst
  omega

/-- There is no port after 65535. -/
theorem rtcpAddrForChecked_eq (src : SocketAddr) :
    rtcpAddrForChecked src = if src.port = 65535 then none else some (rtcpAddrFor src) := by
  unfold rtcpAddrForChecked
  have hlt := src.port.toNat_lt
  by_cases hport : src.port = 65535
  · rw [if_pos hport, hport]
    rfl
  · have hne : src.port.toNat ≠ 65535 := fun hc => hport (UInt16.toNat_inj.mp hc)
    rw [if_neg hport, Checked.add16_of_lt (by rw [UInt16.toNat_one]; omega)]
    rfl

variable {s : ReceiverState} {n : Nat}

theorem latchChecked_eq (hlatched : ∀ a, s.senderRtpAddr = some a → a.port ≠ 65535)
    (src : SocketAddr) :
    s.latchChecked src = if src.port = 65535 then none else some (s.latch src) := by
  unfold latchChecked latch
  by_cases hsrc : s.senderRtpAddr = some src
  · rw [if_neg (not_not.mpr hsrc), if_neg (hlatched src hsrc), if_neg (not_not.mpr hsrc)]
  · rw [if_pos hsrc, if_pos hsrc, rtcpAddrForChecked_eq]
    split
    · rfl
    · rfl

/-- **The RTP arm stops exactly at the last port**, while no address of that port is
latched. -/
theorem rtpArmChecked_iff (h : Light n s.media) (pinned : Option IpAddr) (first : Datagram)
    {queued : List Datagram} (hlen : n + (1 + queued.length) < 65536)
    (hlatched : ∀ a, s.senderRtpAddr = some a → a.port ≠ 65535) (arrivedAt now : Instant) :
    s.rtpArmChecked pinned first queued arrivedAt now
        = some (s.rtpArm pinned first queued arrivedAt now) ↔
      ¬(s.rtpAdmitted pinned first arrivedAt = true ∧ first.src.port = 65535) := by
  unfold rtpArmChecked rtpArm
  by_cases had : s.rtpAdmitted pinned first arrivedAt = true
  · have hburst : drainBurstChecked first.src (maxBatch - 1) first.parse.toList queued
        = some (burst first queued) :=
      (drainBurstChecked_eq first.src (maxBatch - 1) first.parse.toList queued).1
    rw [if_pos had, if_pos had, latchChecked_eq hlatched]
    by_cases hport : first.src.port = 65535
    · rw [if_pos hport]
      exact iff_of_false (fun hc => absurd hc (by simp)) (not_not.mpr ⟨had, hport⟩)
    · rw [if_neg hport]
      refine iff_of_true ?_ fun hc => hport hc.2
      simp only [bind, Option.bind_some, Datagram.parseChecked_eq, hburst]
      split
      · rfl
      · have hle := burst_length_le first queued
        have hfew : n + (burst first queued).length < 65536 := by omega
        rw [latch_media, (h.processBatch hfew now).1]
        rfl
  · rw [if_neg had, if_neg had]
    exact iff_of_true rfl fun hc => had hc.1

theorem inserted_length_le (pinned : Option IpAddr) (s : ReceiverState) (first : Datagram)
    (queued : List Datagram) (arrivedAt : Instant) :
    (s.inserted pinned first queued arrivedAt).length ≤ 1 + queued.length := by
  unfold inserted
  split
  · exact burst_length_le first queued
  · exact Nat.zero_le _

theorem rtpArm_light (h : Light n s.media) (pinned : Option IpAddr) (first : Datagram)
    {queued : List Datagram} (hlen : n + (1 + queued.length) < 65536) (arrivedAt now : Instant) :
    Light (n + (1 + queued.length)) (s.rtpArm pinned first queued arrivedAt now).media := by
  have hle := inserted_length_le pinned s first queued arrivedAt
  rw [rtpArm_media]
  exact (h.processBatch (by omega) now).2.mono (by omega)

/-! ### Control -/

/-- **A control datagram of any bytes is safe to parse.** -/
theorem parse_ne_panic (buf : Bytes) : RtcpCompound.parse buf ≠ .error .panic := by
  obtain ⟨frames, rest, -, ⟨-, pkts, hok, -⟩ | ⟨-, herr⟩⟩ := RtcpCompound.exists_walk buf
  · rw [hok]
    exact fun hc => absurd hc (by simp)
  · rw [herr]
    exact fun hc => absurd hc (by simp)

theorem rtcpArmChecked_eq (pinned : Option IpAddr) (ssrc : UInt32) (s : ReceiverState)
    (src : SocketAddr) (bytes : Bytes) (now : Instant) (clock : Nat → Instant) :
    s.rtcpArmChecked pinned ssrc src bytes now clock
      = some (s.rtcpArm pinned ssrc src bytes now clock).1 := by
  unfold rtcpArmChecked
  split
  · split
    · rename_i hpanic
      exact absurd hpanic (parse_ne_panic _)
    · rfl
  · rename_i had
    unfold rtcpArm
    rw [if_neg had]

theorem handlePacket_light (h : Light n s.media) (ssrc : UInt32) (src : SocketAddr)
    (now clock : Instant) (pkt : RtcpPacket) :
    Light n (handlePacket ssrc src now clock s pkt).1.media := by
  unfold ReceiverState.handlePacket
  split
  · rename_i sr
    obtain ⟨g, htracks, hle⟩ := h.counts.totals
    -- a sender report moves none of the counters
    have htracks' : RtcpReceiverState.Tracks (s.media.rtcp.onSrReceived sr now) g :=
      htracks.congr rfl rfl rfl rfl rfl rfl rfl rfl
    exact ⟨h.capacity, ⟨g, htracks', hle⟩, h.counts.active⟩
  · exact h
  · simp only
    split
    · exact ⟨h.capacity, h.counts.totals, h.counts.active⟩
    · exact h
  · exact h

theorem handlePackets_light (ssrc : UInt32) (src : SocketAddr) (now : Instant)
    (clock : Nat → Instant) (pkts : List RtcpPacket) : ∀ {s : ReceiverState} (k : Nat),
    Light n s.media → Light n (handlePackets ssrc src now clock s k pkts).1.media := by
  induction pkts with
  | nil =>
      intro s k h
      exact h
  | cons pkt pkts ih =>
      intro s k h
      exact ih (k + 1) (handlePacket_light h ssrc src now (clock k) pkt)

theorem rtcpArm_light (h : Light n s.media) (pinned : Option IpAddr) (ssrc : UInt32)
    (src : SocketAddr) (bytes : Bytes) (now : Instant) (clock : Nat → Instant) :
    Light n (s.rtcpArm pinned ssrc src bytes now clock).1.media := by
  unfold ReceiverState.rtcpArm
  split
  · split
    · split
      · exact h
      · exact handlePackets_light ssrc src now clock _ 0 h
    · exact h
  · exact h

theorem rtcpArm_senderRtpAddr (pinned : Option IpAddr) (ssrc : UInt32) (s : ReceiverState)
    (src : SocketAddr) (bytes : Bytes) (now : Instant) (clock : Nat → Instant) :
    (s.rtcpArm pinned ssrc src bytes now clock).1.senderRtpAddr = s.senderRtpAddr := by
  rcases rtcpArm_cases pinned ssrc s src bytes now clock with ⟨-, heq⟩ | ⟨-, -, hsame⟩
  · rw [heq]
  · exact hsame.senderRtpAddr

/-! ### The timers -/

/-- **A report is safe.** -/
theorem generateRr_light (h : Light n s.media) (hn : n < 65536) (ssrc : UInt32) (now : Instant) :
    s.media.rtcp.generateRrChecked ssrc now = some (s.media.rtcp.generateRr ssrc now) ∧
      Counts n (s.media.rtcp.generateRr ssrc now).1 s.media.nack := by
  obtain ⟨g, htracks, hle⟩ := h.counts.totals
  have hreach := htracks.reach
  have hexpected : g.expected ≤ g.extended + 1 := by
    unfold SeqTotals.expected
    omega
  rw [htracks.generateRrChecked (by omega) (by omega), if_pos (Or.inr (by omega))]
  refine ⟨rfl, ⟨g.report, htracks.report ssrc now, ?_⟩, h.counts.active⟩
  rw [(CountLog.report_totals g).1]
  exact hle

theorem getPendingNacks_activeCount (nack : NackScheduler) (now : Instant)
    (rtt : Option Duration) :
    (nack.getPendingNacks now rtt).1.activeCount.toNat ≤ nack.activeCount.toNat := by
  unfold NackScheduler.getPendingNacks
  split
  · exact Nat.le_refl _
  · exact (NackScheduler.scan_fields nack now _ _).2.2.2

theorem pumpArm_light (h : Light n s.media) (hn : n < 65536) (ssrc : UInt32) (now : Instant) :
    s.pumpArmChecked ssrc now = some (s.pumpArm ssrc now).1 ∧
      Light n (s.pumpArm ssrc now).1.media ∧
      (s.pumpArm ssrc now).1.senderRtpAddr = s.senderRtpAddr := by
  obtain ⟨hrr, hcounts⟩ := generateRr_light h hn ssrc now
  have hactive := Nat.le_trans (getPendingNacks_activeCount s.media.nack now s.rtt.srtt)
    h.counts.active
  unfold pumpArmChecked ReceiverState.pumpArm
  split
  · exact ⟨rfl, h, rfl⟩
  · simp only
    split
    · exact ⟨rfl, ⟨h.capacity, h.counts.totals, hactive⟩, rfl⟩
    · rw [hrr]
      exact ⟨rfl, ⟨h.capacity, hcounts.totals, hactive⟩, rfl⟩

theorem reportArm_light (h : Light n s.media) (hn : n < 65536) (ssrc : UInt32) (cname : String)
    (rttEchoEnabled : Bool) (now : Instant) :
    s.reportArmChecked ssrc rttEchoEnabled now
        = some (s.reportArm ssrc cname rttEchoEnabled now).1 ∧
      Light n (s.reportArm ssrc cname rttEchoEnabled now).1.media ∧
      (s.reportArm ssrc cname rttEchoEnabled now).1.senderRtpAddr = s.senderRtpAddr := by
  obtain ⟨hrr, hcounts⟩ := generateRr_light h hn ssrc now
  unfold reportArmChecked ReceiverState.reportArm
  split
  · exact ⟨rfl, h, rfl⟩
  · rw [hrr]
    simp only [bind, Option.bind_some]
    split
    · exact ⟨rfl, ⟨h.capacity, hcounts⟩, rfl⟩
    · exact ⟨rfl, ⟨h.capacity, hcounts⟩, rfl⟩

/-! ### Runs -/

/-- A turn of the loop. -/
def turn (cfg : LoopConfig) (s : ReceiverState) : LoopOp → ReceiverState
  | .rtp first queued arrivedAt now => s.rtpArm cfg.pinned first queued arrivedAt now
  | .rtcp src bytes now clock => (s.rtcpArm cfg.pinned cfg.ssrc src bytes now clock).1
  | .pump now => (s.pumpArm cfg.ssrc now).1
  | .report now => (s.reportArm cfg.ssrc cfg.cname cfg.rttEchoEnabled now).1

/-- A turn of the loop in a debug build; `none` is a stop. -/
def turnChecked (cfg : LoopConfig) (s : ReceiverState) : LoopOp → Option ReceiverState
  | .rtp first queued arrivedAt now => s.rtpArmChecked cfg.pinned first queued arrivedAt now
  | .rtcp src bytes now clock => s.rtcpArmChecked cfg.pinned cfg.ssrc src bytes now clock
  | .pump now => s.pumpArmChecked cfg.ssrc now
  | .report now => s.reportArmChecked cfg.ssrc cfg.rttEchoEnabled now

end ReceiverState

/-- The datagrams that a turn of the loop reads. -/
def LoopOp.datagrams : LoopOp → Nat
  | rtp _ queued _ _ => 1 + queued.length
  | rtcp _ _ _ _ => 1
  | pump _ => 0
  | report _ => 0

/-- A turn of the loop, or a drain of the reorder buffer by the delivery thread. -/
inductive InboundOp where
  | turn (op : LoopOp)
  | drain (now : Instant)

def InboundOp.datagrams : InboundOp → Nat
  | turn op => op.datagrams
  | drain _ => 0

/-- A receiver, and the datagrams it has read. -/
structure InboundLog where
  state : ReceiverState
  read : Nat

namespace InboundLog

open ReceiverState MediaPath

variable {cfg : LoopConfig} {t : InboundLog}

def start (s : ReceiverState) : InboundLog := ⟨s, 0⟩

def step (cfg : LoopConfig) (t : InboundLog) (op : InboundOp) : InboundLog where
  state := match op with
    | .turn op => t.state.turn cfg op
    | .drain now => { t.state with media.reorder := (t.state.media.reorder.drainReady now).1 }
  read := t.read + op.datagrams

/-- The loop goes through the turn in a debug build. -/
def Survives (cfg : LoopConfig) (t : InboundLog) : InboundOp → Prop
  | .turn op => t.state.turnChecked cfg op = some (t.state.turn cfg op)
  | .drain _ => True

/-- A media datagram from port 65535 is admitted. -/
def AdmitsLastPort (cfg : LoopConfig) (t : InboundLog) : InboundOp → Prop
  | .turn (.rtp first _ arrivedAt _) =>
    t.state.rtpAdmitted cfg.pinned first arrivedAt = true ∧ first.src.port = 65535
  | _ => False

/-- What a run that goes through keeps. -/
structure Safe (t : InboundLog) : Prop where
  light : Light t.read t.state.media
  latched : ∀ a, t.state.senderRtpAddr = some a → a.port ≠ 65535

theorem safe_start (bufferSize : Duration) (maxNackRetries : UInt32) (rtcpInterval : Duration)
    (now : Instant) :
    Safe (start (ReceiverState.new bufferSize maxNackRetries rtcpInterval now)) := by
  have hbits : Nat.clog 2 ReorderBuffer.defaultCapacity = 13 := Nat.clog_pow 2 13 (by decide)
  refine ⟨⟨?_, ⟨{}, RtcpReceiverState.tracks_new, Nat.le_refl 0⟩, Nat.le_refl 0⟩, ?_⟩
  · show 2 ^ max (Nat.clog 2 ReorderBuffer.defaultCapacity) 6 = ReorderBuffer.defaultCapacity
    rw [hbits]
    rfl
  · intro a ha
    cases ha

theorem Safe.survives_iff (h : Safe t) {op : InboundOp} (hfew : (t.step cfg op).read < 65536) :
    t.Survives cfg op ↔ ¬t.AdmitsLastPort cfg op := by
  have hread : t.read < 65536 := Nat.lt_of_le_of_lt (Nat.le_add_right _ _) hfew
  cases op with
  | drain now => exact iff_of_true trivial id
  | turn op =>
      cases op with
      | rtp first queued arrivedAt now =>
          exact rtpArmChecked_iff h.light cfg.pinned first hfew h.latched arrivedAt now
      | rtcp src bytes now clock =>
          exact iff_of_true (rtcpArmChecked_eq cfg.pinned cfg.ssrc t.state src bytes now clock) id
      | pump now => exact iff_of_true (pumpArm_light h.light hread cfg.ssrc now).1 id
      | report now =>
          exact iff_of_true
            (reportArm_light h.light hread cfg.ssrc cfg.cname cfg.rttEchoEnabled now).1 id

theorem Safe.step (h : Safe t) {op : InboundOp} (hfew : (t.step cfg op).read < 65536)
    (hport : ¬t.AdmitsLastPort cfg op) : Safe (t.step cfg op) := by
  have hread : t.read < 65536 := Nat.lt_of_le_of_lt (Nat.le_add_right _ _) hfew
  cases op with
  | drain now =>
      refine ⟨⟨?_, h.light.counts⟩, h.latched⟩
      exact (ReorderBuffer.drainLoop_capacity now _ t.state.media.reorder).trans h.light.capacity
  | turn op =>
      cases op with
      | rtp first queued arrivedAt now =>
          refine ⟨rtpArm_light h.light cfg.pinned first hfew arrivedAt now, ?_⟩
          intro a ha
          by_cases had : t.state.rtpAdmitted cfg.pinned first arrivedAt = true
          · have haddr := (rtpArm_latches had queued now).1
            obtain rfl := Option.some.inj (haddr.symm.trans ha)
            exact fun hc => hport ⟨had, hc⟩
          · refine h.latched a ?_
            rw [← ha]
            show _ = (t.state.rtpArm cfg.pinned first queued arrivedAt now).senderRtpAddr
            unfold rtpArm
            rw [if_neg had]
      | rtcp src bytes now clock =>
          have hlight := rtcpArm_light h.light cfg.pinned cfg.ssrc src bytes now clock
          refine ⟨hlight.mono (Nat.le_succ _), ?_⟩
          intro a ha
          exact h.latched a ((rtcpArm_senderRtpAddr cfg.pinned cfg.ssrc t.state src bytes now
            clock).symm.trans ha)
      | pump now =>
          obtain ⟨-, hlight, haddr⟩ := pumpArm_light h.light hread cfg.ssrc now
          exact ⟨hlight, fun a ha => h.latched a (haddr.symm.trans ha)⟩
      | report now =>
          obtain ⟨-, hlight, haddr⟩ :=
            reportArm_light h.light hread cfg.ssrc cfg.cname cfg.rttEchoEnabled now
          exact ⟨hlight, fun a ha => h.latched a (haddr.symm.trans ha)⟩

theorem final_read (ops : List InboundOp) (t : InboundLog) :
    (Run.final (step cfg) t ops).read = t.read + (ops.map InboundOp.datagrams).sum := by
  induction ops generalizing t with
  | nil => rfl
  | cons op ops ih =>
      rw [Run.final_cons, ih, List.map_cons, List.sum_cons, ← Nat.add_assoc]
      rfl

/-- **What can stop the receive task**: in a run of fewer than 65536 datagrams, an admitted
media datagram from port 65535 and nothing else. -/
theorem inbound_survives_iff (cfg : LoopConfig) (bufferSize : Duration) (maxNackRetries : UInt32)
    (rtcpInterval : Duration) (now : Instant) (ops : List InboundOp)
    (hfew : (ops.map InboundOp.datagrams).sum < 65536) :
    Run.Along (step cfg) (Survives cfg)
        (start (ReceiverState.new bufferSize maxNackRetries rtcpInterval now)) ops ↔
      Run.Along (step cfg) (fun t op => ¬t.AdmitsLastPort cfg op)
        (start (ReceiverState.new bufferSize maxNackRetries rtcpInterval now)) ops := by
  have hmono : ∀ (t : InboundLog) op, t.read ≤ (t.step cfg op).read :=
    fun t op => Nat.le_add_right _ _
  have hend : (Run.final (step cfg)
      (start (ReceiverState.new bufferSize maxNackRetries rtcpInterval now)) ops).read < 65536 := by
    rw [final_read]
    exact (Nat.zero_add _).trans_lt hfew
  refine Run.along_iff_of_env (fun t op h hread => h.survives_iff hread)
    (fun t op h hread hok => h.step hread ((h.survives_iff hread).mp hok))
    (safe_start bufferSize maxNackRetries rtcpInterval now) ?_
  exact ((Run.along_lt_iff hmono).mpr hend).2

/-- Two datagrams from another port, one of them cut short, a pump and a report. -/
theorem inbound_survives_iff_other_port :
    Run.Along (step ⟨none, 4, "r", true⟩) (Survives ⟨none, 4, "r", true⟩)
      (start (ReceiverState.new 50000000 3 100000000 0))
      [.turn (.rtp ⟨.v4 0x0a000001 5000, [0x80, 33, 0, 7, 0, 0, 0, 9, 0, 0, 0, 2, 0x47], 0⟩
        [⟨.v4 0x0a000001 5000, [0x80], 0⟩] 0 0), .turn (.pump 5000000), .drain 6000000,
        .turn (.report 100000000)] :=
  (inbound_survives_iff ⟨none, 4, "r", true⟩ 50000000 3 100000000 0 _ (by decide)).mpr
    ⟨fun hc => absurd hc.2 (by decide), id, id, id, trivial⟩

/-- The first datagram comes from port 65535.  It is empty, and it stops the task. -/
theorem last_port_stops_the_task :
    ¬Run.Along (step ⟨none, 4, "r", true⟩) (Survives ⟨none, 4, "r", true⟩)
      (start (ReceiverState.new 50000000 3 100000000 0))
      [.turn (.rtp ⟨.v4 0x0a000001 65535, [], 0⟩ [] 0 0)] := by
  intro h
  have hstop : (ReceiverState.new 50000000 3 100000000 0).turnChecked ⟨none, 4, "r", true⟩
      (.rtp ⟨.v4 0x0a000001 65535, [], 0⟩ [] 0 0) = none := rfl
  exact absurd (hstop.symm.trans h.1) (by simp)

end InboundLog

end Rist
