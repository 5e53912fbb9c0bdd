/-
What a stranger can make the tasks send to somebody else.

Both tasks answer an echo request at once, to the address the datagram came from, and that
address can be forged.  An answer is 32 bytes, the request it answers took 20 of the
datagram, so a flood is sent back at most eight fifths as large as it came; and nobody is
sent anything that did not, as far as the tasks can tell, ask for it.

The bound holds in every state, so it holds along every run, whatever the other arms do in
between.
-/
import Rist.Proofs.Packet.Reencode
import Rist.Proofs.Receiver.Inbound
import Rist.Transport.SendTask

namespace Rist

open RtcpCompound

/-! ### Requests in a datagram -/

def RtcpPacket.isEchoRequest : RtcpPacket → Bool
  | .app (.rttEchoRequest _) => true
  | _ => false

/-- An echo request takes twenty bytes. -/
theorem length_of_isEchoRequest {f : Bytes} {h : RtcpCommonHeader} {pkt : RtcpPacket}
    (hdec : RtcpPacket.IsDecoding h (f.drop 4) pkt) (hecho : pkt.isEchoRequest = true) :
    20 ≤ f.length := by
  match pkt, hecho with
  | .app (.rttEchoRequest req), _ =>
      have hlen := (RistApp.bounds_of_parse (app_of_isDecoding hdec)).2 req rfl
      rw [List.length_drop] at hlen
      omega

theorem countP_isEchoRequest_le {frames : List Bytes} {pkts : List RtcpPacket}
    (hall : List.Forall₂ (fun f pkt => ∃ h, RtcpCommonHeader.parse f = .ok h ∧
      RtcpPacket.IsDecoding h (f.drop 4) pkt) frames pkts) :
    20 * pkts.countP RtcpPacket.isEchoRequest ≤ frames.flatten.length := by
  induction hall with
  | nil => exact Nat.le_refl 0
  | @cons f pkt frames pkts hf hall ih =>
      obtain ⟨h, -, hdec⟩ := hf
      rw [List.countP_cons, List.flatten_cons, List.length_append]
      by_cases hecho : pkt.isEchoRequest = true
      · have hlen := length_of_isEchoRequest hdec hecho
        rw [if_pos hecho]
        omega
      · rw [if_neg hecho]
        omega

/-- **A datagram has room for one echo request in twenty bytes.** -/
theorem echoRequests_le {buf : Bytes} {c : List RtcpPacket} (hparse : parse buf = .ok c) :
    20 * c.countP RtcpPacket.isEchoRequest ≤ buf.length := by
  obtain ⟨frames, rest, hwalk, ⟨-, pkts, hok, -, hall⟩ | ⟨-, herr⟩⟩ := exists_walk buf
  · obtain rfl := Except.ok.inj (hparse.symm.trans hok)
    have hle := countP_isEchoRequest_le hall
    rw [hwalk.bytes, List.length_append]
    omega
  · cases hparse.symm.trans herr

/-! ### Replies -/

/-- An answer: an empty report and the echo. -/
theorem ReceiverState.length_echoReply (ssrc : UInt32) (req : RttEchoRequest) (delay : UInt32) :
    (echoReply ssrc req delay).length = 32 := rfl

/-- The replies to a datagram go where it came from, 32 bytes each, for no more of them than
twenty bytes each could ask for. -/
structure Reflects (src : SocketAddr) (bytes : Bytes) (replies : List (SocketAddr × Bytes)) :
    Prop where
  back : ∀ d ∈ replies, d.1 = src ∧ d.2.length = 32
  count : 20 * replies.length ≤ (bytes.take maxUdpRecv).length

theorem reflects_nil (src : SocketAddr) (bytes : Bytes) : Reflects src bytes [] :=
  ⟨fun _ hd => absurd hd List.not_mem_nil, Nat.zero_le _⟩

namespace ReceiverState

theorem handlePackets_reflects (ssrc : UInt32) (src : SocketAddr) (now : Instant)
    (clock : Nat → Instant) : ∀ (pkts : List RtcpPacket) (s : ReceiverState) (k : Nat),
    (∀ d ∈ (handlePackets ssrc src now clock s k pkts).2, d.1 = src ∧ d.2.length = 32) ∧
      (handlePackets ssrc src now clock s k pkts).2.length
        ≤ pkts.countP RtcpPacket.isEchoRequest := by
  intro pkts
  induction pkts with
  | nil =>
      intro s k
      exact ⟨fun d hd => absurd hd List.not_mem_nil, Nat.le_refl 0⟩
  | cons pkt pkts ih =>
      intro s k
      -- only an echo request is answered, and once
      have hone : (∀ d ∈ (handlePacket ssrc src now (clock k) s pkt).2, d.1 = src ∧ d.2.length = 32) ∧
          (handlePacket ssrc src now (clock k) s pkt).2.length
            ≤ if pkt.isEchoRequest then 1 else 0 := by
        unfold handlePacket
        split
        · exact ⟨fun d hd => absurd hd List.not_mem_nil, Nat.zero_le _⟩
        · refine ⟨?_, Nat.le_refl 1⟩
          intro d hd
          rw [List.mem_singleton.mp hd]
          exact ⟨rfl, length_echoReply _ _ _⟩
        · simp only
          split <;> exact ⟨fun d hd => absurd hd List.not_mem_nil, Nat.zero_le _⟩
        · exact ⟨fun d hd => absurd hd List.not_mem_nil, Nat.zero_le _⟩
      obtain ⟨hback, hcount⟩ := ih (handlePacket ssrc src now (clock k) s pkt).1 (k + 1)
      simp only [handlePackets]
      constructor
      · intro d hd
        rcases List.mem_append.mp hd with hd | hd
        · exact hone.1 d hd
        · exact hback d hd
      · rw [List.length_append, List.countP_cons]
        have := hone.2
        omega

theorem rtcpArm_reflects (pinned : Option IpAddr) (ssrc : UInt32) (s : ReceiverState)
    (src : SocketAddr) (bytes : Bytes) (now : Instant) (clock : Nat → Instant) :
    Reflects src bytes (s.rtcpArm pinned ssrc src bytes now clock).2 := by
  unfold rtcpArm
  split
  · split
    · rename_i packets hparse
      split
      · exact reflects_nil src bytes
      · obtain ⟨hback, hcount⟩ := handlePackets_reflects ssrc src now clock packets
          { s with senderRtcpAddr := some src, rtcpPeerLive := some now } 0
        exact ⟨hback, (Nat.mul_le_mul_left 20 hcount).trans (echoRequests_le hparse)⟩
    · exact reflects_nil src bytes
  · exact reflects_nil src bytes

/-- What a turn of the receive task sends back. -/
def answers (cfg : LoopConfig) (s : ReceiverState) : LoopOp → List (SocketAddr × Bytes)
  | .rtcp src bytes now clock => (s.rtcpArm cfg.pinned cfg.ssrc src bytes now clock).2
  | _ => []

end ReceiverState

namespace SenderState

theorem handlePackets_reflects (s : SenderState) (src : SocketAddr) (recvAt : Instant)
    (clock : Nat → Instant) :
    ∀ (pkts : List RtcpPacket) (k : Nat) (budget : NackWorkBudget) (rtt : RttEstimator),
      (∀ d ∈ (s.handlePackets src recvAt clock k budget rtt pkts).2.replies,
        d.1 = src ∧ d.2.length = 32) ∧
      (s.handlePackets src recvAt clock k budget rtt pkts).2.replies.length
        ≤ pkts.countP RtcpPacket.isEchoRequest := by
  intro pkts
  induction pkts with
  | nil =>
      intro k budget rtt
      exact ⟨fun d hd => absurd hd List.not_mem_nil, Nat.le_refl 0⟩
  | cons pkt pkts ih =>
      intro k budget rtt
      rw [handlePackets.eq_def, List.countP_cons]
      simp only
      split
      · -- a request for packets sends nothing on this socket
        split
        · exact ⟨fun d hd => absurd hd List.not_mem_nil, Nat.zero_le _⟩
        · obtain ⟨hback, hcount⟩ := ih (k + 1) (serveNackEntries s.retransmitBuf s.remoteRtpAddr
            budget _).budget rtt
          exact ⟨hback, Nat.le_add_right_of_le hcount⟩
      · split
        · obtain ⟨hback, hcount⟩ := ih (k + 1) budget rtt
          constructor
          · intro d hd
            rcases List.mem_append.mp hd with hd | hd
            · rw [List.mem_singleton.mp hd]
              exact ⟨rfl, ReceiverState.length_echoReply _ _ _⟩
            · exact hback d hd
          · show ([_] ++ _ : List (SocketAddr × Bytes)).length ≤ _ + 1
            rw [List.length_append, List.length_singleton]
            omega
        · obtain ⟨hback, hcount⟩ := ih (k + 1) budget (rtt.onResponse (clock k) _ _ _)
          exact ⟨hback, Nat.le_add_right_of_le hcount⟩
        · obtain ⟨hback, hcount⟩ := ih (k + 1) budget rtt
          exact ⟨hback, Nat.le_add_right_of_le hcount⟩

theorem rtcpArm_reflects (s : SenderState) (src : SocketAddr) (bytes : Bytes) (recvAt : Instant)
    (clock : Nat → Instant) : Reflects src bytes (s.rtcpArm src bytes recvAt clock).2.replies := by
  unfold rtcpArm
  simp only
  split
  · exact reflects_nil src bytes
  · rename_i hne
    have hparse := (admitted_ne_nil fun hnil => hne (by rw [hnil]; rfl)).1
    obtain ⟨hback, hcount⟩ := handlePackets_reflects
      { s with remoteRtcpAddr := src, rtcpPeerLive := some recvAt } src recvAt clock
      (s.admitted src bytes recvAt) 0 (NackWorkBudget.forCapacity s.retransmitBuf.capacity) s.rtt
    exact ⟨hback, (Nat.mul_le_mul_left 20 hcount).trans (echoRequests_le hparse)⟩

end SenderState

/-- What a turn of the send task sends back. -/
def SendTask.answers (t : SendTask) : SendTask.Op → List (SocketAddr × Bytes)
  | .rtcp src bytes recvAt clock => (t.rtcpArm src bytes recvAt clock).2.replies
  | _ => []

/-! ### Runs -/

/-- The control bytes a turn reads from an address. -/
def LoopOp.readFrom (a : SocketAddr) : LoopOp → Nat
  | .rtcp src bytes _ _ => if src = a then (bytes.take maxUdpRecv).length else 0
  | _ => 0

def SendTask.Op.readFrom (a : SocketAddr) : SendTask.Op → Nat
  | .rtcp src bytes _ _ => if src = a then (bytes.take maxUdpRecv).length else 0
  | _ => 0

/-- A reply to `a`, weighed by what it must have cost. -/
def replyCost (a : SocketAddr) (d : SocketAddr × Bytes) : Nat := if d.1 = a then 20 else 0

theorem sum_replyCost (a : SocketAddr) (replies : List (SocketAddr × Bytes)) :
    (replies.map (replyCost a)).sum = 20 * replies.countP fun d => d.1 = a := by
  induction replies with
  | nil => rfl
  | cons d replies ih =>
      rw [List.map_cons, List.sum_cons, ih, List.countP_cons, replyCost]
      by_cases hd : d.1 = a
      · rw [if_pos hd, if_pos (by simpa using hd)]
        omega
      · rw [if_neg hd, if_neg (by simpa using hd)]
        omega

theorem Reflects.cost_le {src : SocketAddr} {bytes : Bytes} {replies : List (SocketAddr × Bytes)}
    (h : Reflects src bytes replies) (a : SocketAddr) :
    (replies.map (replyCost a)).sum ≤ if src = a then (bytes.take maxUdpRecv).length else 0 := by
  rw [sum_replyCost]
  split
  · exact (Nat.mul_le_mul_left 20 List.countP_le_length).trans h.count
  · rename_i hne
    have hnone : replies.countP (fun d => decide (d.1 = a)) = 0 := by
      rw [List.countP_eq_zero]
      intro d hd
      rw [(h.back d hd).1]
      simpa using hne
    rw [hnone]

/-- **Neither task can be made to flood anybody.**  Along every run, on whatever is sent to
it, from whatever addresses, each task's replies are 32 bytes each, and for every one of
them to an address it has read twenty bytes that came with this address. -/
theorem replies_paid_for (a : SocketAddr) :
    (∀ (cfg : LoopConfig) (s : ReceiverState) (ops : List LoopOp),
      (∀ d ∈ Run.emitted (ReceiverState.turn cfg) (ReceiverState.answers cfg) s ops,
        d.2.length = 32) ∧
      20 * (Run.emitted (ReceiverState.turn cfg) (ReceiverState.answers cfg) s ops).countP
        (fun d => d.1 = a) ≤ (ops.map (LoopOp.readFrom a)).sum) ∧
    (∀ (rttEchoEnabled : Bool) (t : SendTask) (ops : List SendTask.Op),
      (∀ d ∈ Run.emitted (SendTask.turn rttEchoEnabled) SendTask.answers t ops,
        d.2.length = 32) ∧
      20 * (Run.emitted (SendTask.turn rttEchoEnabled) SendTask.answers t ops).countP
        (fun d => d.1 = a) ≤ (ops.map (SendTask.Op.readFrom a)).sum) := by
  have hreceiver : ∀ (cfg : LoopConfig) (s : ReceiverState) (op : LoopOp),
      (∀ d ∈ s.answers cfg op, d.2.length = 32) ∧
        ((s.answers cfg op).map (replyCost a)).sum ≤ op.readFrom a := by
    intro cfg s op
    cases op with
    | rtcp src bytes now clock =>
        have h := s.rtcpArm_reflects cfg.pinned cfg.ssrc src bytes now clock
        exact ⟨fun d hd => (h.back d hd).2, h.cost_le a⟩
    | rtp first queued arrivedAt now => exact ⟨nofun, Nat.le_refl 0⟩
    | pump now => exact ⟨nofun, Nat.le_refl 0⟩
    | report now => exact ⟨nofun, Nat.le_refl 0⟩
  have hsender : ∀ (t : SendTask) (op : SendTask.Op),
      (∀ d ∈ t.answers op, d.2.length = 32) ∧
        ((t.answers op).map (replyCost a)).sum ≤ op.readFrom a := by
    intro t op
    cases op with
    | rtcp src bytes recvAt clock =>
        have h := t.core.rtcpArm_reflects src bytes recvAt clock
        exact ⟨fun d hd => (h.back d hd).2, h.cost_le a⟩
    | media payload now => exact ⟨nofun, Nat.le_refl 0⟩
    | report now wallClock => exact ⟨nofun, Nat.le_refl 0⟩
  constructor
  · intro cfg s ops
    rw [← sum_replyCost]
    exact ⟨Run.forall_emitted (fun s op => (hreceiver cfg s op).1) ops s,
      Run.emitted_sum_le (fun s op => (hreceiver cfg s op).2) ops s⟩
  · intro rttEchoEnabled t ops
    rw [← sum_replyCost]
    exact ⟨Run.forall_emitted (fun t op => (hsender t op).1) ops t,
      Run.emitted_sum_le (fun t op => (hsender t op).2) ops t⟩

end Rist
