/-
Who may talk to the receiver.

The receiver holds two slots: the media source, `sender_rtp_addr` with
`rtp_peer_live`, and the control peer, `sender_rtcp_addr` with `rtcp_peer_live`.
`Watch` plays a run of the two socket arms and logs who was heard on each, so that
the slots can be read against `HoldDown.Held`.

The media slot is latched before the datagram is parsed and goes live only when
media came of it, and it is held all the same.  The control slot is written from
both arms.  The RTCP arm lets either kind of liveness protect it; the RTP arm looks
at the media slot alone and moves the control slot along with it, so valid RTCP
does not protect the slot against a media datagram from elsewhere.  `Displaces` is
that step, and the control slot is held along a run exactly when no step is one.
-/
import Rist.Lib.HoldDown
import Rist.Lib.Run
import Rist.Transport.Receiver

namespace Rist

open HoldDown

/-! ### The guards as a hold-down -/

theorem peerIsProtected_iff (live : Option Instant) (now : Instant) :
    peerIsProtected live now = true ↔ ¬Silent peerTakeoverGrace live now := by
  unfold Silent
  cases live with
  | none => simp [peerIsProtected]
  | some t =>
      have hgrace : ∀ a b : Nat, a - b < 12000000000 ↔ ¬b + 12000000000 ≤ a := by omega
      simp only [peerIsProtected, decide_eq_true_iff, Option.some.injEq, forall_eq']
      exact hgrace now t

theorem peerMoveAllowed_iff (src current : SocketAddr) (live : Option Instant) (now : Instant) :
    peerMoveAllowed src current live now = true ↔
      Admits peerTakeoverGrace ⟨some current.ip, live⟩ src.ip now := by
  have hprot := peerIsProtected_iff live now
  unfold peerMoveAllowed Admits
  rw [Bool.or_eq_true, decide_eq_true_iff, Bool.not_eq_true', ← Bool.not_eq_true, hprot, not_not]
  simp [eq_comm]

theorem sourceAllowed_iff (src : SocketAddr) (pinned : Option IpAddr)
    (current : Option SocketAddr) (live : Option Instant) (now : Instant) :
    sourceAllowed src pinned current live now = true ↔
      (∀ ip, pinned = some ip → src.ip = ip) ∧
        Admits peerTakeoverGrace ⟨current.map SocketAddr.ip, live⟩ src.ip now := by
  have hpin : (pinned.any fun ip => decide (src.ip ≠ ip)) = true ↔
      ¬∀ ip, pinned = some ip → src.ip = ip := by
    cases pinned <;> simp
  unfold sourceAllowed
  by_cases hp : (pinned.any fun ip => decide (src.ip ≠ ip)) = true
  · rw [if_pos hp]
    exact iff_of_false (by simp) fun hc => hpin.mp hp hc.1
  · rw [if_neg hp]
    have hall := not_not.mp (mt hpin.mpr hp)
    cases current with
    | none => exact iff_of_true rfl ⟨hall, Or.inl rfl⟩
    | some cur =>
        rw [peerMoveAllowed_iff]
        exact (and_iff_right hall).symm

namespace ReceiverState

variable {s : ReceiverState}

def mediaSeat (s : ReceiverState) : Seat IpAddr :=
  ⟨s.senderRtpAddr.map SocketAddr.ip, s.rtpPeerLive⟩

def controlSeat (s : ReceiverState) : Seat IpAddr :=
  ⟨s.senderRtcpAddr.map SocketAddr.ip, s.rtcpPeerLive⟩

/-! ### What an arm can do -/

/-- The packets the RTP arm inserts into the reorder buffer. -/
def inserted (pinned : Option IpAddr) (s : ReceiverState) (first : Datagram)
    (queued : List Datagram) (arrivedAt : Instant) : List ParsedRtp :=
  if s.rtpAdmitted pinned first arrivedAt then burst first queued else []

/-- The sub-packets the RTCP arm handles. -/
def handled (pinned : Option IpAddr) (s : ReceiverState) (src : SocketAddr) (bytes : Bytes)
    (now : Instant) : List RtcpPacket :=
  if sourceAllowed src pinned s.senderRtcpAddr (maxLive s.rtcpPeerLive s.rtpPeerLive) now then
    match RtcpCompound.parse (bytes.take maxUdpRecv) with
    | .ok packets => packets
    | .error _ => []
  else []

theorem latch_cases (s : ReceiverState) (src : SocketAddr) :
    (s.senderRtpAddr = some src ∧ s.latch src = s) ∨
    (s.senderRtpAddr ≠ some src ∧ s.latch src
      = { s with senderRtpAddr := some src, senderRtcpAddr := some (rtcpAddrFor src) }) := by
  unfold latch
  by_cases h : s.senderRtpAddr = some src
  · exact Or.inl ⟨h, if_neg (not_not.mpr h)⟩
  · exact Or.inr ⟨h, if_pos h⟩

theorem latch_media (s : ReceiverState) (src : SocketAddr) : (s.latch src).media = s.media := by
  rcases latch_cases s src with ⟨-, h⟩ | ⟨-, h⟩ <;> rw [h]

theorem latch_mediaSeat (s : ReceiverState) (src : SocketAddr) :
    (s.latch src).mediaSeat = ⟨some src.ip, s.rtpPeerLive⟩ := by
  unfold mediaSeat
  rcases latch_cases s src with ⟨h1, h2⟩ | ⟨-, h2⟩
  · rw [h2, h1]
    rfl
  · rw [h2]
    rfl

/-- **Everything the RTP arm can do.** -/
theorem rtpArm_cases (pinned : Option IpAddr) (s : ReceiverState) (first : Datagram)
    (queued : List Datagram) (arrivedAt now : Instant) :
    (s.inserted pinned first queued arrivedAt = [] ∧
      s.rtpArm pinned first queued arrivedAt now = s ∧
      s.rtpAdmitted pinned first arrivedAt = false) ∨
    (s.rtpAdmitted pinned first arrivedAt = true ∧ ∃ observed,
      (s.inserted pinned first queued arrivedAt = [] ∧
        s.rtpArm pinned first queued arrivedAt now
          = { s.latch first.src with observedMediaSsrc := observed }) ∨
      (s.inserted pinned first queued arrivedAt ≠ [] ∧
        s.rtpArm pinned first queued arrivedAt now
          = { s.latch first.src with
                observedMediaSsrc := observed
                rtpPeerLive := some now
                media := s.media.processBatch (s.inserted pinned first queued arrivedAt) now })) :=
  by
  unfold inserted rtpArm
  by_cases had : s.rtpAdmitted pinned first arrivedAt = true
  · simp only [had, if_true]
    refine Or.inr ⟨trivial, (s.latch first.src).observedMediaSsrc.or (first.parse.map fun p => p.ssrc),
      ?_⟩
    by_cases hb : burst first queued = []
    · exact Or.inl ⟨hb, by rw [hb]; rfl⟩
    · refine Or.inr ⟨hb, ?_⟩
      rw [if_neg (by simpa using hb), latch_media]
  · rw [if_neg had, if_neg had]
    exact Or.inl ⟨rfl, rfl, by simpa using had⟩

/-- An admitted datagram is latched, and takes the control slot along. -/
theorem rtpArm_latches {pinned : Option IpAddr} {first : Datagram} {arrivedAt : Instant}
    (had : s.rtpAdmitted pinned first arrivedAt = true) (queued : List Datagram) (now : Instant) :
    (s.rtpArm pinned first queued arrivedAt now).senderRtpAddr = some first.src ∧
    (s.rtpArm pinned first queued arrivedAt now).senderRtcpAddr
      = (if s.senderRtpAddr = some first.src then s.senderRtcpAddr
        else some (rtcpAddrFor first.src)) ∧
    (s.rtpArm pinned first queued arrivedAt now).rtcpPeerLive = s.rtcpPeerLive := by
  have hlatch : (s.latch first.src).senderRtpAddr = some first.src ∧
      (s.latch first.src).senderRtcpAddr
        = (if s.senderRtpAddr = some first.src then s.senderRtcpAddr
          else some (rtcpAddrFor first.src)) ∧
      (s.latch first.src).rtcpPeerLive = s.rtcpPeerLive := by
    rcases latch_cases s first.src with ⟨h1, h2⟩ | ⟨h1, h2⟩
    · rw [h2, if_pos h1]
      exact ⟨h1, rfl, rfl⟩
    · rw [h2, if_neg h1]
      exact ⟨rfl, rfl, rfl⟩
  rcases rtpArm_cases pinned s first queued arrivedAt now with
    ⟨-, -, hno⟩ | ⟨-, observed, ⟨-, harm⟩ | ⟨-, harm⟩⟩
  · rw [had] at hno
    exact absurd hno (by simp)
  · rw [harm]
    exact hlatch
  · rw [harm]
    exact hlatch

theorem rtpArm_controlSeat {pinned : Option IpAddr} {first : Datagram} {arrivedAt : Instant}
    (had : s.rtpAdmitted pinned first arrivedAt = true) (queued : List Datagram) (now : Instant) :
    (s.rtpArm pinned first queued arrivedAt now).controlSeat
      = if s.senderRtpAddr = some first.src then s.controlSeat
        else ⟨some first.src.ip, s.rtcpPeerLive⟩ := by
  obtain ⟨-, haddr, hlive⟩ := rtpArm_latches had queued now
  unfold controlSeat
  rw [haddr, hlive]
  by_cases h : s.senderRtpAddr = some first.src
  · rw [if_pos h, if_pos h]
  · rw [if_neg h, if_neg h]
    simp

/-- The reorder buffer and the trackers see exactly the packets inserted. -/
theorem rtpArm_media (pinned : Option IpAddr) (s : ReceiverState) (first : Datagram)
    (queued : List Datagram) (arrivedAt now : Instant) :
    (s.rtpArm pinned first queued arrivedAt now).media
      = s.media.processBatch (s.inserted pinned first queued arrivedAt) now := by
  rcases rtpArm_cases pinned s first queued arrivedAt now with ⟨h1, h2, -⟩ |
    ⟨-, o, ⟨h1, h2⟩ | ⟨-, h2⟩⟩
  · rw [h1, h2]
    rfl
  · rw [h1, h2]
    exact latch_media s first.src
  · rw [h2]

/-- Two states with the same addresses, the same liveness and the same packets held. -/
structure SamePeers (s s' : ReceiverState) : Prop where
  senderRtpAddr : s'.senderRtpAddr = s.senderRtpAddr
  rtpPeerLive : s'.rtpPeerLive = s.rtpPeerLive
  senderRtcpAddr : s'.senderRtcpAddr = s.senderRtcpAddr
  rtcpPeerLive : s'.rtcpPeerLive = s.rtcpPeerLive
  reorder : s'.media.reorder = s.media.reorder

theorem handlePacket_samePeers (ssrc : UInt32) (src : SocketAddr) (now clock : Instant)
    (pkt : RtcpPacket) : SamePeers s (handlePacket ssrc src now clock s pkt).1 := by
  unfold handlePacket
  split
  · exact ⟨rfl, rfl, rfl, rfl, rfl⟩
  · exact ⟨rfl, rfl, rfl, rfl, rfl⟩
  · simp only
    split <;> exact ⟨rfl, rfl, rfl, rfl, rfl⟩
  · exact ⟨rfl, rfl, rfl, rfl, rfl⟩

/-- Handling sub-packets moves no address and no liveness, and leaves the reorder
buffer alone. -/
theorem handlePackets_samePeers (ssrc : UInt32) (src : SocketAddr) (now : Instant)
    (clock : Nat → Instant) :
    ∀ (pkts : List RtcpPacket) (k : Nat) (s : ReceiverState),
      SamePeers s (handlePackets ssrc src now clock s k pkts).1 := by
  intro pkts
  induction pkts with
  | nil => intro k s; exact ⟨rfl, rfl, rfl, rfl, rfl⟩
  | cons pkt pkts ih =>
      intro k s
      obtain ⟨h1, h2, h3, h4, h5⟩ := handlePacket_samePeers (s := s) ssrc src now (clock k) pkt
      obtain ⟨g1, g2, g3, g4, g5⟩ := ih (k + 1) (handlePacket ssrc src now (clock k) s pkt).1
      exact ⟨g1.trans h1, g2.trans h2, g3.trans h3, g4.trans h4, g5.trans h5⟩

/-- **Everything the RTCP arm can do to the slots.** -/
theorem rtcpArm_cases (pinned : Option IpAddr) (ssrc : UInt32) (s : ReceiverState)
    (src : SocketAddr) (bytes : Bytes) (now : Instant) (clock : Nat → Instant) :
    (s.handled pinned src bytes now = [] ∧
      s.rtcpArm pinned ssrc src bytes now clock = (s, [])) ∨
    (s.handled pinned src bytes now ≠ [] ∧
      sourceAllowed src pinned s.senderRtcpAddr (maxLive s.rtcpPeerLive s.rtpPeerLive) now = true ∧
      SamePeers { s with senderRtcpAddr := some src, rtcpPeerLive := some now }
        (s.rtcpArm pinned ssrc src bytes now clock).1) := by
  unfold handled rtcpArm
  by_cases had : sourceAllowed src pinned s.senderRtcpAddr
      (maxLive s.rtcpPeerLive s.rtpPeerLive) now = true
  · rw [if_pos had, if_pos had]
    cases hparse : RtcpCompound.parse (bytes.take maxUdpRecv) with
    | error e => exact Or.inl ⟨rfl, rfl⟩
    | ok packets =>
        simp only
        by_cases hp : packets = []
        · rw [hp]
          exact Or.inl ⟨rfl, rfl⟩
        · rw [if_neg (by simpa using hp)]
          exact Or.inr ⟨hp, had, handlePackets_samePeers ssrc src now clock packets 0 _⟩
  · rw [if_neg had, if_neg had]
    exact Or.inl ⟨rfl, rfl⟩

/-- Silence of the later of two is silence of both. -/
theorem silent_maxLive {a b : Option Instant} {grace t : Nat}
    (h : Silent grace (maxLive a b) t) : Silent grace a t ∧ Silent grace b t := by
  have hmono : ∀ x y : Nat, x ≤ y → y + grace ≤ t → x + grace ≤ t := fun x y h1 h2 =>
    (Nat.add_le_add_right h1 grace).trans h2
  unfold Silent maxLive at *
  cases a with
  | none => exact ⟨by simp, by simpa using h⟩
  | some x =>
      cases b with
      | none => exact ⟨by simpa using h, by simp⟩
      | some y =>
          have hmax := h _ rfl
          refine ⟨?_, ?_⟩
          · intro l hl
            obtain rfl := Option.some.inj hl
            exact hmono x _ (le_max_left x y) hmax
          · intro l hl
            obtain rfl := Option.some.inj hl
            exact hmono y _ (le_max_right x y) hmax

end ReceiverState

/-! ### Runs -/

/-- A turn of the receive task. -/
inductive ReceiverOp where
  /-- A burst: its first datagram arrived at `arrivedAt`, and it was read by `now`. -/
  | rtp (first : Datagram) (queued : List Datagram) (arrivedAt now : Instant)
  | rtcp (src : SocketAddr) (bytes : Bytes) (now : Instant) (clock : Nat → Instant)

namespace ReceiverOp

/-- When the source is judged. -/
def arrived : ReceiverOp → Instant
  | rtp _ _ arrivedAt _ => arrivedAt
  | rtcp _ _ now _ => now

/-- The liveness stamp, if the turn leaves one. -/
def stamp : ReceiverOp → Instant
  | rtp _ _ _ now => now
  | rtcp _ _ now _ => now

end ReceiverOp

/-- A receiver, and the log of who was heard: one entry for a burst that put packets
into the reorder buffer, with its liveness stamp, and one for a datagram of valid
RTCP that was accepted. -/
structure Watch where
  state : ReceiverState
  media : List (IpAddr × Instant)
  control : List (IpAddr × Instant)
  clock : Instant

namespace Watch

def start (s : ReceiverState) : Watch := ⟨s, [], [], 0⟩

def step (pinned : Option IpAddr) (ssrc : UInt32) (w : Watch) : ReceiverOp → Watch
  | .rtp first queued arrivedAt now =>
    { state := w.state.rtpArm pinned first queued arrivedAt now
      media := if w.state.inserted pinned first queued arrivedAt = [] then w.media
        else w.media ++ [(first.src.ip, now)]
      control := w.control
      clock := now }
  | .rtcp src bytes now clock =>
    { state := (w.state.rtcpArm pinned ssrc src bytes now clock).1
      media := w.media
      control := if w.state.handled pinned src bytes now = [] then w.control
        else w.control ++ [(src.ip, now)]
      clock := now }

/-- Times do not go back. -/
def InTime (w : Watch) (op : ReceiverOp) : Prop := w.clock ≤ op.arrived ∧ op.arrived ≤ op.stamp

variable {pinned : Option IpAddr} {ssrc : UInt32} {w : Watch}

/-- Whoever sent media less than the grace time ago still holds the media slot. -/
def HeldMedia (w : Watch) : Prop :=
  Held peerTakeoverGrace w.state.mediaSeat w.media w.clock

def HeldControl (w : Watch) : Prop :=
  Held peerTakeoverGrace w.state.controlSeat w.control w.clock

theorem rtpAdmitted_admits {s : ReceiverState} {first : Datagram} {arrivedAt : Instant}
    (h : s.rtpAdmitted pinned first arrivedAt = true) :
    Admits peerTakeoverGrace s.mediaSeat first.src.ip arrivedAt :=
  ((sourceAllowed_iff _ _ _ _ _).mp h).2

/-- What a turn does to the media slot and its log. -/
theorem step_mediaSeat (pinned : Option IpAddr) (ssrc : UInt32) (w : Watch) (op : ReceiverOp) :
    ((w.step pinned ssrc op).state.mediaSeat = w.state.mediaSeat ∧
      (w.step pinned ssrc op).media = w.media) ∨
    (∃ first queued arrivedAt now, op = .rtp first queued arrivedAt now ∧
      w.state.rtpAdmitted pinned first arrivedAt = true ∧
      (((w.step pinned ssrc op).state.mediaSeat = ⟨some first.src.ip, w.state.rtpPeerLive⟩ ∧
          (w.step pinned ssrc op).media = w.media) ∨
        ((w.step pinned ssrc op).state.mediaSeat = ⟨some first.src.ip, some now⟩ ∧
          (w.step pinned ssrc op).media = w.media ++ [(first.src.ip, now)]))) := by
  cases op with
  | rtp first queued arrivedAt now =>
      have hseat := ReceiverState.latch_mediaSeat w.state first.src
      simp only [Watch.step]
      rcases ReceiverState.rtpArm_cases pinned w.state first queued arrivedAt now with
        ⟨hnil, harm, -⟩ | ⟨had, observed, ⟨hnil, harm⟩ | ⟨hne, harm⟩⟩
      · rw [harm, if_pos hnil]
        exact Or.inl ⟨rfl, rfl⟩
      · rw [harm, if_pos hnil]
        exact Or.inr ⟨first, queued, arrivedAt, now, rfl, had, Or.inl ⟨hseat, rfl⟩⟩
      · rw [harm, if_neg hne]
        refine Or.inr ⟨first, queued, arrivedAt, now, rfl, had, Or.inr ⟨?_, rfl⟩⟩
        exact congrArg (fun seat : Seat IpAddr => (⟨seat.holder, some now⟩ : Seat IpAddr)) hseat
  | rtcp src bytes now clock =>
      refine Or.inl ⟨?_, rfl⟩
      unfold ReceiverState.mediaSeat
      rcases ReceiverState.rtcpArm_cases pinned ssrc w.state src bytes now clock with
        ⟨-, harm⟩ | ⟨-, -, hsame⟩
      · simp only [Watch.step, harm]
      · simp only [Watch.step, hsame.senderRtpAddr, hsame.rtpPeerLive]

theorem step_clock (w : Watch) (op : ReceiverOp) : (w.step pinned ssrc op).clock = op.stamp := by
  cases op <;> rfl

/-- **The media slot is held**, whatever arrives. -/
theorem HeldMedia.step (h : HeldMedia w) {op : ReceiverOp} (ht : InTime w op) :
    HeldMedia (w.step pinned ssrc op) := by
  obtain ⟨ht1, ht2⟩ := ht
  unfold HeldMedia at *
  rw [step_clock]
  rcases step_mediaSeat pinned ssrc w op with ⟨hseat, hlog⟩ |
    ⟨first, queued, arrivedAt, now, rfl, had, ⟨hseat, hlog⟩ | ⟨hseat, hlog⟩⟩
  · rw [hseat, hlog]
    exact h.wait (ht1.trans ht2)
  · rw [hseat, hlog]
    exact (h.latch ht1 (rtpAdmitted_admits had)).wait ht2
  · rw [hseat, hlog]
    exact (h.latch ht1 (rtpAdmitted_admits had)).hear rfl ht2

/-! ### The control slot -/

/-- The control address moves to another IP only when nothing was accepted from the
old one for the grace time. -/
def HoldsControl (pinned : Option IpAddr) (ssrc : UInt32) (w : Watch) (op : ReceiverOp) : Prop :=
  ∀ a b, w.state.senderRtcpAddr.map SocketAddr.ip = some a →
    (w.step pinned ssrc op).state.senderRtcpAddr.map SocketAddr.ip = some b → a ≠ b →
    ∀ t, (a, t) ∈ w.media ∨ (a, t) ∈ w.control → t + peerTakeoverGrace ≤ op.arrived

/-- A media datagram is admitted from an address not yet latched, and moves the
control slot from another IP while valid RTCP protects it. -/
def Displaces (pinned : Option IpAddr) (w : Watch) : ReceiverOp → Prop
  | .rtp first _ arrivedAt _ =>
    w.state.rtpAdmitted pinned first arrivedAt = true ∧ w.state.senderRtpAddr ≠ some first.src ∧
      ∃ c, w.state.senderRtcpAddr = some c ∧ c.ip ≠ first.src.ip ∧
        peerIsProtected w.state.rtcpPeerLive arrivedAt = true
  | .rtcp _ _ _ _ => False

theorem admits_of_not_displaces {first : Datagram} {queued : List Datagram}
    {arrivedAt now : Instant} (had : w.state.rtpAdmitted pinned first arrivedAt = true)
    (hmove : w.state.senderRtpAddr ≠ some first.src)
    (hd : ¬w.Displaces pinned (.rtp first queued arrivedAt now)) :
    Admits peerTakeoverGrace w.state.controlSeat first.src.ip arrivedAt := by
  unfold Admits ReceiverState.controlSeat
  cases hc : w.state.senderRtcpAddr with
  | none => exact Or.inl rfl
  | some c =>
      refine Or.inr ?_
      by_cases hip : c.ip = first.src.ip
      · exact Or.inl (by simp [hip])
      · refine Or.inr (not_not.mp ?_)
        rw [← peerIsProtected_iff]
        exact fun hprot => hd ⟨had, hmove, c, hc, hip, hprot⟩

theorem admits_control_of_allowed {s : ReceiverState} {src : SocketAddr} {now : Instant}
    (h : sourceAllowed src pinned s.senderRtcpAddr
      (ReceiverState.maxLive s.rtcpPeerLive s.rtpPeerLive) now = true) :
    s.controlSeat.holder = none ∨ s.controlSeat.holder = some src.ip ∨
      (Silent peerTakeoverGrace s.rtcpPeerLive now ∧ Silent peerTakeoverGrace s.rtpPeerLive now) := by
  rcases ((sourceAllowed_iff _ _ _ _ _).mp h).2 with h | h | h
  · exact Or.inl h
  · exact Or.inr (Or.inl h)
  · exact Or.inr (Or.inr (ReceiverState.silent_maxLive h))

/-- What a turn does to the control slot and its log: nothing, or it hands the slot
to the datagram's sender. -/
theorem step_controlSeat (pinned : Option IpAddr) (ssrc : UInt32) (w : Watch) (op : ReceiverOp) :
    ((w.step pinned ssrc op).state.controlSeat = w.state.controlSeat ∧
      (w.step pinned ssrc op).control = w.control) ∨
    (∃ first queued arrivedAt now, op = .rtp first queued arrivedAt now ∧
      w.state.rtpAdmitted pinned first arrivedAt = true ∧
      w.state.senderRtpAddr ≠ some first.src ∧
      (w.step pinned ssrc op).state.controlSeat = ⟨some first.src.ip, w.state.rtcpPeerLive⟩ ∧
      (w.step pinned ssrc op).control = w.control) ∨
    (∃ src bytes now clock, op = .rtcp src bytes now clock ∧
      sourceAllowed src pinned w.state.senderRtcpAddr
        (ReceiverState.maxLive w.state.rtcpPeerLive w.state.rtpPeerLive) now = true ∧
      (w.step pinned ssrc op).state.controlSeat = ⟨some src.ip, some now⟩ ∧
      (w.step pinned ssrc op).control = w.control ++ [(src.ip, now)]) := by
  cases op with
  | rtp first queued arrivedAt now =>
      by_cases had : w.state.rtpAdmitted pinned first arrivedAt = true
      · have hseat := ReceiverState.rtpArm_controlSeat had queued now
        by_cases hsame : w.state.senderRtpAddr = some first.src
        · rw [if_pos hsame] at hseat
          exact Or.inl ⟨hseat, rfl⟩
        · rw [if_neg hsame] at hseat
          exact Or.inr (Or.inl ⟨first, queued, arrivedAt, now, rfl, had, hsame, hseat, rfl⟩)
      · refine Or.inl ⟨?_, rfl⟩
        simp only [Watch.step, ReceiverState.rtpArm, if_neg had]
  | rtcp src bytes now clock =>
      simp only [Watch.step]
      rcases ReceiverState.rtcpArm_cases pinned ssrc w.state src bytes now clock with
        ⟨hnil, harm⟩ | ⟨hne, had, hsame⟩
      · rw [harm, if_pos hnil]
        exact Or.inl ⟨rfl, rfl⟩
      · rw [if_neg hne]
        refine Or.inr (Or.inr ⟨src, bytes, now, clock, rfl, had, ?_, rfl⟩)
        unfold ReceiverState.controlSeat
        rw [hsame.senderRtcpAddr, hsame.rtcpPeerLive]
        rfl

/-- A turn that does not displace keeps the control slot held. -/
theorem HeldControl.step (h : HeldControl w) {op : ReceiverOp} (ht : InTime w op)
    (hd : ¬w.Displaces pinned op) : HeldControl (w.step pinned ssrc op) := by
  obtain ⟨ht1, ht2⟩ := ht
  unfold HeldControl at *
  rw [step_clock]
  rcases step_controlSeat pinned ssrc w op with ⟨hseat, hlog⟩ |
    ⟨first, queued, arrivedAt, now, rfl, had, hmove, hseat, hlog⟩ |
    ⟨src, bytes, now, clock, rfl, had, hseat, hlog⟩
  · rw [hseat, hlog]
    exact h.wait (ht1.trans ht2)
  · rw [hseat, hlog]
    exact (h.latch ht1 (admits_of_not_displaces had hmove hd)).wait ht2
  · rw [hseat, hlog]
    have hadmits : Admits peerTakeoverGrace w.state.controlSeat src.ip now :=
      (admits_control_of_allowed had).imp_right fun h => h.imp_right And.left
    exact (h.latch ht1 hadmits).hear rfl ht2

/-- A displacing turn moves the slot away from whoever was last heard there. -/
theorem Displaces.not_holds (hc : HeldControl w) {op : ReceiverOp} (ht : InTime w op)
    (hd : w.Displaces pinned op) : ¬w.HoldsControl pinned ssrc op := by
  intro hholds
  cases op with
  | rtcp src bytes now clock => exact hd
  | rtp first queued arrivedAt now =>
      obtain ⟨had, hmove, c, hcur, hip, hprot⟩ := hd
      obtain ⟨e, he, hholder, hrecent⟩ :=
        Held.exists_recent hc ht.1 ((peerIsProtected_iff _ _).mp hprot)
      have hseat := ReceiverState.rtpArm_controlSeat had queued now
      rw [if_neg hmove] at hseat
      have hwho : e.1 = c.ip := by
        simpa [ReceiverState.controlSeat, hcur] using hholder.symm
      have hold := hholds c.ip first.src.ip (by rw [hcur]; rfl) (congrArg Seat.holder hseat) hip
        e.2 (Or.inr (by rw [← hwho]; exact he))
      exact absurd hold (not_le.mpr hrecent)

/-- **A turn holds the control slot unless it displaces.** -/
theorem holdsControl_iff (hm : HeldMedia w) (hc : HeldControl w) {op : ReceiverOp}
    (ht : InTime w op) : w.HoldsControl pinned ssrc op ↔ ¬w.Displaces pinned op := by
  refine ⟨fun h hd => hd.not_holds hc ht h, ?_⟩
  intro hd a b ha hb hab t hmem
  have hb' : (w.step pinned ssrc op).state.controlSeat.holder = some b := hb
  have ha' : w.state.controlSeat.holder = some a := ha
  rcases step_controlSeat pinned ssrc w op with ⟨hseat, -⟩ |
    ⟨first, queued, arrivedAt, now, rfl, had, hmove, hseat, -⟩ |
    ⟨src, bytes, now, clock, rfl, had, hseat, -⟩
  · rw [hseat, ha'] at hb'
    exact absurd (Option.some.inj hb') hab
  · rw [hseat] at hb'
    obtain rfl := Option.some.inj hb'
    rcases hmem with hmem | hmem
    · exact Held.old_of_admits hm ht.1 (rtpAdmitted_admits had) _ hmem hab
    · exact Held.old_of_admits hc ht.1 (admits_of_not_displaces had hmove hd) _ hmem hab
  · rw [hseat] at hb'
    obtain rfl := Option.some.inj hb'
    rcases admits_control_of_allowed had with hnone | hsame | ⟨hs1, hs2⟩
    · rw [ha'] at hnone
      exact absurd hnone (by simp)
    · rw [ha'] at hsame
      exact absurd (Option.some.inj hsame) hab
    · rcases hmem with hmem | hmem
      · exact Held.old_of_silent hm hs2 _ hmem
      · exact Held.old_of_silent hc hs1 _ hmem

/-- **The control slot is held along a run exactly when no turn displaces.** -/
theorem control_holdDown_iff (bufferSize : Duration) (maxNackRetries : UInt32)
    (rtcpInterval : Duration) (t : Instant) (ssrc : UInt32) (ops : List ReceiverOp)
    (htime : Run.Along (step none ssrc) InTime
      (start (ReceiverState.new bufferSize maxNackRetries rtcpInterval t)) ops) :
    Run.Along (step none ssrc) (HoldsControl none ssrc)
        (start (ReceiverState.new bufferSize maxNackRetries rtcpInterval t)) ops ↔
      Run.Along (step none ssrc) (fun w op => ¬w.Displaces none op)
        (start (ReceiverState.new bufferSize maxNackRetries rtcpInterval t)) ops := by
  refine Run.along_iff_of_env (I := fun w => HeldMedia w ∧ HeldControl w) ?_ ?_
    ⟨held_new none 0, held_new none 0⟩ htime
  · intro w op ⟨hm, hc⟩ ht
    exact holdsControl_iff hm hc ht
  · intro w op ⟨hm, hc⟩ ht hholds
    exact ⟨hm.step ht, hc.step ht ((holdsControl_iff hm hc ht).mp hholds)⟩

/-- An empty receiver report. -/
def emptyReport : Bytes := [0x80, 201, 0, 1, 0, 0, 0, 7]

/-- Valid RTCP from one host, and twelve seconds later a media datagram from another. -/
theorem control_holdDown_iff_expired :
    Run.Along (step none 9) (HoldsControl none 9) (start (ReceiverState.new 5 3 100 0))
      [.rtcp (.v4 1 5001) emptyReport 0 (fun _ => 0),
        .rtp ⟨.v4 2 6000, [], 0⟩ [] 12000000000 12000000000] := by
  refine (control_holdDown_iff 5 3 100 0 9 _ ?_).mpr ⟨id, ?_, trivial⟩
  · exact ⟨⟨Nat.le_refl 0, Nat.le_refl 0⟩, ⟨Nat.zero_le _, Nat.le_refl _⟩, trivial⟩
  · rintro ⟨-, -, c, -, -, hprot⟩
    exact absurd hprot (by decide +kernel)

/-- Valid RTCP from one host, and at once a datagram of no bytes from another on the
media socket: the control address follows it. -/
theorem control_displaced_by_media :
    Run.Along (step none 9) InTime (start (ReceiverState.new 5 3 100 0))
      [.rtcp (.v4 1 5001) emptyReport 0 (fun _ => 0), .rtp ⟨.v4 2 6000, [], 0⟩ [] 1 1] ∧
    ¬Run.Along (step none 9) (HoldsControl none 9) (start (ReceiverState.new 5 3 100 0))
      [.rtcp (.v4 1 5001) emptyReport 0 (fun _ => 0), .rtp ⟨.v4 2 6000, [], 0⟩ [] 1 1] := by
  refine ⟨⟨⟨Nat.le_refl 0, Nat.le_refl 0⟩, ⟨Nat.zero_le 1, Nat.le_refl 1⟩, trivial⟩, ?_⟩
  rintro ⟨-, h2, -⟩
  have hold := h2 (.v4 1) (.v4 2) (by decide +kernel) (by decide +kernel) (by decide) 0
    (Or.inr (by decide +kernel))
  exact absurd hold (by decide)

end Watch

end Rist
