/-
The hold-down of both ends.

The sender's one slot is the textbook case: it is latched and goes live in the same
turn.  The receiver's media slot is `Proofs/Peer/Receiver.lean`'s.  A configured pin
is stronger than any hold-down, since it is asked first and never expires.
-/
import Rist.Proofs.Peer.Receiver
import Rist.Transport.Sender

namespace Rist

open HoldDown

/-! ### The sender -/

/-- A turn of the send task. -/
inductive SenderOp where
  | media (payload : Bytes) (rtpTimestamp : UInt32)
  | rtcp (src : SocketAddr) (bytes : Bytes) (recvAt : Instant) (clock : Nat → Instant)

/-- A sender, and the log of the RTCP datagrams it processed. -/
structure SenderWatch where
  state : SenderState
  processed : List (IpAddr × Instant)
  clock : Instant

namespace SenderWatch

def start (s : SenderState) : SenderWatch := ⟨s, [], 0⟩

def step (w : SenderWatch) : SenderOp → SenderWatch
  | .media payload rtpTimestamp => { w with state := (w.state.mediaArm payload rtpTimestamp).1 }
  | .rtcp src bytes recvAt clock =>
    { state := (w.state.rtcpArm src bytes recvAt clock).1
      processed := if w.state.admitted src bytes recvAt = [] then w.processed
        else w.processed ++ [(src.ip, recvAt)]
      clock := recvAt }

/-- Datagrams do not come before the ones already processed. -/
def InTime (w : SenderWatch) : SenderOp → Prop
  | .media _ _ => True
  | .rtcp _ _ recvAt _ => w.clock ≤ recvAt

/-- A datagram is processed only when every one processed from another IP is old, and
one that does not decode, is empty or is turned away does nothing at all. -/
def Holds (w : SenderWatch) : SenderOp → Prop
  | .media _ _ => True
  | .rtcp src bytes recvAt clock =>
    (w.state.admitted src bytes recvAt ≠ [] →
      ∀ e ∈ w.processed, e.1 ≠ src.ip → e.2 + peerTakeoverGrace ≤ recvAt) ∧
    ((∀ packets, RtcpCompound.parse (bytes.take maxUdpRecv) = .ok packets → packets = [] ∨
        peerMoveAllowed src w.state.remoteRtcpAddr w.state.rtcpPeerLive recvAt = false) →
      w.state.rtcpArm src bytes recvAt clock = (w.state, {}))

variable {w : SenderWatch}

def peerSeat (s : SenderState) : Seat IpAddr := ⟨some s.remoteRtcpAddr.ip, s.rtcpPeerLive⟩

def Guarded (w : SenderWatch) : Prop :=
  Held peerTakeoverGrace (peerSeat w.state) w.processed w.clock

theorem admits_of_admitted {s : SenderState} {src : SocketAddr} {bytes : Bytes} {recvAt : Instant}
    (h : s.admitted src bytes recvAt ≠ []) :
    Admits peerTakeoverGrace (peerSeat s) src.ip recvAt :=
  (peerMoveAllowed_iff _ _ _ _).mp (SenderState.admitted_ne_nil h).2

theorem rtcpArm_of_nil {s : SenderState} {src : SocketAddr} {bytes : Bytes} {recvAt : Instant}
    (h : s.admitted src bytes recvAt = []) (clock : Nat → Instant) :
    s.rtcpArm src bytes recvAt clock = (s, {}) := by
  unfold SenderState.rtcpArm
  rw [h]
  rfl

theorem rtcpArm_of_ne_nil {s : SenderState} {src : SocketAddr} {bytes : Bytes} {recvAt : Instant}
    (h : s.admitted src bytes recvAt ≠ []) (clock : Nat → Instant) :
    peerSeat (s.rtcpArm src bytes recvAt clock).1 = ⟨some src.ip, some recvAt⟩ := by
  unfold SenderState.rtcpArm
  simp only
  rw [if_neg (by simpa using h)]
  rfl

theorem Guarded.step (h : Guarded w) {op : SenderOp} (ht : w.InTime op) : Guarded (w.step op) := by
  unfold Guarded at *
  cases op with
  | media payload rtpTimestamp => exact h
  | rtcp src bytes recvAt clock =>
      simp only [SenderWatch.step]
      by_cases hnil : w.state.admitted src bytes recvAt = []
      · rw [if_pos hnil, rtcpArm_of_nil hnil]
        exact Held.wait h ht
      · rw [if_neg hnil, rtcpArm_of_ne_nil hnil]
        exact (Held.latch h ht (admits_of_admitted hnil)).hear rfl (Nat.le_refl recvAt)

theorem Guarded.holds (h : Guarded w) {op : SenderOp} (ht : w.InTime op) : w.Holds op := by
  cases op with
  | media payload rtpTimestamp => trivial
  | rtcp src bytes recvAt clock =>
      refine ⟨fun hne => Held.old_of_admits h ht (admits_of_admitted hne), fun hout => ?_⟩
      refine rtcpArm_of_nil ?_ clock
      by_contra hne
      obtain ⟨hparse, hallowed⟩ := SenderState.admitted_ne_nil hne
      rcases hout _ hparse with hnil | hmove
      · exact hne hnil
      · rw [hallowed] at hmove
        exact absurd hmove (by simp)

end SenderWatch

/-! ### The receiver -/

/-- Every packet of a burst came from the address of its first datagram. -/
theorem ReceiverState.mem_drainBurst {src : SocketAddr} {p : ParsedRtp} :
    ∀ (queued : List Datagram) (n : Nat) (batch : List ParsedRtp),
      p ∈ drainBurst src n batch queued →
        p ∈ batch ∨ ∃ d ∈ queued, d.src = src ∧ d.parse = some p := by
  intro queued
  induction queued with
  | nil =>
      intro n batch h
      cases n <;> exact Or.inl h
  | cons d ds ih =>
      intro n batch h
      have hlater : (∃ d' ∈ ds, d'.src = src ∧ d'.parse = some p) →
          ∃ d' ∈ d :: ds, d'.src = src ∧ d'.parse = some p := by
        intro ⟨d', hmem, hd'⟩
        exact ⟨d', List.mem_cons_of_mem d hmem, hd'⟩
      cases n with
      | zero => exact Or.inl h
      | succ n =>
          rw [drainBurst] at h
          by_cases hfull : batch.length < maxBatch
          · rw [if_pos hfull] at h
            by_cases hsrc : d.src = src
            · rw [if_neg (not_not.mpr hsrc)] at h
              cases hparse : d.parse with
              | none =>
                  rw [hparse] at h
                  exact (ih n batch h).imp_right hlater
              | some q =>
                  rw [hparse] at h
                  rcases ih n (batch ++ [q]) h with hmem | hmem
                  · rcases List.mem_append.mp hmem with hmem | hmem
                    · exact Or.inl hmem
                    · rw [List.mem_singleton] at hmem
                      exact Or.inr ⟨d, List.mem_cons_self, hsrc, by rw [hparse, hmem]⟩
                  · exact Or.inr (hlater hmem)
            · rw [if_pos hsrc] at h
              exact (ih n batch h).imp_right hlater
          · rw [if_neg hfull] at h
            exact Or.inl h

theorem ReceiverState.mem_burst {first : Datagram} {queued : List Datagram} {p : ParsedRtp}
    (h : p ∈ burst first queued) : ∃ d ∈ first :: queued, d.src = first.src ∧ d.parse = some p := by
  rcases mem_drainBurst queued _ _ h with hfirst | ⟨d, hmem, hd⟩
  · exact ⟨first, List.mem_cons_self, rfl, by simpa using hfirst⟩
  · exact ⟨d, List.mem_cons_of_mem first hmem, hd⟩

namespace Watch

variable {pinned : Option IpAddr} {ssrc : UInt32} {w : Watch}

/-- What reaches the reorder buffer on a turn: a burst from one address, the one
admitted, when every packet inserted from another IP is old. -/
def HoldsMedia (pinned : Option IpAddr) (ssrc : UInt32) (w : Watch) : ReceiverOp → Prop
  | .rtp first queued arrivedAt now =>
    (w.state.rtpArm pinned first queued arrivedAt now).media
      = w.state.media.processBatch (w.state.inserted pinned first queued arrivedAt) now ∧
    (w.state.inserted pinned first queued arrivedAt ≠ [] →
      (∀ e ∈ w.media, e.1 ≠ first.src.ip → e.2 + peerTakeoverGrace ≤ arrivedAt) ∧
      (w.state.rtpArm pinned first queued arrivedAt now).senderRtpAddr = some first.src ∧
      ∀ p ∈ w.state.inserted pinned first queued arrivedAt,
        ∃ d ∈ first :: queued, d.src = first.src ∧ d.parse = some p)
  | .rtcp src bytes now clock =>
    (w.state.rtcpArm pinned ssrc src bytes now clock).1.media.reorder = w.state.media.reorder

/-- Only the pinned IP is inserted, handled or latched. -/
def HoldsPin (ip : IpAddr) (pinned : Option IpAddr) (ssrc : UInt32) (w : Watch)
    (op : ReceiverOp) : Prop :=
  (match op with
    | .rtp first queued arrivedAt _ =>
      w.state.inserted pinned first queued arrivedAt ≠ [] → first.src.ip = ip
    | .rtcp src bytes now _ => w.state.handled pinned src bytes now ≠ [] → src.ip = ip) ∧
  (∀ a, (w.step pinned ssrc op).state.senderRtpAddr = some a → a.ip = ip) ∧
  (∀ a, (w.step pinned ssrc op).state.senderRtcpAddr = some a → a.ip = ip)

theorem inserted_admitted {s : ReceiverState} {first : Datagram} {queued : List Datagram}
    {arrivedAt : Instant} (h : s.inserted pinned first queued arrivedAt ≠ []) :
    s.rtpAdmitted pinned first arrivedAt = true ∧
      s.inserted pinned first queued arrivedAt = ReceiverState.burst first queued := by
  unfold ReceiverState.inserted at *
  by_cases had : s.rtpAdmitted pinned first arrivedAt = true
  · exact ⟨had, if_pos had⟩
  · rw [if_neg had] at h
    exact absurd rfl h

theorem HeldMedia.holdsMedia (h : HeldMedia w) {op : ReceiverOp} (ht : InTime w op) :
    w.HoldsMedia pinned ssrc op := by
  cases op with
  | rtp first queued arrivedAt now =>
      refine ⟨ReceiverState.rtpArm_media pinned w.state first queued arrivedAt now, fun hne => ?_⟩
      obtain ⟨had, hburst⟩ := inserted_admitted hne
      refine ⟨Held.old_of_admits h ht.1 (rtpAdmitted_admits had),
        (ReceiverState.rtpArm_latches had queued now).1, ?_⟩
      intro p hp
      rw [hburst] at hp
      exact ReceiverState.mem_burst hp
  | rtcp src bytes now clock =>
      show (w.state.rtcpArm pinned ssrc src bytes now clock).1.media.reorder = _
      rcases ReceiverState.rtcpArm_cases pinned ssrc w.state src bytes now clock with
        ⟨-, harm⟩ | ⟨-, -, hsame⟩
      · rw [harm]
      · exact hsame.reorder

/-- Both addresses have the pinned IP, as far as there are any. -/
def Pinned (ip : IpAddr) (s : ReceiverState) : Prop :=
  (∀ a, s.senderRtpAddr = some a → a.ip = ip) ∧ (∀ a, s.senderRtcpAddr = some a → a.ip = ip)

theorem Pinned.rtp {ip : IpAddr} {s : ReceiverState} (h : Pinned ip s) (first : Datagram)
    (queued : List Datagram) (arrivedAt now : Instant) :
    (s.rtpAdmitted (some ip) first arrivedAt = true → first.src.ip = ip) ∧
      Pinned ip (s.rtpArm (some ip) first queued arrivedAt now) := by
  by_cases had : s.rtpAdmitted (some ip) first arrivedAt = true
  · have hip : first.src.ip = ip := ((sourceAllowed_iff _ _ _ _ _).mp had).1 ip rfl
    obtain ⟨h1, h2, -⟩ := ReceiverState.rtpArm_latches had queued now
    refine ⟨fun _ => hip, ?_, ?_⟩
    · intro a ha
      rw [h1] at ha
      rw [← Option.some.inj ha]
      exact hip
    · intro a ha
      rw [h2] at ha
      split at ha
      · exact h.2 a ha
      · rw [← Option.some.inj ha, rtcpAddrFor_ip]
        exact hip
  · refine ⟨fun hc => absurd hc had, ?_⟩
    unfold ReceiverState.rtpArm
    rw [if_neg had]
    exact h

theorem Pinned.rtcp {ip : IpAddr} {s : ReceiverState} (h : Pinned ip s) (ssrc : UInt32)
    (src : SocketAddr) (bytes : Bytes) (now : Instant) (clock : Nat → Instant) :
    (s.handled (some ip) src bytes now ≠ [] → src.ip = ip) ∧
      Pinned ip (s.rtcpArm (some ip) ssrc src bytes now clock).1 := by
  rcases ReceiverState.rtcpArm_cases (some ip) ssrc s src bytes now clock with
    ⟨hnil, harm⟩ | ⟨-, had, hsame⟩
  · rw [harm]
    exact ⟨fun hne => absurd hnil hne, h⟩
  · have hip : src.ip = ip := ((sourceAllowed_iff _ _ _ _ _).mp had).1 ip rfl
    refine ⟨fun _ => hip, ?_, ?_⟩
    · intro a ha
      rw [hsame.senderRtpAddr] at ha
      exact h.1 a ha
    · intro a ha
      rw [hsame.senderRtcpAddr] at ha
      rw [← Option.some.inj ha]
      exact hip

theorem Pinned.holdsPin {ip : IpAddr} (h : Pinned ip w.state) (op : ReceiverOp) :
    w.HoldsPin ip (some ip) ssrc op := by
  cases op with
  | rtp first queued arrivedAt now =>
      obtain ⟨hip, hnext⟩ := h.rtp first queued arrivedAt now
      exact ⟨fun hne => hip (inserted_admitted hne).1, hnext.1, hnext.2⟩
  | rtcp src bytes now clock =>
      obtain ⟨hip, hnext⟩ := h.rtcp ssrc src bytes now clock
      exact ⟨hip, hnext.1, hnext.2⟩

end Watch

/-- **Nobody takes over a live peer.**  The sender's RTCP peer and the receiver's
media source are held down, and a pin holds for everything. -/
theorem peers_held (senderSsrc : UInt32) (seq : UInt16) (capacity : Nat)
    (senderInterval : Duration) (remote : SocketAddr) (sends : List SenderOp)
    (hsends : Run.Along SenderWatch.step SenderWatch.InTime
      (.start (SenderState.new senderSsrc seq capacity senderInterval remote)) sends)
    (bufferSize : Duration) (maxNackRetries : UInt32) (receiverInterval : Duration) (t : Instant)
    (pinned : Option IpAddr) (ssrc : UInt32) (turns : List ReceiverOp)
    (hturns : Run.Along (Watch.step pinned ssrc) Watch.InTime
      (.start (ReceiverState.new bufferSize maxNackRetries receiverInterval t)) turns) :
    Run.Along SenderWatch.step SenderWatch.Holds
      (.start (SenderState.new senderSsrc seq capacity senderInterval remote)) sends ∧
    Run.Along (Watch.step pinned ssrc) (Watch.HoldsMedia pinned ssrc)
      (.start (ReceiverState.new bufferSize maxNackRetries receiverInterval t)) turns ∧
    ∀ ip, pinned = some ip → Run.Along (Watch.step pinned ssrc) (Watch.HoldsPin ip pinned ssrc)
      (.start (ReceiverState.new bufferSize maxNackRetries receiverInterval t)) turns := by
  refine ⟨?_, ?_, ?_⟩
  · exact Run.along_of_invariant (I := SenderWatch.Guarded) (fun w op h ht => h.step ht)
      (fun w op h ht => h.holds ht) (held_new _ 0) hsends
  · exact Run.along_of_invariant (I := Watch.HeldMedia) (fun w op h ht => h.step ht)
      (fun w op h ht => h.holdsMedia ht) (held_new none 0) hturns
  · intro ip hpin
    subst hpin
    refine Run.along_of_invariant (I := fun w => Watch.Pinned ip w.state)
      (fun w op h _ => ⟨(h.holdsPin op).2.1, (h.holdsPin op).2.2⟩) (fun w op h _ => h.holdsPin op)
      ⟨fun a ha => ?_, fun a ha => ?_⟩ hturns
    · exact absurd ha (by simp [ReceiverState.new, Watch.start])
    · exact absurd ha (by simp [ReceiverState.new, Watch.start])

/-- Twelve seconds after the last valid RTCP another host may take the slot: the log
the hold-down is read from has both. -/
theorem peers_held_takeover :
    (Run.final SenderWatch.step (.start (SenderState.new 8 0 64 100 (.v4 1 5000)))
      [.rtcp (.v4 1 5001) Watch.emptyReport 0 (fun _ => 0),
        .rtcp (.v4 2 5001) Watch.emptyReport 12000000000 (fun _ => 0)]).processed
      = [(.v4 1, 0), (.v4 2, 12000000000)] ∧
    Run.Along SenderWatch.step SenderWatch.Holds (.start (SenderState.new 8 0 64 100 (.v4 1 5000)))
      [.rtcp (.v4 1 5001) Watch.emptyReport 0 (fun _ => 0),
        .rtcp (.v4 2 5001) Watch.emptyReport 12000000000 (fun _ => 0)] := by
  refine ⟨by decide +kernel, ?_⟩
  refine (peers_held 8 0 64 100 (.v4 1 5000) _ ?_ 5 3 100 0 (some (.v4 1)) 9
    [.rtp ⟨.v4 1 5000, writeRtpHeader 8 0 0, 0⟩ [] 0 1] ?_).1
  · exact ⟨Nat.le_refl 0, Nat.zero_le _, trivial⟩
  · exact ⟨⟨Nat.le_refl 0, Nat.zero_le 1⟩, trivial⟩

end Rist
