/-
What the timers of the two tasks do.

Each arm is said once: what it leaves of the state, and the compound it sends.  A report
comes first in every one of them, and at most an echo request comes after the name.
-/
import Rist.Transport.Receiver
import Rist.Transport.SendTask

namespace Rist

/-- What may follow the name in a periodic report. -/
def EchoRequests (packets : List RtcpPacket) : Prop :=
  ∀ pkt ∈ packets, ∃ req, pkt = .app (.rttEchoRequest req)

theorem echoRequests_nil : EchoRequests [] := fun _ hpkt => absurd hpkt List.not_mem_nil

theorem echoRequests_singleton (req : RttEchoRequest) : EchoRequests [.app (.rttEchoRequest req)] :=
  fun _ hpkt => ⟨req, List.mem_singleton.mp hpkt⟩

/-- What holds of the report, of the name and of every echo request holds throughout. -/
theorem EchoRequests.forall {echoes : List RtcpPacket} (h : EchoRequests echoes)
    {Q : RtcpPacket → Prop} {report : RtcpPacket} {sdes : Sdes} (hreport : Q report) (hname : Q (.sdes sdes))
    (hecho : ∀ req, Q (.app (.rttEchoRequest req))) :
    ∀ pkt ∈ report :: .sdes sdes :: echoes, Q pkt := by
  intro pkt hpkt
  rcases List.mem_cons.mp hpkt with rfl | hpkt
  · exact hreport
  · rcases List.mem_cons.mp hpkt with rfl | hpkt
    · exact hname
    · obtain ⟨req, rfl⟩ := h pkt hpkt
      exact hecho req

/-- **The sender's report**: it changes the round-trip estimate at most, besides its own
time. -/
theorem SendTask.reportArm_spec (rttEchoEnabled : Bool) (t : SendTask) (now : Instant)
    (wallClock : SystemTime) :
    ∃ rtt echoes, EchoRequests echoes ∧ t.reportArm rttEchoEnabled now wallClock
      = (⟨{ t.core with rtt }, (t.reports.generateSr now wallClock).1⟩, t.core.remoteRtcpAddr,
        .senderReport (t.reports.generateSr now wallClock).2
          :: .sdes ⟨t.reports.ssrc, t.reports.cname⟩ :: echoes) := by
  unfold reportArm
  simp only
  split
  · exact ⟨_, _, echoRequests_singleton _, rfl⟩
  · exact ⟨t.core.rtt, [], echoRequests_nil, rfl⟩

namespace ReceiverState

/-- **The receiver's report**, when it knows where to send it. -/
theorem reportArm_cases (ssrc : UInt32) (cname : String) (rttEchoEnabled : Bool)
    (s : ReceiverState) (now : Instant) :
    (s.senderRtcpAddr = none ∧ s.reportArm ssrc cname rttEchoEnabled now = (s, [])) ∨
    ∃ rtcpDest rtt echoes, s.senderRtcpAddr = some rtcpDest ∧ EchoRequests echoes ∧
      s.reportArm ssrc cname rttEchoEnabled now
        = ({ s with media.rtcp := (s.media.rtcp.generateRr ssrc now).1, rtt },
          [(rtcpDest, .receiverReport (s.media.rtcp.generateRr ssrc now).2
            :: .sdes ⟨ssrc, cname⟩ :: echoes)]) := by
  unfold reportArm
  split
  · exact Or.inl ⟨‹_›, rfl⟩
  · refine Or.inr ?_
    simp only
    split
    · exact ⟨_, _, _, ‹_›, echoRequests_singleton _, rfl⟩
    · exact ⟨_, s.rtt, [], ‹_›, echoRequests_nil, rfl⟩

/-- **The pump**, when it knows where to send to: it takes what is due off the scheduler, and
sends it behind a report unless there is nothing. -/
theorem pumpArm_cases (ssrc : UInt32) (s : ReceiverState) (now : Instant) :
    (s.senderRtcpAddr = none ∧ s.pumpArm ssrc now = (s, [])) ∨
    ((s.media.nack.getPendingNacks now s.rtt.srtt).2 = [] ∧
      s.pumpArm ssrc now
        = ({ s with media.nack := (s.media.nack.getPendingNacks now s.rtt.srtt).1 }, [])) ∨
    ∃ rtcpDest, s.senderRtcpAddr = some rtcpDest ∧
      (s.media.nack.getPendingNacks now s.rtt.srtt).2 ≠ [] ∧
      s.pumpArm ssrc now
        = ({ s with media.nack := (s.media.nack.getPendingNacks now s.rtt.srtt).1
                    media.rtcp := (s.media.rtcp.generateRr ssrc now).1 },
          [(rtcpDest, [.receiverReport (s.media.rtcp.generateRr ssrc now).2,
            .nack (nackFor ssrc s (s.media.nack.getPendingNacks now s.rtt.srtt).2)])]) := by
  unfold pumpArm
  split
  · exact Or.inl ⟨‹_›, rfl⟩
  · refine Or.inr ?_
    simp only [List.isEmpty_iff]
    split
    · exact Or.inl ⟨‹_›, rfl⟩
    · exact Or.inr ⟨_, ‹_›, ‹_›, rfl⟩

/-- Neither timer touches the reorder buffer. -/
theorem reportArm_reorder (ssrc : UInt32) (cname : String) (rttEchoEnabled : Bool)
    (s : ReceiverState) (now : Instant) :
    (s.reportArm ssrc cname rttEchoEnabled now).1.media.reorder = s.media.reorder := by
  rcases reportArm_cases ssrc cname rttEchoEnabled s now with ⟨-, harm⟩ | ⟨_, _, _, -, -, harm⟩ <;>
    rw [harm]

theorem pumpArm_reorder (ssrc : UInt32) (s : ReceiverState) (now : Instant) :
    (s.pumpArm ssrc now).1.media.reorder = s.media.reorder := by
  rcases pumpArm_cases ssrc s now with ⟨-, harm⟩ | ⟨-, harm⟩ | ⟨_, -, -, harm⟩ <;> rw [harm]

end ReceiverState

end Rist
