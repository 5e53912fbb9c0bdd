/-
How long a session the RTCP counters last.

In a debug build a counter that leaves its type stops the task.  The sender counts its
packets and its payload bytes in 32 bits, the receiver its packets in 32 and the cycles
of the highest number in 16.  A run goes through as long as the totals fit, and stops at
the first one that does not; until then every counter is its true total modulo `2 ^ 32`.
-/
import Rist.Proofs.Receiver.Extended

namespace Rist

open Serial

namespace RtcpReceiverState

variable {s : RtcpReceiverState} {g : SeqTotals}

/-! ### The receiver's calls, checked -/

/-- The cycle counter overflows exactly when the extended number does. -/
theorem Tracks.trackSeqChecked (h : Tracks s g) (hext : g.extended < 4294967296) (seq : UInt16) :
    s.trackSeqChecked seq
      = if (g.packet s.maxSeq seq).extended < 4294967296 then some (s.trackSeq seq) else none := by
  have hseq := seq.toNat_lt
  unfold RtcpReceiverState.trackSeqChecked RtcpReceiverState.trackSeq SeqTotals.packet
  by_cases hzero : g.received = 0
  · simp only [if_pos hzero, if_pos (h.not_started_iff.mpr hzero)]
    rw [if_pos (by omega)]
  · simp only [if_neg hzero, if_neg (mt h.not_started_iff.mp hzero)]
    have hplace := h.place
    have hcycles := h.cycles
    rcases forward_cases s.maxSeq seq with ⟨hpos, hfwd, -, hsum⟩ | ⟨hpos, hfwd⟩
    · simp only [if_pos hpos]
      by_cases hlt : seq < s.maxSeq
      · simp only [if_pos hlt] at hsum ⊢
        unfold Checked.add16
        simp only [UInt16.toNat_one]
        by_cases hfit : s.seqCycles.toNat + 1 < 65536
        · rw [if_pos hfit, if_pos (by omega)]
          rfl
        · rw [if_neg hfit, if_neg (by omega)]
          rfl
      · simp only [if_neg hlt] at hsum ⊢
        rw [if_pos (by omega)]
        rfl
    · simp only [if_neg hpos, hfwd]
      rw [if_pos (by omega)]

theorem Tracks.onPacketReceivedChecked (h : Tracks s g) (hrecv : g.received < 4294967296)
    (hext : g.extended < 4294967296) (seq : UInt16) (ts : UInt32) (us : UInt64) :
    s.onPacketReceivedChecked seq ts us false
      = if g.received + 1 < 4294967296 ∧ (g.packet s.maxSeq seq).extended < 4294967296 then
          some (s.onPacketReceived seq ts us false)
        else none := by
  have hcount : (s.trackSeq seq).packetsReceived.toNat = g.received := by
    rw [trackSeq_packetsReceived, h.received, Nat.mod_eq_of_lt hrecv]
  unfold RtcpReceiverState.onPacketReceivedChecked RtcpReceiverState.onPacketReceived
  simp only [Bool.false_eq_true, if_false, h.trackSeqChecked hext]
  by_cases hfit : (g.packet s.maxSeq seq).extended < 4294967296
  · rw [if_pos hfit]
    have hsum : (s.trackSeq seq).packetsReceived.toNat + (1 : UInt32).toNat = g.received + 1 := by
      rw [hcount, UInt32.toNat_one]
    simp only [bind, Option.bind_some]
    by_cases hnext : g.received + 1 < 4294967296
    · rw [Checked.add32_of_lt (hsum ▸ hnext), if_pos ⟨hnext, hfit⟩]
      rfl
    · rw [Checked.add32_of_not_lt (hsum ▸ hnext), if_neg fun hc => hnext hc.1]
      rfl
  · rw [if_neg hfit, if_neg fun hc => hfit hc.2]
    rfl

theorem Tracks.generateRrChecked (h : Tracks s g) (hrecv : g.received < 4294967296)
    (hext : g.extended < 4294967296) (ssrc : UInt32) (now : Instant) :
    s.generateRrChecked ssrc now
      = if g.received = 0 ∨ g.expected < 4294967296 then some (s.generateRr ssrc now)
        else none := by
  unfold RtcpReceiverState.generateRrChecked
  by_cases hzero : g.received = 0
  · have hstart := h.not_started_iff.mpr hzero
    rw [if_pos hstart, if_pos (Or.inl hzero)]
    unfold generateRr
    rw [if_pos hstart]
  · have hne := mt h.not_started_iff.mp hzero
    have hextNat : s.extendedMaxSeq.toNat = g.extended := by
      rw [h.extended, Nat.mod_eq_of_lt hext]
    have hbase : s.baseSeq.toUInt32.toNat = g.first.toNat := by
      rw [UInt16.toNat_toUInt32, h.base]
    have hle : s.baseSeq.toUInt32.toNat ≤ s.extendedMaxSeq.toNat := by
      rw [hextNat, hbase]
      exact h.first_le
    have hsum : (s.extendedMaxSeq - s.baseSeq.toUInt32).toNat + (1 : UInt32).toNat = g.expected := by
      rw [Checked.toNat_sub32 hle, hextNat, hbase]
      rfl
    rw [if_neg hne, Checked.sub32_of_le hle]
    simp only [bind, Option.bind_some]
    by_cases hfit : g.expected < 4294967296
    · rw [if_pos (Or.inr hfit)]
      have hfits : Fits g := ⟨hrecv, hext, hfit⟩
      have hexp : s.expectedPrior.toNat ≤ s.expected.toNat := by
        rw [h.expectedPrior_eq hfits, h.expected_eq hfits]
        exact h.expectedAt_le
      have hprior : s.receivedPrior.toNat ≤ s.packetsReceived.toNat := by
        rw [h.receivedPrior_eq hfits, h.received_eq hfits]
        exact h.receivedAt_le
      rw [Checked.add32_of_lt (hsum ▸ hfit), Option.bind_some]
      show (Checked.sub32 s.expected s.expectedPrior).bind _ = _
      rw [Checked.sub32_of_le hexp, Option.bind_some, Checked.sub32_of_le hprior, Option.bind_some]
      -- the last difference is taken only where it is positive
      split
      · rfl
      · rename_i hlost
        have hlost' := UInt32.not_le.mp (not_or.mp hlost).2
        rw [Checked.sub32_of_le (UInt32.lt_iff_toNat_lt.mp hlost').le]
        rfl
    · rw [Checked.add32_of_not_lt (hsum ▸ hfit), Option.bind_none,
        if_neg (not_or.mpr ⟨hzero, hfit⟩)]

end RtcpReceiverState

namespace CountLog

open RtcpReceiverState

variable {t : CountLog}

/-- A call in a debug build; `none` is a stop. -/
def checkedStep (t : CountLog) : CountOp → Option RtcpReceiverState
  | .packet seq ts us isDuplicate => t.state.onPacketReceivedChecked seq ts us isDuplicate
  | .report ssrc now => (t.state.generateRrChecked ssrc now).map Prod.fst

/-- The call goes through, and the extended number is the true one modulo `2 ^ 32`. -/
def Survives (t : CountLog) (op : CountOp) : Prop :=
  t.checkedStep op = some (t.step op).state ∧
    (t.step op).state.extendedMaxSeq.toNat = (t.step op).totals.extended % 2 ^ 32

/-- What the call counts fits: the packets and the extended number of a packet, and the
numbers a report expects. -/
def Roomy (t : CountLog) : CountOp → Prop
  | .packet seq _ _ isDuplicate => isDuplicate = false →
      t.totals.received + 1 < 2 ^ 32 ∧ (t.totals.packet t.state.maxSeq seq).extended < 2 ^ 32
  | .report _ _ => t.totals.received = 0 ∨ t.totals.expected < 2 ^ 32

/-- What a run that goes through keeps. -/
structure Sound (t : CountLog) : Prop where
  tracks : Tracks t.state t.totals
  received : t.totals.received < 4294967296
  extended : t.totals.extended < 4294967296

theorem Sound.survives_iff (h : Sound t) (op : CountOp) : t.Survives op ↔ t.Roomy op := by
  have hext := (step_tracks h.tracks op).extended
  unfold Survives Roomy checkedStep
  cases op with
  | packet seq ts us isDuplicate =>
      cases isDuplicate with
      | true => exact iff_of_true ⟨rfl, hext⟩ fun hc => absurd hc (by decide)
      | false =>
          simp only [h.tracks.onPacketReceivedChecked h.received h.extended seq ts us]
          by_cases hroom : t.totals.received + 1 < 4294967296 ∧
              (t.totals.packet t.state.maxSeq seq).extended < 4294967296
          · rw [if_pos hroom]
            exact iff_of_true ⟨rfl, hext⟩ fun _ => hroom
          · rw [if_neg hroom]
            exact iff_of_false (fun hc => absurd hc.1 (by simp)) fun hc => hroom (hc trivial)
  | report ssrc now =>
      simp only [h.tracks.generateRrChecked h.received h.extended ssrc now]
      by_cases hroom : t.totals.received = 0 ∨ t.totals.expected < 4294967296
      · rw [if_pos hroom]
        exact iff_of_true ⟨rfl, hext⟩ hroom
      · rw [if_neg hroom]
        exact iff_of_false (fun hc => absurd hc.1 (by simp)) hroom

theorem Sound.step (h : Sound t) {op : CountOp} (hroom : t.Roomy op) : Sound (t.step op) := by
  refine ⟨step_tracks h.tracks op, ?_, ?_⟩
  · cases op with
    | report ssrc now =>
        show t.totals.report.received < _
        rw [(report_totals t.totals).1]
        exact h.received
    | packet seq ts us isDuplicate =>
        cases isDuplicate with
        | true => exact h.received
        | false =>
            show (t.totals.packet t.state.maxSeq seq).received < _
            rw [packet_received]
            exact (hroom rfl).1
  · cases op with
    | report ssrc now =>
        show t.totals.report.extended < _
        rw [(report_totals t.totals).2.2.1]
        exact h.extended
    | packet seq ts us isDuplicate =>
        cases isDuplicate with
        | true => exact h.extended
        | false => exact (hroom rfl).2

theorem sound_start : Sound start := ⟨tracks_new, by decide, by decide⟩

end CountLog

/-! ### The sender -/

/-- A packet sent. -/
structure SendOp where
  payloadSize : Nat
  rtpTimestamp : UInt32
  now : Instant

/-- A sender's counters beside the true totals. -/
structure SendLog where
  state : RtcpSenderState
  packets : Nat
  octets : Nat
  /-- The bytes that are added: a size is cut to 32 bits first. -/
  added : Nat

namespace SendLog

variable {t : SendLog}

def start (state : RtcpSenderState) : SendLog := ⟨state, 0, 0, 0⟩

def step (t : SendLog) (op : SendOp) : SendLog where
  state := t.state.onPacketSent op.payloadSize op.rtpTimestamp op.now
  packets := t.packets + 1
  octets := t.octets + op.payloadSize
  added := t.added + op.payloadSize % 2 ^ 32

/-- The call goes through in a debug build, and a report made after it names the true
totals modulo `2 ^ 32`. -/
def Survives (t : SendLog) (op : SendOp) : Prop :=
  t.state.onPacketSentChecked op.payloadSize op.rtpTimestamp op.now = some (t.step op).state ∧
    ∀ now wallClock,
      ((t.step op).state.generateSr now wallClock).2.senderPacketCount.toNat
        = (t.step op).packets % 2 ^ 32 ∧
      ((t.step op).state.generateSr now wallClock).2.senderOctetCount.toNat
        = (t.step op).octets % 2 ^ 32

/-- The totals fit. -/
def Roomy (t : SendLog) (op : SendOp) : Prop :=
  (t.step op).packets < 2 ^ 32 ∧ (t.step op).added < 2 ^ 32

instance (t : SendLog) (op : SendOp) : Decidable (t.Roomy op) :=
  inferInstanceAs (Decidable (_ ∧ _))

/-- What a run that goes through keeps. -/
structure Sound (t : SendLog) : Prop where
  packets : t.state.packetCount.toNat = t.packets
  added : t.state.octetCount.toNat = t.added
  octets : t.added % 4294967296 = t.octets % 4294967296

theorem sound_start (ssrc : UInt32) (cname : String) (rtcpInterval : Duration)
    (rtpTsEpoch : Instant) (rtpTsEpochSystem : SystemTime) :
    Sound (start (RtcpSenderState.new ssrc cname rtcpInterval rtpTsEpoch rtpTsEpochSystem)) :=
  ⟨rfl, rfl, rfl⟩

/-- **What a sent packet does**, in a debug build and in a release build. -/
theorem Sound.step (h : Sound t) (op : SendOp) :
    t.state.onPacketSentChecked op.payloadSize op.rtpTimestamp op.now
      = (if t.Roomy op then some (t.step op).state else none) ∧
    (t.Roomy op → Sound (t.step op)) := by
  have hsize : (UInt32.ofNat op.payloadSize).toNat = op.payloadSize % 4294967296 :=
    UInt32.toNat_ofNat'
  have hpackets := h.packets
  have hadded := h.added
  have hoctets := h.octets
  have hone : t.state.packetCount.toNat + (1 : UInt32).toNat = t.packets + 1 := by
    rw [hpackets, UInt32.toNat_one]
  have hsum : t.state.octetCount.toNat + (UInt32.ofNat op.payloadSize).toNat
      = t.added + op.payloadSize % 4294967296 := by rw [hadded, hsize]
  constructor
  · unfold RtcpSenderState.onPacketSentChecked
    by_cases hp : t.packets + 1 < 4294967296
    · rw [Checked.add32_of_lt (hone ▸ hp)]
      by_cases ha : t.added + op.payloadSize % 4294967296 < 4294967296
      · rw [Checked.add32_of_lt (hsum ▸ ha), if_pos (show t.Roomy op from ⟨hp, ha⟩)]
        rfl
      · rw [Checked.add32_of_not_lt (hsum ▸ ha), if_neg (show ¬t.Roomy op from fun hc => ha hc.2)]
        rfl
    · rw [Checked.add32_of_not_lt (hone ▸ hp), if_neg (show ¬t.Roomy op from fun hc => hp hc.1)]
      rfl
  · rintro ⟨hp, ha⟩
    refine ⟨?_, ?_, ?_⟩
    · show (t.state.packetCount + 1).toNat = t.packets + 1
      rw [UInt32.toNat_add, hone]
      exact Nat.mod_eq_of_lt hp
    · show (t.state.octetCount + UInt32.ofNat op.payloadSize).toNat
        = t.added + op.payloadSize % 4294967296
      rw [UInt32.toNat_add, hsum]
      exact Nat.mod_eq_of_lt ha
    · show (t.added + op.payloadSize % 4294967296) % 4294967296
        = (t.octets + op.payloadSize) % 4294967296
      omega

theorem Sound.survives_iff (h : Sound t) (op : SendOp) : t.Survives op ↔ t.Roomy op := by
  obtain ⟨hchecked, hsound⟩ := h.step op
  unfold Survives
  rw [hchecked]
  by_cases hroom : t.Roomy op
  · rw [if_pos hroom]
    refine iff_of_true ⟨rfl, fun now wallClock => ?_⟩ hroom
    have hnext := hsound hroom
    constructor
    · show (t.step op).state.packetCount.toNat = _
      rw [hnext.packets]
      exact (Nat.mod_eq_of_lt hroom.1).symm
    · show (t.step op).state.octetCount.toNat = _
      rw [hnext.added, ← Nat.mod_eq_of_lt hroom.2]
      exact hnext.octets
  · rw [if_neg hroom]
    exact iff_of_false (fun hc => absurd hc.1 (by simp)) hroom

theorem final_packets (ops : List SendOp) (t : SendLog) :
    (Run.final step t ops).packets = t.packets + ops.length := by
  induction ops generalizing t with
  | nil => rfl
  | cons op ops ih =>
      rw [Run.final_cons, ih, List.length_cons]
      show t.packets + 1 + ops.length = _
      omega

theorem final_added (ops : List SendOp) (t : SendLog) :
    (Run.final step t ops).added = t.added + (ops.map fun op => op.payloadSize % 2 ^ 32).sum := by
  induction ops generalizing t with
  | nil => rfl
  | cons op ops ih =>
      rw [Run.final_cons, ih, List.map_cons, List.sum_cons, ← Nat.add_assoc]
      rfl

/-- The totals fit all along exactly when they fit at the end. -/
theorem along_roomy_iff (state : RtcpSenderState) (ops : List SendOp) :
    Run.Along step Roomy (start state) ops ↔
      ops.length < 2 ^ 32 ∧ (ops.map fun op => op.payloadSize % 2 ^ 32).sum < 2 ^ 32 := by
  have hpackets : ∀ (t : SendLog) op, t.packets ≤ (t.step op).packets :=
    fun t op => Nat.le_add_right _ _
  have hadded : ∀ (t : SendLog) op, t.added ≤ (t.step op).added := fun t op => Nat.le_add_right _ _
  have hp := final_packets ops (start state)
  have ha := final_added ops (start state)
  rw [show (start state).packets = 0 from rfl, Nat.zero_add] at hp
  rw [show (start state).added = 0 from rfl, Nat.zero_add] at ha
  rw [← hp, ← ha, ← Run.along_lt_iff hpackets, ← Run.along_lt_iff hadded]
  constructor
  · intro h
    rw [Run.along_iff] at h
    refine ⟨⟨Nat.two_pow_pos 32, ?_⟩, Nat.two_pow_pos 32, ?_⟩
    · exact Run.along_iff.mpr fun pre op post heq => (h pre op post heq).1
    · exact Run.along_iff.mpr fun pre op post heq => (h pre op post heq).2
  · rintro ⟨⟨-, h1⟩, -, h2⟩
    exact Run.along_and h1 h2

theorem along_survives_iff (ssrc : UInt32) (cname : String) (rtcpInterval : Duration)
    (rtpTsEpoch : Instant) (rtpTsEpochSystem : SystemTime) (ops : List SendOp) :
    Run.Along step Survives
        (start (RtcpSenderState.new ssrc cname rtcpInterval rtpTsEpoch rtpTsEpochSystem)) ops ↔
      ops.length < 2 ^ 32 ∧ (ops.map fun op => op.payloadSize % 2 ^ 32).sum < 2 ^ 32 := by
  rw [← along_roomy_iff]
  refine Run.along_iff_of_invariant (fun _ op h => h.survives_iff op) (fun _ op h hs => ?_)
    (sound_start ssrc cname rtcpInterval rtpTsEpoch rtpTsEpochSystem)
  exact (h.step op).2 ((h.survives_iff op).mp hs)

end SendLog

/-- **The counters last exactly as long as the totals fit**: the sender's packets and
payload bytes, and the receiver's packets, extended number and expected numbers. -/
theorem counters_survive_iff (ssrc : UInt32) (cname : String) (rtcpInterval : Duration)
    (rtpTsEpoch : Instant) (rtpTsEpochSystem : SystemTime) (sent : List SendOp)
    (ops : List CountOp) :
    (Run.Along SendLog.step SendLog.Survives (SendLog.start
        (RtcpSenderState.new ssrc cname rtcpInterval rtpTsEpoch rtpTsEpochSystem)) sent ↔
      sent.length < 2 ^ 32 ∧ (sent.map fun op => op.payloadSize % 2 ^ 32).sum < 2 ^ 32) ∧
    (Run.Along CountLog.step CountLog.Survives CountLog.start ops ↔
      Run.Along CountLog.step CountLog.Roomy CountLog.start ops) := by
  refine ⟨SendLog.along_survives_iff ssrc cname rtcpInterval rtpTsEpoch rtpTsEpochSystem sent, ?_⟩
  refine Run.along_iff_of_invariant (fun _ op h => h.survives_iff op) (fun _ op h hs => ?_)
    CountLog.sound_start
  exact h.step ((h.survives_iff op).mp hs)

/-- Four gigabytes of media in packets of 1316 bytes stop a sender. -/
theorem sender_stops_at_four_gigabytes :
    ¬Run.Along SendLog.step SendLog.Survives
      (SendLog.start (RtcpSenderState.new 2 "s" 100 0 0))
      (List.replicate 3263654 ⟨1316, 0, 0⟩) := by
  rw [SendLog.along_survives_iff, List.map_replicate, List.sum_replicate_nat]
  intro h
  exact absurd h.2 (by decide)

end Rist
