/-
No sub-packet parser stops the thread.

A cursor read and a slice panic when the buffer is too short for them, and the parsers
rest on length checks made well before the read, sometimes in another function.
`Safe` says that a parser ends in a value or in an error.  It is carried from one read
to the next by what the read leaves: so many bytes fewer.
-/
import Rist.Packet.Rtcp

namespace Rist

/-- The parser ends in a value or in an error. -/
def Safe {α : Type} (p : Parse α) : Prop := p ≠ .error .panic

section

variable {α β : Type} {buf : Bytes}

theorem safe_ok (a : α) : Safe (.ok a : Parse α) := by
  unfold Safe
  simp

theorem safe_fail (e : RistError) : Safe (fail e : Parse α) := by
  unfold Safe fail
  simp

/-- A failure is safe whatever was to be read. -/
theorem Safe.error {e : Fault} (h : Safe (.error e : Parse α)) : Safe (.error e : Parse β) := by
  intro hc
  exact h (congrArg Except.error (Except.error.inj hc))

theorem Safe.bind {x : Parse α} {f : α → Parse β} (hx : Safe x) (hf : ∀ a, Safe (f a)) :
    Safe (x >>= f) := by
  cases x with
  | error e => exact hx.error
  | ok a => exact hf a

/-! ### Reads that have enough to read -/

theorem getU16_of_length (h : 2 ≤ buf.length) : ∃ x, getU16 buf = .ok (x, buf.drop 2) := by
  match buf, h with
  | a :: b :: r, _ => exact ⟨_, rfl⟩

theorem getU32_of_length (h : 4 ≤ buf.length) : ∃ x, getU32 buf = .ok (x, buf.drop 4) := by
  match buf, h with
  | a :: b :: c :: d :: r, _ => exact ⟨_, rfl⟩

theorem safe_getU16 {f : UInt16 × Bytes → Parse β} (h : 2 ≤ buf.length)
    (hf : ∀ x, Safe (f (x, buf.drop 2))) : Safe (getU16 buf >>= f) := by
  obtain ⟨x, hx⟩ := getU16_of_length h
  rw [hx]
  exact hf x

theorem safe_getU32 {f : UInt32 × Bytes → Parse β} (h : 4 ≤ buf.length)
    (hf : ∀ x, Safe (f (x, buf.drop 4))) : Safe (getU32 buf >>= f) := by
  obtain ⟨x, hx⟩ := getU32_of_length h
  rw [hx]
  exact hf x

theorem slice_of_le {lo hi : Nat} (hlo : lo ≤ hi) (hhi : hi ≤ buf.length) :
    slice buf lo hi = .ok ((buf.take hi).drop lo) := if_pos ⟨hlo, hhi⟩

theorem sliceFrom_of_le {lo : Nat} (hlo : lo ≤ buf.length) :
    sliceFrom buf lo = .ok (buf.drop lo) := by
  unfold sliceFrom
  rw [slice_of_le hlo (Nat.le_refl _), List.take_length]

theorem byteAt_of_lt {i : Nat} (h : i < buf.length) : ∃ b, byteAt buf i = .ok b := by
  unfold byteAt
  rw [List.getElem?_eq_getElem h]
  exact ⟨_, rfl⟩

end

/-! ### The parsers -/

theorem SenderReport.parse_safe (buf : Bytes) : Safe (SenderReport.parse buf) := by
  unfold SenderReport.parse
  by_cases hlen : buf.length < 24
  · rw [if_pos hlen]
    exact safe_fail _
  rw [if_neg hlen]
  refine safe_getU32 (by omega) fun ssrc => ?_
  refine safe_getU32 (by simp; omega) fun ntpMsw => ?_
  refine safe_getU32 (by simp; omega) fun ntpLsw => ?_
  refine safe_getU32 (by simp; omega) fun rtpTimestamp => ?_
  refine safe_getU32 (by simp; omega) fun senderPacketCount => ?_
  refine safe_getU32 (by simp; omega) fun senderOctetCount => ?_
  exact safe_ok _

theorem ReportBlock.parse_safe (buf : Bytes) : Safe (ReportBlock.parse buf) := by
  unfold ReportBlock.parse
  by_cases hlen : buf.length < ReportBlock.size
  · rw [if_pos hlen]
    exact safe_fail _
  rw [if_neg hlen]
  unfold ReportBlock.size at hlen
  refine safe_getU32 (by omega) fun ssrc => ?_
  refine safe_getU32 (by simp; omega) fun lostWord => ?_
  refine safe_getU32 (by simp; omega) fun extendedHighestSeq => ?_
  refine safe_getU32 (by simp; omega) fun jitter => ?_
  refine safe_getU32 (by simp; omega) fun lastSr => ?_
  refine safe_getU32 (by simp; omega) fun delaySinceLastSr => ?_
  exact safe_ok _

/-- A block that parses was all there. -/
theorem ReportBlock.size_le_of_parse {buf : Bytes} {b : ReportBlock}
    (h : ReportBlock.parse buf = .ok b) : ReportBlock.size ≤ buf.length := by
  refine Nat.le_of_not_lt fun hlen => ?_
  unfold ReportBlock.parse at h
  rw [if_pos hlen] at h
  cases h

/-- The next block starts inside the buffer because the one before it was all there. -/
theorem ReceiverReport.parseBlocks_safe (buf : Bytes) :
    ∀ (n offset : Nat), offset ≤ buf.length → Safe (ReceiverReport.parseBlocks buf n offset) := by
  intro n
  induction n with
  | zero =>
      intro offset _
      exact safe_ok []
  | succ n ih =>
      intro offset hoff
      rw [ReceiverReport.parseBlocks, sliceFrom_of_le hoff]
      show Safe (ReportBlock.parse (buf.drop offset) >>= _)
      cases hblock : ReportBlock.parse (buf.drop offset) with
      | error e =>
          have hsafe := ReportBlock.parse_safe (buf.drop offset)
          rw [hblock] at hsafe
          exact hsafe.error
      | ok block =>
          have hsize := ReportBlock.size_le_of_parse hblock
          rw [List.length_drop] at hsize
          exact (ih (offset + ReportBlock.size) (by omega)).bind fun blocks => safe_ok _

theorem ReceiverReport.parse_safe (buf : Bytes) (rc : UInt8) :
    Safe (ReceiverReport.parse buf rc) := by
  unfold ReceiverReport.parse
  by_cases hlen : buf.length < 4
  · rw [if_pos hlen]
    exact safe_fail _
  rw [if_neg hlen]
  refine safe_getU32 (by omega) fun ssrc => ?_
  exact (parseBlocks_safe buf rc.toNat 4 (by omega)).bind fun reports => safe_ok _

theorem Sdes.parse_safe (buf : Bytes) : Safe (Sdes.parse buf) := by
  unfold Sdes.parse
  by_cases hlen : buf.length < 6
  · rw [if_pos hlen]
    exact safe_fail _
  rw [if_neg hlen]
  refine safe_getU32 (by omega) fun ssrc => ?_
  obtain ⟨itemType, htype⟩ := byteAt_of_lt (show 4 < buf.length by omega)
  obtain ⟨nameLen, hname⟩ := byteAt_of_lt (show 5 < buf.length by omega)
  simp only [htype, hname, bind, Except.bind]
  split
  · exact safe_fail _
  split
  · exact safe_fail _
  · rename_i hfits
    rw [slice_of_le (Nat.le_add_right 6 _) (Nat.le_of_not_lt hfits)]
    exact safe_ok _

theorem NackPacket.readEntries_safe {α : Type} (entry : UInt16 → UInt16 → α) :
    ∀ (n : Nat) (r : Bytes), 4 * n ≤ r.length → Safe (NackPacket.readEntries entry n r) := by
  intro n
  induction n with
  | zero =>
      intro r _
      exact safe_ok []
  | succ n ih =>
      intro r hlen
      rw [NackPacket.readEntries]
      refine safe_getU16 (by omega) fun x => ?_
      refine safe_getU16 (by simp; omega) fun y => ?_
      exact (ih ((r.drop 2).drop 2) (by simp; omega)).bind fun entries => safe_ok _

/-- The entry count is safe because it is taken from the length of the buffer itself. -/
theorem NackPacket.parse_safe (buf : Bytes) (fmt : UInt8) :
    Safe (NackPacket.parse buf fmt buf.length) := by
  unfold NackPacket.parse
  by_cases hlen : buf.length < 8
  · rw [if_pos hlen]
    exact safe_fail _
  rw [if_neg hlen]
  refine safe_getU32 (by omega) fun senderSsrc => ?_
  refine safe_getU32 (by simp; omega) fun mediaSsrc => ?_
  have hcount : 4 * ((buf.length - 8) / 4) ≤ ((buf.drop 4).drop 4).length := by
    simp only [List.length_drop]
    omega
  show Safe (if fmt = nackFmtGeneric then _ else if fmt = nackFmtRange then _ else _)
  split
  · exact (readEntries_safe BitmaskNack.mk _ _ hcount).bind fun nacks => safe_ok _
  split
  · exact (readEntries_safe RangeEntry.mk _ _ hcount).bind fun nacks => safe_ok _
  · exact safe_fail _

theorem RistApp.readRanges_safe : ∀ (n : Nat) (r : Bytes), Safe (RistApp.readRanges n r) := by
  intro n
  induction n with
  | zero =>
      intro r
      exact safe_ok []
  | succ n ih =>
      intro r
      rw [RistApp.readRanges]
      split
      · refine safe_getU16 (by omega) fun start => ?_
        refine safe_getU16 (by simp; omega) fun extra => ?_
        exact (ih _).bind fun entries => safe_ok _
      · exact safe_ok []

theorem RistApp.parse_safe (buf : Bytes) (subtype : UInt8) : Safe (RistApp.parse buf subtype) := by
  unfold RistApp.parse
  by_cases hlen : buf.length < 8
  · rw [if_pos hlen]
    exact safe_fail _
  rw [if_neg hlen]
  refine safe_getU32 (by omega) fun ssrc => ?_
  simp only
  split
  · exact safe_ok _
  split
  · exact (readRanges_safe _ _).bind fun entries => safe_ok _
  split
  · split
    · exact safe_fail _
    · refine safe_getU32 (by omega) fun msw => ?_
      refine safe_getU32 (by simp at *; omega) fun lsw => ?_
      exact safe_ok _
  split
  · split
    · exact safe_fail _
    · refine safe_getU32 (by omega) fun msw => ?_
      refine safe_getU32 (by simp at *; omega) fun lsw => ?_
      refine safe_getU32 (by simp at *; omega) fun delay => ?_
      exact safe_ok _
  · exact safe_ok _

/-! ### Sub-packets -/

/-- The sub-packet is what the body parser read, or the payload as it is when the
parser refused it. -/
def Decoded {α : Type} (f : α → RtcpPacket) (packetType : UInt8) (payload : Bytes)
    (body : Parse α) (pkt : RtcpPacket) : Prop :=
  (∃ a, body = .ok a ∧ pkt = f a) ∨
    ∃ e, body = .error (.err e) ∧ pkt = .unknown packetType payload

theorem demote_of_safe {α : Type} {f : α → RtcpPacket} {packetType : UInt8} {payload : Bytes}
    {body : Parse α} (h : Safe body) :
    ∃ pkt, demote f packetType payload body = .ok pkt ∧
      Decoded f packetType payload body pkt := by
  cases body with
  | ok a => exact ⟨f a, rfl, Or.inl ⟨a, rfl, rfl⟩⟩
  | error e =>
      cases e with
      | err e => exact ⟨_, rfl, Or.inr ⟨e, rfl, rfl⟩⟩
      | panic => exact absurd rfl h

/-- The sub-packet of a header and a payload, by the packet type. -/
def RtcpPacket.IsDecoding (header : RtcpCommonHeader) (payload : Bytes) (pkt : RtcpPacket) :
    Prop :=
  let pt := header.packetType
  if pt = rtcpPtSr then Decoded senderReport pt payload (SenderReport.parse payload) pkt
  else if pt = rtcpPtRr then
    Decoded receiverReport pt payload (ReceiverReport.parse payload header.count) pkt
  else if pt = rtcpPtSdes then Decoded RtcpPacket.sdes pt payload (Sdes.parse payload) pkt
  else if pt = rtcpPtRtpfb then
    Decoded RtcpPacket.nack pt payload (NackPacket.parse payload header.count payload.length) pkt
  else if pt = rtcpPtApp then
    Decoded RtcpPacket.app pt payload (RistApp.parse payload header.count) pkt
  else pkt = .unknown pt payload

/-- **Every payload gives a sub-packet.** -/
theorem RtcpPacket.parse_decoding (header : RtcpCommonHeader) (payload : Bytes) :
    ∃ pkt, RtcpPacket.parse header payload = .ok pkt ∧ IsDecoding header payload pkt := by
  unfold RtcpPacket.parse IsDecoding
  by_cases hsr : header.packetType = rtcpPtSr
  · simp only [if_pos hsr]
    exact demote_of_safe (SenderReport.parse_safe payload)
  by_cases hrr : header.packetType = rtcpPtRr
  · simp only [if_neg hsr, if_pos hrr]
    exact demote_of_safe (ReceiverReport.parse_safe payload header.count)
  by_cases hsdes : header.packetType = rtcpPtSdes
  · simp only [if_neg hsr, if_neg hrr, if_pos hsdes]
    exact demote_of_safe (Sdes.parse_safe payload)
  by_cases hnack : header.packetType = rtcpPtRtpfb
  · simp only [if_neg hsr, if_neg hrr, if_neg hsdes, if_pos hnack]
    exact demote_of_safe (NackPacket.parse_safe payload header.count)
  by_cases happ : header.packetType = rtcpPtApp
  · simp only [if_neg hsr, if_neg hrr, if_neg hsdes, if_neg hnack, if_pos happ]
    exact demote_of_safe (RistApp.parse_safe payload header.count)
  · simp only [if_neg hsr, if_neg hrr, if_neg hsdes, if_neg hnack, if_neg happ]
    exact ⟨_, rfl, rfl⟩

end Rist
