/-
What is serialized is parsed back.

Every encoder writes the same kind of thing: a common header that counts its own body
in words, and the body (`framed`).  So one lemma says that it is a well-framed
sub-packet, and what is left for each kind of packet is that its parser reads the body
back.  A compound datagram is then a list of frames, which the walk cuts where the
encoders put them together.
-/
import Mathlib.Data.Nat.Bitwise
import Rist.Proofs.Packet.Compound
import Rist.Proofs.Packet.Utf8

namespace Rist

open RtcpCompound

/-! ### Frames as the encoders write them -/

/-- A common header, counting the words of its body, and the body. -/
def framed (count packetType : UInt8) (body : Bytes) : Bytes :=
  [0x80 ||| count, packetType] ++ putU16 (UInt16.ofNat (body.length / 4)) ++ body

theorem length_framed (count packetType : UInt8) (body : Bytes) :
    (framed count packetType body).length = 4 + body.length := by
  unfold framed
  simp only [List.length_append, List.length_cons, List.length_nil, length_putU16]

/-- The count is the low five bits of the first byte, the version the high two. -/
theorem first_byte {count : UInt8} (h : count < 32) :
    (((0x80 ||| count) >>> 6) &&& 0x03 = 2) ∧ (((0x80 ||| count) >>> 5) &&& 0x01 = 0) ∧
      ((0x80 ||| count) &&& 0x1F = count) := by
  have hall : ∀ n < 32, (((0x80 ||| UInt8.ofNat n) >>> 6) &&& 0x03 = 2) ∧
      (((0x80 ||| UInt8.ofNat n) >>> 5) &&& 0x01 = 0) ∧
      ((0x80 ||| UInt8.ofNat n) &&& 0x1F = UInt8.ofNat n) := by decide
  have hn := hall count.toNat (UInt8.lt_iff_toNat_lt.mp h)
  rw [UInt8.ofNat_toNat] at hn
  exact hn

theorem toNat_words {body : Bytes} (hlen : body.length ≤ 262140) :
    (UInt16.ofNat (body.length / 4)).toNat = body.length / 4 := by
  rw [UInt16.toNat_ofNat', Nat.mod_eq_of_lt (by omega)]

theorem header_framed {count : UInt8} (hcount : count < 32) (packetType : UInt8) (body : Bytes) :
    RtcpCommonHeader.parse (framed count packetType body)
      = .ok ⟨2, false, count, packetType, UInt16.ofNat (body.length / 4)⟩ := by
  obtain ⟨hversion, hpadding, hlow⟩ := first_byte hcount
  unfold RtcpCommonHeader.parse framed
  rw [if_neg (by simp)]
  simp only [List.cons_append, List.nil_append, getU8_cons, getU16_putU16, bind, Except.bind]
  rw [if_neg (not_not_intro hversion), hversion, hpadding, hlow]
  rfl

theorem wellFramed_framed {count : UInt8} (hcount : count < 32) (packetType : UInt8) {body : Bytes}
    (hwords : body.length % 4 = 0) (hlen : body.length ≤ 262140) :
    WellFramed (framed count packetType body) := by
  have hlength := length_framed count packetType body
  have hhead : 4 ≤ (framed count packetType body).length := by omega
  have hversion : version (framed count packetType body) = 2 := (first_byte hcount).1
  refine ⟨hhead, hversion, ?_⟩
  obtain ⟨h, hparse, hsize⟩ := header_of_version hhead hversion
  rw [header_framed hcount] at hparse
  rw [← hsize, ← Except.ok.inj hparse, hlength]
  show _ = ((UInt16.ofNat (body.length / 4)).toNat + 1) * 4
  rw [toNat_words hlen]
  omega

/-- A sub-packet that is written as a frame, and whose body reads back as it. -/
structure Encodes (pkt : RtcpPacket) (count packetType : UInt8) (body : Bytes) : Prop where
  bytes : pkt.serialize = framed count packetType body
  count_lt : count < 32
  words : body.length % 4 = 0
  length_le : body.length ≤ 262140
  parse : ∀ length, RtcpPacket.parse ⟨2, false, count, packetType, length⟩ body = .ok pkt

section

variable {pkt : RtcpPacket} {count packetType : UInt8} {body : Bytes}

theorem Encodes.length (h : Encodes pkt count packetType body) :
    pkt.serialize.length = 4 + body.length := by
  rw [h.bytes, length_framed]

theorem Encodes.wellFramed (h : Encodes pkt count packetType body) : WellFramed pkt.serialize := by
  rw [h.bytes]
  exact wellFramed_framed h.count_lt packetType h.words h.length_le

theorem Encodes.isSubPacket (h : Encodes pkt count packetType body) :
    IsSubPacket pkt.serialize pkt := by
  rw [h.bytes]
  exact ⟨_, header_framed h.count_lt packetType body, h.parse _⟩

end

/-! ### Reports -/

section

variable (count : UInt8) (length : UInt16) (payload : Bytes)

theorem RtcpPacket.parse_sr : RtcpPacket.parse ⟨2, false, count, rtcpPtSr, length⟩ payload
    = demote senderReport rtcpPtSr payload (SenderReport.parse payload) := by
  unfold RtcpPacket.parse
  simp only
  rw [if_pos trivial]

theorem RtcpPacket.parse_rr : RtcpPacket.parse ⟨2, false, count, rtcpPtRr, length⟩ payload
    = demote receiverReport rtcpPtRr payload (ReceiverReport.parse payload count) := by
  unfold RtcpPacket.parse
  simp only
  rw [if_neg (by decide), if_pos trivial]

theorem RtcpPacket.parse_sdes : RtcpPacket.parse ⟨2, false, count, rtcpPtSdes, length⟩ payload
    = demote RtcpPacket.sdes rtcpPtSdes payload (Sdes.parse payload) := by
  unfold RtcpPacket.parse
  simp only
  rw [if_neg (by decide), if_neg (by decide), if_pos trivial]

theorem RtcpPacket.parse_rtpfb : RtcpPacket.parse ⟨2, false, count, rtcpPtRtpfb, length⟩ payload
    = demote RtcpPacket.nack rtcpPtRtpfb payload
        (NackPacket.parse payload count payload.length) := by
  unfold RtcpPacket.parse
  simp only
  rw [if_neg (by decide), if_neg (by decide), if_neg (by decide), if_pos trivial]

theorem RtcpPacket.parse_app : RtcpPacket.parse ⟨2, false, count, rtcpPtApp, length⟩ payload
    = demote RtcpPacket.app rtcpPtApp payload (RistApp.parse payload count) := by
  unfold RtcpPacket.parse
  simp only
  rw [if_neg (by decide), if_neg (by decide), if_neg (by decide), if_neg (by decide), if_pos trivial]

end

theorem SenderReport.encodes (sr : SenderReport) :
    Encodes (.senderReport sr) 0 rtcpPtSr
      (putU32 sr.ssrc ++ putU32 sr.ntpMsw ++ putU32 sr.ntpLsw ++ putU32 sr.rtpTimestamp ++
        putU32 sr.senderPacketCount ++ putU32 sr.senderOctetCount) := by
  refine ⟨by simp [RtcpPacket.serialize, SenderReport.serialize, framed], by decide, by simp,
    by simp, ?_⟩
  intro length
  rw [RtcpPacket.parse_sr]
  unfold SenderReport.parse
  rw [if_neg (by simp)]
  simp only [List.append_assoc, getU32_putU32, getU32_putU32_nil, bind, Except.bind]
  rfl

/-- The word that holds the fraction and the cumulative loss. -/
theorem toNat_lostWord (f : UInt8) (c : UInt32) :
    ((f.toUInt32 <<< 24) ||| (c &&& 0x00FFFFFF)).toNat
      = f.toNat * 2 ^ 24 + c.toNat % 2 ^ 24 := by
  have hf := f.toNat_lt
  have hmask : (c &&& 0x00FFFFFF).toNat = c.toNat % 2 ^ 24 := by
    rw [UInt32.toNat_and]
    exact Nat.and_two_pow_sub_one_eq_mod c.toNat 24
  have hshift : (f.toUInt32 <<< 24).toNat = f.toNat <<< 24 := by
    rw [UInt32.toNat_shiftLeft, UInt8.toNat_toUInt32]
    show f.toNat <<< 24 % 2 ^ 32 = _
    rw [Nat.shiftLeft_eq]
    omega
  rw [UInt32.toNat_or, hmask, hshift, ← Nat.shiftLeft_add_eq_or_of_lt (by omega), Nat.shiftLeft_eq]

/-- A signed 24-bit number survives being cut to 24 bits and extended again. -/
theorem signExtend_eq {c : Int32} (hlo : -8388608 ≤ c.toInt) (hhi : c.toInt ≤ 8388607)
    {raw : UInt32} (hraw : raw.toNat = c.toUInt32.toNat % 2 ^ 24) :
    (if raw &&& 0x800000 ≠ 0 then (raw ||| ~~~0x00FFFFFF).toInt32 else raw.toInt32) = c := by
  have hc : c.toInt = if 2 * c.toUInt32.toNat < 2 ^ 32 then (c.toUInt32.toNat : Int)
      else (c.toUInt32.toNat : Int) - 2 ^ 32 := BitVec.toInt_eq_toNat_cond c.toBitVec
  have hlt := c.toUInt32.toNat_lt
  -- the sign is bit 23
  have hsign : raw &&& 0x800000 = 0 ↔ raw.toNat < 2 ^ 23 := by
    rw [← UInt32.toNat_inj, UInt32.toNat_and]
    show raw.toNat &&& 2 ^ 23 = 0 ↔ _
    rw [Nat.and_two_pow, Nat.testBit_eq_decide_div_mod_eq]
    simp
    omega
  have hback : ∀ x : UInt32, x.toNat = c.toUInt32.toNat → x.toInt32 = c := by
    intro x hx
    rw [UInt32.toNat_inj.mp hx]
    rfl
  by_cases h : raw.toNat < 2 ^ 23
  · rw [if_neg (not_not_intro (hsign.mpr h))]
    apply hback
    split at hc <;> omega
  · rw [if_pos (mt hsign.mp h)]
    apply hback
    rw [UInt32.toNat_or, Nat.or_comm]
    have hor : (255 : Nat) <<< 24 + raw.toNat = 255 <<< 24 ||| raw.toNat :=
      Nat.shiftLeft_add_eq_or_of_lt (by omega) 255
    show 255 <<< 24 ||| raw.toNat = _
    rw [← hor, Nat.shiftLeft_eq]
    split at hc <;> omega

/-- The cumulative loss fits the 24 bits it has on the wire. -/
def ReportBlock.Fits (b : ReportBlock) : Prop :=
  -8388608 ≤ b.cumulativeLost.toInt ∧ b.cumulativeLost.toInt ≤ 8388607

theorem ReportBlock.length_serialize (b : ReportBlock) : b.serialize.length = 24 := by
  simp [ReportBlock.serialize]

theorem ReportBlock.parse_serialize {b : ReportBlock} (h : b.Fits) (t : Bytes) :
    ReportBlock.parse (b.serialize ++ t) = .ok b := by
  have hword := toNat_lostWord b.fractionLost b.cumulativeLost.toUInt32
  have hf := b.fractionLost.toNat_lt
  unfold ReportBlock.parse
  rw [if_neg (by simp [ReportBlock.length_serialize, ReportBlock.size])]
  unfold ReportBlock.serialize
  simp only [List.append_assoc, getU32_putU32, bind, Except.bind]
  generalize (b.fractionLost.toUInt32 <<< 24) ||| (b.cumulativeLost.toUInt32 &&& 0x00FFFFFF) = word
    at *
  have hfraction : (word >>> 24).toUInt8 = b.fractionLost := by
    rw [← UInt8.toNat_inj, UInt32.toNat_toUInt8, UInt32.toNat_shiftRight]
    show word.toNat >>> 24 % 2 ^ 8 = _
    rw [Nat.shiftRight_eq_div_pow]
    omega
  have hraw : (word &&& 0x00FFFFFF).toNat = b.cumulativeLost.toUInt32.toNat % 2 ^ 24 := by
    rw [UInt32.toNat_and]
    show word.toNat &&& 2 ^ 24 - 1 = _
    rw [Nat.and_two_pow_sub_one_eq_mod]
    omega
  rw [hfraction, signExtend_eq h.1 h.2 hraw]

theorem ReceiverReport.parseBlocks_serialize {blocks : List ReportBlock} :
    ∀ (pre : Bytes), (∀ b ∈ blocks, b.Fits) →
      ReceiverReport.parseBlocks (pre ++ blocks.flatMap ReportBlock.serialize) blocks.length pre.length
        = .ok blocks := by
  induction blocks with
  | nil =>
      intro pre _
      rfl
  | cons b blocks ih =>
      intro pre hfits
      have hnext := ih (pre ++ b.serialize) fun b' hb' => hfits b' (List.mem_cons_of_mem b hb')
      rw [List.append_assoc, List.length_append, ReportBlock.length_serialize] at hnext
      rw [List.flatMap_cons, List.length_cons, ReceiverReport.parseBlocks,
        sliceFrom_of_le (by simp), List.drop_left]
      simp only [bind, Except.bind, ReportBlock.parse_serialize (hfits b List.mem_cons_self),
        ReportBlock.size, hnext]

theorem ReceiverReport.encodes {rr : ReceiverReport} (hcount : rr.reports.length ≤ 31)
    (hfits : ∀ b ∈ rr.reports, b.Fits) :
    Encodes (.receiverReport rr) (UInt8.ofNat rr.reports.length) rtcpPtRr
      (putU32 rr.ssrc ++ rr.reports.flatMap ReportBlock.serialize) := by
  have hlen : (rr.reports.flatMap ReportBlock.serialize).length = 24 * rr.reports.length := by
    rw [List.length_flatMap, List.map_congr_left fun b _ => ReportBlock.length_serialize b,
      List.map_const', List.sum_replicate_nat, Nat.mul_comm]
  have htoNat : (UInt8.ofNat rr.reports.length).toNat = rr.reports.length := by
    rw [UInt8.toNat_ofNat', Nat.mod_eq_of_lt (by omega)]
  have hlt : UInt8.ofNat rr.reports.length < 32 := by
    rw [UInt8.lt_iff_toNat_lt, htoNat]
    exact Nat.lt_succ_of_le hcount
  refine ⟨?_, hlt, ?_, ?_, ?_⟩
  · -- the count fits its five bits, and the length word is the body's
    have hall : ∀ n < 32, UInt8.ofNat n &&& 0x1F = UInt8.ofNat n ∧
        1 + (UInt8.ofNat n).toUInt16 * 6 = UInt16.ofNat ((4 + 24 * n) / 4) := by decide
    obtain ⟨hmask, hwords⟩ := hall rr.reports.length (by omega)
    show ReceiverReport.serialize rr = _
    unfold ReceiverReport.serialize framed
    simp only [List.length_append, length_putU32, hlen]
    rw [hmask, hwords, List.append_assoc]
  · rw [List.length_append, length_putU32, hlen]
    omega
  · rw [List.length_append, length_putU32, hlen]
    omega
  · intro length
    rw [RtcpPacket.parse_rr]
    unfold ReceiverReport.parse
    rw [if_neg (by simp)]
    have hblocks := ReceiverReport.parseBlocks_serialize (putU32 rr.ssrc) hfits
    rw [length_putU32] at hblocks
    simp only [getU32_putU32, bind, Except.bind, htoNat, hblocks]
    rfl

/-! ### Source descriptions -/

/-- The zero bytes behind a name of so many bytes. -/
def Sdes.padding (nameLen : Nat) : Nat :=
  if (4 - (6 + nameLen) % 4) % 4 = 0 then 4 else (4 - (6 + nameLen) % 4) % 4

theorem Sdes.padding_words (nameLen : Nat) : (6 + nameLen + padding nameLen) % 4 = 0 := by
  unfold padding
  split <;> omega

theorem Sdes.padding_le (nameLen : Nat) : padding nameLen ≤ 4 := by
  unfold padding
  split <;> omega

def Sdes.body (s : Sdes) : Bytes :=
  putU32 s.ssrc ++ ([sdesCname, UInt8.ofNat s.cnameBytes.length] ++ (s.cnameBytes ++
    List.replicate (padding s.cnameBytes.length) 0))

theorem Sdes.length_body (s : Sdes) :
    s.body.length = 4 + 2 + s.cnameBytes.length + padding s.cnameBytes.length := by
  unfold body
  simp
  omega

/-- The parser reads as many bytes of the name as the length byte says, which is the
length modulo 256. -/
theorem Sdes.parse_body (s : Sdes) :
    Sdes.parse s.body = .ok ⟨s.ssrc, String.ofList
      (fromUtf8Lossy (s.cnameBytes.take (s.cnameBytes.length % 256)))⟩ := by
  have hlen := s.length_body
  have htoNat : (UInt8.ofNat s.cnameBytes.length).toNat = s.cnameBytes.length % 256 :=
    UInt8.toNat_ofNat'
  have hssrc : getU32 s.body = .ok (s.ssrc, s.body.drop 4) := getU32_putU32 s.ssrc _
  have htype : byteAt s.body 4 = .ok sdesCname := rfl
  have hcount : byteAt s.body 5 = .ok (UInt8.ofNat s.cnameBytes.length) := rfl
  have hle := Nat.mod_le s.cnameBytes.length 256
  have htake : (s.body.take (6 + s.cnameBytes.length % 256)).drop 6
      = s.cnameBytes.take (s.cnameBytes.length % 256) := by
    rw [List.drop_take, Nat.add_sub_cancel_left]
    exact List.take_append_of_le_length hle
  unfold Sdes.parse
  rw [if_neg (by omega)]
  simp only [hssrc, htype, hcount, bind, Except.bind, htoNat]
  rw [if_neg (by simp), if_neg (by omega), slice_of_le (by omega) (by omega), htake]

/-- A name whose length fits its byte is read back. -/
theorem Sdes.parse_body_of_le {s : Sdes} (hname : s.cnameBytes.length ≤ 255) :
    Sdes.parse s.body = .ok s := by
  rw [parse_body, Nat.mod_eq_of_lt (by omega), List.take_length]
  show Except.ok (Sdes.mk s.ssrc (String.ofList (fromUtf8Lossy (s.cname.toList.flatMap _)))) = _
  rw [fromUtf8Lossy_encode, String.ofList_toList]

/-- A longer name is read back cut short. -/
theorem Sdes.parse_body_of_gt {s : Sdes} (hname : 255 < s.cnameBytes.length) :
    Sdes.parse s.body ≠ .ok s := by
  rw [parse_body]
  intro heq
  have hcname : String.ofList
      (fromUtf8Lossy (s.cnameBytes.take (s.cnameBytes.length % 256))) = s.cname :=
    congrArg Sdes.cname (Except.ok.inj heq)
  have hread : fromUtf8Lossy (s.cnameBytes.take (s.cnameBytes.length % 256))
      = s.cname.toList := by
    rw [← hcname, String.toList_ofList]
  have hshort := fromUtf8Lossy_take_length_lt s.cname.toList (s.cnameBytes.length % 256)
    (show _ ≤ s.cnameBytes.length by omega)
  have hlength := congrArg List.length hread
  rw [show s.cname.toList.flatMap String.utf8EncodeChar = s.cnameBytes from rfl] at hshort
  omega

theorem Sdes.serialize_eq (s : Sdes) : s.serialize = framed 1 rtcpPtSdes s.body := by
  have hwords := padding_words s.cnameBytes.length
  have hlen := s.length_body
  have hdown : (4 + (4 + 2 + s.cnameBytes.length + padding s.cnameBytes.length)) / 4 - 1
      = s.body.length / 4 := by omega
  unfold Sdes.serialize framed
  simp only [List.append_assoc]
  rw [← padding.eq_def, hdown]
  rfl

theorem Sdes.encodes {s : Sdes} (hname : s.cnameBytes.length ≤ 255) :
    Encodes (.sdes s) 1 rtcpPtSdes s.body := by
  have hwords := padding_words s.cnameBytes.length
  have hpad := padding_le s.cnameBytes.length
  have hlen := s.length_body
  refine ⟨s.serialize_eq, by decide, by omega, by omega, ?_⟩
  intro length
  rw [RtcpPacket.parse_sdes, parse_body_of_le hname]
  rfl

/-- What a source description should be on the wire: whole words, all of them counted by
its own header, zero bytes behind the name, and a body that is read back. -/
structure Sdes.RoundTrips (s : Sdes) : Prop where
  aligned : s.serialize.length % 4 = 0
  covered : ∃ header, RtcpCommonHeader.parse s.serialize = .ok header ∧
    4 * (header.length.toNat + 1) = s.serialize.length
  terminated : ∃ zeros, 1 ≤ zeros ∧
    s.serialize.drop (4 + 6 + s.cnameBytes.length) = List.replicate zeros 0
  parsed : Sdes.parse (s.serialize.drop 4) = .ok s

theorem Sdes.drop_serialize (s : Sdes) : s.serialize.drop 4 = s.body := by
  rw [serialize_eq]
  rfl

/-- The frame is right whatever the name, as long as its words can be counted. -/
theorem Sdes.frame_serialize {s : Sdes} (hfits : s.serialize.length ≤ 2048) :
    s.serialize.length % 4 = 0 ∧
    (∃ header, RtcpCommonHeader.parse s.serialize = .ok header ∧
      4 * (header.length.toNat + 1) = s.serialize.length) ∧
    ∃ zeros, 1 ≤ zeros ∧
      s.serialize.drop (4 + 6 + s.cnameBytes.length) = List.replicate zeros 0 := by
  have hwords := padding_words s.cnameBytes.length
  have hbody := s.length_body
  have hlen : s.serialize.length = 4 + s.body.length := by
    rw [serialize_eq, length_framed]
  refine ⟨by omega, ⟨⟨2, false, 1, rtcpPtSdes, UInt16.ofNat (s.body.length / 4)⟩, ?_, ?_⟩,
    padding s.cnameBytes.length, ?_, ?_⟩
  · rw [serialize_eq]
    exact header_framed (by decide) rtcpPtSdes s.body
  · show 4 * ((UInt16.ofNat (s.body.length / 4)).toNat + 1) = _
    rw [toNat_words (by omega)]
    omega
  · unfold padding
    split <;> omega
  · rw [Nat.add_assoc, ← List.drop_drop, drop_serialize, ← List.drop_drop]
    exact List.drop_left

/-- **A source description survives the wire** exactly when the length of its name fits
the length byte. -/
theorem Sdes.roundTrips_iff (s : Sdes) (hfits : s.serialize.length ≤ 2048) :
    s.RoundTrips ↔ s.cnameBytes.length ≤ 255 := by
  obtain ⟨haligned, hcovered, hterminated⟩ := frame_serialize hfits
  constructor
  · intro h
    have hparsed := h.parsed
    rw [drop_serialize] at hparsed
    by_contra hlong
    exact parse_body_of_gt (by omega) hparsed
  · intro hname
    refine ⟨haligned, hcovered, hterminated, ?_⟩
    rw [drop_serialize]
    exact parse_body_of_le hname

/-- A name of two bytes, with a whole word of padding. -/
theorem Sdes.roundTrips_iff_short : Sdes.RoundTrips ⟨1, "é"⟩ :=
  (roundTrips_iff ⟨1, "é"⟩ (by decide)).mpr (by decide)

/-- A name of 256 bytes announces none, and comes back empty. -/
theorem Sdes.name_of_256_bytes_is_lost :
    (Sdes.serialize ⟨1, String.ofList (List.replicate 256 'x')⟩).length ≤ 2048 ∧
      ¬Sdes.RoundTrips ⟨1, String.ofList (List.replicate 256 'x')⟩ := by
  have hname : (Sdes.cnameBytes ⟨1, String.ofList (List.replicate 256 'x')⟩).length = 256 := by
    unfold Sdes.cnameBytes
    rw [String.toList_ofList, List.length_flatMap, List.map_replicate, List.sum_replicate_nat]
    decide
  constructor
  · rw [serialize_eq, length_framed, length_body, hname]
    decide
  · intro h
    have hparsed := h.parsed
    rw [drop_serialize] at hparsed
    exact parse_body_of_gt (by omega) hparsed

/-! ### Requests -/

/-- Two numbers an entry. -/
def pairs {α : Type} (fields : α → UInt16 × UInt16) (v : List α) : Bytes :=
  v.flatMap fun e => putU16 (fields e).1 ++ putU16 (fields e).2

section

variable {α : Type} (fields : α → UInt16 × UInt16)

theorem length_pairs (v : List α) : (pairs fields v).length = 4 * v.length := by
  induction v with
  | nil => rfl
  | cons e v ih =>
      unfold pairs at ih
      unfold pairs
      rw [List.flatMap_cons, List.length_append, ih, List.length_append, length_putU16,
        length_putU16, List.length_cons]
      omega

theorem NackPacket.readEntries_pairs (entry : UInt16 → UInt16 → α)
    (hentry : ∀ e, entry (fields e).1 (fields e).2 = e) (v : List α) :
    NackPacket.readEntries entry v.length (pairs fields v) = .ok v := by
  induction v with
  | nil => rfl
  | cons e v ih =>
      unfold pairs at ih
      unfold pairs
      rw [List.length_cons, List.flatMap_cons, List.append_assoc, NackPacket.readEntries]
      simp only [getU16_putU16, bind, Except.bind, ih, hentry]

end

theorem RistApp.readRanges_pairs {v : List RangeEntry} :
    ∀ {n : Nat}, v.length ≤ n →
      RistApp.readRanges n (pairs (fun e => (e.start, e.extra)) v) = .ok v := by
  induction v with
  | nil =>
      intro n _
      cases n with
      | zero => rfl
      | succ n => rfl
  | cons e v ih =>
      intro n hn
      obtain ⟨m, rfl⟩ : ∃ m, n = m + 1 := ⟨n - 1, by simp at hn; omega⟩
      have hrest := ih (Nat.le_of_succ_le_succ hn)
      unfold pairs at hrest
      unfold pairs
      rw [List.flatMap_cons, List.append_assoc, RistApp.readRanges, if_pos (by simp; omega)]
      simp only [getU16_putU16, bind, Except.bind, hrest]

/-- The entries of a feedback packet, with the format they are written in. -/
def NackEntries.wire : NackEntries → UInt8 × Bytes
  | .bitmask v => (nackFmtGeneric, pairs (fun e => (e.pid, e.blp)) v)
  | .range v => (nackFmtRange, pairs (fun e => (e.start, e.extra)) v)

def NackEntries.count : NackEntries → Nat
  | .bitmask v => v.length
  | .range v => v.length

theorem NackEntries.length_wire (e : NackEntries) : e.wire.2.length = 4 * e.count := by
  cases e with
  | bitmask v => exact length_pairs _ v
  | range v => exact length_pairs _ v

theorem NackPacket.parse_wire (n : NackPacket) :
    NackPacket.parse (putU32 n.senderSsrc ++ (putU32 n.mediaSsrc ++ n.entries.wire.2))
      n.entries.wire.1 (8 + 4 * n.entries.count) = .ok n := by
  have hcount : (8 + 4 * n.entries.count - 8) / 4 = n.entries.count := by omega
  unfold NackPacket.parse
  rw [if_neg (by simp; omega)]
  simp only [getU32_putU32, bind, Except.bind, hcount]
  obtain ⟨senderSsrc, mediaSsrc, entries⟩ := n
  cases entries with
  | bitmask v =>
      have hread := readEntries_pairs (fun e : BitmaskNack => (e.pid, e.blp))
        BitmaskNack.mk (fun e => rfl) v
      simp only [NackEntries.wire, NackEntries.count, hread]
      rfl
  | range v =>
      have hread := readEntries_pairs (fun e : RangeEntry => (e.start, e.extra))
        RangeEntry.mk (fun e => rfl) v
      simp only [NackEntries.wire, NackEntries.count, hread]
      rfl

theorem NackPacket.encodes {n : NackPacket} (hcount : n.entries.count ≤ 65533) :
    Encodes (.nack n) n.entries.wire.1 rtcpPtRtpfb
      (putU32 n.senderSsrc ++ (putU32 n.mediaSsrc ++ n.entries.wire.2)) := by
  have hlen : (putU32 n.senderSsrc ++ (putU32 n.mediaSsrc ++ n.entries.wire.2)).length
      = 8 + 4 * n.entries.count := by
    rw [List.length_append, List.length_append, NackEntries.length_wire, length_putU32,
      length_putU32]
    omega
  have hwords : (8 + 4 * n.entries.count) / 4 = 2 + n.entries.count := by omega
  refine ⟨?_, ?_, by omega, by omega, ?_⟩
  · show NackPacket.serialize n = _
    unfold framed NackPacket.serialize
    rw [hlen, hwords]
    cases n.entries with
    | bitmask v => simp only [NackEntries.wire, NackEntries.count, pairs, List.append_assoc]; rfl
    | range v => simp only [NackEntries.wire, NackEntries.count, pairs, List.append_assoc]; rfl
  · cases n.entries with
    | bitmask v => exact (by decide : nackFmtGeneric < 32)
    | range v => exact (by decide : nackFmtRange < 32)
  · intro length
    rw [RtcpPacket.parse_rtpfb, hlen, parse_wire]
    rfl

/-! ### Application packets -/

theorem take_ristAppName (r : Bytes) : (ristAppName ++ r).take 4 = ristAppName := rfl

theorem drop_ristAppName (r : Bytes) : (ristAppName ++ r).drop 4 = r := rfl

theorem RistApp.encodes_rttEchoRequest (req : RttEchoRequest) :
    Encodes (.app (.rttEchoRequest req)) Rist.rttEchoRequest rtcpPtApp
      (putU32 req.ssrc ++ ristAppName ++ putU32 req.timestampMsw ++ putU32 req.timestampLsw) := by
  refine ⟨by simp [RtcpPacket.serialize, RistApp.serialize, frame, framed, ristAppName], by decide,
    by simp [ristAppName], by simp [ristAppName], ?_⟩
  intro length
  rw [RtcpPacket.parse_app]
  unfold RistApp.parse
  rw [if_neg (by simp [ristAppName])]
  simp only [List.append_assoc, getU32_putU32, bind, Except.bind]
  rw [take_ristAppName, drop_ristAppName, if_neg (not_not_intro rfl), if_neg (by decide),
    if_pos trivial, if_neg (by simp)]
  simp only [getU32_putU32, getU32_putU32_nil]
  rfl

theorem RistApp.encodes_rttEchoResponse (resp : RttEchoResponse) :
    Encodes (.app (.rttEchoResponse resp)) Rist.rttEchoResponse rtcpPtApp
      (putU32 resp.ssrc ++ ristAppName ++ putU32 resp.timestampMsw ++ putU32 resp.timestampLsw ++
        putU32 resp.processingDelayUs) := by
  refine ⟨by simp [RtcpPacket.serialize, RistApp.serialize, frame, framed, ristAppName], by decide,
    by simp [ristAppName], by simp [ristAppName], ?_⟩
  intro length
  rw [RtcpPacket.parse_app]
  unfold RistApp.parse
  rw [if_neg (by simp [ristAppName])]
  simp only [List.append_assoc, getU32_putU32, bind, Except.bind]
  rw [take_ristAppName, drop_ristAppName, if_neg (not_not_intro rfl), if_neg (by decide),
    if_neg (by decide), if_pos trivial, if_neg (by simp)]
  simp only [getU32_putU32, getU32_putU32_nil]
  rfl

theorem RistApp.encodes_rangeNack {nack : AppRangeNack}
    (hcount : nack.entries.length ≤ maxRangeNackEntries) :
    Encodes (.app (.rangeNack nack)) ristAppRangeNack rtcpPtApp
      (putU32 nack.mediaSsrc ++ ristAppName ++
        pairs (fun e => (e.start, e.extra)) nack.entries) := by
  have hlen : (putU32 nack.mediaSsrc ++ ristAppName ++
      pairs (fun e => (e.start, e.extra)) nack.entries).length = 8 + 4 * nack.entries.length := by
    rw [List.length_append, length_pairs]
    rfl
  have hmax : nack.entries.length ≤ 512 := hcount
  refine ⟨?_, by decide, by omega, by omega, ?_⟩
  · have hwords : (12 + 4 * nack.entries.length) / 4 - 1 = (8 + 4 * nack.entries.length) / 4 := by
      omega
    show RistApp.serialize (.rangeNack nack) = _
    unfold framed
    rw [hlen, ← hwords]
    rfl
  · intro length
    rw [RtcpPacket.parse_app]
    unfold RistApp.parse
    rw [if_neg (by omega)]
    simp only [List.append_assoc, getU32_putU32, bind, Except.bind]
    rw [take_ristAppName, drop_ristAppName, if_neg (not_not_intro rfl), if_pos trivial,
      readRanges_pairs hcount]
    rfl

/-- An application packet of another kind, as `parse` leaves it: the name is not ours,
or the subtype is none that we know. -/
structure RistApp.IsForeign (subtype : UInt8) (data : Bytes) : Prop where
  subtype_lt : subtype < 32
  words : data.length % 4 = 0
  length_ge : 8 ≤ data.length
  length_le : data.length ≤ 262140
  foreign : (data.drop 4).take 4 ≠ ristAppName ∨
    subtype ≠ ristAppRangeNack ∧ subtype ≠ Rist.rttEchoRequest ∧ subtype ≠ Rist.rttEchoResponse

theorem RistApp.parse_foreign {subtype : UInt8} {data : Bytes} (h : IsForeign subtype data) :
    RistApp.parse data subtype = .ok (.unknown subtype data) := by
  have hge := h.length_ge
  obtain ⟨ssrc, hssrc⟩ := getU32_of_length (show 4 ≤ data.length by omega)
  unfold RistApp.parse
  rw [if_neg (by omega)]
  simp only [hssrc, bind, Except.bind]
  by_cases hname : (data.drop 4).take 4 ≠ ristAppName
  · rw [if_pos hname]
  · obtain ⟨hrange, hreq, hresp⟩ := h.foreign.resolve_left hname
    rw [if_neg hname, if_neg hrange, if_neg hreq, if_neg hresp]

theorem RistApp.encodes_unknown {subtype : UInt8} {data : Bytes} (h : IsForeign subtype data) :
    Encodes (.app (.unknown subtype data)) subtype rtcpPtApp data := by
  refine ⟨?_, h.subtype_lt, h.words, h.length_le, ?_⟩
  · have hmask : subtype &&& 0x1F = subtype := by
      have hall : ∀ n < 32, UInt8.ofNat n &&& 0x1F = UInt8.ofNat n := by decide
      have hn := hall subtype.toNat (UInt8.lt_iff_toNat_lt.mp h.subtype_lt)
      rwa [UInt8.ofNat_toNat] at hn
    have hwords : (4 + data.length) / 4 - 1 = data.length / 4 := by omega
    show frame (subtype &&& 0x1F) (UInt16.ofNat ((4 + data.length) / 4 - 1)) data = _
    rw [hmask, hwords]
    rfl
  · intro length
    rw [RtcpPacket.parse_app, parse_foreign h]
    rfl

/-- What `RistApp::parse` leaves unread. -/
theorem RistApp.foreign_of_parse {buf : Bytes} {count subtype : UInt8} {data : Bytes}
    (h : RistApp.parse buf count = .ok (.unknown subtype data)) :
    subtype = count ∧ data = buf ∧ 8 ≤ buf.length ∧
      ((buf.drop 4).take 4 ≠ ristAppName ∨ count ≠ ristAppRangeNack ∧
        count ≠ Rist.rttEchoRequest ∧ count ≠ Rist.rttEchoResponse) := by
  unfold RistApp.parse at h
  by_cases hlen : buf.length < 8
  · rw [if_pos hlen] at h
    cases h
  obtain ⟨ssrc, hssrc⟩ := getU32_of_length (show 4 ≤ buf.length by omega)
  rw [if_neg hlen] at h
  simp only [hssrc, bind, Except.bind] at h
  by_cases hname : (buf.drop 4).take 4 ≠ ristAppName
  · rw [if_pos hname] at h
    cases h
    exact ⟨rfl, rfl, by omega, Or.inl hname⟩
  rw [if_neg hname] at h
  -- each kind of ours reads as itself or not at all
  split at h
  · split at h <;> cases h
  split at h
  · split at h
    · cases h
    · split at h
      · cases h
      · split at h <;> cases h
  split at h
  · split at h
    · cases h
    · split at h
      · cases h
      · split at h
        · cases h
        · split at h <;> cases h
  · cases h
    exact ⟨rfl, rfl, by omega, Or.inr ⟨by assumption, by assumption, by assumption⟩⟩

theorem count_lt_of_header {f : Bytes} {h : RtcpCommonHeader}
    (hheader : RtcpCommonHeader.parse f = .ok h) : h.count < 32 := by
  unfold RtcpCommonHeader.parse at hheader
  split at hheader
  · cases hheader
  · rename_i hlen
    match f, Nat.le_of_not_lt hlen with
    | a :: b :: c :: d :: r, _ =>
        simp only [getU8, getU16, bind, Except.bind] at hheader
        split at hheader
        · cases hheader
        · cases hheader
          rw [UInt8.lt_iff_toNat_lt, UInt8.toNat_and]
          exact Nat.lt_succ_of_le Nat.and_le_right

/-- A sub-packet that is an application packet was read by `RistApp::parse`. -/
theorem app_of_isDecoding {h : RtcpCommonHeader} {payload : Bytes} {a : RistApp}
    (hdec : RtcpPacket.IsDecoding h payload (.app a)) : RistApp.parse payload h.count = .ok a := by
  unfold RtcpPacket.IsDecoding Decoded at hdec
  simp only at hdec
  repeat' split at hdec
  all_goals simp_all

theorem isForeign_of_frame {f : Bytes} (hframe : WellFramed f) {h : RtcpCommonHeader}
    (hheader : RtcpCommonHeader.parse f = .ok h) {subtype : UInt8} {data : Bytes}
    (hdec : RtcpPacket.IsDecoding h (f.drop 4) (.app (.unknown subtype data))) :
    RistApp.IsForeign subtype data := by
  obtain ⟨rfl, rfl, hge, hforeign⟩ := RistApp.foreign_of_parse (app_of_isDecoding hdec)
  have hlen : (f.drop 4).length + 4 = declared f := by
    rw [List.length_drop, ← hframe.length]
    exact Nat.sub_add_cancel hframe.header
  have hhi := (f.getD 2 0).toNat_lt
  have hlo := (f.getD 3 0).toNat_lt
  unfold declared at hlen
  exact ⟨count_lt_of_header hheader, by omega, hge, by omega, hforeign⟩

/-- The foreign application packets are those that `parse` produces. -/
theorem isForeign_of_parse {buf : Bytes} {c : List RtcpPacket}
    (hparse : RtcpCompound.parse buf = .ok c) {subtype : UInt8} {data : Bytes}
    (hmem : RtcpPacket.app (.unknown subtype data) ∈ c) : RistApp.IsForeign subtype data := by
  obtain ⟨frames, rest, hwalk, ⟨-, pkts, hok, -, hall⟩ | ⟨-, herr⟩⟩ := exists_walk buf
  · rw [hparse] at hok
    rw [Except.ok.inj hok] at hmem
    obtain ⟨i, hi, hget⟩ := List.mem_iff_getElem.mp hmem
    have hif : i < frames.length := hall.length_eq ▸ hi
    obtain ⟨h, hheader, hdec⟩ := hall.get hif hi
    rw [List.get_eq_getElem, List.get_eq_getElem, hget] at hdec
    exact isForeign_of_frame (hwalk.frames _ (List.getElem_mem hif)) hheader hdec
  · rw [hparse] at herr
    cases herr

/-! ### Compound datagrams -/

/-- The sub-packets that fit their own wire format. -/
def RtcpPacket.Encodable : RtcpPacket → Prop
  | .senderReport _ => True
  | .receiverReport rr => rr.reports.length ≤ 31 ∧ ∀ b ∈ rr.reports, b.Fits
  | .sdes s => s.cnameBytes.length ≤ 255
  | .nack n => n.entries.count ≤ 65533
  | .app (.rttEchoRequest _) => True
  | .app (.rttEchoResponse _) => True
  | .app (.rangeNack n) => n.entries.length ≤ maxRangeNackEntries
  | .app (.unknown subtype data) => RistApp.IsForeign subtype data
  | .unknown _ _ => False

theorem RtcpPacket.Encodable.encodes {pkt : RtcpPacket} (h : pkt.Encodable) :
    ∃ count packetType body, Encodes pkt count packetType body := by
  cases pkt with
  | senderReport sr => exact ⟨_, _, _, sr.encodes⟩
  | receiverReport rr => exact ⟨_, _, _, ReceiverReport.encodes h.1 h.2⟩
  | sdes s => exact ⟨_, _, _, Sdes.encodes h⟩
  | nack n => exact ⟨_, _, _, NackPacket.encodes h⟩
  | app a =>
      cases a with
      | rttEchoRequest req => exact ⟨_, _, _, RistApp.encodes_rttEchoRequest req⟩
      | rttEchoResponse resp => exact ⟨_, _, _, RistApp.encodes_rttEchoResponse resp⟩
      | rangeNack nack => exact ⟨_, _, _, RistApp.encodes_rangeNack h⟩
      | unknown subtype data => exact ⟨_, _, _, RistApp.encodes_unknown h⟩
  | unknown packetType data => exact h.elim

namespace RtcpCompound

/-- Frames one after another parse to their sub-packets. -/
theorem parse_flatten {frames : List Bytes} (hframes : ∀ f ∈ frames, WellFramed f)
    (hcount : frames.length ≤ maxRtcpSubPackets) {pkts : List RtcpPacket}
    (hpkts : List.Forall₂ IsSubPacket frames pkts) : parse frames.flatten = .ok pkts := by
  obtain ⟨c, hc, hall⟩ := exists_parse_flatten hframes hcount
  rw [hc, List.right_unique_forall₂' isSubPacket_rightUnique hall hpkts]

/-- The frames of a serialized compound are its sub-packets. -/
theorem forall₂_serialize {c : List RtcpPacket} (hfits : ∀ pkt ∈ c, pkt.Encodable) :
    (∀ f ∈ c.map RtcpPacket.serialize, WellFramed f) ∧
      List.Forall₂ IsSubPacket (c.map RtcpPacket.serialize) c := by
  constructor
  · intro f hf
    obtain ⟨pkt, hpkt, rfl⟩ := List.mem_map.mp hf
    obtain ⟨_, _, _, hencodes⟩ := (hfits pkt hpkt).encodes
    exact hencodes.wellFramed
  · rw [List.forall₂_map_left_iff, List.forall₂_same]
    intro pkt hpkt
    obtain ⟨_, _, _, hencodes⟩ := (hfits pkt hpkt).encodes
    exact hencodes.isSubPacket

/-- **What is serialized is parsed back.**  A datagram of at most 64 sub-packets, each
within the bounds of its own format, reads as the sub-packets it was made of. -/
theorem round_trip {c : List RtcpPacket} (hcount : c.length ≤ maxRtcpSubPackets)
    (hfits : ∀ pkt ∈ c, pkt.Encodable) : parse (serialize c) = .ok c := by
  obtain ⟨hframes, hpkts⟩ := forall₂_serialize hfits
  have hparse := parse_flatten hframes (by simpa using hcount) hpkts
  rwa [← List.flatMap_def] at hparse

/-- A report of a negative loss, a name with a whole word of padding, a request and an
echo. -/
theorem round_trip_mixed :
    parse (serialize [.receiverReport ⟨1, [⟨2, 255, -1, 70000, 3, 4, 5⟩]⟩, .sdes ⟨1, "é"⟩,
        .nack ⟨1, 2, .range [⟨65535, 1⟩]⟩, .app (.rttEchoRequest ⟨1, 6, 7⟩)])
      = .ok [.receiverReport ⟨1, [⟨2, 255, -1, 70000, 3, 4, 5⟩]⟩, .sdes ⟨1, "é"⟩,
        .nack ⟨1, 2, .range [⟨65535, 1⟩]⟩, .app (.rttEchoRequest ⟨1, 6, 7⟩)] := by
  refine round_trip (by decide) ?_
  intro pkt hpkt
  simp only [List.mem_cons, List.not_mem_nil, or_false] at hpkt
  obtain rfl | rfl | rfl | rfl := hpkt
  · refine ⟨by decide, ?_⟩
    intro b hb
    rw [List.mem_singleton.mp hb]
    exact ⟨by decide, by decide⟩
  · show (Sdes.cnameBytes ⟨1, "é"⟩).length ≤ 255
    decide
  · show 1 ≤ 65533
    decide
  · trivial

end RtcpCompound

end Rist
