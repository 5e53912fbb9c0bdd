/-
Media datagrams, written and read.

What the sender writes the receiver reads back, number, timestamp, SSRC and
payload.  A retransmitted copy is the datagram of the same packet under the odd
SSRC, so it is read back too.

The receiver reads the header alone and takes the rest for payload.  `RtpPacket::parse`
also skips an extension header, so the two part ways on every datagram that has one.

A packet keeps neither its CSRC list nor its extension header, and `serialize` writes
neither.  So what was parsed can be written and parsed again when it had none.
-/
import Rist.Proofs.Packet.Safe
import Rist.Transport.Receiver
import Rist.Transport.Sender

namespace Rist

/-- The datagram of a packet. -/
def wire (ssrc : UInt32) (seq : UInt16) (timestamp : UInt32) (payload : Bytes) : Bytes :=
  writeRtpHeader ssrc seq timestamp ++ payload

/-- The bytes of a datagram, field by field. -/
theorem wire_eq (ssrc : UInt32) (seq : UInt16) (timestamp : UInt32) (payload : Bytes) :
    wire ssrc seq timestamp payload
      = 0x80 :: 33 :: (putU16 seq ++ (putU32 timestamp ++ (putU32 ssrc ++ payload))) := by
  simp [wire, writeRtpHeader]

theorem wire_length (ssrc : UInt32) (seq : UInt16) (timestamp : UInt32) (payload : Bytes) :
    (wire ssrc seq timestamp payload).length = 12 + payload.length := by
  rw [wire_eq]
  simp [putU16, putU32]
  omega

theorem parse_wire (ssrc : UInt32) (seq : UInt16) (timestamp : UInt32) (payload : Bytes) :
    RtpHeader.parse (wire ssrc seq timestamp payload)
      = .ok (⟨2, false, false, 0, false, 33, seq, timestamp, ssrc⟩, 12) := by
  have hlen := wire_length ssrc seq timestamp payload
  unfold RtpHeader.parse
  rw [if_neg (by rw [hlen]; simp [rtpHeaderSize])]
  rw [hlen, wire_eq]
  simp only [getU8_cons, getU16_putU16, getU32_putU32, bind, Except.bind]
  rw [if_neg (by decide), if_neg (by simp [rtpHeaderSize])]
  rfl

/-- What the receiver reads off a media datagram. -/
theorem parseRtp_wire (ssrc : UInt32) (seq : UInt16) (timestamp : UInt32) (payload : Bytes)
    (arrivalUs : UInt64) :
    parseRtp (wire ssrc seq timestamp payload) arrivalUs
      = some { seq, ssrc, rtpTs := timestamp, payload, arrivalUs, payloadLen := payload.length,
               isRetransmit := decide (ssrc &&& 1 ≠ 0) } := by
  have hdrop : (wire ssrc seq timestamp payload).drop 12 = payload := by
    rw [wire_eq]
    rfl
  unfold parseRtp
  rw [parse_wire]
  simp only [hdrop, wire_length, Nat.add_sub_cancel_left]
  rfl

/-- Setting the low bit of a number. -/
theorem or_one_eq (n : Nat) : n ||| 1 = 2 * (n / 2) + 1 := by
  have hdiv : (n ||| 1) / 2 = n / 2 := by
    rw [← Nat.shiftRight_one, Nat.shiftRight_or_distrib]
    simp [Nat.shiftRight_one]
  have hmod : (n ||| 1) % 2 = 1 := by
    rw [Nat.or_mod_two_eq_one]
    exact Or.inr rfl
  omega

/-- **A retransmitted copy is the same packet under the odd SSRC.** -/
theorem retxCopy_wire (ssrc : UInt32) (seq : UInt16) (timestamp : UInt32) (payload : Bytes) :
    retxCopy (wire ssrc seq timestamp payload) = wire (ssrc ||| 1) seq timestamp payload := by
  have hor : (ssrc ||| 1).toNat = 2 * (ssrc.toNat / 2) + 1 := by
    rw [UInt32.toNat_or]
    exact or_one_eq ssrc.toNat
  have hlow : UInt8.ofNat ssrc.toNat ||| 1 = UInt8.ofNat (ssrc ||| 1).toNat := by
    rw [← UInt8.toNat_inj, UInt8.toNat_or, UInt8.toNat_ofNat', UInt8.toNat_ofNat', hor]
    show ssrc.toNat % 256 ||| 1 = _
    rw [or_one_eq]
    omega
  have hhigh : ∀ k, 0 < k → (ssrc ||| 1).toNat / (2 * k) = ssrc.toNat / (2 * k) := by
    intro k hk
    rw [hor, ← Nat.div_div_eq_div_mul, ← Nat.div_div_eq_div_mul]
    congr 1
    omega
  unfold retxCopy
  rw [if_pos (by rw [wire_length]; omega), wire_eq, wire_eq]
  simp only [putU16, putU32, List.cons_append, List.nil_append, List.modify_succ_cons,
    List.modify_zero_cons]
  rw [hlow, hhigh 8388608 (by decide), hhigh 32768 (by decide), hhigh 128 (by decide)]

/-- The hot path writes what the packet type serialises. -/
theorem wire_eq_serialize (ssrc : UInt32) (seq : UInt16) (timestamp : UInt32) (payload : Bytes) :
    wire ssrc seq timestamp payload
      = RtpPacket.serialize ⟨RtpHeader.newTs ssrc seq timestamp, payload⟩ := by
  have hfirst : ((2 : UInt8) <<< 6) ||| (RtpHeader.bit false <<< 5) ||| (RtpHeader.bit false <<< 4)
      ||| (0 &&& 0x0F) = 0x80 := by decide
  have hsecond : (RtpHeader.bit false <<< 7) ||| ((33 : UInt8) &&& 0x7F) = 33 := by decide
  simp only [wire, writeRtpHeader, RtpPacket.serialize, RtpHeader.serialize, RtpHeader.newTs, hfirst,
    hsecond]

/-- An even SSRC is its own logical SSRC, and the copy's. -/
theorem and_not_one {ssrc : UInt32} (heven : ssrc &&& 1 = 0) :
    ssrc &&& ~~~1 = ssrc ∧ (ssrc ||| 1) &&& ~~~1 = ssrc ∧ (ssrc ||| 1) &&& 1 ≠ 0 := by
  have hbit : ssrc.toBitVec.getLsbD 0 = false := by
    have h := congrArg (fun x : UInt32 => x.toBitVec.getLsbD 0) heven
    simpa using h
  have hone : ∀ i : Nat, (1#32).getLsbD i = decide (i = 0) := by
    intro i
    rw [BitVec.getLsbD_one]
    simp
  have hclear : ∀ x : BitVec 32, (∀ i, 0 < i → x.getLsbD i = ssrc.toBitVec.getLsbD i) →
      x &&& ~~~1#32 = ssrc.toBitVec := by
    intro x hx
    refine BitVec.eq_of_getLsbD_eq fun i hi => ?_
    rw [BitVec.getLsbD_and, BitVec.getLsbD_not, hone]
    by_cases h0 : i = 0
    · rw [h0, hbit, decide_eq_true rfl, Bool.not_true, Bool.and_false, Bool.and_false]
    · rw [hx i (by omega), decide_eq_true hi, decide_eq_false h0, Bool.not_false, Bool.and_true,
        Bool.and_true]
  refine ⟨?_, ?_, ?_⟩
  · exact UInt32.toBitVec_inj.mp (hclear _ fun _ _ => rfl)
  · refine UInt32.toBitVec_inj.mp (hclear _ fun i hi => ?_)
    show (ssrc.toBitVec ||| 1#32).getLsbD i = _
    rw [BitVec.getLsbD_or, hone]
    simp [Nat.ne_of_gt hi]
  · intro h
    have h0 := congrArg (fun x : UInt32 => x.toBitVec.getLsbD 0) h
    simp at h0

/-- **What the sender writes is read back**, first as fresh media and then, after the edit
of byte 11, as a retransmission of the same packet: only the SSRC's low bit tells them apart,
and the logical SSRC of both is the sender's. -/
theorem media_round_trip (ssrc : UInt32) (seq : UInt16) (timestamp : UInt32) (payload : Bytes)
    (arrivalUs : UInt64) (heven : ssrc &&& 1 = 0) :
    writeRtpHeader ssrc seq timestamp ++ payload
      = RtpPacket.serialize ⟨RtpHeader.newTs ssrc seq timestamp, payload⟩ ∧
    parseRtp (writeRtpHeader ssrc seq timestamp ++ payload) arrivalUs
      = some { seq, ssrc, rtpTs := timestamp, payload, arrivalUs, payloadLen := payload.length,
               isRetransmit := false } ∧
    parseRtp (retxCopy (writeRtpHeader ssrc seq timestamp ++ payload)) arrivalUs
      = some { seq, ssrc := ssrc ||| 1, rtpTs := timestamp, payload, arrivalUs,
               payloadLen := payload.length, isRetransmit := true } ∧
    ∃ h size, RtpHeader.parse (retxCopy (writeRtpHeader ssrc seq timestamp ++ payload))
        = .ok (h, size) ∧
      h.logicalSsrc = ssrc ∧ (RtpHeader.newTs ssrc seq timestamp).logicalSsrc = ssrc := by
  obtain ⟨hlogical, hcopy, hodd⟩ := and_not_one heven
  have hretx := retxCopy_wire ssrc seq timestamp payload
  refine ⟨wire_eq_serialize ssrc seq timestamp payload, ?_, ?_, ?_⟩
  · have hparse := parseRtp_wire ssrc seq timestamp payload arrivalUs
    rw [heven] at hparse
    exact hparse
  · have hparse := parseRtp_wire (ssrc ||| 1) seq timestamp payload arrivalUs
    rw [← hretx, decide_eq_true hodd] at hparse
    exact hparse
  · have hparse := parse_wire (ssrc ||| 1) seq timestamp payload
    rw [← hretx] at hparse
    exact ⟨_, _, hparse, hcopy, hlogical⟩

/-- An SSRC of a sender, and a payload of one byte. -/
theorem media_round_trip_small :
    parseRtp (writeRtpHeader 0x1234567A 65535 7 ++ [0x47]) 5
      = some ⟨65535, 0x1234567A, 7, [0x47], 5, 1, false⟩ :=
  (media_round_trip 0x1234567A 65535 7 [0x47] 5 (by decide)).2.1

/-! ### Headers -/

/-- The fields of a header that was read fit the bits they were read from. -/
structure RtpHeader.Fits (h : RtpHeader) : Prop where
  version : h.version = 2
  csrcCount : h.csrcCount < 16
  payloadType : h.payloadType < 128

/-- What the two parsers read off a datagram. -/
def ParsedRtp.fields (p : ParsedRtp) : UInt16 × UInt32 × UInt32 × Bytes :=
  (p.seq, p.rtpTs, p.ssrc, p.payload)

def RtpPacket.fields (p : RtpPacket) : UInt16 × UInt32 × UInt32 × Bytes :=
  (p.header.sequenceNumber, p.header.timestamp, p.header.ssrc, p.payload)

/-- A header that is there with its CSRC list: version 2, and long enough. -/
def HasHeader : Bytes → Prop
  | [] => False
  | first :: rest => (first >>> 6) &&& 0x03 = 2 ∧
      rtpHeaderSize + (first &&& 0x0F).toNat * 4 ≤ (first :: rest).length

/-- The extension bit of the first byte. -/
def extensionBit : Bytes → Bool
  | [] => false
  | first :: _ => decide ((first >>> 4) &&& 0x01 ≠ 0)

instance : ∀ buf : Bytes, Decidable (HasHeader buf)
  | [] => inferInstanceAs (Decidable False)
  | _ :: _ => inferInstanceAs (Decidable (_ ∧ _))

/-- **How a header is read.** -/
theorem RtpHeader.parse_cases (buf : Bytes) :
    (HasHeader buf ∧ ∃ h size, RtpHeader.parse buf = .ok (h, size) ∧ size ≤ buf.length ∧
      h.extension = extensionBit buf ∧ h.Fits) ∨
    (¬HasHeader buf ∧ ∃ e, RtpHeader.parse buf = fail e) := by
  have hlow : ∀ first : UInt8, first &&& 0x0F < 16 := by
    intro first
    rw [UInt8.lt_iff_toNat_lt, UInt8.toNat_and]
    exact Nat.lt_succ_of_le Nat.and_le_right
  have hseven : ∀ second : UInt8, second &&& 0x7F < 128 := by
    intro second
    rw [UInt8.lt_iff_toNat_lt, UInt8.toNat_and]
    exact Nat.lt_succ_of_le Nat.and_le_right
  unfold RtpHeader.parse
  cases buf with
  | nil => exact Or.inr ⟨id, _, rfl⟩
  | cons first rest =>
      by_cases hlen : (first :: rest).length < rtpHeaderSize
      · rw [if_pos hlen]
        refine Or.inr ⟨fun hc => ?_, _, rfl⟩
        have := hc.2
        omega
      · rw [if_neg hlen]
        have hrest : 11 ≤ rest.length := by
          rw [List.length_cons, rtpHeaderSize] at hlen
          omega
        simp only [getU8_cons, bind, Except.bind]
        by_cases hver : (first >>> 6) &&& 0x03 = 2
        · rw [if_neg (not_not.mpr hver)]
          obtain ⟨second, r, rfl⟩ : ∃ second r, rest = second :: r :=
            List.exists_cons_of_length_pos (by omega)
          rw [List.length_cons] at hrest
          -- the ten bytes after the first two are there
          have h2 : 2 ≤ r.length := by omega
          have h4 : 4 ≤ (r.drop 2).length := by simp; omega
          have h4' : 4 ≤ ((r.drop 2).drop 4).length := by simp; omega
          obtain ⟨seq, hseq⟩ := getU16_of_length h2
          obtain ⟨ts, hts⟩ := getU32_of_length h4
          obtain ⟨ssrc, hssrc⟩ := getU32_of_length h4'
          simp only [getU8_cons, hseq, hts, hssrc]
          by_cases hsize : (first :: second :: r).length
              < rtpHeaderSize + (first &&& 0x0F).toNat * 4
          · rw [if_pos hsize]
            refine Or.inr ⟨fun hc => ?_, _, rfl⟩
            have := hc.2
            omega
          · rw [if_neg hsize]
            exact Or.inl ⟨⟨hver, by omega⟩, _, _, rfl, by omega, rfl,
              ⟨hver, hlow first, hseven second⟩⟩
        · rw [if_pos hver]
          exact Or.inr ⟨fun hc => hver hc.1, _, rfl⟩

/-! ### Extension headers -/

/-- An extension header is refused, or it takes at least a word of what is there. -/
theorem RtpPacket.extensionSize_cases (buf : Bytes) (offset : Nat) :
    (∃ e, extensionSize buf offset = fail e) ∨
      ∃ n, extensionSize buf offset = .ok n ∧ 4 ≤ n ∧ offset + n ≤ buf.length := by
  unfold extensionSize
  by_cases hlen : buf.length < offset + 4
  · rw [if_pos hlen]
    exact Or.inl ⟨_, rfl⟩
  · rw [if_neg hlen]
    have hhi : offset + 2 < buf.length := by omega
    have hlo : offset + 3 < buf.length := by omega
    obtain ⟨hi, h1⟩ := byteAt_of_lt hhi
    obtain ⟨lo, h2⟩ := byteAt_of_lt hlo
    simp only [h1, h2, bind, Except.bind]
    split
    · exact Or.inl ⟨_, rfl⟩
    · exact Or.inr ⟨_, rfl, by omega, by omega⟩

/-- Both parsers read the same fields and the same payload, or both refuse. -/
def ParsersAgree (buf : Bytes) : Prop :=
  ∀ arrivalUs, (parseRtp buf arrivalUs).map ParsedRtp.fields
    = (RtpPacket.parse buf).toOption.map RtpPacket.fields

/-- **The two parsers agree** exactly on the datagrams without an extension header. -/
theorem parsersAgree_iff (buf : Bytes) :
    ParsersAgree buf ↔ ¬(HasHeader buf ∧ extensionBit buf = true) := by
  unfold ParsersAgree parseRtp RtpPacket.parse
  rcases RtpHeader.parse_cases buf with ⟨hhas, h, size, hparse, hsize, hext, -⟩ |
    ⟨hno, e, hparse⟩
  · rw [hparse, ← hext]
    simp only [bind, Except.bind]
    cases hx : h.extension with
    | false =>
        refine iff_of_true (fun _ => ?_) (by simp)
        simp only [Bool.false_eq_true, if_false, Nat.add_zero, sliceFrom_of_le hsize]
        rfl
    | true =>
        refine iff_of_false (fun hagree => ?_) (not_not.mpr ⟨hhas, rfl⟩)
        have hagree := hagree 0
        simp only [if_true] at hagree
        rcases RtpPacket.extensionSize_cases buf size with ⟨e, he⟩ | ⟨n, hn, hpos, hle⟩
        · -- the full parser refuses
          rw [he] at hagree
          simp [fail, Except.toOption] at hagree
        · -- the full parser takes at least four bytes less for the payload
          rw [hn] at hagree
          simp only [sliceFrom_of_le hle, Except.toOption, Option.map_some, ParsedRtp.fields,
            RtpPacket.fields, Option.some.injEq, Prod.mk.injEq, true_and] at hagree
          have hlen := congrArg List.length hagree
          rw [List.length_drop, List.length_drop] at hlen
          omega
  · rw [hparse]
    exact iff_of_true (fun _ => rfl) fun hc => hno hc.1

/-- A datagram with an empty extension header and one byte of media: the receiver
delivers the extension header with it. -/
theorem extension_kept_as_payload :
    ¬ParsersAgree [0x90, 33, 0, 7, 0, 0, 0, 9, 0, 0, 0, 2, 0xBE, 0xDE, 0, 0, 0x47] := by
  intro hagree
  exact absurd (hagree 0) (by decide)

/-! ### Packets written again -/

namespace RtpHeader

variable {h : RtpHeader}

/-- The first byte of a header, read back bit by bit. -/
theorem Fits.first_byte (hfits : h.Fits) :
    let first := (h.version <<< 6) ||| (bit h.padding <<< 5) ||| (bit h.extension <<< 4) |||
      (h.csrcCount &&& 0x0F)
    (first >>> 6) &&& 0x03 = h.version ∧ decide ((first >>> 5) &&& 0x01 ≠ 0) = h.padding ∧
      decide ((first >>> 4) &&& 0x01 ≠ 0) = h.extension ∧ first &&& 0x0F = h.csrcCount := by
  have hall : ∀ (p x : Bool) (n : Fin 16),
      let first := ((2 : UInt8) <<< 6) ||| (bit p <<< 5) ||| (bit x <<< 4) |||
        (UInt8.ofNat n &&& 0x0F)
      (first >>> 6) &&& 0x03 = 2 ∧ decide ((first >>> 5) &&& 0x01 ≠ 0) = p ∧
        decide ((first >>> 4) &&& 0x01 ≠ 0) = x ∧ first &&& 0x0F = UInt8.ofNat n := by decide
  have hn := hall h.padding h.extension ⟨h.csrcCount.toNat, UInt8.lt_iff_toNat_lt.mp hfits.csrcCount⟩
  rw [UInt8.ofNat_toNat, ← hfits.version] at hn
  exact hn

/-- The second byte. -/
theorem Fits.second_byte (hfits : h.Fits) :
    let second := (bit h.marker <<< 7) ||| (h.payloadType &&& 0x7F)
    decide ((second >>> 7) &&& 0x01 ≠ 0) = h.marker ∧ second &&& 0x7F = h.payloadType := by
  have hall : ∀ (b : Bool) (n : Fin 128),
      let second := (bit b <<< 7) ||| (UInt8.ofNat n &&& 0x7F)
      decide ((second >>> 7) &&& 0x01 ≠ 0) = b ∧ second &&& 0x7F = UInt8.ofNat n := by decide
  have hn := hall h.marker ⟨h.payloadType.toNat, UInt8.lt_iff_toNat_lt.mp hfits.payloadType⟩
  rw [UInt8.ofNat_toNat] at hn
  exact hn

theorem length_serialize (h : RtpHeader) : h.serialize.length = rtpHeaderSize := rfl

/-- A header written in front of a payload is read back, if the payload is long enough
for the CSRC list the header announces. -/
theorem Fits.parse_serialize (hfits : h.Fits) (payload : Bytes) :
    RtpHeader.parse (h.serialize ++ payload)
      = if payload.length < h.csrcCount.toNat * 4 then
          fail (.packetTooShort (rtpHeaderSize + h.csrcCount.toNat * 4)
            (rtpHeaderSize + payload.length))
        else .ok (h, rtpHeaderSize + h.csrcCount.toNat * 4) := by
  obtain ⟨hversion, hpadding, hextension, hcsrc⟩ := hfits.first_byte
  obtain ⟨hmarker, htype⟩ := hfits.second_byte
  have hlen : (h.serialize ++ payload).length = rtpHeaderSize + payload.length := by
    rw [List.length_append, length_serialize]
  unfold RtpHeader.parse
  rw [if_neg (by omega), hlen]
  unfold serialize
  simp only [List.append_assoc, List.cons_append, List.nil_append, getU8_cons, getU16_putU16,
    getU32_putU32, bind, Except.bind]
  rw [hversion, if_neg (not_not.mpr hfits.version), hpadding, hextension, hcsrc, hmarker, htype]
  simp only [Nat.add_lt_add_iff_left]

end RtpHeader

namespace RtpPacket

variable {p : RtpPacket}

theorem fits_of_parse {buf : Bytes} (hparse : parse buf = .ok p) : p.header.Fits := by
  unfold parse at hparse
  rcases RtpHeader.parse_cases buf with ⟨-, h, size, hheader, -, -, hfits⟩ | ⟨-, e, hheader⟩
  · -- whatever is skipped, the header is the one read
    have hkept : ∀ n, (sliceFrom buf n >>= fun payload => .ok ⟨h, payload⟩) = .ok p →
        p.header.Fits := by
      intro n hrest
      cases hslice : sliceFrom buf n with
      | error e =>
          rw [hslice] at hrest
          cases hrest
      | ok payload =>
          rw [hslice] at hrest
          cases hrest
          exact hfits
    rw [hheader] at hparse
    simp only [bind, Except.bind] at hparse
    split at hparse
    · cases hext : extensionSize buf size with
      | error e =>
          rw [hext] at hparse
          cases hparse
      | ok n =>
          rw [hext] at hparse
          exact hkept _ hparse
    · exact hkept _ hparse
  · rw [hheader] at hparse
    cases hparse

theorem length_serialize (p : RtpPacket) :
    p.serialize.length = rtpHeaderSize + p.payload.length := by
  unfold serialize
  rw [List.length_append, RtpHeader.length_serialize]

/-- Without a CSRC list and an extension header, all of the packet is written. -/
theorem parse_serialize (hfits : p.header.Fits) (hcsrc : p.header.csrcCount = 0)
    (hext : p.header.extension = false) : parse p.serialize = .ok p := by
  have hlen := length_serialize p
  have hheader := hfits.parse_serialize p.payload
  rw [hcsrc, UInt8.toNat_zero, Nat.zero_mul, if_neg (Nat.not_lt_zero _)] at hheader
  unfold parse
  rw [show RtpHeader.parse p.serialize = _ from hheader]
  simp only [bind, Except.bind, hext, Bool.false_eq_true, if_false]
  rw [sliceFrom_of_le (by rw [hlen]; exact Nat.le_add_right _ _)]
  rfl

/-- What a packet written and read again has lost: the words the header announces are
taken off the payload. -/
theorem length_of_parse_serialize (hfits : p.header.Fits) {p' : RtpPacket}
    (hparse : parse p.serialize = .ok p') :
    ∃ extTotal, (p.header.extension = true → 4 ≤ extTotal) ∧
      p'.payload.length + p.header.csrcCount.toNat * 4 + extTotal = p.payload.length := by
  have hlen := length_serialize p
  have hheader : RtpHeader.parse p.serialize = _ := hfits.parse_serialize p.payload
  unfold parse at hparse
  rw [hheader] at hparse
  by_cases hshort : p.payload.length < p.header.csrcCount.toNat * 4
  · rw [if_pos hshort] at hparse
    cases hparse
  · rw [if_neg hshort] at hparse
    simp only [bind, Except.bind] at hparse
    cases hext : p.header.extension with
    | false =>
        simp only [hext, Bool.false_eq_true, if_false] at hparse
        rw [sliceFrom_of_le (by omega)] at hparse
        cases hparse
        refine ⟨0, by simp, ?_⟩
        rw [List.length_drop]
        omega
    | true =>
        simp only [hext, if_true] at hparse
        rcases extensionSize_cases p.serialize (rtpHeaderSize + p.header.csrcCount.toNat * 4) with
          ⟨e, he⟩ | ⟨n, hn, hpos, hle⟩
        · rw [he] at hparse
          cases hparse
        · rw [hn] at hparse
          simp only [sliceFrom_of_le hle] at hparse
          cases hparse
          refine ⟨n, fun _ => hpos, ?_⟩
          rw [List.length_drop]
          omega

/-- **A parsed packet survives being written and parsed again** exactly when it announces
no CSRC list and no extension header, which are not written. -/
theorem parse_serialize_iff {buf : Bytes} (hparse : parse buf = .ok p) :
    parse p.serialize = .ok p ↔ p.header.csrcCount = 0 ∧ p.header.extension = false := by
  have hfits := fits_of_parse hparse
  constructor
  · intro hagain
    obtain ⟨extTotal, hext, hlen⟩ := length_of_parse_serialize hfits hagain
    refine ⟨?_, ?_⟩
    · rw [← UInt8.toNat_inj, UInt8.toNat_zero]
      omega
    · cases hflag : p.header.extension with
      | false => rfl
      | true =>
          have := hext hflag
          omega
  · intro ⟨hcsrc, hext⟩
    exact parse_serialize hfits hcsrc hext

/-- A padded packet with the marker set, written and parsed again. -/
theorem parse_serialize_iff_padded :
    parse [0xA0, 0xA1, 0, 7, 0, 0, 0, 9, 0, 0, 0, 2, 0x47, 1]
        = .ok ⟨⟨2, true, false, 0, true, 33, 7, 9, 2⟩, [0x47, 1]⟩ ∧
      parse (serialize ⟨⟨2, true, false, 0, true, 33, 7, 9, 2⟩, [0x47, 1]⟩)
        = .ok ⟨⟨2, true, false, 0, true, 33, 7, 9, 2⟩, [0x47, 1]⟩ :=
  ⟨rfl, (parse_serialize_iff (show parse [0xA0, 0xA1, 0, 7, 0, 0, 0, 9, 0, 0, 0, 2, 0x47, 1] = _
    from rfl)).mpr ⟨rfl, rfl⟩⟩

/-- A packet with one CSRC entry and one byte of media.  It is written without the entry
that its header announces, and is then too short. -/
theorem csrc_entry_is_not_written :
    ¬∀ p, parse [0x81, 33, 0, 7, 0, 0, 0, 9, 0, 0, 0, 2, 0, 0, 0, 5, 0x47] = .ok p →
      parse p.serialize = .ok p := by
  intro h
  have hagain := h ⟨⟨2, false, false, 1, false, 33, 7, 9, 2⟩, [0x47]⟩ rfl
  exact absurd hagain (by decide)

end RtpPacket

end Rist
