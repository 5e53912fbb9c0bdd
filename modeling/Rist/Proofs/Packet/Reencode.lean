/-
What was read can be written again.

A datagram may come from anyone, so what `RtcpCompound::parse` returns is bounded by the
parsers alone.  They keep every sub-packet within its own format: a report has as many
blocks as its header can count, a loss is a signed 24-bit number, a request has the
entries its frame had room for, and a foreign application packet keeps its words.  The one
exception is a name.  A name is read leniently, and a byte that is no UTF-8 becomes three,
so a name of 255 bytes can come out too long for the length byte it is written with.

Sub-packets that were not understood are not written at all.
-/
import Rist.Proofs.Packet.RoundTrip

namespace Rist

open RtcpCompound

theorem exists_of_bind_eq_ok {α β : Type} {x : Parse α} {f : α → Parse β} {r : β}
    (h : (x >>= f) = .ok r) : ∃ a, x = .ok a ∧ f a = .ok r := by
  cases x with
  | error e => cases h
  | ok a => exact ⟨a, rfl, h⟩

/-! ### Reports -/

/-- A number of 24 bits is a signed number of 24 bits once its sign is extended. -/
theorem exists_signExtend {raw : UInt32} (hraw : raw.toNat < 2 ^ 24) :
    ∃ c : Int32, -8388608 ≤ c.toInt ∧ c.toInt ≤ 8388607 ∧
      (if raw &&& 0x800000 ≠ 0 then (raw ||| ~~~0x00FFFFFF).toInt32 else raw.toInt32) = c := by
  have hvalue : ∀ v : Int, -8388608 ≤ v → v ≤ 8388607 → (Int32.ofInt v).toInt = v := by
    intro v hlo hhi
    exact Int32.toInt_ofInt_of_le (by omega) (by omega)
  have hword : ∀ c : Int32, (c.toUInt32.toNat : Int) % 2 ^ 24 = c.toInt % 2 ^ 24 := by
    intro c
    have hc : c.toInt = if 2 * c.toUInt32.toNat < 2 ^ 32 then (c.toUInt32.toNat : Int)
        else (c.toUInt32.toNat : Int) - 2 ^ 32 := BitVec.toInt_eq_toNat_cond c.toBitVec
    split at hc <;> omega
  by_cases hsmall : raw.toNat < 2 ^ 23
  · have hv := hvalue raw.toNat (by omega) (by omega)
    have hw := hword (Int32.ofInt raw.toNat)
    refine ⟨Int32.ofInt raw.toNat, by omega, by omega, signExtend_eq (by omega) (by omega) ?_⟩
    omega
  · have hv := hvalue (raw.toNat - 2 ^ 24) (by omega) (by omega)
    have hw := hword (Int32.ofInt (raw.toNat - 2 ^ 24))
    refine ⟨Int32.ofInt (raw.toNat - 2 ^ 24), by omega, by omega,
      signExtend_eq (by omega) (by omega) ?_⟩
    omega

theorem ReportBlock.fits_of_parse {buf : Bytes} {b : ReportBlock}
    (h : ReportBlock.parse buf = .ok b) : b.Fits := by
  unfold ReportBlock.parse at h
  split at h
  · cases h
  · obtain ⟨⟨ssrc, r⟩, -, h⟩ := exists_of_bind_eq_ok h
    obtain ⟨⟨lostWord, r⟩, -, h⟩ := exists_of_bind_eq_ok h
    obtain ⟨⟨extendedHighestSeq, r⟩, -, h⟩ := exists_of_bind_eq_ok h
    obtain ⟨⟨jitter, r⟩, -, h⟩ := exists_of_bind_eq_ok h
    obtain ⟨⟨lastSr, r⟩, -, h⟩ := exists_of_bind_eq_ok h
    obtain ⟨⟨delaySinceLastSr, r⟩, -, h⟩ := exists_of_bind_eq_ok h
    have hraw : (lostWord &&& 0x00FFFFFF).toNat < 2 ^ 24 := by
      rw [UInt32.toNat_and]
      exact Nat.lt_succ_of_le Nat.and_le_right
    obtain ⟨c, hlo, hhi, hc⟩ := exists_signExtend hraw
    simp only [hc] at h
    cases h
    exact ⟨hlo, hhi⟩

/-- As many blocks as the header counts. -/
theorem ReceiverReport.parseBlocks_fits {buf : Bytes} : ∀ {n offset : Nat}
    {blocks : List ReportBlock}, ReceiverReport.parseBlocks buf n offset = .ok blocks →
    blocks.length = n ∧ ∀ b ∈ blocks, b.Fits := by
  intro n
  induction n with
  | zero =>
      intro offset blocks h
      cases h
      exact ⟨rfl, fun b hb => absurd hb List.not_mem_nil⟩
  | succ n ih =>
      intro offset blocks h
      obtain ⟨rest, -, h⟩ := exists_of_bind_eq_ok h
      obtain ⟨block, hblock, h⟩ := exists_of_bind_eq_ok h
      obtain ⟨blocks', hblocks, h⟩ := exists_of_bind_eq_ok h
      cases h
      obtain ⟨hlen, hfits⟩ := ih hblocks
      refine ⟨by rw [List.length_cons, hlen], ?_⟩
      intro b hb
      rcases List.mem_cons.mp hb with rfl | hb
      · exact ReportBlock.fits_of_parse hblock
      · exact hfits b hb

theorem ReceiverReport.fits_of_parse {buf : Bytes} {rc : UInt8} {rr : ReceiverReport}
    (h : ReceiverReport.parse buf rc = .ok rr) :
    rr.reports.length = rc.toNat ∧ ∀ b ∈ rr.reports, b.Fits := by
  unfold ReceiverReport.parse at h
  split at h
  · cases h
  · obtain ⟨⟨ssrc, r⟩, -, h⟩ := exists_of_bind_eq_ok h
    obtain ⟨reports, hreports, h⟩ := exists_of_bind_eq_ok h
    cases h
    exact ReceiverReport.parseBlocks_fits hreports

/-! ### Names -/

/-- A name that was read has at most 255 characters. -/
theorem Sdes.length_of_parse {buf : Bytes} {s : Sdes} (h : Sdes.parse buf = .ok s) :
    s.cnameBytes.length ≤ 1020 := by
  unfold Sdes.parse at h
  split at h
  · cases h
  · obtain ⟨⟨ssrc, r⟩, -, h⟩ := exists_of_bind_eq_ok h
    obtain ⟨itemType, -, h⟩ := exists_of_bind_eq_ok h
    split at h
    · cases h
    · obtain ⟨nameLen, -, h⟩ := exists_of_bind_eq_ok h
      split at h
      · cases h
      · obtain ⟨name, hname, h⟩ := exists_of_bind_eq_ok h
        cases h
        have hlt := nameLen.toNat_lt
        have hread := fromUtf8Lossy_length_le name
        have hbytes := length_encode_le (fromUtf8Lossy name)
        have hlen : name.length ≤ nameLen.toNat := by
          rw [slice_of_le (by omega) (by omega)] at hname
          rw [← Except.ok.inj hname, List.length_drop, List.length_take]
          omega
        show ((String.ofList (fromUtf8Lossy name)).toList.flatMap _).length ≤ 1020
        rw [String.toList_ofList]
        omega

/-! ### Requests -/

theorem NackPacket.readEntries_length {α : Type} {entry : UInt16 → UInt16 → α} :
    ∀ {n : Nat} {r : Bytes} {entries : List α},
      NackPacket.readEntries entry n r = .ok entries → entries.length = n := by
  intro n
  induction n with
  | zero =>
      intro r entries h
      cases h
      rfl
  | succ n ih =>
      intro r entries h
      obtain ⟨⟨x, r⟩, -, h⟩ := exists_of_bind_eq_ok h
      obtain ⟨⟨y, r⟩, -, h⟩ := exists_of_bind_eq_ok h
      obtain ⟨entries', hentries, h⟩ := exists_of_bind_eq_ok h
      cases h
      rw [List.length_cons, ih hentries]

theorem NackPacket.count_of_parse {buf : Bytes} {fmt : UInt8} {payloadLen : Nat} {n : NackPacket}
    (h : NackPacket.parse buf fmt payloadLen = .ok n) :
    n.entries.count = (payloadLen - 8) / 4 := by
  unfold NackPacket.parse at h
  split at h
  · cases h
  · obtain ⟨⟨senderSsrc, r⟩, -, h⟩ := exists_of_bind_eq_ok h
    obtain ⟨⟨mediaSsrc, r⟩, -, h⟩ := exists_of_bind_eq_ok h
    simp only at h
    split at h
    · obtain ⟨nacks, hnacks, h⟩ := exists_of_bind_eq_ok h
      cases h
      exact NackPacket.readEntries_length hnacks
    · split at h
      · obtain ⟨nacks, hnacks, h⟩ := exists_of_bind_eq_ok h
        cases h
        exact NackPacket.readEntries_length hnacks
      · cases h

theorem RistApp.readRanges_length : ∀ {n : Nat} {r : Bytes} {entries : List RangeEntry},
    RistApp.readRanges n r = .ok entries → entries.length ≤ n := by
  intro n
  induction n with
  | zero =>
      intro r entries h
      cases h
      exact Nat.le_refl 0
  | succ n ih =>
      intro r entries h
      unfold RistApp.readRanges at h
      split at h
      · obtain ⟨⟨start, r⟩, -, h⟩ := exists_of_bind_eq_ok h
        obtain ⟨⟨extra, r⟩, -, h⟩ := exists_of_bind_eq_ok h
        obtain ⟨entries', hentries, h⟩ := exists_of_bind_eq_ok h
        cases h
        exact Nat.succ_le_succ (ih hentries)
      · cases h
        exact Nat.zero_le _

/-- An application packet has the entries and the bytes its kind allows. -/
theorem RistApp.bounds_of_parse {buf : Bytes} {subtype : UInt8} {a : RistApp}
    (h : RistApp.parse buf subtype = .ok a) :
    (∀ nack, a = .rangeNack nack → nack.entries.length ≤ maxRangeNackEntries) ∧
      ∀ req, a = .rttEchoRequest req → 16 ≤ buf.length := by
  unfold RistApp.parse at h
  split at h
  · cases h
  rename_i hlen
  obtain ⟨x, hx⟩ := getU32_of_length (show 4 ≤ buf.length by omega)
  obtain ⟨⟨ssrc, r⟩, hr, h⟩ := exists_of_bind_eq_ok h
  obtain ⟨rfl, rfl⟩ := Prod.mk.inj (Except.ok.inj (hx.symm.trans hr))
  simp only at h
  split at h
  · cases h
    exact ⟨nofun, nofun⟩
  split at h
  · obtain ⟨entries, hentries, h⟩ := exists_of_bind_eq_ok h
    cases h
    refine ⟨?_, nofun⟩
    rintro nack ⟨⟩
    exact RistApp.readRanges_length hentries
  split at h
  · split at h
    · cases h
    · rename_i hbody
      obtain ⟨⟨msw, r⟩, -, h⟩ := exists_of_bind_eq_ok h
      obtain ⟨⟨lsw, r⟩, -, h⟩ := exists_of_bind_eq_ok h
      cases h
      refine ⟨nofun, fun req _ => ?_⟩
      rw [List.length_drop, List.length_drop] at hbody
      omega
  split at h
  · split at h
    · cases h
    · obtain ⟨⟨msw, r⟩, -, h⟩ := exists_of_bind_eq_ok h
      obtain ⟨⟨lsw, r⟩, -, h⟩ := exists_of_bind_eq_ok h
      obtain ⟨⟨delay, r⟩, -, h⟩ := exists_of_bind_eq_ok h
      cases h
      exact ⟨nofun, nofun⟩
  · cases h
    exact ⟨nofun, nofun⟩

/-! ### Sub-packets -/

/-- Was the sub-packet understood? -/
def RtcpPacket.isKnown : RtcpPacket → Bool
  | .unknown _ _ => false
  | _ => true

/-- Which parser a sub-packet comes from. -/
theorem RtcpPacket.isDecoding_cases {h : RtcpCommonHeader} {payload : Bytes} {pkt : RtcpPacket}
    (hdec : RtcpPacket.IsDecoding h payload pkt) :
    (∃ sr, pkt = .senderReport sr) ∨
    (∃ rr, ReceiverReport.parse payload h.count = .ok rr ∧ pkt = .receiverReport rr) ∨
    (∃ s, Sdes.parse payload = .ok s ∧ pkt = .sdes s) ∨
    (∃ n, NackPacket.parse payload h.count payload.length = .ok n ∧ pkt = .nack n) ∨
    (∃ a, RistApp.parse payload h.count = .ok a ∧ pkt = .app a) ∨
    pkt.isKnown = false := by
  have hunknown : ∀ {α : Type} {f : α → RtcpPacket} {body : Parse α},
      Decoded f h.packetType payload body pkt → (∃ a, body = .ok a ∧ pkt = f a) ∨
        pkt.isKnown = false := by
    rintro α f body (hread | ⟨e, -, rfl⟩)
    · exact Or.inl hread
    · exact Or.inr rfl
  unfold RtcpPacket.IsDecoding at hdec
  simp only at hdec
  split at hdec
  · rcases hunknown hdec with ⟨sr, -, rfl⟩ | hno
    · exact Or.inl ⟨sr, rfl⟩
    · simp [hno]
  split at hdec
  · rcases hunknown hdec with hrr | hno
    · exact Or.inr (Or.inl hrr)
    · simp [hno]
  split at hdec
  · rcases hunknown hdec with hs | hno
    · exact Or.inr (Or.inr (Or.inl hs))
    · simp [hno]
  split at hdec
  · rcases hunknown hdec with hn | hno
    · exact Or.inr (Or.inr (Or.inr (Or.inl hn)))
    · simp [hno]
  split at hdec
  · rcases hunknown hdec with ha | hno
    · exact Or.inr (Or.inr (Or.inr (Or.inr (Or.inl ha))))
    · simp [hno]
  · rw [hdec]
    simp [RtcpPacket.isKnown]

/-- **What was read of a frame fits its format**, a name apart. -/
theorem encodable_of_frame {f : Bytes} (hframe : WellFramed f) {h : RtcpCommonHeader}
    (hheader : RtcpCommonHeader.parse f = .ok h) {pkt : RtcpPacket}
    (hdec : RtcpPacket.IsDecoding h (f.drop 4) pkt) (hknown : pkt.isKnown = true) :
    pkt.Encodable ∨ ∃ s, pkt = .sdes s ∧ s.cnameBytes.length ≤ 1020 := by
  have hcount := count_lt_of_header hheader
  rw [UInt8.lt_iff_toNat_lt] at hcount
  have hsize : (f.drop 4).length + 4 ≤ 262144 := by
    have hlen := hframe.length
    have hhi := (f.getD 2 0).toNat_lt
    have hlo := (f.getD 3 0).toNat_lt
    unfold declared at hlen
    rw [List.length_drop]
    omega
  obtain ⟨sr, rfl⟩ | ⟨rr, hrr, rfl⟩ | ⟨s, hs, rfl⟩ | ⟨n, hn, rfl⟩ | ⟨a, ha, rfl⟩ | hno :=
    RtcpPacket.isDecoding_cases hdec
  · exact Or.inl trivial
  · obtain ⟨hlen, hfits⟩ := ReceiverReport.fits_of_parse hrr
    exact Or.inl ⟨hlen.trans_le (Nat.le_of_lt_succ hcount), hfits⟩
  · exact Or.inr ⟨s, rfl, Sdes.length_of_parse hs⟩
  · refine Or.inl ?_
    show n.entries.count ≤ 65533
    rw [NackPacket.count_of_parse hn]
    omega
  · refine Or.inl ?_
    cases a with
    | rttEchoRequest req => trivial
    | rttEchoResponse resp => trivial
    | rangeNack nack => exact (RistApp.bounds_of_parse ha).1 nack rfl
    | unknown subtype data => exact isForeign_of_frame hframe hheader hdec
  · rw [hno] at hknown
    cases hknown

/-- It is written as a frame in any case. -/
theorem wellFramed_of_sdes {s : Sdes} (hname : s.cnameBytes.length ≤ 1020) :
    WellFramed (RtcpPacket.sdes s).serialize := by
  have hwords := Sdes.padding_words s.cnameBytes.length
  have hpad := Sdes.padding_le s.cnameBytes.length
  have hlen := s.length_body
  rw [show (RtcpPacket.sdes s).serialize = s.serialize from rfl, Sdes.serialize_eq]
  exact wellFramed_framed (by decide) rtcpPtSdes (by omega) (by omega)

/-- A name that is read back from its frame is short. -/
theorem Sdes.short_of_isSubPacket {s : Sdes} (h : IsSubPacket s.serialize (.sdes s)) :
    s.cnameBytes.length ≤ 255 := by
  obtain ⟨header, hheader, hparse⟩ := h
  rw [Sdes.drop_serialize] at hparse
  rw [Sdes.serialize_eq, header_framed (by decide)] at hheader
  rw [← Except.ok.inj hheader, RtcpPacket.parse_sdes] at hparse
  by_contra hlong
  refine Sdes.parse_body_of_gt (Nat.lt_of_not_le hlong) ?_
  cases hbody : Sdes.parse s.body with
  | ok s' =>
      rw [hbody] at hparse
      cases hparse
      rfl
  | error e =>
      rw [hbody] at hparse
      cases e with
      | err e => cases hparse
      | panic => cases hparse

namespace RtcpCompound

/-- What was not understood is not written. -/
theorem serialize_known (c : List RtcpPacket) :
    serialize (c.filter RtcpPacket.isKnown) = serialize c := by
  induction c with
  | nil => rfl
  | cons pkt c ih =>
      cases hknown : pkt.isKnown with
      | true =>
          rw [List.filter_cons_of_pos hknown]
          exact congrArg (pkt.serialize ++ ·) ih
      | false =>
          rw [List.filter_cons_of_neg (by simp [hknown]), ih]
          cases pkt with
          | unknown packetType data => rfl
          | senderReport sr => cases hknown
          | receiverReport rr => cases hknown
          | sdes s => cases hknown
          | nack n => cases hknown
          | app a => cases hknown

/-- What a datagram is read as. -/
theorem bounds_of_parse {buf : Bytes} {c : List RtcpPacket} (hparse : parse buf = .ok c) :
    c.length ≤ maxRtcpSubPackets ∧ ∀ pkt ∈ c, pkt.isKnown = true →
      pkt.Encodable ∨ ∃ s, pkt = .sdes s ∧ s.cnameBytes.length ≤ 1020 := by
  obtain ⟨frames, rest, hwalk, ⟨-, pkts, hok, hcount, hall⟩ | ⟨-, herr⟩⟩ := exists_walk buf
  · obtain rfl := Except.ok.inj (hparse.symm.trans hok)
    refine ⟨hcount, ?_⟩
    intro pkt hpkt hknown
    obtain ⟨i, hi, hget⟩ := List.mem_iff_getElem.mp hpkt
    have hif : i < frames.length := hall.length_eq ▸ hi
    obtain ⟨h, hheader, hdec⟩ := hall.get hif hi
    rw [List.get_eq_getElem, List.get_eq_getElem, hget] at hdec
    exact encodable_of_frame (hwalk.frames _ (List.getElem_mem hif)) hheader hdec hknown
  · cases hparse.symm.trans herr

/-- **What was read is read again, exactly when its names are short.**  The sub-packets of
any datagram at all, written out and read back, are those that were understood. -/
theorem reencode_iff {buf : Bytes} {c : List RtcpPacket} (hparse : parse buf = .ok c) :
    parse (serialize c) = .ok (c.filter RtcpPacket.isKnown) ↔
      ∀ s, RtcpPacket.sdes s ∈ c → s.cnameBytes.length ≤ 255 := by
  obtain ⟨hcount, hread⟩ := bounds_of_parse hparse
  have hlen : ((c.filter RtcpPacket.isKnown).map RtcpPacket.serialize).length
      ≤ maxRtcpSubPackets := by
    rw [List.length_map]
    exact (List.length_filter_le _ _).trans hcount
  have hbytes : serialize c
      = ((c.filter RtcpPacket.isKnown).map RtcpPacket.serialize).flatten := by
    rw [← serialize_known, ← List.flatMap_def]
    rfl
  rw [hbytes]
  constructor
  · intro hback s hs
    have hframes : ∀ f ∈ (c.filter RtcpPacket.isKnown).map RtcpPacket.serialize, WellFramed f := by
      intro f hf
      obtain ⟨pkt, hpkt, rfl⟩ := List.mem_map.mp hf
      obtain ⟨hmem, hknown⟩ := List.mem_filter.mp hpkt
      rcases hread pkt hmem hknown with hfits | ⟨s, rfl, hname⟩
      · obtain ⟨_, _, _, hencodes⟩ := hfits.encodes
        exact hencodes.wellFramed
      · exact wellFramed_of_sdes hname
    have hall := forall₂_of_parse hframes hlen hback
    rw [List.forall₂_map_left_iff, List.forall₂_same] at hall
    exact Sdes.short_of_isSubPacket (hall _ (List.mem_filter.mpr ⟨hs, rfl⟩))
  · intro hshort
    have hfits : ∀ pkt ∈ c.filter RtcpPacket.isKnown, pkt.Encodable := by
      intro pkt hpkt
      obtain ⟨hmem, hknown⟩ := List.mem_filter.mp hpkt
      rcases hread pkt hmem hknown with hfits | ⟨s, rfl, -⟩
      · exact hfits
      · exact hshort s hmem
    obtain ⟨hframes, hpkts⟩ := forall₂_serialize hfits
    exact parse_flatten hframes hlen hpkts

/-- An extension report that is not understood, an empty receiver report, and a name of one
byte that is not UTF-8 and is written as three. -/
theorem reencode_iff_extension :
    parse (serialize [.unknown 207 [1, 2, 3, 4], .receiverReport ⟨7, []⟩, .sdes ⟨7, "\uFFFD"⟩])
      = .ok [.receiverReport ⟨7, []⟩, .sdes ⟨7, "\uFFFD"⟩] := by
  have hparse : parse [0x80, 207, 0, 1, 1, 2, 3, 4, 0x80, 201, 0, 1, 0, 0, 0, 7,
        0x81, 202, 0, 2, 0, 0, 0, 7, 1, 1, 0xFF, 0]
      = .ok [.unknown 207 [1, 2, 3, 4], .receiverReport ⟨7, []⟩, .sdes ⟨7, "\uFFFD"⟩] := by
    decide +kernel
  refine (reencode_iff hparse).mpr ?_
  intro s hs
  simp only [List.mem_cons, reduceCtorEq, List.not_mem_nil, or_false, false_or,
    RtcpPacket.sdes.injEq] at hs
  rw [hs]
  decide

end RtcpCompound

end Rist
