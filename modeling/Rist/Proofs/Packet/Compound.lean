/-
Where a compound datagram is cut, and what a tail can do to it.

The sub-packet loop walks the datagram by the lengths its headers declare.  `format`
states the walk as a framing of bytes, and `parseFrom_reads` that the loop is it: no
slice is out of range, and every frame gives its sub-packet.  What the library says
of cutting frames is then said of datagrams.

The walk refuses a header of another version, and with it the whole datagram.  That
is the one thing that a tail can do to the sub-packets before it.
-/
import Mathlib.Data.List.Forall2
import Rist.Lib.Frames
import Rist.Proofs.Packet.Safe

namespace Rist

open Frames

namespace RtcpCompound

/-- The version bits of a header. -/
def version (f : Bytes) : UInt8 := (f.headD 0 >>> 6) &&& 0x03

/-- The length in bytes that a header declares. -/
def declared (f : Bytes) : Nat := ((f.getD 2 0).toNat * 256 + (f.getD 3 0).toNat + 1) * 4

theorem version_append {f : Bytes} (h : 4 ≤ f.length) (t : Bytes) :
    version (f ++ t) = version f := by
  match f, h with
  | a :: b :: c :: d :: r, _ => rfl

theorem declared_append {f : Bytes} (h : 4 ≤ f.length) (t : Bytes) :
    declared (f ++ t) = declared f := by
  match f, h with
  | a :: b :: c :: d :: r, _ => rfl

/-- Sub-packets as frames. -/
def format : Format UInt8 RistError where
  head := 4
  size f := if version f = 2 then .ok (declared f) else .error (.invalidRtpVersion (version f))
  head_pos := by decide
  head_le := by
    intro buf n h
    split at h
    · rw [← Except.ok.inj h]
      unfold declared
      omega
    · cases h
  size_append := by
    intro buf t h
    rw [version_append h, declared_append h]

theorem size_eq_ok {f : Bytes} {n : Nat} :
    format.size f = .ok n ↔ version f = 2 ∧ declared f = n := by
  unfold format
  simp only
  split
  · rename_i hv
    rw [Except.ok.injEq]
    exact (and_iff_right hv).symm
  · rename_i hv
    exact ⟨nofun, fun h => absurd h.1 hv⟩

theorem size_eq_error {f : Bytes} {e : RistError} :
    format.size f = .error e ↔ version f ≠ 2 ∧ e = .invalidRtpVersion (version f) := by
  unfold format
  simp only
  split
  · rename_i hv
    exact ⟨nofun, fun h => absurd hv h.1⟩
  · rename_i hv
    rw [Except.error.injEq]
    exact ⟨fun h => ⟨hv, h.symm⟩, fun h => h.2.symm⟩

/-! ### Headers -/

theorem header_of_version {buf : Bytes} (hlen : 4 ≤ buf.length) (hv : version buf = 2) :
    ∃ h, RtcpCommonHeader.parse buf = .ok h ∧ h.packetSize = declared buf := by
  match buf, hlen with
  | a :: b :: c :: d :: r, _ =>
      have hv' : ¬(a >>> 6) &&& 0x03 ≠ 2 := fun hne => hne hv
      refine ⟨⟨(a >>> 6) &&& 0x03, decide ((a >>> 5) &&& 0x01 ≠ 0), a &&& 0x1F, b,
        UInt16.ofNat (c.toNat * 256 + d.toNat)⟩, ?_, ?_⟩
      · unfold RtcpCommonHeader.parse
        rw [if_neg (by simp)]
        simp only [getU8, getU16, bind, Except.bind]
        rw [if_neg hv']
      · have hc := c.toNat_lt
        have hd := d.toNat_lt
        show ((UInt16.ofNat (c.toNat * 256 + d.toNat)).toNat + 1) * 4 = _
        rw [UInt16.toNat_ofNat', Nat.mod_eq_of_lt (by omega)]
        rfl

theorem header_of_not_version {buf : Bytes} (hlen : 4 ≤ buf.length) (hv : version buf ≠ 2) :
    RtcpCommonHeader.parse buf = .error (.err (.invalidRtpVersion (version buf))) := by
  match buf, hlen with
  | a :: b :: c :: d :: r, _ =>
      have hv' : (a >>> 6) &&& 0x03 ≠ 2 := hv
      unfold RtcpCommonHeader.parse
      rw [if_neg (by simp)]
      simp only [getU8, bind, Except.bind]
      rw [if_pos hv']
      rfl

/-- Only the first four bytes count. -/
theorem header_append {f : Bytes} (h : 4 ≤ f.length) (t : Bytes) :
    RtcpCommonHeader.parse (f ++ t) = RtcpCommonHeader.parse f := by
  match f, h with
  | a :: b :: c :: d :: r, _ =>
      unfold RtcpCommonHeader.parse
      rw [if_neg (by simp), if_neg (by simp)]
      rfl

/-- The sub-packet of a frame. -/
def IsSubPacket (f : Bytes) (pkt : RtcpPacket) : Prop :=
  ∃ h, RtcpCommonHeader.parse f = .ok h ∧ RtcpPacket.parse h (f.drop 4) = .ok pkt

/-! ### The walk -/

/-- A result of the sub-packet loop, as the walk has it. -/
def Reads (walk : List Bytes × Stop RistError) (r : Parse (List RtcpPacket)) : Prop :=
  match walk.2 with
  | .bad e => r = .error (.err e)
  | _ => ∃ pkts, r = .ok pkts ∧ List.Forall₂ IsSubPacket walk.1 pkts

theorem Reads.cons {fs : List Bytes} {stop : Stop RistError} {r : Parse (List RtcpPacket)}
    (h : Reads (fs, stop) r) {f : Bytes} {pkt : RtcpPacket} (hf : IsSubPacket f pkt) :
    Reads (f :: fs, stop) (r >>= fun pkts => .ok (pkt :: pkts)) := by
  cases stop with
  | bad e =>
      simp only [Reads] at h ⊢
      rw [h]
      rfl
  | full =>
      obtain ⟨pkts, rfl, hpkts⟩ := h
      exact ⟨pkt :: pkts, rfl, hpkts.cons hf⟩
  | short =>
      obtain ⟨pkts, rfl, hpkts⟩ := h
      exact ⟨pkt :: pkts, rfl, hpkts.cons hf⟩
  | truncated =>
      obtain ⟨pkts, rfl, hpkts⟩ := h
      exact ⟨pkt :: pkts, rfl, hpkts.cons hf⟩

/-- **The sub-packet loop is the walk.** -/
theorem parseFrom_reads (buf : Bytes) : ∀ (n offset : Nat), offset ≤ buf.length →
    Reads (cut format n (buf.drop offset)) (parseFrom buf n offset) := by
  intro n
  induction n with
  | zero =>
      intro offset _
      exact ⟨[], rfl, List.Forall₂.nil⟩
  | succ n ih =>
      intro offset hoff
      have hrest : (buf.drop offset).length = buf.length - offset := List.length_drop
      rw [parseFrom]
      by_cases hshort : (buf.drop offset).length < 4
      · rw [if_neg (by omega), cut_short hshort]
        exact ⟨[], rfl, List.Forall₂.nil⟩
      have hhead : 4 ≤ (buf.drop offset).length := Nat.le_of_not_lt hshort
      rw [if_pos (by omega), sliceFrom_of_le hoff]
      show Reads _ (RtcpCommonHeader.parse (buf.drop offset) >>= _)
      by_cases hv : version (buf.drop offset) = 2
      · obtain ⟨h, hheader, hpacket⟩ := header_of_version hhead hv
        have hsize : format.size (buf.drop offset) = .ok h.packetSize :=
          size_eq_ok.mpr ⟨hv, hpacket.symm⟩
        rw [hheader]
        simp only [bind, Except.bind]
        by_cases hlong : (buf.drop offset).length < h.packetSize
        · rw [cut_truncated hhead hsize hlong, if_pos (by omega)]
          exact ⟨[], rfl, List.Forall₂.nil⟩
        have hfits : h.packetSize ≤ (buf.drop offset).length := Nat.le_of_not_lt hlong
        have hfour : 4 ≤ h.packetSize := format.head_le hsize
        rw [cut_take hhead hsize hfits, if_neg (by omega), slice_of_le (by omega) (by omega)]
        -- the payload is the frame without its header
        have hpayload : (buf.take (offset + h.packetSize)).drop (offset + 4)
            = ((buf.drop offset).take h.packetSize).drop 4 := by
          rw [← List.drop_drop, List.drop_take, Nat.add_sub_cancel_left]
        obtain ⟨pkt, hpkt, -⟩ := RtcpPacket.parse_decoding h
          (((buf.drop offset).take h.packetSize).drop 4)
        have hframe : IsSubPacket ((buf.drop offset).take h.packetSize) pkt := by
          refine ⟨h, ?_, hpkt⟩
          have hlen : 4 ≤ ((buf.drop offset).take h.packetSize).length := by
            rw [List.length_take_of_le hfits]
            exact hfour
          rw [← header_append hlen ((buf.drop offset).drop h.packetSize), List.take_append_drop]
          exact hheader
        have hnext := ih (offset + h.packetSize) (by omega)
        rw [← List.drop_drop] at hnext
        rw [hpayload]
        simp only [hpkt]
        exact hnext.cons hframe
      · rw [cut_bad hhead (size_eq_error.mpr ⟨hv, rfl⟩), header_of_not_version hhead hv]
        rfl

/-! ### Whole datagrams -/

/-- A sub-packet as long as its header says. -/
structure WellFramed (f : Bytes) : Prop where
  header : 4 ≤ f.length
  version : version f = 2
  length : f.length = declared f

theorem isFrame_iff {f : Bytes} : IsFrame format f ↔ WellFramed f := by
  constructor
  · intro h
    obtain ⟨hv, hlen⟩ := size_eq_ok.mp h.size
    exact ⟨h.head, hv, hlen.symm⟩
  · intro h
    exact ⟨h.header, size_eq_ok.mpr ⟨h.version, h.length.symm⟩⟩

/-- The datagram read as sub-packets one after another, with `rest` left over. -/
structure Walk (buf : Bytes) (frames : List Bytes) (rest : Bytes) : Prop where
  bytes : buf = frames.flatten ++ rest
  count : frames.length ≤ maxRtcpSubPackets
  frames : ∀ f ∈ frames, WellFramed f

/-- The walk ends: enough sub-packets, too few bytes for a header, or for what the
header declares. -/
def Stops (frames : List Bytes) (rest : Bytes) : Prop :=
  frames.length = maxRtcpSubPackets ∨ rest.length < 4 ∨
    (version rest = 2 ∧ rest.length < declared rest)

/-- The walk comes to a header of another version. -/
def Refuses (frames : List Bytes) (rest : Bytes) : Prop :=
  frames.length < maxRtcpSubPackets ∧ 4 ≤ rest.length ∧ version rest ≠ 2

theorem parse_reads (buf : Bytes) : Reads (cut format maxRtcpSubPackets buf) (parse buf) :=
  parseFrom_reads buf maxRtcpSubPackets 0 (Nat.zero_le _)

/-- The walk that the loop takes. -/
theorem cut_walk (buf : Bytes) :
    ∃ rest, Walk buf (cut format maxRtcpSubPackets buf).1 rest ∧
      match (cut format maxRtcpSubPackets buf).2 with
      | .bad e => Refuses (cut format maxRtcpSubPackets buf).1 rest ∧
          e = .invalidRtpVersion (version rest)
      | _ => Stops (cut format maxRtcpSubPackets buf).1 rest := by
  obtain ⟨rest, hbytes, hframes, hcount, hends⟩ := cut_spec format maxRtcpSubPackets buf
  refine ⟨rest, ⟨hbytes, hcount, fun f hf => isFrame_iff.mp (hframes f hf)⟩, ?_⟩
  generalize (cut format maxRtcpSubPackets buf).1 = frames at *
  generalize (cut format maxRtcpSubPackets buf).2 = stop at *
  cases stop with
  | full =>
      have hfull : maxRtcpSubPackets - frames.length = 0 := hends
      exact Or.inl (by omega)
  | short => exact Or.inr (Or.inl hends.2)
  | truncated =>
      obtain ⟨-, -, size, hsize, hlong⟩ := hends
      obtain ⟨hv, rfl⟩ := size_eq_ok.mp hsize
      exact Or.inr (Or.inr ⟨hv, hlong⟩)
  | bad e =>
      obtain ⟨hmore, hhead, hsize⟩ := hends
      obtain ⟨hv, he⟩ := size_eq_error.mp hsize
      exact ⟨⟨by omega, hhead, hv⟩, he⟩

/-- **A header of another version ends the whole datagram.** -/
theorem parse_of_refuses {buf : Bytes} {frames : List Bytes} {rest : Bytes}
    (hwalk : Walk buf frames rest) (h : Refuses frames rest) :
    parse buf = .error (.err (.invalidRtpVersion (version rest))) := by
  obtain ⟨hmore, hhead, hv⟩ := h
  obtain ⟨m, hm⟩ : ∃ m, maxRtcpSubPackets - frames.length = m + 1 :=
    ⟨maxRtcpSubPackets - frames.length - 1, by omega⟩
  have hreads := parse_reads buf
  rw [hwalk.bytes, cut_append (fun f hf => isFrame_iff.mpr (hwalk.frames f hf)) hwalk.count, hm,
    cut_bad hhead (size_eq_error.mpr ⟨hv, rfl⟩)] at hreads
  rw [hwalk.bytes]
  exact hreads

/-- What the loop returns at the end of a walk: the sub-packets of the frames, or the
error of the header it came to. -/
def Outcome (frames : List Bytes) (rest : Bytes) (r : Parse (List RtcpPacket)) : Prop :=
  (Stops frames rest ∧ ∃ pkts, r = .ok pkts ∧ pkts.length ≤ maxRtcpSubPackets ∧
    List.Forall₂ (fun f pkt => ∃ h, RtcpCommonHeader.parse f = .ok h ∧
      RtcpPacket.IsDecoding h (f.drop 4) pkt) frames pkts) ∨
  (Refuses frames rest ∧ r = .error (.err (.invalidRtpVersion (version rest))))

theorem exists_walk (buf : Bytes) :
    ∃ frames rest, Walk buf frames rest ∧ Outcome frames rest (parse buf) := by
  obtain ⟨rest, hwalk, hend⟩ := cut_walk buf
  have hreads := parse_reads buf
  refine ⟨(cut format maxRtcpSubPackets buf).1, rest, hwalk, ?_⟩
  unfold Reads at hreads
  split at hreads
  · rename_i e hstop
    rw [hstop] at hend
    obtain ⟨hrefuses, rfl⟩ := hend
    exact Or.inr ⟨hrefuses, hreads⟩
  · rename_i hstop
    obtain ⟨pkts, hpkts, hall⟩ := hreads
    have hstops : Stops (cut format maxRtcpSubPackets buf).1 rest := by
      split at hend
      · rename_i e hbad
        exact absurd hbad (hstop e)
      · exact hend
    refine Or.inl ⟨hstops, pkts, hpkts, hall.length_eq ▸ hwalk.count, ?_⟩
    refine hall.imp fun f pkt hf => ?_
    obtain ⟨h, hheader, hpkt⟩ := hf
    obtain ⟨pkt', hpkt', hdec⟩ := RtcpPacket.parse_decoding h (f.drop 4)
    rw [hpkt] at hpkt'
    exact ⟨h, hheader, Except.ok.inj hpkt' ▸ hdec⟩

/-- **Datagrams are cut exactly where their headers say.**  The sub-packets are what
the walk decodes, frame by frame; the walk ends only where it must; and the only error
is a header of another version on the way. -/
theorem parse_walk (buf : Bytes) :
    (∃ frames rest, Walk buf frames rest ∧ Outcome frames rest (parse buf)) ∧
    ((∃ e, parse buf = .error e) ↔
      ∃ frames rest, Walk buf frames rest ∧ Refuses frames rest) := by
  refine ⟨exists_walk buf, ?_, ?_⟩
  · intro ⟨e, herr⟩
    obtain ⟨frames, rest, hwalk, ⟨-, pkts, hok, -⟩ | ⟨hrefuses, -⟩⟩ := exists_walk buf
    · rw [herr] at hok
      cases hok
    · exact ⟨frames, rest, hwalk, hrefuses⟩
  · intro ⟨frames, rest, hwalk, hrefuses⟩
    exact ⟨_, parse_of_refuses hwalk hrefuses⟩

/-! ### Tails -/

/-- No header that the walk over `t` reaches, for at most `n` sub-packets, is of another
version. -/
def Tolerable (n : Nat) (t : Bytes) : Prop :=
  ∀ (frames : List Bytes) rest, t = frames.flatten ++ rest → (∀ f ∈ frames, WellFramed f) →
    frames.length < n → 4 ≤ rest.length → version rest = 2

theorem isSubPacket_rightUnique : Relator.RightUnique IsSubPacket := by
  intro f pkt pkt' ⟨h, hh, hpkt⟩ ⟨h', hh', hpkt'⟩
  rw [hh] at hh'
  rw [← Except.ok.inj hh', hpkt] at hpkt'
  exact Except.ok.inj hpkt'

/-- Sub-packets and nothing else parse to themselves. -/
theorem exists_parse_flatten {frames : List Bytes} (hframes : ∀ f ∈ frames, WellFramed f)
    (hcount : frames.length ≤ maxRtcpSubPackets) :
    ∃ c, parse frames.flatten = .ok c ∧ List.Forall₂ IsSubPacket frames c := by
  have hreads := parse_reads frames.flatten
  rw [cut_flatten (fun f hf => isFrame_iff.mpr (hframes f hf)) hcount] at hreads
  split at hreads
  · exact hreads
  · exact hreads

theorem forall₂_of_parse {frames : List Bytes} (hframes : ∀ f ∈ frames, WellFramed f)
    (hcount : frames.length ≤ maxRtcpSubPackets) {c : List RtcpPacket}
    (hc : parse frames.flatten = .ok c) : List.Forall₂ IsSubPacket frames c := by
  obtain ⟨c', hc', hall⟩ := exists_parse_flatten hframes hcount
  rw [hc] at hc'
  rw [Except.ok.inj hc']
  exact hall

theorem prefix_of_tolerable {frames : List Bytes} (hframes : ∀ f ∈ frames, WellFramed f)
    (hcount : frames.length ≤ maxRtcpSubPackets) {c : List RtcpPacket}
    (hc : parse frames.flatten = .ok c) {t : Bytes}
    (ht : Tolerable (maxRtcpSubPackets - frames.length) t) :
    ∃ c', parse (frames.flatten ++ t) = .ok c' ∧ c <+: c' := by
  have hreads := parse_reads (frames.flatten ++ t)
  unfold Reads at hreads
  rw [cut_append (fun f hf => isFrame_iff.mpr (hframes f hf)) hcount] at hreads
  obtain ⟨rest, hbytes, hmore, -, hends⟩ :=
    cut_spec format (maxRtcpSubPackets - frames.length) t
  split at hreads
  · rename_i e hstop
    simp only at hstop
    rw [hstop] at hends
    obtain ⟨hlt, hhead, hsize⟩ := hends
    have hv := ht _ rest hbytes (fun f hf => isFrame_iff.mp (hmore f hf)) (by omega) hhead
    exact absurd hv (size_eq_error.mp hsize).1
  · obtain ⟨pkts, hpkts, hall⟩ := hreads
    have hfront := List.forall₂_take frames.length hall
    rw [List.take_left] at hfront
    have hc' : pkts.take frames.length = c :=
      List.right_unique_forall₂' isSubPacket_rightUnique hfront (forall₂_of_parse hframes hcount hc)
    exact ⟨pkts, hpkts, hc' ▸ List.take_prefix _ _⟩

/-- **What a tail can do.**  The sub-packets before it survive exactly when the walk
meets no header of another version in it. -/
theorem parse_append_iff {frames : List Bytes} (hframes : ∀ f ∈ frames, WellFramed f)
    (hcount : frames.length ≤ maxRtcpSubPackets) {c : List RtcpPacket}
    (hc : parse frames.flatten = .ok c) (t : Bytes) :
    (∃ c', parse (frames.flatten ++ t) = .ok c' ∧ c <+: c') ↔
      Tolerable (maxRtcpSubPackets - frames.length) t := by
  constructor
  · intro ⟨c', hc', _⟩ more rest ht hmore hlt hhead
    by_contra hv
    have hwalk : Walk (frames.flatten ++ t) (frames ++ more) rest := by
      refine ⟨?_, ?_, ?_⟩
      · rw [ht, List.flatten_append, List.append_assoc]
      · rw [List.length_append]
        omega
      · intro f hf
        exact (List.mem_append.mp hf).elim (hframes f) (hmore f)
    have hrefuses : Refuses (frames ++ more) rest := by
      refine ⟨?_, hhead, hv⟩
      rw [List.length_append]
      omega
    rw [parse_of_refuses hwalk hrefuses] at hc'
    cases hc'
  · exact prefix_of_tolerable hframes hcount hc

/-- A request for packet 7, as one sub-packet. -/
def request7 : Bytes := [0x81, 205, 0, 3, 0, 0, 0, 1, 0, 0, 0, 2, 0, 7, 0, 0]

theorem request7_wellFramed : ∀ f ∈ [request7], WellFramed f := by
  intro f hf
  rw [List.mem_singleton.mp hf]
  exact ⟨by decide, by decide, by decide⟩

/-- A cut-off report behind the request leaves it there. -/
theorem parse_append_iff_truncated :
    parse [request7].flatten = .ok [.nack ⟨1, 2, .bitmask [⟨7, 0⟩]⟩] ∧
      Tolerable 63 [0x80, 201, 0, 1] :=
  ⟨rfl, (parse_append_iff request7_wellFramed (by decide) rfl [0x80, 201, 0, 1]).mp
    ⟨_, rfl, List.prefix_refl _⟩⟩

/-- Four zero bytes behind the request, and the request is gone. -/
theorem tail_discards_request :
    (∀ f ∈ [request7], WellFramed f) ∧
    parse [request7].flatten = .ok [.nack ⟨1, 2, .bitmask [⟨7, 0⟩]⟩] ∧
    ¬∃ c', parse ([request7].flatten ++ [0, 0, 0, 0]) = .ok c' ∧
      [RtcpPacket.nack ⟨1, 2, .bitmask [⟨7, 0⟩]⟩] <+: c' := by
  refine ⟨request7_wellFramed, rfl, ?_⟩
  intro ⟨c', hc', _⟩
  have herr : parse ([request7].flatten ++ [0, 0, 0, 0]) = .error (.err (.invalidRtpVersion 0)) :=
    rfl
  rw [herr] at hc'
  cases hc'

end RtcpCompound

end Rist
