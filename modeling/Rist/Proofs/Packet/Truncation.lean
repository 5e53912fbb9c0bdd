/-
A datagram of which only the front is read.

Both loops read at most 2048 bytes of a datagram, and the network may have cut it before.
The sub-packets that are wholly there are read as they were sent, and the one that is
broken ends the walk without an error: what arrives of a compound is a front of it, and
the longest one that fits.
-/
import Rist.Proofs.Packet.RoundTrip

namespace Rist

open Frames

namespace RtcpCompound

/-- The first `k` sub-packets are those wholly within `n` bytes, 64 at most. -/
structure WhollyIn (c : List RtcpPacket) (n k : Nat) : Prop where
  le : k ≤ c.length
  count : k ≤ maxRtcpSubPackets
  fits : (serialize (c.take k)).length ≤ n
  most : k < maxRtcpSubPackets → k < c.length → n < (serialize (c.take (k + 1))).length

theorem flatten_take_serialize (c : List RtcpPacket) (k : Nat) :
    ((c.map RtcpPacket.serialize).take k).flatten = serialize (c.take k) := by
  rw [← List.map_take, ← List.flatMap_def]
  rfl

theorem whollyIn_of_whole {c : List RtcpPacket} {n k : Nat}
    (h : Whole (c.map RtcpPacket.serialize) maxRtcpSubPackets n k) : WhollyIn c n k := by
  have hlen : (c.map RtcpPacket.serialize).length = c.length := List.length_map _
  have hfits := h.fits
  have hmost := h.most
  rw [flatten_take_serialize] at hfits hmost
  exact ⟨hlen ▸ h.le, h.count, hfits, fun hk hc => hmost hk (hlen.symm ▸ hc)⟩

/-- A walk that meets no bad header reads what it cuts off. -/
theorem parse_of_cut {buf : Bytes} {frames : List Bytes} {pkts : List RtcpPacket}
    (hcut : (cut format maxRtcpSubPackets buf).1 = frames)
    (hstop : ∀ e, (cut format maxRtcpSubPackets buf).2 ≠ .bad e)
    (hpkts : List.Forall₂ IsSubPacket frames pkts) : parse buf = .ok pkts := by
  have hreads := parse_reads buf
  unfold Reads at hreads
  cases h : (cut format maxRtcpSubPackets buf).2 with
  | bad e => exact absurd h (hstop e)
  | full | short | truncated =>
      rw [h] at hreads
      obtain ⟨pkts', hparse, hall⟩ := hreads
      rw [hcut] at hall
      rw [hparse, List.right_unique_forall₂' isSubPacket_rightUnique hall hpkts]

/-- What a reader of `n` bytes makes of a compound. -/
theorem exists_parse_take {c : List RtcpPacket} (hfits : ∀ pkt ∈ c, pkt.Encodable) (n : Nat) :
    ∃ k, WhollyIn c n k ∧ parse ((serialize c).take n) = .ok (c.take k) := by
  obtain ⟨hframes, hpkts⟩ := forall₂_serialize hfits
  have hbytes : serialize c = (c.map RtcpPacket.serialize).flatten := List.flatMap_def
  obtain ⟨k, hwhole, hcut, hstop⟩ := cut_take_flatten (F := format)
    (fun f hf => isFrame_iff.mpr (hframes f hf)) maxRtcpSubPackets n
  rw [← hbytes] at hcut hstop
  exact ⟨k, whollyIn_of_whole hwhole, parse_of_cut hcut hstop (List.forall₂_take k hpkts)⟩

/-- The first sub-packet is read when there is room for it. -/
theorem exists_parse_take_cons {pkt : RtcpPacket} {c : List RtcpPacket}
    (hfits : ∀ q ∈ pkt :: c, q.Encodable) {n : Nat} (hroom : pkt.serialize.length ≤ n) :
    ∃ rest, parse ((serialize (pkt :: c)).take n) = .ok (pkt :: rest) := by
  obtain ⟨k, hk, hparse⟩ := exists_parse_take hfits n
  cases k with
  | succ k => exact ⟨c.take k, hparse⟩
  | zero =>
      have hlong : n < (serialize [pkt]).length := hk.most (by decide) (Nat.succ_pos _)
      simp only [serialize, List.flatMap_cons, List.flatMap_nil, List.append_nil] at hlong
      omega

/-- The front that is wholly there is one and the same. -/
theorem WhollyIn.unique {c : List RtcpPacket} {n k k' : Nat} (h : WhollyIn c n k)
    (h' : WhollyIn c n k') : k = k' := by
  have hmono : ∀ {i j : Nat}, i ≤ j →
      (serialize (c.take i)).length ≤ (serialize (c.take j)).length := by
    intro i j hij
    obtain ⟨t, ht⟩ := List.take_prefix_take_left (l := c) hij
    rw [← ht]
    simp [serialize]
  have hnot : ∀ {i j : Nat}, WhollyIn c n i → WhollyIn c n j → ¬i < j := by
    intro i j hi hj hlt
    have hlong := hi.most (hlt.trans_le hj.count) (hlt.trans_le hj.le)
    have hshort := (hmono (show i + 1 ≤ j from hlt)).trans hj.fits
    omega
  exact Nat.le_antisymm (Nat.le_of_not_lt (hnot h' h)) (Nat.le_of_not_lt (hnot h h'))

/-- **A datagram that is cut anywhere reads as the sub-packets wholly there**, unchanged
and in order, for a compound of any length.  What is broken off is no error. -/
theorem parse_take_iff {c : List RtcpPacket} (hfits : ∀ pkt ∈ c, pkt.Encodable) (n : Nat)
    (read : List RtcpPacket) :
    parse ((serialize c).take n) = .ok read ↔ ∃ k, WhollyIn c n k ∧ read = c.take k := by
  obtain ⟨k, hk, hparse⟩ := exists_parse_take hfits n
  rw [hparse]
  constructor
  · intro h
    exact ⟨k, hk, (Except.ok.inj h).symm⟩
  · rintro ⟨k', hk', rfl⟩
    rw [hk.unique hk']

/-- A report of 8 bytes and a request of 20, of which 27 bytes are read. -/
theorem parse_take_iff_broken_request :
    parse ((serialize [.receiverReport (ReceiverReport.empty 1),
        .nack ⟨1, 2, .bitmask [⟨5, 0⟩, ⟨90, 3⟩]⟩]).take 27)
      = .ok [.receiverReport (ReceiverReport.empty 1)] := by
  refine (parse_take_iff ?_ 27 _).mpr ⟨1, ⟨by decide, by decide, by decide, by decide⟩, rfl⟩
  intro pkt hpkt
  simp only [List.mem_cons, List.not_mem_nil, or_false] at hpkt
  obtain rfl | rfl := hpkt
  · exact ⟨by decide, nofun⟩
  · show 2 ≤ 65533
    decide

end RtcpCompound

end Rist
